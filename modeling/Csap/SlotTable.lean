import Mathlib.Data.List.Perm.Subperm
import Mathlib.Data.Multiset.Filter

/-! Fixed arrays whose slots are recycled: the first `count` slots have been
used, a used slot may be free again, and a new value takes the first free one
before the table grows. The values in use form a bag, and the operations below
act on that bag. -/

structure SlotTable (α : Type) (capacity : Nat) where
  entries : List α
  count : Nat
  length_entries : entries.length = capacity
  count_le : count ≤ capacity

namespace SlotTable

variable {α : Type} {capacity : Nat}

def zeroed (zero : α) (capacity : Nat) : SlotTable α capacity where
  entries := List.replicate capacity zero
  count := 0
  length_entries := List.length_replicate
  count_le := Nat.zero_le _

/-- The slots below `count`, the only ones the operations look at. -/
def live (t : SlotTable α capacity) : List α := t.entries.take t.count

@[simp] theorem length_live (t : SlotTable α capacity) : t.live.length = t.count := by
  simp [live, t.length_entries, t.count_le]

@[simp] theorem live_zeroed (zero : α) : (zeroed zero capacity).live = [] := rfl

def put (t : SlotTable α capacity) (i : Nat) (x : α) : SlotTable α capacity where
  entries := t.entries.set i x
  count := t.count
  length_entries := by simp [t.length_entries]
  count_le := t.count_le

@[simp] theorem live_put (t : SlotTable α capacity) (i : Nat) (x : α) :
    (t.put i x).live = t.live.set i x := by
  simp [live, put, List.take_set]

/-- Use one more slot; its old contents were never looked at. -/
def grow (t : SlotTable α capacity) (h : t.count < capacity) (x : α) :
    SlotTable α capacity where
  entries := t.entries.set t.count x
  count := t.count + 1
  length_entries := by simp [t.length_entries]
  count_le := h

@[simp] theorem live_grow (t : SlotTable α capacity) (h : t.count < capacity) (x : α) :
    (t.grow h x).live = t.live ++ [x] := by
  have bound : t.count < t.entries.length := by rw [t.length_entries]; exact h
  simp [live, grow, List.take_add_one, List.take_set, bound,
    List.set_eq_of_length_le]

/-- Overwrite the used slots one by one. -/
def mapLive (t : SlotTable α capacity) (f : α → α) : SlotTable α capacity where
  entries := t.live.map f ++ t.entries.drop t.count
  count := t.count
  length_entries := by simp [t.length_entries, t.count_le]
  count_le := t.count_le

@[simp] theorem live_mapLive (t : SlotTable α capacity) (f : α → α) :
    (t.mapLive f).live = t.live.map f := by
  simp [live, mapLive, t.length_entries, t.count_le]

/-- The bag of values in use. -/
def inUse (free : α → Bool) (t : SlotTable α capacity) : List α :=
  t.live.filter fun x => !free x

/-- The first entry of a list that satisfies `p`, with its index. -/
def scan (p : α → Bool) : List α → Option (Nat × α)
  | [] => none
  | a :: rest => if p a then some (0, a) else (scan p rest).map fun found => (found.1 + 1, found.2)

theorem scan_eq_none {p : α → Bool} {l : List α} :
    scan p l = none ↔ ∀ a ∈ l, p a = false := by
  induction l with
  | nil => simp [scan]
  | cons a rest ih => by_cases h : p a <;> simp [scan, h, ih]

theorem scan_eq_some {p : α → Bool} {l : List α} {i : Nat} {a : α}
    (h : scan p l = some (i, a)) :
    ∃ before after, l = before ++ a :: after ∧ before.length = i ∧ p a = true ∧
      ∀ b ∈ before, p b = false := by
  induction l generalizing i with
  | nil => simp [scan] at h
  | cons b rest ih =>
    by_cases hb : p b
    · simp only [scan, hb, if_true, Option.some.injEq, Prod.mk.injEq] at h
      obtain ⟨rfl, rfl⟩ := h
      exact ⟨[], rest, rfl, rfl, hb, by simp⟩
    · simp only [scan, hb, Bool.false_eq_true, if_false, Option.map_eq_some_iff, Prod.mk.injEq,
        Prod.exists] at h
      obtain ⟨j, c, found, rfl, rfl⟩ := h
      obtain ⟨before, after, rfl, rfl, hc, none⟩ := ih found
      exact ⟨b :: before, after, rfl, rfl, hc, by simpa [hb] using none⟩

theorem scan_append {p : α → Bool} {before after : List α} (h : ∀ b ∈ before, p b = false) :
    scan p (before ++ after) =
      (scan p after).map fun found => (found.1 + before.length, found.2) := by
  induction before with
  | nil => simp
  | cons b before ih =>
    have hb := h b List.mem_cons_self
    rw [List.cons_append, scan, if_neg (by simp [hb]),
      ih fun x hx => h x (List.mem_cons_of_mem _ hx), Option.map_map]
    rfl

def first (p : α → Bool) (t : SlotTable α capacity) : Option (Nat × α) := scan p t.live

theorem first_eq_none {p : α → Bool} {t : SlotTable α capacity} :
    t.first p = none ↔ ∀ a ∈ t.live, p a = false :=
  scan_eq_none

theorem first_eq_some {p : α → Bool} {t : SlotTable α capacity} {i : Nat} {a : α}
    (h : t.first p = some (i, a)) :
    ∃ before after, t.live = before ++ a :: after ∧ p a = true ∧
      (∀ b ∈ before, p b = false) ∧ ∀ x, (t.put i x).live = before ++ x :: after := by
  obtain ⟨before, after, split, rfl, ha, none⟩ := scan_eq_some h
  refine ⟨before, after, split, ha, none, fun x => ?_⟩
  rw [live_put, split, List.set_append_right _ _ (le_refl _)]
  simp

theorem first_put {p : α → Bool} {t : SlotTable α capacity} {i : Nat} {a x : α}
    (h : t.first p = some (i, a)) (hx : p x = true) : (t.put i x).first p = some (i, x) := by
  obtain ⟨before, after, split, rfl, -, none⟩ := scan_eq_some h
  have live : (t.put before.length x).live = before ++ x :: after := by
    rw [live_put, split, List.set_append_right _ _ (le_refl _)]
    simp
  rw [first, live, scan_append none, scan, if_pos hx]
  simp

/-- Put `x` in the first free slot, else in the next unused one. -/
def store (free : α → Bool) (x : α) (t : SlotTable α capacity) :
    Option (SlotTable α capacity) :=
  match t.first free with
  | some (i, _) => some (t.put i x)
  | none => if h : t.count < capacity then some (t.grow h x) else none

theorem store_eq_some {free : α → Bool} {x : α} {t t' : SlotTable α capacity}
    (h : t.store free x = some t') :
    (∃ before a after, t.live = before ++ a :: after ∧ free a = true ∧
      t'.live = before ++ x :: after) ∨
    ((∀ a ∈ t.live, free a = false) ∧ t'.live = t.live ++ [x]) := by
  unfold store at h
  split at h
  · rename_i i a found
    obtain ⟨before, after, split, ha, -, put⟩ := first_eq_some found
    simp only [Option.some.injEq] at h
    subst h
    exact .inl ⟨before, a, after, split, ha, put x⟩
  · rename_i full
    split at h
    · simp only [Option.some.injEq] at h
      subst h
      exact .inr ⟨first_eq_none.mp full, live_grow ..⟩
    · cases h

theorem store_eq_none {free : α → Bool} {x : α} {t : SlotTable α capacity} :
    t.store free x = none ↔ (t.inUse free).length = capacity := by
  have count_le := t.count_le
  unfold store
  split
  · rename_i i a found
    obtain ⟨before, after, split, ha, -, -⟩ := first_eq_some found
    have slots : t.live.length = t.count := length_live t
    have fewer : (t.inUse free).length < t.live.length := by
      have hb := List.length_filter_le (fun x => !free x) before
      have hc := List.length_filter_le (fun x => !free x) after
      simp only [inUse, split, List.filter_append, List.filter_cons, ha, Bool.not_true,
        Bool.false_eq_true, if_false, List.length_append, List.length_cons]
      omega
    simp only [reduceCtorEq, false_iff]
    omega
  · rename_i full
    have all : t.inUse free = t.live :=
      List.filter_eq_self.mpr fun a ha => by simp [first_eq_none.mp full a ha]
    rw [all, length_live]
    split <;> simp <;> omega

theorem inUse_store {free : α → Bool} {x : α} {t t' : SlotTable α capacity}
    (h : t.store free x = some t') (hx : free x = false) :
    (t'.inUse free).Perm (x :: t.inUse free) := by
  rcases store_eq_some h with ⟨before, a, after, split, ha, split'⟩ | ⟨-, split'⟩
  · simp only [inUse, split, split', List.filter_append, List.filter_cons, ha, hx,
      Bool.not_false, Bool.not_true, if_true, Bool.false_eq_true, if_false]
    exact List.perm_middle
  · simp only [inUse, split', List.filter_append, List.filter_cons, hx, Bool.not_false, if_true,
      List.filter_nil]
    exact List.perm_append_singleton x _

/-- The slot that `store` uses. -/
def freeSlot (free : α → Bool) (t : SlotTable α capacity) : Option Nat :=
  match t.first free with
  | some (i, _) => some i
  | none => if t.count < capacity then some t.count else none

theorem first_lt {p : α → Bool} {t : SlotTable α capacity} {i : Nat} {a : α}
    (h : t.first p = some (i, a)) : t.live[i]? = some a := by
  obtain ⟨before, after, split, rfl, -, -⟩ := scan_eq_some h
  simp [split]

theorem freeSlot_of_store_none {free : α → Bool} {x : α} {t : SlotTable α capacity}
    (h : t.store free x = none) : t.freeSlot free = none := by
  unfold store at h
  unfold freeSlot
  split at h
  · cases h
  · split at h
    · cases h
    · rename_i full
      rw [if_neg full]

/-- A stored value is found in its slot, and the other slots keep what they held. -/
theorem getElem?_store {free : α → Bool} {x : α} {t t' : SlotTable α capacity}
    (h : t.store free x = some t') :
    ∃ i, t.freeSlot free = some i ∧ t'.live[i]? = some x ∧
      ∀ j, j ≠ i → t'.live[j]? = t.live[j]? := by
  unfold store at h
  unfold freeSlot
  split at h
  · rename_i i a found
    cases h
    have used : i < t.live.length := (List.getElem?_eq_some_iff.mp (first_lt found)).1
    refine ⟨i, rfl, ?_, fun j other => ?_⟩
    · rw [live_put, List.getElem?_set_self used]
    · rw [live_put, List.getElem?_set_ne (Ne.symm other)]
  · split at h
    · rename_i room
      cases h
      refine ⟨t.count, if_pos room, ?_, fun j other => ?_⟩
      · rw [live_grow, ← length_live t, List.getElem?_concat_length]
      · rw [live_grow]
        by_cases old : j < t.count
        · rw [List.getElem?_append_left (by rwa [length_live])]
        · have beyond : t.count < j := by omega
          rw [List.getElem?_eq_none (by simp; omega), List.getElem?_eq_none (by simp; omega)]
    · cases h

end SlotTable
