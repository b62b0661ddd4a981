import Csap.SlotTable

/-! Slots of a table, one after the other, as loops over them go. -/

namespace SlotTable

variable {α : Type} {capacity : Nat} {t : SlotTable α capacity} {f : α → α} {p : α → Bool} {i : Nat}
  {a : α}

theorem eq_of {t t' : SlotTable α capacity} (entries : t.entries = t'.entries)
    (count : t.count = t'.count) : t = t' := by
  cases t
  cases t'
  cases entries
  cases count
  rfl

def resize (n : Nat) (t : SlotTable α capacity) : SlotTable α capacity :=
  if h : n ≤ capacity then { t with count := n, count_le := h } else t

theorem entries_of_live (h : t.live[i]? = some a) : t.entries[i]? = some a := by
  unfold live at h
  rw [List.getElem?_take] at h
  split_ifs at h
  exact h

theorem getD_entries {d : α} (h : t.live[i]? = some a) : t.entries.getD i d = a := by
  rw [List.getD_eq_getElem?_getD, entries_of_live h]
  rfl

theorem lt_count (h : t.live[i]? = some a) : i < t.count := by
  obtain ⟨bound, -⟩ := List.getElem?_eq_some_iff.mp h
  rwa [length_live] at bound

theorem length_before (h : t.live[i]? = some a) : ((t.entries.take i).map f).length = i := by
  have bound := (lt_count h).trans_le t.count_le
  rw [List.length_map, List.length_take, t.length_entries, Nat.min_eq_left bound.le]

theorem exists_live (h : i < t.count) : ∃ a, t.live[i]? = some a := by
  rw [← length_live t] at h
  exact ⟨_, List.getElem?_eq_getElem h⟩

theorem getD_put {x d : α} (h : t.live[i]? = some a) : (t.put i x).entries.getD i d = x := by
  obtain ⟨bound, -⟩ := List.getElem?_eq_some_iff.mp (entries_of_live h)
  rw [List.getD_eq_getElem?_getD]
  change ((t.entries.set i x)[i]?).getD d = x
  rw [List.getElem?_set_self bound]
  rfl

theorem take_succ (h : t.live[i]? = some a) : t.live.take (i + 1) = t.live.take i ++ [a] := by
  rw [List.take_add_one, h]
  rfl

theorem first_of_take (before : ∀ b ∈ t.live.take i, p b = false) (here : t.live[i]? = some a)
    (holds : p a = true) : t.first p = some (i, a) := by
  obtain ⟨bound, same⟩ := List.getElem?_eq_some_iff.mp here
  have split : t.live = t.live.take i ++ a :: t.live.drop (i + 1) := by
    rw [← same, List.getElem_cons_drop, List.take_append_drop]
  rw [first, split, scan_append before, scan, if_pos holds, Option.map_some, List.length_take,
    Nat.min_eq_left bound.le, Nat.zero_add]

/-- The first `i` entries overwritten. -/
def mapTo (f : α → α) (i : Nat) (t : SlotTable α capacity) : SlotTable α capacity where
  entries := (t.entries.take i).map f ++ t.entries.drop i
  count := t.count
  length_entries := by
    rw [List.length_append, List.length_map, ← List.length_append, List.take_append_drop,
      t.length_entries]
  count_le := t.count_le

theorem mapTo_zero : t.mapTo f 0 = t := eq_of rfl rfl

theorem mapLive_congr {g : α → α} (h : ∀ a ∈ t.live, f a = g a) : t.mapLive f = t.mapLive g :=
  eq_of (congrArg (· ++ t.entries.drop t.count) (List.map_congr_left h)) rfl

theorem mapTo_count : t.mapTo f t.count = t.mapLive f := eq_of rfl rfl

theorem live_mapTo (h : t.live[i]? = some a) : (t.mapTo f i).live[i]? = some a := by
  have here : ((t.entries.take i).map f ++ t.entries.drop i)[i]? = some a := by
    rw [List.getElem?_append_right (length_before h).le, length_before h, Nat.sub_self,
      List.getElem?_drop, Nat.add_zero]
    exact entries_of_live h
  change (((t.entries.take i).map f ++ t.entries.drop i).take t.count)[i]? = some a
  rw [List.getElem?_take_of_lt (lt_count h)]
  exact here

theorem put_mapTo (h : t.live[i]? = some a) : (t.mapTo f i).put i (f a) = t.mapTo f (i + 1) := by
  have here := entries_of_live h
  obtain ⟨bound, same⟩ := List.getElem?_eq_some_iff.mp here
  have rest : t.entries.drop i = a :: t.entries.drop (i + 1) := by
    rw [← same, List.getElem_cons_drop]
  apply eq_of
  · change ((t.entries.take i).map f ++ t.entries.drop i).set i (f a) =
      (t.entries.take (i + 1)).map f ++ t.entries.drop (i + 1)
    rw [List.set_append_right _ _ (length_before h).le, length_before h, Nat.sub_self, rest,
      List.set_cons_zero, List.take_add_one, here, List.map_append, List.append_assoc]
    rfl
  · rfl

theorem put_self (h : t.live[i]? = some a) : t.put i a = t := by
  obtain ⟨bound, same⟩ := List.getElem?_eq_some_iff.mp (entries_of_live h)
  apply eq_of
  · change t.entries.set i a = t.entries
    rw [← same, List.set_getElem_self]
  · rfl

theorem put_put {x y : α} : (t.put i x).put i y = t.put i y := by
  apply eq_of
  · exact List.set_set ..
  · rfl

section store

variable {free : α → Bool} {x : α}

theorem store_reuse (found : t.first free = some (i, a)) : t.store free x = some (t.put i x) := by
  unfold store
  rw [found]

theorem store_grow (full : t.first free = none) (room : t.count < capacity) :
    t.store free x = some (t.grow room x) := by
  unfold store
  rw [full]
  exact dif_pos room

theorem store_refuse (full : t.first free = none) (used : ¬ t.count < capacity) :
    t.store free x = none := by
  unfold store
  rw [full]
  exact dif_neg used

theorem resize_put (room : t.count < capacity) : (t.put t.count x).resize (t.count + 1) = t.grow room x := by
  unfold resize
  rw [dif_pos (Nat.succ_le_of_lt room)]
  rfl

theorem put_resize (room : t.count < capacity) : (t.resize (t.count + 1)).put t.count x = t.grow room x := by
  unfold resize
  rw [dif_pos (Nat.succ_le_of_lt room)]
  rfl

end store

end SlotTable
