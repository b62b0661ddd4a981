import Csap.Heap
import Csap.Utils

/-! `strbuf_t` of `utils.c` as it lies in memory, with its lengths as `size_t`:
what `sb_append` leaves there, and that the listing's string buffer is it. -/

namespace Csap.StringBuffer

open Prog (iterate wp Ends)

abbrev Heaped := Prog HeapCall.Reply

/-- `data` is the name of a block, or NULL. -/
structure Strbuf where
  data : Option Nat := none
  len : UInt64 := 0
  cap : UInt64 := 0
deriving DecidableEq, Repr

/-- `false` where the function returns `-ENOMEM`. -/
def sbInit : Heaped (Bool × Strbuf) := do
  match ← heapCall (.malloc 1024) with
  | some data =>
    heapCall (.store data 0 [0])
    return (true, { data := some data, len := 0, cap := 1024 })
  | none => return (false, { data := none, len := 0, cap := 1024 })

/-- The loop `while (need > new_cap) new_cap *= 2;` for so many rounds, `none` if it goes on.
A capacity that was doubled 64 times is 0. -/
def doubled (need : UInt64) : (rounds : Nat) → UInt64 → Option UInt64
  | 0, newCap => if newCap < need then none else some newCap
  | rounds + 1, newCap => if newCap < need then doubled need rounds (newCap * 2) else some newCap

def startingCap (cap : UInt64) : UInt64 := if 0 < cap then cap * 2 else 1024

/-- The end of `sb_append`, where there is room. -/
def sbCopy (sb : Strbuf) (data : Nat) (s : List UInt8) : Heaped (Bool × Strbuf) := do
  heapCall (.store data sb.len.toNat s)
  let len := sb.len + UInt64.ofNat s.length
  heapCall (.store data len.toNat [0])
  return (true, { sb with data := some data, len })

/-- `sb_append` with a buffer that is allocated. -/
def sbGrow (sb : Strbuf) (data : Nat) (s : List UInt8) : Heaped (Bool × Strbuf) := do
  let need := sb.len + UInt64.ofNat s.length + 1
  if sb.cap < need then
    match doubled need 64 (startingCap sb.cap) with
    | none => iterate () fun _ => return (.inl () : Unit ⊕ (Bool × Strbuf))
    | some newCap =>
      match ← heapCall (.realloc data newCap.toNat) with
      | none => return (false, sb)
      | some newData => sbCopy { sb with data := some newData, cap := newCap } newData s
  else sbCopy sb data s

/-- `false` where the function returns -1. -/
def sbAppend (sb : Strbuf) (s : List UInt8) : Heaped (Bool × Strbuf) := do
  match sb.data with
  | some data => sbGrow sb data s
  | none =>
    let (_, sb) ← sbInit
    match sb.data with
    | none => return (false, sb)
    | some data => sbGrow sb data s

/-- The buffer holds this content, followed by NUL, in a block of its capacity. -/
structure Allocated (h : Heap) (sb : Strbuf) (data : Nat) (content : List UInt8) : Prop where
  data_eq : sb.data = some data
  len_eq : sb.len.toNat = content.length
  room : content.length + 1 ≤ sb.cap.toNat
  block : ∃ block, h data = .live block ∧ block.length = sb.cap.toNat ∧
    block.Begins (content ++ [0])

/-- Before it is allocated, a buffer is empty and of no capacity or the initial one. -/
structure Unallocated (sb : Strbuf) : Prop where
  data_eq : sb.data = none
  len_eq : sb.len = 0
  cap_eq : sb.cap = 0 ∨ sb.cap = 1024

/-- The buffer represents the content. -/
inductive Holds (h : Heap) (sb : Strbuf) (content : List UInt8) : Prop
  | allocated (data : Nat) : Allocated h sb data content → Holds h sb content
  | unallocated : Unallocated sb → content = [] → Holds h sb content

/-- The blocks of other names are as they were, but for new ones. -/
def Frame (h h' : Heap) (data : Option Nat) : Prop :=
  ∀ q, h.isFresh q = false → data ≠ some q → h' q = h q

section arithmetic

variable {a b : UInt64} {n : Nat}

theorem toNat_add (small : a.toNat + n < 2 ^ 64) : (a + UInt64.ofNat n).toNat = a.toNat + n := by
  rw [UInt64.toNat_add, UInt64.toNat_ofNat', Nat.mod_eq_of_lt (a := n) (by omega)]
  exact Nat.mod_eq_of_lt small

theorem toNat_double (small : a.toNat < 2 ^ 63) : (a * 2).toNat = a.toNat * 2 := by
  rw [UInt64.toNat_mul]
  exact Nat.mod_eq_of_lt (by simp only [UInt64.reduceToNat]; omega)

theorem doubled_spec {need : UInt64} (rounds : Nat) (newCap : UInt64) (small : need.toNat ≤ 2 ^ 63)
    (enough : 2 ^ 63 ≤ newCap.toNat * 2 ^ rounds) :
    ∃ c k, doubled need rounds newCap = some c ∧ need.toNat ≤ c.toNat ∧
      c.toNat = newCap.toNat * 2 ^ k := by
  induction rounds generalizing newCap with
  | zero =>
    have big : ¬ newCap < need := by
      rw [UInt64.lt_iff_toNat_lt]
      omega
    exact ⟨newCap, 0, by simp [doubled, big], by omega, by simp⟩
  | succ rounds ih =>
    by_cases more : newCap < need
    · have below : newCap.toNat < 2 ^ 63 := by
        rw [UInt64.lt_iff_toNat_lt] at more
        omega
      have twice := toNat_double below
      obtain ⟨c, k, found, fits, power⟩ := ih (newCap * 2) (by
        rw [twice, mul_assoc, ← pow_succ']
        exact enough)
      refine ⟨c, k + 1, by simp [doubled, more, found], fits, ?_⟩
      rw [power, twice, pow_succ]
      ring
    · refine ⟨newCap, 0, by simp [doubled, more], ?_, by simp⟩
      rw [UInt64.lt_iff_toNat_lt] at more
      omega

/-- Where no doubling wraps, the loop is the one on numbers. -/
theorem doubled_eq {need newCap c : UInt64} {rounds : Nat} (small : need.toNat ≤ 2 ^ 63)
    (found : doubled need rounds newCap = some c) :
    c.toNat = doubledCap need.toNat rounds newCap.toNat := by
  induction rounds generalizing newCap with
  | zero =>
    unfold doubled at found
    split_ifs at found with more
    cases found
    rfl
  | succ rounds ih =>
    unfold doubled at found
    unfold doubledCap
    split_ifs at found with more
    · rw [UInt64.lt_iff_toNat_lt] at more
      rw [if_pos more, ← toNat_double (by omega)]
      exact ih found
    · rw [UInt64.lt_iff_toNat_lt] at more
      cases found
      rw [if_neg more]

theorem startingCap_eq {cap : UInt64} (small : cap.toNat < 2 ^ 63) :
    (startingCap cap).toNat = if 0 < cap.toNat then cap.toNat * 2 else 1024 := by
  unfold startingCap
  have same : (0 : UInt64) < cap ↔ 0 < cap.toNat := UInt64.lt_iff_toNat_lt
  by_cases positive : 0 < cap
  · rw [if_pos positive, if_pos (same.mp positive), toNat_double small]
  · rw [if_neg positive, if_neg fun h => positive (same.mpr h)]
    rfl

theorem startingCap_pos (cap : UInt64) (small : cap.toNat < 2 ^ 63) :
    0 < (startingCap cap).toNat := by
  rw [startingCap_eq small]
  split_ifs with positive
  · omega
  · decide

end arithmetic

/-- Every reply of the environment can be expected. -/
def anything : Typestate Call.Reply Unit where
  allowed _ _ := True
  expects _ _ _ := True
  next _ _ _ := ()

/-- The string buffer of the listing, of which only the content is of interest. -/
def view (sb : Strbuf) (content : List UInt8) : StrBuf :=
  { data := sb.data.map fun _ => content, cap := sb.cap.toNat }

/-- The listing's `sb_append` may return so. -/
def May (sb : StrBuf) (s : CStr) (r : Bool × StrBuf) : Prop :=
  Ends anything (Csap.sbAppend sb s) () r ()

section view

variable {content s : CStr} {cap : Nat}

theorem may_fit (fits : content.length + s.length + 1 ≤ cap) :
    May { data := some content, cap } s (true, { data := some (content ++ s), cap }) := by
  have appends : Csap.sbAppend { data := some content, cap } s =
      pure (true, { data := some (content ++ s), cap }) := by
    change (if content.length + s.length + 1 ≤ cap then _ else _ : Sys (Bool × StrBuf)) = _
    rw [if_pos fits]
  unfold May
  rw [appends]
  exact .ret _ _

theorem may_grow (content s : CStr) (cap : Nat) (full : ¬ content.length + s.length + 1 ≤ cap) :
    May { data := some content, cap } s (true,
      { data := some (content ++ s)
        cap := doubledCap (content.length + s.length + 1) 64 (if 0 < cap then cap * 2 else 1024) }) ∧
    May { data := some content, cap } s (false, { data := some content, cap }) := by
  have grows : ∀ r, May { data := some content, cap } s r ↔ Ends anything
      (if content.length + s.length + 1 ≤ cap then _ else _ : Sys (Bool × StrBuf)) () r () :=
    fun _ => Iff.rfl
  rw [grows, grows, if_neg full]
  exact ⟨.call (r := true) (by trivial) (.ret _ _), .call (r := false) (by trivial) (.ret _ _)⟩

theorem may_init {r : Bool × StrBuf} (may : May { data := some [], cap := 1024 } s r) :
    May { data := none, cap } s r := by
  refine .call (r := true) (by trivial) ?_
  exact may

theorem may_refuse : May { data := none, cap } s (false, { data := none, cap := 1024 }) := by
  refine .call (r := false) (by trivial) ?_
  exact .ret _ _

end view

section calls

variable {h h' : Heap} {sb : Strbuf} {data : Nat} {content s : List UInt8}

theorem Allocated.congr (there : Allocated h sb data content) (same : h' data = h data) :
    Allocated h' sb data content := by
  obtain ⟨data_eq, len_eq, room, block⟩ := there
  refine ⟨data_eq, len_eq, room, ?_⟩
  rw [same]
  exact block

theorem wp_sbInit : wp Heap.discipline sbInit (fun r h' =>
    (r.1 = true → ∃ data, Allocated h' r.2 data [] ∧ h.isFresh data = true) ∧
    (r.1 = false → Unallocated r.2) ∧ (r.2.len = 0 ∧ r.2.cap = 1024) ∧
    ∀ q, h.isFresh q = false → h' q = h q) h := by
  apply Heap.wp_malloc
  · refine ⟨?_, ?_, ⟨rfl, rfl⟩, ?_⟩
    · intro impossible
      cases impossible
    · intro _
      exact ⟨rfl, rfl, .inr rfl⟩
    · intro q _
      rfl
  · intro data fresh
    have size : (List.replicate 1024 (none : Option UInt8)).length = 1024 := List.length_replicate
    apply Heap.wp_store Heap.set_same
    · rw [size]
      decide
    refine ⟨?_, ?_, ⟨rfl, rfl⟩, ?_⟩
    · intro _
      refine ⟨data, ⟨rfl, rfl, by simp, ?_⟩, fresh⟩
      refine ⟨_, Heap.set_same, ?_, ?_⟩
      · rw [Block.store_length (by rw [size]; decide), size]
        rfl
      · exact Block.begins_nil.store
    · intro impossible
      cases impossible
    · intro q used
      have other := Heap.ne_of_fresh fresh used
      rw [Heap.set_other other, Heap.set_other other]

theorem wp_sbCopy (there : Allocated h sb data content) (small : content.length + s.length < 2 ^ 63)
    (fits : content.length + s.length + 1 ≤ sb.cap.toNat) :
    wp Heap.discipline (sbCopy sb data s) (fun r h' =>
      r.1 = true ∧ Allocated h' r.2 data (content ++ s) ∧ r.2.cap = sb.cap ∧
        ∀ q ≠ data, h' q = h q) h := by
  obtain ⟨block, here, size, begins⟩ := there.block
  have len := toNat_add (a := sb.len) (n := s.length) (by rw [there.len_eq]; omega)
  have inside : sb.len.toNat + s.length ≤ block.length := by
    rw [there.len_eq, size]
    omega
  have copied : (block.store content.length s).Begins _ := begins.of_append.store
  rw [← there.len_eq] at copied
  apply Heap.wp_store here inside
  have total : (sb.len + UInt64.ofNat s.length).toNat = (content ++ s).length := by
    rw [len, there.len_eq, List.length_append]
  apply Heap.wp_store Heap.set_same
  · rw [Block.store_length inside, total, size, List.length_append, List.length_singleton]
    exact fits
  refine ⟨rfl, ⟨rfl, total, ?_, ?_⟩, rfl, ?_⟩
  · rw [List.length_append]
    exact fits
  · refine ⟨_, Heap.set_same, ?_, ?_⟩
    · rw [Block.store_length, Block.store_length inside, size]
      rw [Block.store_length inside, total, size, List.length_append, List.length_singleton]
      exact fits
    · rw [total]
      exact copied.store
  · intro q other
    rw [Heap.set_other other, Heap.set_other other]

theorem wp_sbGrow (there : Allocated h sb data content)
    (small : content.length + s.length + 1 ≤ 2 ^ 63) :
    wp Heap.discipline (sbGrow sb data s) (fun r h' =>
      (r.1 = true → ∃ moved, Allocated h' r.2 moved (content ++ s) ∧
        (moved = data ∨ h.isFresh moved = true)) ∧
      (r.1 = false → r.2 = sb ∧ h' = h) ∧ Frame h h' (some data) ∧
      May { data := some content, cap := sb.cap.toNat } s
        (r.1, view r.2 (if r.1 then content ++ s else content))) h := by
  have first := toNat_add (a := sb.len) (n := s.length) (by rw [there.len_eq]; omega)
  have need := toNat_add (a := sb.len + UInt64.ofNat s.length) (n := 1)
    (by rw [first, there.len_eq]; omega)
  rw [first, there.len_eq] at need
  change (sb.len + UInt64.ofNat s.length + 1).toNat = _ at need
  unfold sbGrow
  dsimp only
  split_ifs with more
  · rw [UInt64.lt_iff_toNat_lt, need] at more
    have positive := startingCap_pos sb.cap (by omega)
    obtain ⟨newCap, k, found, enough, power⟩ := doubled_spec 64 (startingCap sb.cap)
      (by rw [need]; exact small) (by omega)
    have same := doubled_eq (by rw [need]; exact small) found
    rw [need] at enough same
    rw [startingCap_eq (by omega)] at same
    obtain ⟨grown, refused⟩ := may_grow content s sb.cap.toNat (by omega)
    rw [← same] at grown
    simp only [found]
    obtain ⟨block, here, size, begins⟩ := there.block
    apply Heap.wp_realloc here
    · refine ⟨?_, ?_, ?_, ?_⟩
      · intro impossible
        cases impossible
      · intro _
        exact ⟨rfl, rfl⟩
      · intro q _ _
        rfl
      · unfold view
        rw [there.data_eq]
        exact refused
    · intro moved place
      have moves : Allocated ((h.set data (.released 1)).set moved (.live (block.resize newCap.toNat)))
          { sb with data := some moved, cap := newCap } moved content := by
        refine ⟨rfl, there.len_eq, by dsimp only; omega, _, Heap.set_same, Block.resize_length, ?_⟩
        apply begins.resize
        rw [List.length_append, List.length_singleton]
        omega
      refine Prog.wp_mono (wp_sbCopy moves (by omega) (by dsimp only; omega)) ?_
      rintro ⟨ok, sb'⟩ h' ⟨done, appended, cap, rest⟩
      dsimp only at done cap
      refine ⟨?_, ?_, ?_, ?_⟩
      · intro _
        exact ⟨moved, appended, place⟩
      · intro failed
        rw [done] at failed
        cases failed
      · intro q used other
        have apart : q ≠ data := fun same => other (congrArg some same.symm)
        have elsewhere : q ≠ moved := by
          rcases place with same | fresh
          · rw [same]
            exact apart
          · exact Heap.ne_of_fresh fresh used
        rw [rest q elsewhere, Heap.set_other elsewhere, Heap.set_other apart]
      · subst done
        unfold view
        dsimp only
        rw [appended.data_eq, cap]
        exact grown
  · rw [UInt64.lt_iff_toNat_lt, need] at more
    refine Prog.wp_mono (wp_sbCopy there (by omega) (by omega)) ?_
    rintro ⟨ok, sb'⟩ h' ⟨done, appended, cap, rest⟩
    dsimp only at done cap
    refine ⟨?_, ?_, ?_, ?_⟩
    · intro _
      exact ⟨data, appended, .inl rfl⟩
    · intro failed
      rw [done] at failed
      cases failed
    · intro q _ other
      exact rest q fun same => other (congrArg some same.symm)
    · subst done
      unfold view
      dsimp only
      rw [appended.data_eq, cap]
      exact may_fit (by omega)

/-- `sb_append` on any buffer: it holds the content and the bytes, or the content as before. -/
theorem wp_sbAppend (there : Holds h sb content)
    (small : content.length + s.length + 1 ≤ 2 ^ 63) :
    wp Heap.discipline (sbAppend sb s) (fun r h' =>
      (r.1 = true → ∃ data, Allocated h' r.2 data (content ++ s)) ∧
      (r.1 = false → Holds h' r.2 content ∧ r.2.len = sb.len ∧
        (r.2 = sb ∨ sb.data = none ∧ r.2.cap = 1024)) ∧ Frame h h' sb.data ∧
      May (view sb content) s (r.1, view r.2 (if r.1 then content ++ s else content))) h := by
  unfold sbAppend
  cases there with
  | allocated data there =>
    simp only [there.data_eq]
    refine Prog.wp_mono (wp_sbGrow there small) ?_
    rintro ⟨ok, sb'⟩ h' ⟨appended, kept, frame, may⟩
    have same : view sb content = { data := some content, cap := sb.cap.toNat } := by
      unfold view
      rw [there.data_eq]
      rfl
    rw [same]
    refine ⟨?_, ?_, frame, may⟩
    · intro done
      obtain ⟨moved, there', -⟩ := appended done
      exact ⟨moved, there'⟩
    · intro failed
      obtain ⟨same, unchanged⟩ := kept failed
      dsimp only at same
      subst same unchanged
      exact ⟨.allocated data there, rfl, .inl rfl⟩
  | unallocated there empty =>
    subst empty
    have same : view sb [] = { data := none, cap := sb.cap.toNat } := by
      unfold view
      rw [there.data_eq]
      rfl
    rw [same]
    simp only [there.data_eq]
    rw [Prog.wp_bind]
    refine Prog.wp_mono wp_sbInit ?_
    rintro ⟨ok, sb'⟩ h' ⟨granted, refused, ⟨len, cap⟩, others⟩
    cases ok with
    | false =>
      have still := refused rfl
      dsimp only at still
      simp only [still.data_eq]
      refine ⟨?_, ?_, ?_, ?_⟩
      · intro impossible
        cases impossible
      · intro _
        refine ⟨.unallocated still rfl, ?_, ?_⟩
        · exact len.trans there.len_eq.symm
        · exact .inr ⟨trivial, cap⟩
      · intro q used _
        exact others q used
      · unfold view
        dsimp only at cap
        rw [still.data_eq, cap]
        exact may_refuse
    | true =>
      obtain ⟨data, allocated, fresh⟩ := granted rfl
      dsimp only at allocated
      simp only [allocated.data_eq]
      refine Prog.wp_mono (wp_sbGrow allocated small) ?_
      rintro ⟨ok, sb''⟩ h'' ⟨appended, kept, frame, may⟩
      refine ⟨?_, ?_, ?_, ?_⟩
      · intro done
        obtain ⟨moved, there', -⟩ := appended done
        exact ⟨moved, there'⟩
      · intro failed
        obtain ⟨same, unchanged⟩ := kept failed
        dsimp only at same
        subst same unchanged
        refine ⟨.allocated data allocated, ?_, ?_⟩
        · exact len.trans there.len_eq.symm
        · exact .inr ⟨trivial, cap⟩
      · intro q used _
        have apart := Heap.ne_of_fresh fresh used
        have still := others q used
        rw [← still]
        apply frame q
        · unfold Heap.isFresh at used ⊢
          rw [still]
          exact used
        · intro same
          exact apart (Option.some.inj same).symm
      · apply may_init
        rw [cap] at may
        exact may

/-- A zeroed buffer, or one that `sb_init` has set up or could not set up. -/
inductive Starts (h : Heap) : Strbuf → Heap → Prop
  | zeroed : Starts h {} h
  | initialised {ok : Bool} {sb : Strbuf} {h' : Heap} :
      Ends Heap.discipline sbInit h (ok, sb) h' → Starts h sb h'

theorem Starts.holds (starts : Starts h sb h') : Holds h' sb [] := by
  cases starts with
  | zeroed => exact .unallocated ⟨rfl, rfl, .inl rfl⟩ rfl
  | @initialised ok _ _ ends =>
    obtain ⟨granted, refused, -⟩ := ends.of_wp wp_sbInit
    cases ok with
    | false => exact .unallocated (refused rfl) rfl
    | true =>
      obtain ⟨data, allocated, -⟩ := granted rfl
      exact .allocated data allocated

/-- Calls of `sb_append`, each with its bytes and whether it returned 0. In between the program
may do anything with its other blocks. -/
inductive Appends (start : Strbuf) (h₀ : Heap) : List (CStr × Bool) → Strbuf → Heap → Prop
  | start : Appends start h₀ [] start h₀
  | append {calls : List (CStr × Bool)} {sb sb' : Strbuf} {h h' : Heap} {s : CStr} {ok : Bool} :
      Appends start h₀ calls sb h → Ends Heap.discipline (sbAppend sb s) h (ok, sb') h' →
      Appends start h₀ (calls ++ [(s, ok)]) sb' h'
  | meanwhile {calls : List (CStr × Bool)} {sb : Strbuf} {h h' : Heap} :
      Appends start h₀ calls sb h → (∀ data, sb.data = some data → h' data = h data) →
      Appends start h₀ calls sb h'

def appended (calls : List (CStr × Bool)) : CStr :=
  (calls.map fun call => if call.2 then call.1 else []).flatten

def total (calls : List (CStr × Bool)) : Nat := (calls.map fun call => call.1.length).sum

theorem appended_append (calls : List (CStr × Bool)) (s : CStr) (ok : Bool) :
    appended (calls ++ [(s, ok)]) = if ok then appended calls ++ s else appended calls := by
  unfold appended
  rw [List.map_append, List.flatten_append]
  cases ok <;> simp

theorem total_append (calls : List (CStr × Bool)) (s : CStr) (ok : Bool) :
    total (calls ++ [(s, ok)]) = total calls + s.length := by
  simp [total]

theorem appended_le_total (calls : List (CStr × Bool)) : (appended calls).length ≤ total calls := by
  induction calls with
  | nil => rfl
  | cons call calls ih =>
    obtain ⟨s, ok⟩ := call
    simp only [appended, total, List.map_cons, List.flatten_cons, List.length_append,
      List.sum_cons] at ih ⊢
    cases ok
    · simp only [Bool.false_eq_true, if_false, List.length_nil]
      omega
    · simp only [if_true]
      omega

theorem Appends.holds {start : Strbuf} {h₀ : Heap} {calls : List (CStr × Bool)}
    (calling : Appends start h₀ calls sb h) (empty : Holds h₀ start [])
    (small : total calls + 1 ≤ 2 ^ 63) : Holds h sb (appended calls) := by
  induction calling with
  | start => exact empty
  | @append calls sb sb' h h' s ok _ ends ih =>
    rw [total_append] at small
    rw [appended_append]
    have bound := appended_le_total calls
    obtain ⟨done, failed, -⟩ := ends.of_wp (wp_sbAppend (ih (by omega)) (by omega))
    cases ok with
    | false => exact (failed rfl).1
    | true =>
      obtain ⟨data, allocated⟩ := done rfl
      exact .allocated data allocated
  | @meanwhile calls sb h h' _ same ih =>
    cases ih small with
    | allocated data there => exact .allocated data (there.congr (same data there.data_eq))
    | unallocated there empty => exact .unallocated there empty

/-- After any calls, whatever `malloc` and `realloc` answered, another call appends its bytes or
keeps the content; it stays inside the block, and the doubling ends without a wrap. -/
theorem sbAppend_sequence {start : Strbuf} {h₀ h₁ : Heap} {calls : List (CStr × Bool)}
    (starts : Starts h₀ start h₁) (calling : Appends start h₁ calls sb h)
    (small : total calls + s.length + 1 ≤ 2 ^ 63) :
    Holds h sb (appended calls) ∧
    wp Heap.discipline (sbAppend sb s) (fun r h' =>
      (r.1 = true → ∃ data, Allocated h' r.2 data (appended calls ++ s)) ∧
      (r.1 = false → Holds h' r.2 (appended calls) ∧ r.2.len = sb.len ∧
        (r.2 = sb ∨ sb.data = none ∧ r.2.cap = 1024)) ∧ Frame h h' sb.data ∧
      May (view sb (appended calls)) s (r.1, view r.2 (if r.1 then appended calls ++ s
        else appended calls))) h ∧
    ∀ cap : UInt64, cap < sb.len + UInt64.ofNat s.length + 1 →
      ∃ newCap k, doubled (sb.len + UInt64.ofNat s.length + 1) 64 (startingCap cap) = some newCap ∧
        (appended calls ++ s).length + 1 ≤ newCap.toNat ∧
        newCap.toNat = (if 0 < cap.toNat then cap.toNat * 2 else 1024) * 2 ^ k := by
  have bound := appended_le_total calls
  have there := calling.holds starts.holds (by omega)
  refine ⟨there, wp_sbAppend there (by omega), ?_⟩
  intro cap below
  have len : sb.len.toNat = (appended calls).length := by
    cases there with
    | allocated data there => exact there.len_eq
    | unallocated there empty =>
      rw [there.len_eq, empty]
      rfl
  have first := toNat_add (a := sb.len) (n := s.length) (by rw [len]; omega)
  have need := toNat_add (a := sb.len + UInt64.ofNat s.length) (n := 1) (by rw [first, len]; omega)
  rw [first, len] at need
  change (sb.len + UInt64.ofNat s.length + 1).toNat = _ at need
  rw [UInt64.lt_iff_toNat_lt, need] at below
  have positive := startingCap_pos cap (by omega)
  obtain ⟨newCap, k, found, enough, power⟩ := doubled_spec 64
    (startingCap cap) (by rw [need]; omega) (by omega)
  rw [need] at enough
  rw [startingCap_eq (by omega)] at power
  refine ⟨newCap, k, found, ?_, power⟩
  rw [List.length_append]
  exact enough

/-- A buffer that one byte was appended to, and what does not fit into it. -/
def first : Strbuf where
  data := some 0
  len := 1
  cap := 1024

@[irreducible] def more : CStr := List.replicate 1100 98

theorem first_ends : ∃ h, Ends Heap.discipline (sbAppend {} (cstr "a")) Heap.empty (true, first) h := by
  have fresh : Heap.discipline.expects Heap.empty (.malloc 1024) (some 0) := by
    change Heap.empty.answers (.malloc 1024) (some 0) = true
    decide
  apply Exists.intro
  apply Ends.call (r := some 0) fresh
  apply Ends.call (r := ()) rfl
  apply Ends.call (r := ()) rfl
  apply Ends.call (r := ()) rfl
  exact .ret _ _

theorem more_ends {h' : Heap} {result : Bool × Strbuf} {r : Option Nat}
    (answers : h.answers (.realloc 0 2048) r = true)
    (refused : r = none → result = (false, first) ∧ h' = h)
    (granted : ∀ moved, r = some moved → Ends Heap.discipline
      (sbCopy { first with data := some moved, cap := 2048 } moved more) (h.after (.realloc 0 2048) r) result h') :
    Ends Heap.discipline (sbAppend first more) h result h' := by
  have need : first.len + UInt64.ofNat more.length + 1 = 1102 := by
    rw [more, List.length_replicate]
    rfl
  have larger : doubled 1102 64 (startingCap first.cap) = some 2048 := by decide
  have full : first.cap < 1102 := by decide
  change Ends _ (sbGrow first 0 more) _ _ _
  unfold sbGrow
  simp only [need, larger, if_pos full]
  refine .call answers ?_
  cases r with
  | none =>
    obtain ⟨rfl, rfl⟩ := refused rfl
    exact .ret _ _
  | some moved => exact granted moved rfl

theorem grown : ∃ h, Appends {} Heap.empty [(cstr "a", true), (more, false), (more, true)]
    { data := some 0, len := 1101, cap := 2048 } h := by
  obtain ⟨h, begun⟩ := first_ends
  have refused : Ends Heap.discipline (sbAppend first more) h (false, first) h := by
    apply more_ends (r := none) rfl fun _ => ⟨rfl, rfl⟩
    intro moved granted
    cases granted
  obtain ⟨h', copied⟩ : ∃ h', Ends Heap.discipline (sbAppend first more) h
      (true, { data := some 0, len := 1101, cap := 2048 }) h' := by
    apply Exists.intro
    apply more_ends (r := some 0)
    · simp [Heap.answers]
    · intro refused
      cases refused
    rintro _ ⟨⟩
    apply Ends.call (r := ()) rfl
    apply Ends.call (r := ()) rfl
    have len : first.len + UInt64.ofNat more.length = 1101 := by
      rw [more, List.length_replicate]
      rfl
    change Ends _ (.ret (true, { first with len := first.len + UInt64.ofNat more.length, cap := 2048 })) _ _ _
    rw [len]
    exact .ret _ _
  exact ⟨h', ((Appends.start.append begun).append refused).append copied⟩

theorem sbAppend_sequence_grown : ∃ h, Appends {} Heap.empty
    [(cstr "a", true), (more, false), (more, true)] { data := some 0, len := 1101, cap := 2048 } h ∧
    Holds h { data := some 0, len := 1101, cap := 2048 } (cstr "a" ++ more) ∧
    wp Heap.discipline (sbAppend { data := some 0, len := 1101, cap := 2048 } more) (fun r h' =>
      (r.1 = true → ∃ data, Allocated h' r.2 data (cstr "a" ++ more ++ more)) ∧
      (r.1 = false → Holds h' r.2 (cstr "a" ++ more))) h := by
  obtain ⟨h, calling⟩ := grown
  have content : ∀ s : CStr, appended [(cstr "a", true), (s, false), (s, true)] = cstr "a" ++ s := by
    intro s
    simp [appended]
  have small : total [(cstr "a", true), (more, false), (more, true)] + more.length + 1 ≤ 2 ^ 63 := by
    have length : more.length = 1100 := by rw [more, List.length_replicate]
    simp only [total, List.map_cons, List.map_nil, List.sum_cons, List.sum_nil, length]
    decide
  obtain ⟨holds, may, -⟩ := sbAppend_sequence (s := more) (.zeroed (h := Heap.empty)) calling small
  rw [content] at holds may
  refine ⟨h, calling, holds, Prog.wp_mono may ?_⟩
  intro r h' result
  exact ⟨result.1, fun failed => (result.2.1 failed).1⟩

end calls

end Csap.StringBuffer
