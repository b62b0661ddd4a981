import Mathlib.Data.List.Basic
import Mathlib.Order.Lattice
import Mathlib.Tactic.Common

/-! Record locks: an owner locks a region of a file, shared or exclusively, and gives up what it
likes of it. A lock is granted if it goes with all that others hold. -/

namespace RecordLocks

/-- Bytes from `start` on; a region without an end reaches as far as the file ever will. -/
structure Region where
  start : Int
  stop : Option Int
deriving DecidableEq, Repr

namespace Region

def Covers (g : Region) (byte : Int) : Prop := g.start ≤ byte ∧ ∀ stop ∈ g.stop, byte < stop

def Meets (g g' : Region) : Prop := ∃ byte, g.Covers byte ∧ g'.Covers byte

theorem meets_iff {g g' : Region} : g.Meets g' ↔ g.Covers (max g.start g'.start) ∧
    g'.Covers (max g.start g'.start) := by
  constructor
  · intro meets
    obtain ⟨byte, here, there⟩ := meets
    have below : max g.start g'.start ≤ byte := max_le here.1 there.1
    refine ⟨⟨le_max_left .., ?_⟩, ⟨le_max_right .., ?_⟩⟩
    · intro stop ends
      exact below.trans_lt (here.2 stop ends)
    · intro stop ends
      exact below.trans_lt (there.2 stop ends)
  · intro both
    exact ⟨_, both⟩

instance (g : Region) (byte : Int) : Decidable (g.Covers byte) :=
  inferInstanceAs (Decidable (_ ∧ _))

instance (g g' : Region) : Decidable (g.Meets g') := decidable_of_iff _ meets_iff.symm

theorem Meets.symm {g g' : Region} (h : g.Meets g') : g'.Meets g := by
  obtain ⟨byte, here, there⟩ := h
  exact ⟨byte, there, here⟩

theorem meets_of_endless (start start' : Int) :
    (Region.mk start none).Meets (Region.mk start' none) := by
  rw [meets_iff]
  refine ⟨⟨le_max_left .., ?_⟩, ⟨le_max_right .., ?_⟩⟩
  · intro stop ends
    cases ends
  · intro stop ends
    cases ends

def cut (g out : Region) : List Region :=
  (if g.start < out.start then [⟨g.start, some (g.stop.elim out.start (min out.start))⟩] else []) ++
    out.stop.toList.map fun stop => ⟨max g.start stop, g.stop⟩

theorem covers_of_mem_cut {g out piece : Region} {byte : Int} (member : piece ∈ g.cut out)
    (covers : piece.Covers byte) : g.Covers byte := by
  rcases List.mem_append.mp member with left | right
  · split_ifs at left with before
    · rw [List.mem_singleton.mp left] at covers
      refine ⟨covers.1, ?_⟩
      intro stop ends
      have bound := covers.2 _ rfl
      rw [Option.mem_def.mp ends] at bound
      exact bound.trans_le (min_le_right ..)
    · cases left
  · obtain ⟨stop, -, rfl⟩ := List.mem_map.mp right
    exact ⟨(le_max_left ..).trans covers.1, covers.2⟩

theorem Meets.of_mem_cut {g out piece other : Region} (member : piece ∈ g.cut out)
    (h : piece.Meets other) : g.Meets other := by
  obtain ⟨byte, here, there⟩ := h
  exact ⟨byte, covers_of_mem_cut member here, there⟩

/-- The region has bytes, from its start on. -/
def Solid (g : Region) : Prop := 0 ≤ g.start ∧ g.Covers g.start

theorem solid_of_endless {start : Int} (h : 0 ≤ start) : (Region.mk start none).Solid := by
  refine ⟨h, le_refl start, ?_⟩
  intro stop ends
  cases ends

theorem Solid.meets {g : Region} (h : g.Solid) : g.Meets ⟨0, none⟩ := by
  refine ⟨g.start, h.2, h.1, ?_⟩
  intro stop ends
  cases ends

theorem Solid.of_mem_cut {g out piece : Region} (h : g.Solid) (endless : out.stop = none)
    (member : piece ∈ g.cut out) : piece.Solid := by
  unfold cut at member
  rw [endless, Option.toList_none, List.map_nil, List.append_nil] at member
  split_ifs at member with before
  · rw [List.mem_singleton.mp member]
    refine ⟨h.1, le_refl _, ?_⟩
    intro stop ends
    rw [← Option.mem_some.mp ends]
    cases stops : g.stop with
    | none => exact before
    | some stop => exact lt_min before (h.2.2 stop stops)
  · cases member

end Region

structure Record (Owner File : Type) where
  owner : Owner
  file : File
  exclusive : Bool
  region : Region
deriving DecidableEq, Repr

section table

variable {Owner File : Type} [DecidableEq Owner] [DecidableEq File]

/-- Nobody else has what the lock does not go with. -/
def Grants (held : List (Record Owner File)) (new : Record Owner File) : Prop :=
  ∀ r ∈ held, r.owner ≠ new.owner → r.file = new.file → (r.exclusive = true ∨ new.exclusive = true) →
    ¬ r.region.Meets new.region

instance (held : List (Record Owner File)) (new : Record Owner File) : Decidable (Grants held new) :=
  inferInstanceAs (Decidable (∀ r ∈ held, _))

def release (held : List (Record Owner File)) (owner : Owner) (file : File) (out : Region) :
    List (Record Owner File) :=
  held.flatMap fun r =>
    if r.owner = owner ∧ r.file = file then (r.region.cut out).map fun g => { r with region := g }
    else [r]

def acquire (held : List (Record Owner File)) (new : Record Owner File) : List (Record Owner File) :=
  new :: release held new.owner new.file new.region

def abandon (held : List (Record Owner File)) (owner : Owner) (file : File) :
    List (Record Owner File) :=
  held.filter fun r => ¬ (r.owner = owner ∧ r.file = file)

/-- Two owners lock bytes of one file at a time only if both only share them. -/
def Sound (held : List (Record Owner File)) : Prop :=
  ∀ r ∈ held, ∀ r' ∈ held, r.owner ≠ r'.owner → r.file = r'.file → r.region.Meets r'.region →
    r.exclusive = false ∧ r'.exclusive = false

variable {held : List (Record Owner File)} {new r : Record Owner File} {owner : Owner} {file : File}
  {out : Region}

omit [DecidableEq Owner] [DecidableEq File] in
theorem sound_nil : Sound ([] : List (Record Owner File)) := by
  intro r member
  cases member

theorem of_mem_release (h : r ∈ release held owner file out) : ∃ r₀ ∈ held, r₀.owner = r.owner ∧
    r₀.file = r.file ∧ r₀.exclusive = r.exclusive ∧
    ∀ other : Region, r.region.Meets other → r₀.region.Meets other := by
  obtain ⟨r₀, member, left⟩ := List.mem_flatMap.mp h
  split_ifs at left with mine
  · obtain ⟨piece, cut, rfl⟩ := List.mem_map.mp left
    exact ⟨r₀, member, rfl, rfl, rfl, fun other meets => meets.of_mem_cut cut⟩
  · rw [List.mem_singleton.mp left]
    exact ⟨r₀, member, rfl, rfl, rfl, fun other meets => meets⟩

theorem mem_release (h : r ∈ held) (other : ¬ (r.owner = owner ∧ r.file = file)) :
    r ∈ release held owner file out := by
  apply List.mem_flatMap.mpr
  refine ⟨r, h, ?_⟩
  rw [if_neg other]
  exact List.mem_singleton_self r

theorem mem_abandon (h : r ∈ held) (other : ¬ (r.owner = owner ∧ r.file = file)) :
    r ∈ abandon held owner file := by
  apply List.mem_filter.mpr
  exact ⟨h, decide_eq_true other⟩

theorem sound_release (sound : Sound held) : Sound (release held owner file out) := by
  intro r member r' member' apart same meets
  obtain ⟨r₀, old, owns, on, mode, wider⟩ := of_mem_release member
  obtain ⟨r₀', old', owns', on', mode', wider'⟩ := of_mem_release member'
  rw [← mode, ← mode']
  apply sound r₀ old r₀' old'
  · rwa [owns, owns']
  · rwa [on, on']
  · exact (wider' _ (wider _ meets).symm).symm

theorem sound_abandon (sound : Sound held) : Sound (abandon held owner file) := by
  intro r member r' member'
  exact sound r (List.mem_filter.mp member).1 r' (List.mem_filter.mp member').1

def Solid (held : List (Record Owner File)) : Prop := ∀ r ∈ held, r.region.Solid

theorem solid_release (solid : Solid held) (endless : out.stop = none) :
    Solid (release held owner file out) := by
  intro r member
  obtain ⟨r₀, old, left⟩ := List.mem_flatMap.mp member
  split_ifs at left with mine
  · obtain ⟨piece, cut, rfl⟩ := List.mem_map.mp left
    exact (solid r₀ old).of_mem_cut endless cut
  · rw [List.mem_singleton.mp left]
    exact solid r₀ old

theorem solid_acquire (solid : Solid held) (endless : new.region.stop = none)
    (has : new.region.Solid) : Solid (acquire held new) := by
  intro r member
  rcases List.mem_cons.mp member with rfl | old
  · exact has
  · exact solid_release solid endless r old

theorem sound_acquire (sound : Sound held) (grants : Grants held new) : Sound (acquire held new) := by
  -- against a record of another owner the new one was checked
  have fits : ∀ r ∈ release held new.owner new.file new.region, r.owner ≠ new.owner →
      r.file = new.file → r.region.Meets new.region → r.exclusive = false ∧ new.exclusive = false := by
    intro r member apart same meets
    obtain ⟨r₀, old, owns, on, mode, wider⟩ := of_mem_release member
    by_contra clash
    refine grants r₀ old ?_ ?_ ?_ (wider _ meets)
    · rwa [owns]
    · rwa [on]
    · rw [mode]
      by_contra neither
      simp only [not_or, Bool.not_eq_true] at neither
      exact clash neither
  intro r member r' member' apart same meets
  rcases List.mem_cons.mp member with rfl | member
  · rcases List.mem_cons.mp member' with rfl | member'
    · exact absurd rfl apart
    · exact (fits r' member' apart.symm same.symm meets.symm).symm
  · rcases List.mem_cons.mp member' with rfl | member'
    · exact fits r member apart same meets
    · exact sound_release sound r member r' member' apart same meets

end table

end RecordLocks
