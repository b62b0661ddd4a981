import Mathlib.Logic.Function.Basic
import Mathlib.Data.List.Nodup
import Mathlib.Tactic.Common

/-! The open descriptors of a process and the record locks it holds. A descriptor stands
for a file, and two of them may stand for the same one; whoever closes either of them gives up
every lock the process has on that file. -/

/-- `opened` counts the files that have been opened so far. -/
structure Descriptors (File Lock : Type) where
  fds : Int → Option File
  locks : File → Int → Option Lock
  opened : Nat

namespace Descriptors

variable {File Lock : Type}

def InRegion (start len byte : Int) : Prop := start ≤ byte ∧ (len = 0 ∨ byte < start + len)

instance (start len byte : Int) : Decidable (InRegion start len byte) :=
  inferInstanceAs (Decidable (_ ∧ _))

def openAs (g : Descriptors File Lock) (fd : Int) (file : File) : Descriptors File Lock where
  fds := Function.update g.fds fd (some file)
  locks := g.locks
  opened := g.opened + 1

def close [DecidableEq File] (g : Descriptors File Lock) (fd : Int) : Descriptors File Lock where
  fds := Function.update g.fds fd none
  locks := fun file byte => if g.fds fd = some file then none else g.locks file byte
  opened := g.opened

def lock [DecidableEq File] (g : Descriptors File Lock) (fd start len : Int)
    (type : Option Lock) : Descriptors File Lock where
  fds := g.fds
  locks := fun file byte =>
    if g.fds fd = some file ∧ InRegion start len byte then type else g.locks file byte
  opened := g.opened

/-- The same descriptors are open and the same locks are held. -/
def Balanced (g g' : Descriptors File Lock) : Prop := g'.fds = g.fds ∧ g'.locks = g.locks

/-- No file that is opened from now on has a lock of the process, where `found` says which file
each opening finds. -/
def Apart (found : Nat → File) (g : Descriptors File Lock) : Prop :=
  ∀ n, g.opened ≤ n → ∀ byte, g.locks (found n) byte = none

/-- The descriptors `own` have been opened since `g₀`, nothing else has been closed or opened, and
every lock taken since then is on one of their files. -/
structure Holding (found : Nat → File) (g₀ : Descriptors File Lock) (own : List Int)
    (g : Descriptors File Lock) : Prop where
  nodup : own.Nodup
  others : ∀ fd, fd ∉ own → g.fds fd = g₀.fds fd
  unused : ∀ fd ∈ own, g₀.fds fd = none
  mine : ∀ fd ∈ own, ∃ file, g.fds fd = some file ∧ ∀ byte, g₀.locks file byte = none
  locked : ∀ file byte, g.locks file byte ≠ g₀.locks file byte → ∃ fd ∈ own, g.fds fd = some file
  apart : ∀ n, g.opened ≤ n → ∀ byte, g₀.locks (found n) byte = none

namespace Holding

variable {found : Nat → File} {g₀ g : Descriptors File Lock} {own own' : List Int} {fd : Int}

theorem start (apart : Apart found g₀) : Holding found g₀ [] g₀ where
  nodup := List.nodup_nil
  others := fun _ _ => rfl
  unused := by simp
  mine := by simp
  locked := fun _ _ changed => absurd rfl changed
  apart := apart

theorem balanced (h : Holding found g₀ [] g) : Balanced g₀ g := by
  constructor
  · funext fd
    exact h.others fd List.not_mem_nil
  · funext file byte
    by_contra changed
    obtain ⟨fd, member, -⟩ := h.locked file byte changed
    exact List.not_mem_nil member

theorem perm (h : Holding found g₀ own g) (same : own.Perm own') : Holding found g₀ own' g where
  nodup := same.nodup_iff.mp h.nodup
  others := fun fd absent => h.others fd fun member => absent (same.mem_iff.mp member)
  unused := fun fd member => h.unused fd (same.mem_iff.mpr member)
  mine := fun fd member => h.mine fd (same.mem_iff.mpr member)
  locked := fun file byte changed => by
    obtain ⟨fd, member, here⟩ := h.locked file byte changed
    exact ⟨fd, same.mem_iff.mp member, here⟩
  apart := h.apart

theorem isOpen (h : Holding found g₀ own g) (member : fd ∈ own) : g.fds fd ≠ none := by
  obtain ⟨file, here, -⟩ := h.mine fd member
  rw [here]
  exact Option.some_ne_none file

theorem opens (h : Holding found g₀ own g) (new : g.fds fd = none) :
    Holding found g₀ (fd :: own) (g.openAs fd (found g.opened)) := by
  have absent : fd ∉ own := fun member => h.isOpen member new
  have kept : ∀ x, x ≠ fd → (g.openAs fd (found g.opened)).fds x = g.fds x := fun x other =>
    Function.update_of_ne other ..
  constructor
  · exact List.nodup_cons.mpr ⟨absent, h.nodup⟩
  · intro x outside
    rw [List.mem_cons, not_or] at outside
    rw [kept x outside.1, h.others x outside.2]
  · intro x member
    rcases List.mem_cons.mp member with rfl | member
    · rw [← h.others x absent, new]
    · exact h.unused x member
  · intro x member
    rcases List.mem_cons.mp member with rfl | member
    · exact ⟨found g.opened, Function.update_self .., h.apart g.opened (Nat.le_refl _)⟩
    · rw [kept x fun same => absent (same ▸ member)]
      exact h.mine x member
  · intro file byte changed
    obtain ⟨x, member, here⟩ := h.locked file byte changed
    refine ⟨x, List.mem_cons_of_mem fd member, ?_⟩
    rw [kept x fun same => absent (same ▸ member)]
    exact here
  · intro n later
    exact h.apart n (Nat.le_of_succ_le later)

variable [DecidableEq File]

theorem locks (h : Holding found g₀ own g) (member : fd ∈ own) {start len : Int}
    {type : Option Lock} : Holding found g₀ own (g.lock fd start len type) where
  nodup := h.nodup
  others := h.others
  unused := h.unused
  mine := h.mine
  locked := fun file byte changed => by
    by_cases here : g.fds fd = some file
    · exact ⟨fd, member, here⟩
    · apply h.locked file byte
      simpa [lock, here] using changed
  apart := h.apart

theorem closes (h : Holding found g₀ (fd :: own) g) : Holding found g₀ own (g.close fd) := by
  have absent : fd ∉ own := (List.nodup_cons.mp h.nodup).1
  obtain ⟨closed, here, free⟩ := h.mine fd List.mem_cons_self
  have kept : ∀ x, x ≠ fd → (g.close fd).fds x = g.fds x := fun x other =>
    Function.update_of_ne other ..
  constructor
  · exact (List.nodup_cons.mp h.nodup).2
  · intro x outside
    by_cases same : x = fd
    · rw [same, h.unused fd List.mem_cons_self]
      exact Function.update_self ..
    · rw [kept x same]
      exact h.others x fun member => (List.mem_cons.mp member).elim same outside
  · intro x member
    exact h.unused x (List.mem_cons_of_mem fd member)
  · intro x member
    rw [kept x fun same => absent (same ▸ member)]
    exact h.mine x (List.mem_cons_of_mem fd member)
  · intro file byte changed
    by_cases gone : closed = file
    · refine absurd ?_ changed
      rw [← gone, free byte]
      exact if_pos here
    · have other : ¬g.fds fd = some file := by simpa [here] using gone
      have still : g.locks file byte ≠ g₀.locks file byte := by simpa [close, other] using changed
      obtain ⟨x, member, holder⟩ := h.locked file byte still
      rcases List.mem_cons.mp member with rfl | member
      · exact absurd holder other
      · refine ⟨x, member, ?_⟩
        rw [kept x fun same => absent (same ▸ member)]
        exact holder
  · exact h.apart

end Holding

end Descriptors
