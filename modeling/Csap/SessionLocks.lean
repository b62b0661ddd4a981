import Csap.Balance

/-! Between two commands a session holds no record lock. -/

namespace Csap.Balance

open Prog Descriptors

@[reducible] def Lockless : Call → Prop
  | .file (.setlk _ _ _ _) => False
  | _ => True

instance lockless_judged : Judged Lockless :=
  .avoiding [.setlk true, .setlk false] <| by
    rintro (c | c | c | c | c | c) <;> cases c <;> simp

section sessions

variable {File : Type} [DecidableEq File] {found : Nat → File} {g : Descriptors File LockType}
  {α : Type} {p : Sys α} {Q : α → Descriptors File LockType → Prop}

def Unlocked (g : Descriptors File LockType) : Prop := ∀ file byte, g.locks file byte = none

theorem Unlocked.after (h : Unlocked g) (c : Call) (lockless : Lockless c) (r : c.Reply) :
    Unlocked (after found g c r) := by
  have closed : ∀ fd, Unlocked (g.close fd) := by
    intro fd file byte
    change (if g.fds fd = some file then none else g.locks file byte) = none
    rw [h file byte, ite_self]
  cases c with
  | file c =>
    cases c with
    | setlk fd type start len => exact absurd lockless id
    | close fd => exact closed fd
    | closedir dir => exact closed dir
    | openPath path flags mode => cases r <;> exact h
    | opendir path => cases r <;> exact h
    | mkstemp template =>
      obtain ⟨e | fd, tempPath⟩ := r
      · exact h
      · exact h
    | _ => exact h
  | _ => exact h

theorem wp_lockless (lockless : p.Calls Lockless) (h : Unlocked g)
    (hQ : ∀ a g, Unlocked g → Q a g) : wp (kernel found).lenient p Q g :=
  lockless.wp_preserving Unlocked
    (fun _ c calm before => ⟨trivial, fun r => before.after c calm r⟩) h hQ

theorem wp_balanced (h : Unlocked g)
    (balances : Holding found g [] g → wp (kernel found) p (fun _ g' => Holding found g [] g') g)
    (hQ : ∀ a g, Unlocked g → Q a g) : wp (kernel found).lenient p Q g := by
  apply wp_mono (wp_lenient (balances (Holding.start fun n _ byte => h (found n) byte)))
  intro a g' closed
  apply hQ
  intro file byte
  rw [closed.balanced.2]
  exact h file byte

variable {server : Server} {session : Session} {payload : Option CStr}

theorem wp_dispatchAccept {Q : Unit → Descriptors File LockType → Prop} (h : Unlocked g)
    (hQ : ∀ a g, Unlocked g → Q a g) :
    wp (kernel found).lenient (dispatchAccept session payload) Q g := by
  unfold dispatchAccept
  apply wp_bind.mpr
  refine wp_lockless (calls_within rfl) h ?_
  intro acceptCommand g h
  cases acceptCommand with
  | none => exact hQ _ _ h
  | some acceptCommand =>
  apply wp_ite.mpr
  constructor
  · intro _
    apply wp_bind.mpr
    exact wp_lockless (calls_within rfl) h hQ
  intro _
  apply wp_bind.mpr
  refine wp_lockless (calls_within rfl) h ?_
  intro fullDestPath g h
  cases fullDestPath with
  | none => exact hQ _ _ h
  | some fullDestPath =>
  apply wp_bind.mpr
  refine wp_lockless (calls_within rfl) h ?_
  intro taken g h
  cases taken with
  | none => exact hQ _ _ h
  | some taken =>
  obtain ⟨requestCopy, sourceUserPid, sourceUserOnline⟩ := taken
  apply wp_bind.mpr
  apply wp_balanced h wp_executeTransferCopy
  intro copyResult g h
  exact wp_lockless (calls_within rfl) h hQ

/-- A command that parses its arguments, resolves a path and transfers a file. -/
def transferring {β : Type} (path : Cmd → CStr) (root : CStr) (transfer : Cmd → CStr → Sys β)
    (finish : β → Sys Unit) (payload : Option CStr) : Sys Unit := do
  let some command ← cmdParse payload | return
  let some fullPath ← cmdResolve (path command) root | return
  let r ← transfer command fullPath
  finish r

theorem wp_transferring {β : Type} {path : Cmd → CStr} {root : CStr} {transfer : Cmd → CStr → Sys β}
    {finish : β → Sys Unit} {Q : Unit → Descriptors File LockType → Prop} (h : Unlocked g)
    (balances : ∀ command fullPath g, Holding found g [] g →
      wp (kernel found) (transfer command fullPath) (fun _ g' => Holding found g [] g') g)
    (finishes : ∀ r, (finish r).Calls Lockless) (hQ : ∀ a g, Unlocked g → Q a g) :
    wp (kernel found).lenient (transferring path root transfer finish payload) Q g := by
  apply wp_bind.mpr
  refine wp_lockless (calls_within rfl) h ?_
  intro command g h
  cases command with
  | none => exact hQ _ _ h
  | some command =>
  apply wp_bind.mpr
  refine wp_lockless (calls_within rfl) h ?_
  intro fullPath g h
  cases fullPath with
  | none => exact hQ _ _ h
  | some fullPath =>
  apply wp_bind.mpr
  apply wp_balanced h (balances command fullPath g)
  intro r g h
  exact wp_lockless (finishes r) h hQ

theorem wp_dispatchLoggedIn {command : Option Command} {Q : Unit → Descriptors File LockType → Prop}
    (h : Unlocked g) (hQ : ∀ a g, Unlocked g → Q a g) :
    wp (kernel found).lenient (dispatchLoggedIn server session command payload) Q g := by
  unfold dispatchLoggedIn
  split
  · exact wp_dispatchAccept h hQ
  · exact wp_lockless (calls_within rfl) h hQ
  · exact wp_lockless (calls_within rfl) h hQ
  · exact wp_lockless (calls_within rfl) h hQ
  · exact wp_lockless (calls_within rfl) h hQ
  · exact wp_balanced h wp_dispatchMove hQ
  · exact wp_lockless (calls_within rfl) h hQ
  · apply wp_transferring h (fun _ _ _ => wp_sendFile) ?_ hQ
    rintro ⟨e | n, msg⟩
    · exact calls_within rfl
    · exact Calls.pure _
  · apply wp_transferring h (fun _ _ _ => wp_sendFile) ?_ hQ
    rintro ⟨e | n, msg⟩
    · exact calls_within rfl
    · exact Calls.pure _
  · apply wp_transferring h (fun _ _ _ => wp_receiveIntoFile) ?_ hQ
    rintro ⟨e | n, msg⟩
    · exact calls_within rfl
    · exact calls_within rfl
  · apply wp_transferring h (fun _ _ _ => wp_receiveIntoFile) ?_ hQ
    rintro ⟨e | n, msg⟩
    · exact calls_within rfl
    · exact calls_within rfl
  · exact wp_balanced h wp_dispatchDelete hQ
  · exact wp_lockless (calls_within rfl) h hQ
  · exact wp_lockless (calls_within rfl) h hQ

theorem wp_dispatch {packet : Network.Packet} {Q : Session → Descriptors File LockType → Prop}
    (h : Unlocked g) (hQ : ∀ a g, Unlocked g → Q a g) :
    wp (kernel found).lenient (dispatch server session packet) Q g := by
  unfold dispatch
  dsimp only
  apply wp_ite.mpr
  refine ⟨fun _ => wp_lockless (calls_within rfl) h hQ, fun _ => ?_⟩
  apply wp_ite.mpr
  constructor
  · intro _
    apply wp_bind.mpr
    exact wp_lockless (calls_within rfl) h fun _ g h => hQ _ g h
  intro _
  apply wp_ite.mpr
  constructor
  · intro _
    apply wp_bind.mpr
    exact wp_lockless (calls_within rfl) h fun _ g h => hQ _ g h
  · intro _
    apply wp_bind.mpr
    exact wp_dispatchLoggedIn h fun _ g h => hQ _ g h

/-- Every command of a session finds no lock held, and leaves none. -/
theorem sessionLoop_unlocked {clientSocket : Int} (h : Unlocked g) :
    wp (kernel found).lenient (sessionLoop server clientSocket session) (fun _ g => Unlocked g) g := by
  apply wp_iterate (fun _ g => Unlocked g) h
  intro session g h
  apply wp_call trivial
  intro ready _
  change wp (kernel found).lenient _ _ g
  cases ready with
  | error e => exact wp_ite.mpr ⟨fun _ => h, fun _ => h⟩
  | ok ready =>
  have received : wp (kernel found).lenient (if clientSocket ∈ ready then receiveCommand server session
      else pure (some session)) (fun _ g => Unlocked g) g := by
    apply wp_ite.mpr
    refine ⟨fun _ => ?_, fun _ => h⟩
    apply wp_call trivial
    intro packet _
    cases packet with
    | none => exact h
    | some packet =>
      apply wp_bind.mpr
      exact wp_dispatch h fun _ _ h => h
  apply wp_bind.mpr
  apply wp_mono received
  intro r g h
  cases r with
  | none => exact h
  | some session =>
  apply wp_ite.mpr
  refine ⟨fun _ => ?_, fun _ => h⟩
  apply wp_bind.mpr
  refine wp_lockless (calls_within rfl) h ?_
  intro stillOpen g h
  exact wp_ite.mpr ⟨fun _ => h, fun _ => h⟩

end sessions

end Csap.Balance
