import Csap.Runs
import Csap.ServerRuns

/-! One command of one session, from the tables it starts on to its last call,
while the other sessions change the tables within a relation `rely`. -/

namespace Csap.Sessions

open Prog

abbrev Seen := Happened Call.Reply State (State × Choice)

section among

variable {rely : State → State → Prop} [DecidableRel rely] {pid : Int} {s t : State}
  {choice : State × Choice}

/-- The calls of process `pid` among those of the others. -/
abbrev among (rely : State → State → Prop) [DecidableRel rely] (pid : Int) :
    Handler Call.Reply State (State × Choice) :=
  disturbed rely (machine pid)

theorem among_shared {q : SharedCall} {r : q.Reply}
    (h : among rely pid (.shared q) choice s = some (r, t)) :
    rely s choice.1 ∧ execShared pid choice.2 choice.1 q = (r, t) := by
  unfold among disturbed at h
  split at h
  · rename_i kept
    exact ⟨kept, machine_shared h⟩
  · cases h

def Unshared (c : Call) : Prop := ∀ q, c ≠ .shared q

theorem among_unshared {c : Call} {r : c.Reply} (unshared : Unshared c)
    (h : among rely pid c choice s = some (r, t)) : rely s t := by
  unfold among disturbed at h
  split at h
  · rename_i kept
    rw [machine_other unshared h]
    exact kept
  · cases h

end among

end Csap.Sessions
