import Csap.Footprints

/-! What a session does on its own: files, users and its client's socket. Such
calls do not touch the shared tables or another session's fifo, and all of the
server's functions but the ones about transfer requests make only such calls. -/

namespace Csap

open Prog

@[reducible] def Local : Call → Prop
  | .file (.openPath _ flags _) => flags ≠ notifyFlags
  | .socket (.select _) => False
  | .shared _ => False
  | .enterCopy _ _ => False
  | _ => True

instance local_judged : Judged Local :=
  .avoiding (.openPath notifyFlags :: .select :: .enterCopy :: sharedKinds) <| by
    rintro (c | c | c | c | c | c) <;> cases c <;> simp

@[reducible] def StreamsTo (fd : Int) : Call → Prop
  | .file (.write f _) | .file (.lseek f _) => f = fd
  | .socket (.recvFrameInto _) => True
  | _ => False

theorem recvStream_streams (texts : Texts) (fd offset expectedTotal : Int)
    (dataCode endCode : UInt8) :
    (recvStream texts fd offset expectedTotal dataCode endCode).Calls (StreamsTo fd) := by
  unfold recvStream seekTo recvFrames writeAll
  repeat' with_reducible first
    | exact Calls.pure _
    | exact Calls.perform rfl
    | exact Calls.perform trivial
    | refine Calls.iterate fun _ => ?_
    | refine Calls.bind ?_ fun _ => ?_
    | split

end Csap
