import Csap.MainServer
import Csap.ServerRuns

/-! The main process, its signal handlers and the sessions it forks, each call a step. A handler may
come in between any two calls of the main process, which goes on when the handler has finished. No
number is given to two processes. -/

namespace Csap.MainServer

open Prog (iterate)
open Interleaving

/-- The handlers of the main process count as threads of their own; `outside` is who kills sessions. -/
inductive Thread
  | main
  | onChild
  | onTermination (sig : Signal)
  | session (pid : Int)
  | outside
deriving DecidableEq, Repr

/-- What `cleanup_ipc` is about: its globals, the segments that are not marked for removal, and the
semaphores. -/
structure Ipc where
  shmId : Int := -1
  semId : Int := -1
  sharedMemory : Int := 0
  segments : List Int := []
  semaphores : List Int := []

def Ipc.next (ipc : Ipc) : (c : Call) → c.Reply → Ipc
  | .set .shmId value, _ => { ipc with shmId := value }
  | .set .semId value, _ => { ipc with semId := value }
  | .set .sharedMemory value, _ => { ipc with sharedMemory := value }
  | .shmget, .ok id => { ipc with segments := id :: ipc.segments }
  | .shmRemove id, .ok () => { ipc with segments := ipc.segments.erase id }
  | .semget, .ok id => { ipc with semaphores := id :: ipc.semaphores }
  | .semRemove id, .ok () => { ipc with semaphores := ipc.semaphores.erase id }
  | _, _ => ipc

/-- A session that has ended is a zombie until the main process waits for it. -/
inductive Status
  | unborn
  | running
  | ended
  | waitedFor
deriving DecidableEq, Repr

structure Children where
  numbers : List Int
  status : Int → Status
  known : ∀ pid, status pid ≠ .unborn → pid ∈ numbers

namespace Children

def none : Children where
  numbers := []
  status _ := .unborn
  known _ born := absurd rfl born

def become (c : Children) (pid : Int) (st : Status) : Children where
  numbers := pid :: c.numbers
  status other := if other = pid then st else c.status other
  known other born := by
    by_cases same : other = pid
    · exact same ▸ List.mem_cons_self
    · rw [if_neg same] at born
      exact List.mem_cons_of_mem pid (c.known other born)

def any (c : Children) (st : Status) : Bool := c.numbers.any fun pid => c.status pid = st

/-- The processes that `kill` finds. -/
def alive (c : Children) (pid : Int) : Bool := c.status pid = .running ∨ c.status pid = .ended

def next (c : Children) (thread : Thread) : (q : Call) → q.Reply → Children
  | .fork _, .ok pid => c.become pid .running
  | .killed, pid => c.become pid .ended
  | .waitpid _, pid => if c.status pid = .ended then c.become pid .waitedFor else c
  | .exit _, _ =>
    match thread with
    | .session pid => c.become pid .ended
    | _ => c
  | _, _ => c

variable {c : Children} {pid other : Int} {st : Status}

@[simp] theorem status_become : (c.become pid st).status other =
    if other = pid then st else c.status other := rfl

theorem any_eq_false (born : st ≠ .unborn) : c.any st = false ↔ ∀ pid, c.status pid ≠ st := by
  unfold any
  rw [List.any_eq_false]
  constructor
  · intro none pid here
    have member := c.known pid (here ▸ born)
    exact none pid member (decide_eq_true here)
  · intro none pid _ here
    exact none pid (of_decide_eq_true here)

end Children

/-- What the signals of the main process have come to. `pending` is `SIGCHLD`, and `caught` the
signals that `handle_termination` handles. -/
structure Control where
  catching : Bool := false
  pending : Bool := false
  handling : Bool := false
  caught : List Signal := []
  terminating : Bool := false
  ended : Bool := false

def Control.next (s : Control) (thread : Thread) : (c : Call) → c.Reply → Control
  | .sigaction, .ok () => { s with catching := true }
  | .signal sig ignored, _ =>
    { s with caught := if ignored then s.caught.filter (· ≠ sig) else sig :: s.caught }
  | .delivered, _ =>
    match thread with
    | .onChild => { s with pending := false, handling := true }
    | _ => { s with terminating := true }
  | .finished, _ => { s with handling := false }
  | .killed, _ => { s with pending := s.catching }
  | .exit _, _ =>
    match thread with
    | .session _ => { s with pending := s.catching }
    | _ => { s with ended := true }
  | _, _ => s

structure State where
  mem : SharedMemory
  sessionsCleanup : Int
  ipc : Ipc
  children : Children
  control : Control
  inherited : Int → Inherited

structure Choice where
  sem : SemResult := .ok ()
  number : SysResult Int := .ok 0
  result : SysResult Unit := .ok ()
  group : Option Int := none
  reply : (c : Csap.Call) → c.Reply

def State.atomic (s : State) (choice : Choice) (c : SharedCall) : c.Reply × SharedMemory :=
  Semaphore.atomic choice.sem s.children.alive s.mem c

def State.read (s : State) : Global → Int
  | .shmId => s.ipc.shmId
  | .semId => s.ipc.semId
  | .sharedMemory => s.ipc.sharedMemory
  | .sessionsCleanup => s.sessionsCleanup

/-- Sessions run until they end, and the main process while none of its handlers does. -/
def State.blocks (s : State) : Thread → Bool
  | .main => s.control.ended || s.control.handling || s.control.terminating
  | .onChild | .onTermination _ => s.control.ended
  | .session pid => s.children.status pid ≠ .running
  | .outside => false

theorem State.free_of_main {s : State} (goes : s.blocks .main = false) :
    s.control.handling = false ∧ s.control.terminating = false := by
  have free : (s.control.ended || s.control.handling || s.control.terminating) = false := goes
  simp only [Bool.or_eq_false_iff] at free
  exact ⟨free.1.2, free.2⟩

theorem State.running_of_session {s : State} {pid : Int} (goes : s.blocks (.session pid) = false) :
    s.children.status pid = .running := by
  simpa [State.blocks] using goes

def Choice.pick (choice : Choice) (possible : Int → Bool) : Option (SysResult Int) :=
  match choice.number with
  | .error e => some (.error e)
  | .ok n => if possible n then some (.ok n) else none

/-- `waitpid(-1, NULL, ..)`: one of the children that have ended, if there are any. -/
def State.wait (s : State) (choice : Choice) (nohang : Bool) : Option Int :=
  if s.children.any .ended then
    match choice.number with
    | .ok pid => if 0 < pid ∧ s.children.status pid = .ended then some pid else none
    | .error _ => none
  else if s.children.any .running then
    if nohang then some 0 else none
  else some (-1)

/-- The reply to a call, `none` while it blocks. What has been made can be removed. -/
def State.answer (s : State) (thread : Thread) (choice : Choice) : (c : Call) → Option c.Reply
  | .sys (.shared c) => some (s.atomic choice c).1
  | .sys c => some (choice.reply c)
  | .get v => some (s.read v)
  | .shmget => choice.pick fun id => 0 ≤ id ∧ id ∉ s.ipc.segments
  | .shmat _ => choice.pick (· ≠ 0)
  | .shmRemove id => some (if id ∈ s.ipc.segments then .ok () else choice.result)
  | .semget => choice.pick fun id => 0 ≤ id ∧ id ∉ s.ipc.semaphores
  | .semRemove id => some (if id ∈ s.ipc.semaphores then .ok () else choice.result)
  | .shmdt _ | .semStat _ | .semSet _ _ | .semSetVal _ _ => some choice.result
  | .sigaction | .kill _ | .setsockopt _ | .bind _ _ _ | .listen _ | .close _ => some choice.result
  | .socket | .accept _ => some choice.number
  | .fork _ => choice.pick fun pid => 0 < pid ∧ s.children.status pid = .unborn
  | .getgrnam _ => some choice.group
  | .getuid => some (choice.number.toOption.getD 0)
  | .getpid =>
    match thread with
    | .session pid => some pid
    | _ => some (choice.number.toOption.getD 0)
  | .waitpid nohang => s.wait choice nohang
  | .killed =>
    match choice.number with
    | .ok pid => if s.children.status pid = .running then some pid else none
    | .error _ => none
  | .forked =>
    match thread with
    | .session pid => some (s.inherited pid)
    | _ => none
  | .delivered =>
    match thread with
    | .onChild => if s.control.pending then some () else none
    | .onTermination sig => if sig ∈ s.control.caught then some () else none
    | _ => none
  | .set _ _ | .zeroTables | .signal _ _ | .finished | .terminateGroup | .exit _ => some ()

def State.next (s : State) (thread : Thread) (choice : Choice) (c : Call) (r : c.Reply) : State where
  mem := match c with
    | .sys (.shared c) => (s.atomic choice c).2
    | .zeroTables => Csap.setupShmem
    | _ => s.mem
  sessionsCleanup := match c with
    | .set .sessionsCleanup value => value
    | _ => s.sessionsCleanup
  ipc := s.ipc.next c r
  children := s.children.next thread c r
  control := s.control.next thread c r
  inherited := match c, r with
    | .fork inherited, .ok pid => fun other => if other = pid then inherited else s.inherited other
    | _, _ => s.inherited

def machine : Machine Call.Reply Thread State Choice := fun thread c choice s =>
  if s.blocks thread then none
  else (s.answer thread choice c).map fun r => (r, s.next thread choice c r)

abbrev Event := Interleaving.Event Call.Reply Thread State Choice

abbrev Config := Interleaving.Config Call.Reply Thread State Choice

def boot : State where
  mem := Csap.setupShmem
  sessionsCleanup := 0
  ipc := {}
  children := .none
  control := {}
  inherited _ := ⟨[], 0, 0, 0, 0, 0⟩

def start (args : Arguments) : Config where
  state := boot
  procs
    | .main => main args
    | .onChild => onChild
    | .onTermination _ => onTermination
    | .session _ => connection args.texts
    | .outside => iterate () fun _ => do
        let _ ← call .killed
        return .inl ()
  log := []

theorem machine_cases {thread : Thread} {c : Call} {choice : Choice} {s s' : State} {r : c.Reply}
    (h : machine thread c choice s = some (r, s')) :
    s.blocks thread = false ∧ s.answer thread choice c = some r ∧ s' = s.next thread choice c r := by
  unfold machine at h
  split at h
  · cases h
  · rename_i goes
    obtain ⟨r', answered, same⟩ := Option.map_eq_some_iff.mp h
    cases same
    exact ⟨Bool.eq_false_iff.mpr goes, answered, rfl⟩

end Csap.MainServer
