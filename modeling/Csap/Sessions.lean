import Csap.Interleaving
import Csap.LocalCalls

/-! The sessions of the server as processes around the shared tables, and the
order in which a session makes the calls that others can see: when it may add,
take and fail requests, copy a file, and write to a fifo. -/

namespace Csap.Sessions

open Prog Interleaving

/-- What the schedule settles in a step: the outcome of `semop`, the processes
`kill` still finds, and the answers of the rest of the system. -/
structure Choice where
  sem : SemResult := .ok ()
  alive : Int → Bool := fun _ => true
  reply : (c : Call) → c.Reply

/-- The tables, the processes that were seen to have ended, and, for the statements only, which
process issued the request in each slot. -/
structure State where
  mem : SharedMemory
  gone : Int → Bool
  issuer : Nat → Int

/-- The slot that `shm_request_add` writes. -/
def addSlot (sem : SemResult) (mem : SharedMemory) : Option Nat :=
  match sem with
  | .error _ => none
  | .ok () => mem.pendingRequestsTable.freeSlot TransferRequestEntry.resolved

def execShared (pid : Int) (choice : Choice) (s : State) : (c : SharedCall) → c.Reply × State
  | .sessionAdd user sessionPid =>
    let r := shmSessionAdd choice.sem s.mem user sessionPid
    (r.1, { s with mem := r.2 })
  | .sessionFind user => (shmSessionFind choice.sem s.mem user, s)
  | .sessionsCollectStale =>
    let r := shmSessionsCollectStale choice.sem choice.alive s.mem
    (r.1, { s with mem := r.2, gone := fun pid => s.gone pid || !choice.alive pid })
  | .requestAdd srcUser destUser absPath =>
    let r := shmRequestAdd choice.sem s.mem srcUser destUser absPath
    (r.1, { s with
      mem := r.2
      issuer := fun slot => if addSlot choice.sem s.mem = some slot then pid else s.issuer slot })
  | .requestTake id destUser newStatus =>
    let r := shmRequestTake choice.sem s.mem id destUser newStatus
    ((r.1, r.2.1), { s with mem := r.2.2 })
  | .requestSet id st =>
    let r := shmRequestSet choice.sem s.mem id st
    (r.1, { s with mem := r.2 })
  | .requestsSetFailed user =>
    let r := shmRequestsSetFailed choice.sem s.mem user
    (r.1, { s with mem := r.2 })
  | .requestsForDest user max => (shmRequestsForDest choice.sem s.mem user max, s)

/-- The tables answer for themselves, and everything else as the schedule says. A process that
`kill` no longer found makes no call any more. -/
def machine : Machine Call.Reply Int State Choice := fun pid c choice s =>
  if s.gone pid then none
  else match c with
    | .shared c => some (execShared pid choice s c)
    | .enterCopy _ _ => some ((), s)
    | c => some (choice.reply c, s)

abbrev Action := Interleaving.Action Call.Reply Int

abbrev Event := Interleaving.Event Call.Reply Int State Choice

abbrev Log := List Event

/-- A notification a process has to write before it waits again: to whose fifo, and which. -/
structure Owed where
  pid : Int
  fits : Notification → Prop

/-- What is known of a session from its calls; it is `asking` while its login has still to collect the
requests of its user. The fields from `taken` on are about the command in progress; `found` is what it
looked up, if it did. -/
structure Ghost where
  pid : Int
  user : Option CStr := none
  ended : Bool := false
  asking : Bool := false
  taken : Option TransferRequestEntry := none
  found : Option (Option (Int × Bool)) := none
  copyable : Option CStr := none
  owed : List Owed := []
  writing : Option (Int × Owed) := none

/-- A resolution of request `id`, as opposed to its announcement. -/
def Resolves (id : Int) (n : Notification) : Prop := n.id = id ∧ n.keyword ≠ cstr "REQ|"

theorem resolves_accept (id : Int) (path : CStr) : Resolves id (.accept id path) := by
  refine ⟨rfl, ?_⟩
  change cstr "ACCEPT|" ≠ cstr "REQ|"
  decide

theorem resolves_reject (id : Int) : Resolves id (.reject id) := by
  refine ⟨rfl, ?_⟩
  change cstr "REJECT|" ≠ cstr "REQ|"
  decide

theorem resolves_fail (id : Int) (err : Errno) : Resolves id (.fail id err) := by
  refine ⟨rfl, ?_⟩
  change cstr "FAIL|" ≠ cstr "REQ|"
  decide

def announcement (id : Int) (path : CStr) : Notification :=
  .req id (pathBasename (NAME_MAX + 1) path)

namespace Ghost

/-- The calls a process may make when it is not writing a notification. -/
def may (root : CStr) (g : Ghost) : Call → Prop
  | .socket (.select _) => g.owed = [] ∧ (g.taken ≠ none → g.found ≠ none) ∧ g.asking = false
  | .shared (.sessionAdd user pid) => g.user = none ∧ pid = g.pid ∧ user.length ≤ 31
  | .shared (.requestAdd user _ _) =>
    g.user = some user ∧ g.ended = false ∧ g.taken = none ∧ g.owed = []
  | .shared (.requestTake _ user st) =>
    g.user = some user ∧ g.taken = none ∧ g.found = none ∧ g.owed = [] ∧
      (st = .accepted ∨ st = .rejected)
  | .shared (.requestSet id st) => st = .failed ∧ ∃ e, g.taken = some e ∧ e.id = id
  | .shared (.requestsSetFailed user) => g.user = some user
  | .shared (.requestsForDest user max) =>
    g.user = some user ∧ max = MAX_ENTRIES ∧ g.taken = none ∧ g.owed = [] ∧ g.asking = true
  | .shared (.sessionFind user) =>
    (∀ e, g.taken = some e → user = e.sourceUsername) ∧ g.found = none ∧ g.owed = []
  | .enterCopy srcPath _ => g.copyable = some srcPath
  | .file (.openPath path flags mode) => flags = notifyFlags →
      mode = 0 ∧ ∃ first rest, g.owed = first :: rest ∧ path = sessionFifoPath root first.pid
  | _ => True

def allowed (root : CStr) (g : Ghost) (c : Call) : Prop :=
  match g.writing with
  | some (fd, owed) => ∃ n, owed.fits n ∧ c = .file (.write fd n.text)
  | none => g.may root c

theorem allowed_of_idle {root : CStr} {g : Ghost} (idle : g.writing = none) (c : Call) :
    g.allowed root c ↔ g.may root c := by
  rw [allowed, idle]

theorem may_of_allowed {root : CStr} {g : Ghost} {c : Call} (h : g.allowed root c)
    (other : ∀ fd data, c ≠ .file (.write fd data)) : g.writing = none ∧ g.may root c := by
  unfold allowed at h
  split at h
  · obtain ⟨n, -, same⟩ := h
    exact absurd same (other _ _)
  · rename_i idle
    exact ⟨idle, h⟩

def expects (_ : Ghost) : (c : Call) → c.Reply → Prop
  | .shared (.requestTake id _ _), r => 0 ≤ r.1 → ∃ e, r.2 = some e ∧ e.id = id
  | _, _ => True

/-- The lookup that answers the source of a taken request leaves it a notification. -/
def lookedUp (g : Ghost) (found : Option (Int × Bool)) : Ghost :=
  { g with
    found := some found
    owed := match g.taken, found with
      | some e, some (pid, true) => [⟨pid, Resolves e.id⟩]
      | _, _ => g.owed }

def next (g : Ghost) : (c : Call) → c.Reply → Ghost
  | .socket (.select _), _ => { g with taken := none, found := none, copyable := none }
  | .shared (.sessionAdd user _), _ => { g with user := some user, asking := true }
  | .shared (.sessionFind _), r => g.lookedUp (if 0 < r.1 then r.2 else none)
  | .shared (.requestAdd _ _ path), id =>
    if id < 0 then g
    else match g.found with
      | some (some (pid, true)) => { g with owed := [⟨pid, fun n => n = announcement id path⟩] }
      | _ => g
  | .shared (.requestTake _ _ st), r =>
    if r.1 < 0 then g
    else
      { g with
        taken := r.2
        copyable := if st = .accepted then r.2.map (·.filePathAbsolute) else none }
  | .shared (.requestsSetFailed _), _ => { g with ended := true }
  | .shared (.requestsForDest _ _), r =>
    { g with
      asking := false
      owed := r.2.map fun e => ⟨g.pid, fun n => n = announcement e.id e.filePathAbsolute⟩ }
  | .enterCopy _ _, _ => { g with copyable := none }
  | .file (.openPath _ flags _), r =>
    if flags = notifyFlags then
      match g.owed, r with
      | first :: rest, .ok fd => { g with owed := rest, writing := some (fd, first) }
      | _ :: rest, .error _ => { g with owed := rest }
      | [], _ => g
    else g
  | .file (.write _ _), _ => { g with writing := none }
  | _, _ => g

/-- A process that was logged in has failed the requests of its user name. -/
def Left (g : Ghost) : Prop := g.user ≠ none → g.ended = true

end Ghost

def protocol (root : CStr) : Typestate Call.Reply Ghost where
  allowed := Ghost.allowed root
  expects := Ghost.expects
  next := Ghost.next

end Csap.Sessions
