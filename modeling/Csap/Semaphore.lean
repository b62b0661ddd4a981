import Csap.Refinement
import Csap.ServerRuns
import Csap.SlotLoops

/-! `sh_mem.c` access by access. A function takes the semaphore, reads and writes the segment entry by
entry, and gives the semaphore back; other processes may run in between. -/

namespace Csap.Semaphore

open Prog (iterate perform)

/-- What is read or written at once. `kill` is `false` for `ESRCH`. -/
inductive Access
  | sessionCount
  | session (i : Nat)
  | setSession (i : Nat) (entry : SessionEntry)
  | setSessionCount (n : Nat)
  | requestCount
  | request (i : Nat)
  | setRequest (i : Nat) (entry : TransferRequestEntry)
  | setRequestCount (n : Nat)
  | nextId
  | setNextId (id : Int)
  | kill (pid : Int)
deriving DecidableEq, Repr

@[reducible] def Access.Reply : Access → Type
  | sessionCount | requestCount => Nat
  | session _ => SessionEntry
  | request _ => TransferRequestEntry
  | nextId => Int
  | kill _ => Bool
  | setSession _ _ | setSessionCount _ | setRequest _ _ | setRequestCount _ | setNextId _ => Unit

inductive Call
  | sys (c : Csap.Call)
  | semop (op : Int)
  | access (a : Access)
deriving DecidableEq, Repr

@[reducible] def Call.Reply : Call → Type
  | sys c => c.Reply
  | semop _ => SemResult
  | access a => a.Reply

abbrev Shm := Prog Access.Reply

abbrev Sem := Prog Call.Reply

abbrev access (a : Access) : Shm a.Reply := perform a

abbrev call (c : Call) : Sem c.Reply := perform c

/-- `semop`, until it is not interrupted. -/
def semop (op : Int) : Sem SemResult :=
  iterate () fun _ => do
    match ← call (.semop op) with
    | .error e => if e = EINTR then return .inl () else return .inr (.error e)
    | .ok () => return .inr (.ok ())

def semLock : Sem SemResult := semop (-1)

def semUnlock : Sem SemResult := semop 1

/-- The shape of all functions below: `failed` is what they return if they cannot lock. -/
def locked {α : Type} (failed : Errno → α) (body : Shm α) : Sem α := do
  match ← semLock with
  | .error e => return failed e
  | .ok () =>
    let r ← body.embed Call.access
    let _ ← semUnlock
    return r

/-- `for(int i = 0; i < count; i++)`, left at the first entry with `p`. -/
def search {α : Type} (count : Shm Nat) (entry : Nat → Shm α) (p : α → Bool) : Shm (Option (Nat × α)) :=
  iterate 0 fun i => do
    if i < (← count) then
      let e ← entry i
      if p e then return .inr (some (i, e)) else return .inl (i + 1)
    else return .inr none

/-- The loop that visits every entry, and counts those that `visit` has changed. -/
def sweep {α : Type} (count : Shm Nat) (entry : Nat → Shm α) (visit : Nat → α → Shm Bool) : Shm Nat :=
  iterate ((0, 0) : Nat × Nat) fun loop => do
    let (i, n) := loop
    if i < (← count) then
      let changed ← visit i (← entry i)
      return .inl (i + 1, if changed then n + 1 else n)
    else return .inr n

def searchSessions := search (access .sessionCount) fun i => access (.session i)

def searchRequests := search (access .requestCount) fun i => access (.request i)

def shmSessionAdd (user : CStr) (pid : Int) : Sem Int :=
  locked Errno.neg do
    let entry : SessionEntry := { username := usernameField user, pid, inUse := true }
    match ← searchSessions (fun e => !e.inUse) with
    | some (i, _) =>
      access (.setSession i entry)
      return 0
    | none =>
      let count ← access .sessionCount
      if count < MAX_ENTRIES then
        access (.setSession count entry)
        access (.setSessionCount (count + 1))
        return 0
      else return ENOMEM.neg

def shmSessionFind (user : CStr) : Sem (Int × Option (Int × Bool)) :=
  locked (fun e => (e.neg, none)) do
    match ← searchSessions (fun e => e.username = user) with
    | some (_, entry) => return (1, some (entry.pid, entry.inUse))
    | none => return (0, none)

def shmSessionsCollectStale : Sem Int :=
  locked Errno.neg do
    let _ ← sweep (access .sessionCount) (fun i => access (.session i)) fun i entry => do
      if !entry.inUse then return false
      else if ← access (.kill entry.pid) then return false
      else
        access (.setSession i {})
        access (.setSession i { pid := -1 })
        return true
    return 0

def shmRequestAdd (srcUser destUser absPath : CStr) : Sem Int :=
  locked Errno.neg do
    let entry : TransferRequestEntry :=
      { sourceUsername := usernameField srcUser
        destUsername := usernameField destUser
        filePathAbsolute := snprintf PATH_MAX absPath
        status := .pending }
    let idx ← do
      match ← searchRequests TransferRequestEntry.resolved with
      | some (i, _) => pure (some i)
      | none =>
        let count ← access .requestCount
        if count < MAX_ENTRIES then
          access (.setRequestCount (count + 1))
          pure (some count)
        else pure none
    match idx with
    | none => return ENOMEM.neg
    | some idx =>
      let id ← access .nextId
      access (.setNextId (int32 (id + 1)))
      access (.setRequest idx { entry with id })
      return id

def shmRequestTake (id : Int) (destUser : CStr) (newStatus : RequestStatus) :
    Sem (Int × Option TransferRequestEntry) :=
  locked (fun e => (e.neg, none)) do
    match ← searchRequests (fun e => e.id = id) with
    | none => return (ENOENT.neg, none)
    | some (i, entry) =>
      if entry.destUsername ≠ destUser then return (EACCES.neg, none)
      else if entry.status ≠ .pending then return (EALREADY.neg, none)
      else
        access (.setRequest i { entry with status := newStatus })
        return (0, some (← access (.request i)))

def shmRequestSet (id : Int) (st : RequestStatus) : Sem Int :=
  locked Errno.neg do
    match ← searchRequests (fun e => e.id = id) with
    | none => return ENOENT.neg
    | some (i, entry) =>
      access (.setRequest i { entry with status := st })
      return 0

def shmRequestsSetFailed (user : CStr) : Sem Int :=
  locked Errno.neg do
    let n ← sweep (access .requestCount) (fun i => access (.request i)) fun i entry => do
      if entry.sentBy user then
        access (.setRequest i { entry with status := .failed })
        return true
      else return false
    return (n : Int)

def shmRequestsForDest (user : CStr) (max : Int) : Sem (Int × List TransferRequestEntry) :=
  locked (fun e => (e.neg, [])) do
    let out ← iterate ((0, []) : Nat × List TransferRequestEntry) fun loop => do
      let (i, out) := loop
      if i < (← access .requestCount) ∧ (out.length : Int) < max then
        let entry ← access (.request i)
        return .inl (i + 1, if entry.waitsFor user then out ++ [entry] else out)
      else return .inr out
    return ((out.length : Int), out)

def shared : (c : SharedCall) → Sem c.Reply
  | .sessionAdd user pid => shmSessionAdd user pid
  | .sessionFind user => shmSessionFind user
  | .sessionsCollectStale => shmSessionsCollectStale
  | .requestAdd srcUser destUser absPath => shmRequestAdd srcUser destUser absPath
  | .requestTake id destUser newStatus => shmRequestTake id destUser newStatus
  | .requestSet id st => shmRequestSet id st
  | .requestsSetFailed user => shmRequestsSetFailed user
  | .requestsForDest user max => shmRequestsForDest user max

def carryOut : (c : Csap.Call) → Sem c.Reply
  | .shared c => shared c
  | c => call (.sys c)

/-- What an access answers and does; `alive` is as for `shmSessionsCollectStale`. -/
def exec (alive : Int → Bool) (mem : SharedMemory) : (a : Access) → a.Reply × SharedMemory
  | .sessionCount => (mem.sessionTable.count, mem)
  | .session i => (mem.sessionTable.entries.getD i {}, mem)
  | .setSession i entry => ((), { mem with sessionTable := mem.sessionTable.put i entry })
  | .setSessionCount n => ((), { mem with sessionTable := mem.sessionTable.resize n })
  | .requestCount => (mem.pendingRequestsTable.count, mem)
  | .request i => (mem.pendingRequestsTable.entries.getD i {}, mem)
  | .setRequest i entry => ((), { mem with
      pendingRequestsTable := ⟨mem.pendingRequestsTable.put i entry, mem.pendingRequestsTable.nextId⟩ })
  | .setRequestCount n => ((), { mem with
      pendingRequestsTable := ⟨mem.pendingRequestsTable.resize n, mem.pendingRequestsTable.nextId⟩ })
  | .nextId => (mem.pendingRequestsTable.nextId, mem)
  | .setNextId id => ((), { mem with
      pendingRequestsTable := ⟨mem.pendingRequestsTable.toSlotTable, id⟩ })
  | .kill pid => (alive pid, mem)

/-- The semaphore is the one of `setup_shmem`, which starts at 1. -/
structure State where
  mem : SharedMemory
  value : Nat
  alive : Int → Bool
  gone : Int → Bool

/-- `semop` waits for the semaphore, is interrupted, or fails. Which processes there are does not
change for `kill` while the semaphore is taken: no process ends while it holds it, so that there is
nothing for `SEM_UNDO` to undo. A process that has ended makes no call. -/
def machine : Interleaving.Machine Call.Reply Int State Sessions.Choice := fun pid c choice s =>
  if s.gone pid then none
  else match c with
    | .sys (.shared _) => none
    | .sys (.enterCopy _ _) => some ((), s)
    | .sys c => some (choice.reply c, s)
    | .semop op =>
      match choice.sem with
      | .error e => some (.error e, s)
      | .ok () =>
        if 0 ≤ op then some (.ok (), { s with value := s.value + op.toNat })
        else if s.value < op.natAbs then none
        else some (.ok (), { s with
          value := s.value - op.natAbs
          alive := choice.alive
          gone := fun pid => s.gone pid || !choice.alive pid })
    | .access a =>
      let r := exec s.alive s.mem a
      some (r.1, { s with mem := r.2 })

abbrev Config := Interleaving.Config Call.Reply Int State Sessions.Choice

/-- The processes of the server, with their calls on the tables carried out. -/
def start (server : Server) (mainPid : Int) (clientSocket : Int → Int) : Config where
  state := { mem := setupShmem, value := 1, alive := fun _ => true, gone := fun _ => false }
  procs := fun pid => ((Sessions.start server mainPid clientSocket).procs pid).lower carryOut
  log := []

end Csap.Semaphore
