import Csap.Libc
import Csap.SlotTable

/-! The shared memory segment of `sh_mem`: the session table, the table of
transfer requests, and the functions that read and write them. Every function
takes the semaphore first; its body is one critical section, so it is one step
of the process that calls it. The outcome of `semop`, once it is not `EINTR`,
is the argument `sem`. -/

namespace Csap

def MAX_ENTRIES : Nat := 1024

inductive RequestStatus
  | pending
  | accepted
  | rejected
  | failed
deriving DecidableEq, Repr

/-- A slot of `session_table`; the zeroed value is what `memset` leaves. -/
structure SessionEntry where
  username : CStr := []
  pid : Int := 0
  inUse : Bool := false
deriving DecidableEq, Repr

structure TransferRequestEntry where
  id : Int := 0
  sourceUsername : CStr := []
  destUsername : CStr := []
  filePathAbsolute : CStr := []
  status : RequestStatus := .pending
deriving DecidableEq, Repr

/-- Such an entry's slot is available to the next request. -/
def TransferRequestEntry.resolved (e : TransferRequestEntry) : Bool := e.status ≠ .pending

def TransferRequestEntry.sentBy (user : CStr) (e : TransferRequestEntry) : Bool :=
  e.status = .pending ∧ e.sourceUsername = user

def TransferRequestEntry.waitsFor (user : CStr) (e : TransferRequestEntry) : Bool :=
  e.status = .pending ∧ e.destUsername = user

abbrev SessionTable := SlotTable SessionEntry MAX_ENTRIES

structure PendingRequestsTable extends SlotTable TransferRequestEntry MAX_ENTRIES where
  nextId : Int

structure SharedMemory where
  sessionTable : SessionTable
  pendingRequestsTable : PendingRequestsTable

/-- The segment as `setup_shmem` leaves it: zeroed, with the first id set to 1. -/
def setupShmem : SharedMemory where
  sessionTable := SlotTable.zeroed {} MAX_ENTRIES
  pendingRequestsTable := ⟨SlotTable.zeroed {} MAX_ENTRIES, 1⟩

abbrev SemResult := Except Errno Unit

/-- `snprintf` into a `username[33]` field. -/
def usernameField (user : CStr) : CStr := snprintf 33 user

def shmSessionAdd (sem : SemResult) (mem : SharedMemory) (user : CStr) (pid : Int) :
    Int × SharedMemory :=
  match sem with
  | .error e => (e.neg, mem)
  | .ok () =>
    let entry : SessionEntry := { username := usernameField user, pid, inUse := true }
    match mem.sessionTable.store (fun e => !e.inUse) entry with
    | some slots => (0, { mem with sessionTable := slots })
    | none => (ENOMEM.neg, mem)

/-- The result, and `(*pid, *online)` where the function assigns them. -/
def shmSessionFind (sem : SemResult) (mem : SharedMemory) (user : CStr) :
    Int × Option (Int × Bool) :=
  match sem with
  | .error e => (e.neg, none)
  | .ok () =>
    match mem.sessionTable.first (fun e => e.username = user) with
    | some (_, entry) => (1, some (entry.pid, entry.inUse))
    | none => (0, none)

/-- `alive` says for which processes `kill(pid, 0)` does not report `ESRCH`. -/
def shmSessionsCollectStale (sem : SemResult) (alive : Int → Bool) (mem : SharedMemory) :
    Int × SharedMemory :=
  match sem with
  | .error e => (e.neg, mem)
  | .ok () =>
    let collect (e : SessionEntry) : SessionEntry :=
      if e.inUse && !alive e.pid then { pid := -1 } else e
    (0, { mem with sessionTable := mem.sessionTable.mapLive collect })

def shmRequestAdd (sem : SemResult) (mem : SharedMemory) (srcUser destUser absPath : CStr) :
    Int × SharedMemory :=
  match sem with
  | .error e => (e.neg, mem)
  | .ok () =>
    let table := mem.pendingRequestsTable
    let entry : TransferRequestEntry :=
      { id := table.nextId
        sourceUsername := usernameField srcUser
        destUsername := usernameField destUser
        filePathAbsolute := snprintf PATH_MAX absPath
        status := .pending }
    match table.store TransferRequestEntry.resolved entry with
    | some slots => (table.nextId,
        { mem with pendingRequestsTable := ⟨slots, int32 (table.nextId + 1)⟩ })
    | none => (ENOMEM.neg, mem)

/-- The result, and `*out` where the function assigns it. -/
def shmRequestTake (sem : SemResult) (mem : SharedMemory) (id : Int) (destUser : CStr)
    (newStatus : RequestStatus) : Int × Option TransferRequestEntry × SharedMemory :=
  match sem with
  | .error e => (e.neg, none, mem)
  | .ok () =>
    let table := mem.pendingRequestsTable
    match table.first (fun e => e.id = id) with
    | none => (ENOENT.neg, none, mem)
    | some (i, entry) =>
      if entry.destUsername ≠ destUser then (EACCES.neg, none, mem)
      else if entry.status ≠ .pending then (EALREADY.neg, none, mem)
      else
        let entry := { entry with status := newStatus }
        (0, some entry, { mem with pendingRequestsTable := ⟨table.put i entry, table.nextId⟩ })

def shmRequestSet (sem : SemResult) (mem : SharedMemory) (id : Int) (st : RequestStatus) :
    Int × SharedMemory :=
  match sem with
  | .error e => (e.neg, mem)
  | .ok () =>
    let table := mem.pendingRequestsTable
    match table.first (fun e => e.id = id) with
    | none => (ENOENT.neg, mem)
    | some (i, entry) => (0, { mem with
        pendingRequestsTable := ⟨table.put i { entry with status := st }, table.nextId⟩ })

def shmRequestsSetFailed (sem : SemResult) (mem : SharedMemory) (user : CStr) :
    Int × SharedMemory :=
  match sem with
  | .error e => (e.neg, mem)
  | .ok () =>
    let table := mem.pendingRequestsTable
    let fail (e : TransferRequestEntry) := if e.sentBy user then { e with status := .failed } else e
    ((table.live.countP (·.sentBy user) : Nat),
      { mem with pendingRequestsTable := ⟨table.mapLive fail, table.nextId⟩ })

/-- The result, and the entries copied to `out`. -/
def shmRequestsForDest (sem : SemResult) (mem : SharedMemory) (user : CStr) (max : Int) :
    Int × List TransferRequestEntry :=
  match sem with
  | .error e => (e.neg, [])
  | .ok () =>
    let out := (mem.pendingRequestsTable.live.filter (·.waitsFor user)).take max.toNat
    ((out.length : Nat), out)

end Csap
