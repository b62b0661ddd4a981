import Csap.Discipline

/-! The whole server: the main process and one process for each connection, all
started on the tables of `setup_shmem`. -/

namespace Csap.Sessions

open Prog Interleaving

abbrev Config := Interleaving.Config Call.Reply Int State Choice

/-- The main process, as far as the tables go: each time children have ended it collects
their sessions. -/
def collector : Sys Unit :=
  iterate () fun _ => do
    let _ ← sharedCall .sessionsCollectStale
    return (.inl () : Unit ⊕ Unit)

def setupState : State where
  mem := setupShmem
  gone := fun _ => false
  issuer := fun _ => 0

/-- Every connection has a process of its own; one that the schedule never moves was never
accepted. -/
def start (server : Server) (mainPid : Int) (clientSocket : Int → Int) : Config where
  state := setupState
  procs := fun pid =>
    if pid = mainPid then collector else serveClient { server with pid } (clientSocket pid)
  log := []

def init (pid : Int) : Ghost := { pid }

def rootOf (server : Server) : CStr := snprintf PATH_MAX server.rootDirectory

theorem start_concludes (server : Server) (mainPid : Int) (clientSocket : Int → Int) :
    Concludes (protocol (rootOf server)) init (fun _ g => g.Left) (start server mainPid clientSocket) := by
  intro pid
  by_cases main : pid = mainPid
  · simp only [start, if_pos main, ghostOf_nil]
    refine wp_iterate (fun _ g => g.writing = none) rfl ?_
    intro _ g idle
    exact wp_visible idle trivial fun _ _ => idle
  · simp only [start, if_neg main, ghostOf_nil]
    exact wp_serveClient { server with pid } (clientSocket pid)

theorem machine_shared {pid : Int} {q : SharedCall} {choice : Choice} {s s' : State} {r : q.Reply}
    (h : machine pid (.shared q) choice s = some (r, s')) : execShared pid choice s q = (r, s') := by
  unfold machine at h
  split at h
  · cases h
  · exact Option.some.inj h

theorem machine_other {pid : Int} {c : Call} {choice : Choice} {s s' : State} {r : c.Reply}
    (other : ∀ q, c ≠ .shared q) (h : machine pid c choice s = some (r, s')) : s' = s := by
  unfold machine at h
  split at h
  · cases h
  · split at h
    · rename_i q
      exact absurd rfl (other q)
    · cases h
      rfl
    · cases h
      rfl

theorem shmRequestTake_expected {sem : SemResult} {mem : SharedMemory} {id : Int}
    {destUser : CStr} {st : RequestStatus}
    (taken : 0 ≤ (shmRequestTake sem mem id destUser st).1) :
    ∃ e, (shmRequestTake sem mem id destUser st).2.1 = some e ∧ e.id = id := by
  revert taken
  unfold shmRequestTake
  split
  · rename_i err
    intro taken
    exact absurd err.neg_lt_zero (not_lt.mpr taken)
  · dsimp only
    split
    · intro taken
      exact absurd ENOENT.neg_lt_zero (not_lt.mpr taken)
    · rename_i i entry found
      obtain ⟨before, after, -, same, -, -⟩ := SlotTable.first_eq_some found
      split
      · intro taken
        exact absurd EACCES.neg_lt_zero (not_lt.mpr taken)
      · split
        · intro taken
          exact absurd EALREADY.neg_lt_zero (not_lt.mpr taken)
        · intro _
          exact ⟨_, rfl, of_decide_eq_true same⟩

theorem meets (root : CStr) (s : State) : Meets machine (protocol root) init s := by
  intro log t t' pid q choice r _ _ done
  cases q with
  | shared q =>
    have result := machine_shared done
    cases q with
    | requestTake id destUser st =>
      intro taken
      simp only [execShared, Prod.mk.injEq] at result
      obtain ⟨rfl, -⟩ := result
      exact shmRequestTake_expected taken
    | _ => trivial
  | _ => trivial

/-- The log of a server is a trace of the protocol, and its processes still keep to it. -/
theorem server_trace {server : Server} {mainPid : Int} {clientSocket : Int → Int} {c : Config}
    (h : Reaches machine (start server mainPid clientSocket) c) :
    Concludes (protocol (rootOf server)) init (fun _ g => g.Left) c ∧
      Trace (protocol (rootOf server)) init machine setupState
        c.log c.state :=
  (start_concludes server mainPid clientSocket).reaches (meets _ _) rfl h

/-- An environment in which every call succeeds. The session of `user` is asked for one thing by
its client, and finds a file `note` in its home directory. -/
def calm (user : CStr) (packet : Option Network.Packet) : Choice where
  reply
    | .file (.realpath path) =>
      .ok (if path.head? = some 47 then path else cstr "/srv/" ++ user ++ cstr "/" ++ path)
    | .file (.stat path) =>
      .ok (if cstr "note" <:+ path then { kind := .regular, mode := 0o644, size := 4 }
        else { kind := .directory, mode := 0o755 })
    | .file (.lstat _) | .file (.fstat _) => .ok { kind := .regular, mode := 0o644, size := 4 }
    | .file (.openPath _ _ _) => .ok 7
    | .file (.mkstemp template) => (.ok 8, template)
    | .file (.lseek _ offset) => .ok offset
    | .file (.read _ _) => .ok []
    | .file (.write _ data) => .ok data.length
    | .file .getcwd => .ok (cstr "/srv/" ++ user)
    | .file (.opendir _) => .ok 9
    | .file (.readdir _) => none
    | .file (.close _) | .file (.setlk _ _ _ _) | .file (.fchmod _ _) | .file (.rename _ _)
    | .file (.unlink _) | .file (.rmdir _) | .file (.mkdir _ _) | .file (.chmod _ _)
    | .file (.chown _ _ _) | .file (.chdir _) | .file (.mkfifo _ _) | .file (.closedir _) => .ok ()
    | .user .geteuid => 0
    | .user (.getpwnam _) => some { uid := 1001, gid := 1001 }
    | .user (.getpwuid _) | .user (.getgrgid _) => some user
    | .user (.runExec _) => 0
    | .user (.seteuid _) | .user (.setegid _) => .ok ()
    | .socket (.select fds) => .ok (fds.take 1)
    | .socket (.sendPacket _ _) => 0
    | .socket .recvPacket => packet
    | .socket (.recvFrameInto _) => .error EIO
    | .shared (.sessionAdd _ _) | .shared .sessionsCollectStale | .shared (.requestAdd _ _ _)
    | .shared (.requestSet _ _) | .shared (.requestsSetFailed _) => 0
    | .shared (.sessionFind _) => (0, none)
    | .shared (.requestTake _ _ _) => (0, none)
    | .shared (.requestsForDest _ _) => (0, [])
    | .alloc _ => true
    | .enterCopy _ _ => ()

def calmServer : Server where
  texts := { strerror := fun _ => [], ctime := fun _ => [] }
  rootDirectory := cstr "/srv"
  serverGid := 1001
  unprivUid := 65534
  unprivGid := 65534
  pid := 0

def line (command : Command) (text : String) : Option Network.Packet :=
  some { command := command.code, payload := cstr text }

/-- Alice and Bob log in, Alice asks to send Bob a file, and he accepts it. -/
def acceptedTransfer : List (Int × Choice × Nat) :=
  [(2, calm (cstr "alice") (line .login "login alice"), 23),
    (3, calm (cstr "bob") (line .login "login bob"), 23),
    (2, calm (cstr "alice") (line .transferReq "transfer_request note bob"), 13),
    (3, calm (cstr "bob") (line .accept "accept inbox 1"), 28)]

end Csap.Sessions
