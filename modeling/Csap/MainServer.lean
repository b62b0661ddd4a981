import Csap.ClientMain
import Csap.CriticalSections

/-! `main-server.c` outside the sessions: how the server is set up, its main loop, the handlers of its
signals, and what is forked for a connection. What is printed is left out. -/

namespace Csap.MainServer

open Prog (iterate when perform)

/-- What the server is started with; `inetAton` is the C library's, and the texts are those of the
sessions. -/
structure Arguments where
  texts : Texts
  inetAton : CStr → Bool
  rootDirectory : Option CStr
  ipAddress : CStr := cstr "127.0.0.1"
  portNumber : CStr := cstr "8080"

structure Inherited where
  rootDirectory : CStr
  serverGid : Int
  unprivUid : Int
  unprivGid : Int
  listening : Int
  clientSocket : Int
deriving DecidableEq, Repr

/-- The globals that signal handlers use; `sharedMemory` is an address, 0 for `NULL`. -/
inductive Global
  | shmId
  | semId
  | sharedMemory
  | sessionsCleanup
deriving DecidableEq, Repr

inductive Signal
  | sigpipe
  | sigterm
  | sigint
deriving DecidableEq, Repr

/-- `zeroTables` is `memset` and the first `next_id`; the `remove`s are `IPC_RMID`, and `kill` with 0
looks for a process. `delivered` and `finished` stand around the body of a handler, and `killed` is
how somebody else ends a session. -/
inductive Call
  | sys (c : Csap.Call)
  | get (v : Global)
  | set (v : Global) (value : Int)
  | shmget
  | shmat (shmId : Int)
  | shmdt (shmPtr : Int)
  | shmRemove (shmId : Int)
  | zeroTables
  | semget
  | semStat (semId : Int)
  | semSet (semId gid : Int)
  | semSetVal (semId val : Int)
  | semRemove (semId : Int)
  | signal (sig : Signal) (ignored : Bool)
  | sigaction
  | delivered
  | finished
  | kill (pid : Int)
  | terminateGroup
  | getgrnam (name : CStr)
  | getuid
  | getpid
  | socket
  | setsockopt (sockfd : Int)
  | bind (sockfd : Int) (ip : CStr) (port : Int)
  | listen (sockfd : Int)
  | accept (sockfd : Int)
  | close (fd : Int)
  | fork (inherited : Inherited)
  | forked
  | waitpid (nohang : Bool)
  | exit (code : Int)
  | killed
deriving DecidableEq, Repr

@[reducible] def Call.Reply : Call → Type
  | sys c => c.Reply
  | get _ => Int
  | shmget | shmat _ | semget | socket | accept _ | fork _ => SysResult Int
  | shmdt _ | shmRemove _ | semStat _ | semSet _ _ | semSetVal _ _ | semRemove _ => SysResult Unit
  | sigaction | kill _ | setsockopt _ | bind _ _ _ | listen _ | close _ => SysResult Unit
  | set _ _ | zeroTables | signal _ _ | delivered | finished | terminateGroup | exit _ => Unit
  | getgrnam _ => Option Int
  | getuid | getpid | waitpid _ | killed => Int
  | forked => Inherited

abbrev Main := Prog Call.Reply

abbrev call (c : Call) : Main c.Reply := perform c

abbrev sys {α : Type} (p : Sys α) : Main α := p.embed Call.sys

def close (fd : Int) : Main Unit := do
  let _ ← call (.close fd)

/-- `exit` does not return. -/
def exit {α : Type} (code : Int) : Main α := do
  call (.exit code)
  iterate () fun _ => return (.inl () : Unit ⊕ α)

section setup

/-- The ways out of `setup_shmem` once it has made a semaphore. -/
def undoSetup (shmId semId shmPtr : Int) (e : Errno) : Main (SysResult Unit) := do
  let _ ← call (.shmdt shmPtr)
  let _ ← call (.shmRemove shmId)
  let _ ← call (.semRemove semId)
  call (.set .semId (-1))
  call (.set .shmId (-1))
  return .error e

/-- The permissions of the semaphore, which stay as they are if they cannot be read. -/
def ownSemaphore (semId ownerGid : Int) : Main (SysResult Unit) := do
  match ← call (.semStat semId) with
  | .error _ => return .ok ()
  | .ok () => call (.semSet semId ownerGid)

/-- `setup_shmem`, which leaves what it has made in the globals. -/
def setupShmem (ownerGid : Int) : Main (SysResult Unit) := do
  match ← call .shmget with
  | .error e => return .error e
  | .ok shmId =>
  call (.set .shmId shmId)
  match ← call (.shmat shmId) with
  | .error e =>
    let _ ← call (.shmRemove shmId)
    call (.set .shmId (-1))
    return .error e
  | .ok shmPtr =>
  call .zeroTables
  match ← call .semget with
  | .error e =>
    let _ ← call (.shmdt shmPtr)
    let _ ← call (.shmRemove shmId)
    call (.set .semId (-1))
    return .error e
  | .ok semId =>
  call (.set .semId semId)
  match ← ownSemaphore semId ownerGid with
  | .error e => undoSetup shmId semId shmPtr e
  | .ok () =>
  match ← call (.semSetVal semId 1) with
  | .error e => undoSetup shmId semId shmPtr e
  | .ok () =>
    call (.set .sharedMemory shmPtr)
    call (.set .shmId shmId)
    call (.set .semId semId)
    let _ ← call (.shmRemove shmId)
    return .ok ()

def cleanupShmem (shmId semId shmPtr : Int) : Main Unit := do
  when (shmPtr ≠ 0) do
    let _ ← call (.shmdt shmPtr)
  when (0 ≤ shmId) do
    let _ ← call (.shmRemove shmId)
  when (0 ≤ semId) do
    let _ ← call (.semRemove semId)

def cleanupIpc : Main Unit := do
  let shmId ← call (.get .shmId)
  let semId ← call (.get .semId)
  let shmPtr ← call (.get .sharedMemory)
  cleanupShmem shmId semId shmPtr
  call (.set .shmId (-1))
  call (.set .sharedMemory 0)

def withoutSlashes (path : CStr) : CStr := (path.reverse.dropWhile (· = 47)).reverse

/-- The entry of a session that has ended, where the name of the entry is that of a fifo. -/
def removeStale (sessionsDir name : CStr) : Main Unit := do
  when (cstr "fifo_" <+: name) do
    match ← call (.kill (atoi (name.drop 5))) with
    | .error e => when (e = ESRCH) do
        let _ ← call (.sys (.file (.unlink (snprintf (PATH_MAX + 320) (sessionsDir ++ cstr "/" ++ name)))))
    | .ok () => return ()

def removeStaleEntries (sessionsDir : CStr) (dir : Int) : Main Unit :=
  iterate () fun _ => do
    match ← call (.sys (.file (.readdir dir))) with
    | none => return .inr ()
    | some name =>
    if name = cstr "." ∨ name = cstr ".." then return .inl ()
    removeStale sessionsDir name
    return .inl ()

/-- `mkdir`, which may find the directory there. -/
def makeDirectory (path : CStr) (mode : Nat) : Main Unit := do
  match ← call (.sys (.file (.mkdir path mode))) with
  | .error e => when (e ≠ EEXIST) (exit 1)
  | .ok () => return ()

def createRootDirectory (rootDirectory : CStr) : Main CStr := do
  makeDirectory rootDirectory 0o755
  match ← call (.sys (.file (.realpath rootDirectory))) with
  | .error _ => exit 1
  | .ok resolvedRoot =>
  let rootDirectory := snprintf PATH_MAX (withoutSlashes resolvedRoot)
  let sessionsDir := snprintf PATH_MAX (rootDirectory ++ cstr "/.sessions")
  makeDirectory sessionsDir 0o770
  match ← call (.sys (.file (.opendir sessionsDir))) with
  | .error _ => exit 1
  | .ok dir =>
    removeStaleEntries sessionsDir dir
    let _ ← call (.sys (.file (.closedir dir)))
    return rootDirectory

/-- `setup_server_gid`, up to the text of its error. -/
def setupServerGid : Main (Option Int) := do
  match ← call (.getgrnam (cstr "csap_group")) with
  | some gid => return some gid
  | none =>
  match ← call (.sys (.user (.seteuid 0))) with
  | .error _ => return none
  | .ok () =>
  let created ← call (.sys (.user (.runExec [cstr "groupadd", cstr "csap_group"])))
  if created < 0 then
    let _ ← call (.sys (.user (.seteuid (← call .getuid))))
    return none
  let found ← call (.getgrnam (cstr "csap_group"))
  let _ ← call (.sys (.user (.seteuid (← call .getuid))))
  return found

/-- The uid of `nobody` and the gid of `nogroup`. -/
def setupUnprivilegedUser : Main (Int × Int) := do
  let pwd ← call (.sys (.user (.getpwnam (cstr "nobody"))))
  let grp ← call (.getgrnam (cstr "nogroup"))
  return ((pwd.map Passwd.uid).getD 65534, grp.getD 65534)

def setupSignalHandler : Main Unit := do
  match ← call .sigaction with
  | .error _ => exit 1
  | .ok () => return ()

/-- `make_endpoint`, which the client has too. -/
def Arguments.endpoint (args : Arguments) : Option Int :=
  ClientMain.makeEndpoint
    { texts := args.texts
      inetAton := args.inetAton
      ipAddress := args.ipAddress
      portNumber := args.portNumber }

def startServer (args : Arguments) : Main Int := do
  match ← call .socket with
  | .error _ => exit 1
  | .ok sockfd =>
  match ← call (.setsockopt sockfd) with
  | .error _ => exit 1
  | .ok () =>
  match args.endpoint with
  | none =>
    close sockfd
    exit 1
  | some port =>
  match ← call (.bind sockfd args.ipAddress port) with
  | .error _ =>
    close sockfd
    exit 1
  | .ok () =>
  match ← call (.listen sockfd) with
  | .error _ =>
    close sockfd
    exit 1
  | .ok () => return sockfd

end setup

section handlers

/-- `handle_signals`: the children that have ended are waited for. -/
def handleSignals : Main Unit :=
  iterate () fun _ => do
    if 0 < (← call (.waitpid true)) then
      call (.set .sessionsCleanup 1)
      return .inl ()
    else return .inr ()

/-- `SIGCHLD`, whenever it is delivered. -/
def onChild : Main Unit :=
  iterate () fun _ => do
    call .delivered
    handleSignals
    call .finished
    return (.inl () : Unit ⊕ Unit)

/-- `handle_termination`, when `SIGTERM` or `SIGINT` is delivered. -/
def onTermination : Main Unit := do
  call .delivered
  cleanupIpc
  call (.signal .sigterm true)
  call .terminateGroup
  exit 0

end handlers

section loop

/-- The tables are there, and are looked through for sessions whose processes are no more. -/
def collectStaleSessions : Main Unit := do
  call (.set .sessionsCleanup 0)
  let shmPtr ← call (.get .sharedMemory)
  let semId ← call (.get .semId)
  if shmPtr = 0 ∨ semId < 0 then return ()
  let r ← call (.sys (.shared .sessionsCollectStale))
  when (r < 0) (call (.set .sessionsCleanup 1))

/-- `while(waitpid(-1, NULL, 0) > 0)`. -/
def waitForChildren : Main Unit :=
  iterate () fun _ => do
    if 0 < (← call (.waitpid false)) then return .inl () else return .inr ()

/-- Input from the operator: whether the round of the loop goes on, is over, or is the last one. -/
def handleInput : Main (Option (Unit ⊕ Unit)) := do
  match ← call (.sys (.file (.read 0 1023))) with
  | .error e => if e = EINTR then return some (.inl ()) else return some (.inr ())
  | .ok buffer =>
  if buffer = [] then return some (.inr ())
  if (buffer.takeWhile (· ≠ 0)).takeWhile (· ≠ 10) = cstr "exit" then
    call (.signal .sigterm true)
    call .terminateGroup
    waitForChildren
    return some (.inr ())
  return none

def Inherited.server (texts : Texts) (inherited : Inherited) (pid : Int) : Server where
  texts
  rootDirectory := inherited.rootDirectory
  serverGid := inherited.serverGid
  unprivUid := inherited.unprivUid
  unprivGid := inherited.unprivGid
  pid

/-- The child's copy of the listening socket is closed, and its client served. -/
def serveConnection (texts : Texts) (inherited : Inherited) (pid : Int) : Main Unit := do
  close inherited.listening
  sys (serveClient (inherited.server texts pid) inherited.clientSocket)
  exit 0

/-- What the child of `fork` does. -/
def connection (texts : Texts) : Main Unit := do
  let inherited ← call .forked
  let pid ← call .getpid
  serveConnection texts inherited pid

/-- A connection is accepted, and served by a process of its own. -/
def acceptConnection (inherited : Inherited) : Main Unit := do
  match ← call (.accept inherited.listening) with
  | .error _ => return ()
  | .ok clientSocket =>
    let _ ← call (.fork { inherited with clientSocket })
    close clientSocket

def round (inherited : Inherited) : Main (Unit ⊕ Unit) := do
  let sessionsCleanup ← call (.get .sessionsCleanup)
  when (sessionsCleanup ≠ 0) collectStaleSessions
  match ← call (.sys (.socket (.select [0, inherited.listening]))) with
  | .error e => if e = EINTR then return .inl () else return .inr ()
  | .ok readfds =>
  match ← (if 0 ∈ readfds then handleInput else pure none) with
  | some ended => return ended
  | none =>
    when (inherited.listening ∈ readfds) (acceptConnection inherited)
    return .inl ()

def main (args : Arguments) : Main Unit := do
  match args.rootDirectory with
  | none => exit 1
  | some argument =>
  let rootDirectory ← createRootDirectory (snprintf PATH_MAX argument)
  call (.signal .sigpipe true)
  match ← setupServerGid with
  | none => exit 1
  | some serverGid =>
  match ← setupShmem serverGid with
  | .error _ => exit 1
  | .ok () =>
  setupSignalHandler
  call (.signal .sigterm false)
  call (.signal .sigint false)
  let (unprivUid, unprivGid) ← setupUnprivilegedUser
  let listening ← startServer args
  iterate () fun _ =>
    round { rootDirectory, serverGid, unprivUid, unprivGid, listening, clientSocket := -1 }
  cleanupIpc
  close listening
  exit 0

end loop

end Csap.MainServer
