import Csap.Paths
import Csap.Protocol
import Csap.Utils

/-! `session.c`: users, login, notifications and privileges. A `match` whose
last case goes on at its own indentation is an early return of the source. -/

namespace Csap

open Prog (when)

/-- `session_t`. -/
structure Session where
  loggedIn : Bool := false
  user : CStr := []
  uid : Int := -1
  homePath : CStr := []
  rootPath : CStr
  notifyFd : Int := -1
deriving DecidableEq, Repr

/-- The globals of the server once it is set up, and the process's own id. -/
structure Server where
  texts : Texts
  rootDirectory : CStr
  serverGid : Int
  unprivUid : Int
  unprivGid : Int
  pid : Int

def dropPrivileges (server : Server) : Sys (SysResult Unit) := do
  if (← userCall .geteuid) ≠ 0 then return .ok ()
  match ← userCall (.setegid server.unprivGid) with
  | .error e => return .error e
  | .ok () =>
  match ← userCall (.seteuid server.unprivUid) with
  | .error e =>
    let _ ← userCall (.setegid 0)
    return .error e
  | .ok () => return .ok ()

def isalpha (c : UInt8) : Bool := (65 ≤ c && c ≤ 90) || (97 ≤ c && c ≤ 122)

def isalnum (c : UInt8) : Bool := isalpha c || isDigit 10 c

/-- `none` for a valid name, else the text left in `err_msg`. -/
def validateUsername (username : CStr) : Option CStr :=
  if username.length < 3 ∨ 32 < username.length then
    some (cstr "Username must be between 3 and 32 characters")
  else if !(username.head?.any isalpha) then some (cstr "Username must start with a letter")
  else if !(username.all fun ch => isalnum ch || ch = 95 || ch = 45) then
    some (cstr "Username can only contain letters, numbers, underscores and hyphens")
  else none

def isCsapUser (server : Server) (pwd : Passwd) : Bool :=
  if pwd.uid < 1000 then false
  else if server.serverGid ≠ 0 ∧ pwd.gid ≠ server.serverGid then false
  else true

/-- Messages of `session.c`, cut to `err_size` or `err_size - 1`. -/
def errText (size : Nat) (text : CStr) : Except CStr Unit := .error (snprintf size text)

def createHomeDirectory (server : Server) (root username : CStr) (perms : Nat)
    (newPwd : Passwd) : Sys (Except CStr Unit) := do
  let homeDir := snprintf (PATH_MAX + 64) (root ++ cstr "/" ++ username)
  match ← fileCall (.mkdir homeDir perms) with
  | .error e =>
    if e = EEXIST then return errText 256 (cstr "Home directory already exists")
    return errText 256 (cstr "Failed to create home directory: " ++ server.texts.strerror e)
  | .ok () =>
  match ← fileCall (.chown homeDir newPwd.uid server.serverGid) with
  | .error e =>
    return errText 256
      (cstr "Failed to set ownership of home directory: " ++ server.texts.strerror e)
  | .ok () =>
  match ← fileCall (.chmod homeDir perms) with
  | .error e =>
    return errText 256
      (cstr "Failed to set permissions of home directory: " ++ server.texts.strerror e)
  | .ok () => return .ok ()

/-- Give the original effective user back; `rc` is the outcome if that succeeds. -/
def restoreEuid (server : Server) (originalEuid : Int) (rc : Except CStr Unit) :
    Sys (Except CStr Unit) := do
  match ← userCall (.seteuid originalEuid) with
  | .error e =>
    return errText 255 (cstr "Failed to restore effective UID: " ++ server.texts.strerror e)
  | .ok () => return rc

def adduserArgv (username : CStr) : List CStr :=
  [cstr "adduser", cstr "--disabled-password", cstr "--gecos", [], cstr "--ingroup",
    cstr "csap_group", cstr "--no-create-home", username]

def handleCreateUser (server : Server) (username : CStr) (perms : Nat) (root : CStr) :
    Sys (Except CStr Unit) := do
  let originalEuid ← userCall .geteuid
  match validateUsername username with
  | some msg => return errText 256 msg
  | none =>
  if 0o777 < perms then
    return errText 255 (cstr "Invalid permissions: must be between 0000 and 0777")
  match ← userCall (.seteuid 0) with
  | .error e =>
    return errText 255 (cstr "Failed to set effective UID to root: " ++ server.texts.strerror e)
  | .ok () =>
  match ← userCall (.getpwnam username) with
  | some pwd =>
    if !isCsapUser server pwd then
      restoreEuid server originalEuid
        (errText 255 (cstr "User exists but is not a valid CSAP user"))
    else
      let rc ← createHomeDirectory server root username perms pwd
      restoreEuid server originalEuid rc
  | none =>
    if (← userCall .geteuid) ≠ 0 then
      restoreEuid server originalEuid
        (errText 256 (cstr "Insufficient privileges to create user"))
    else
    let added ← userCall (.runExec (adduserArgv username))
    if added < 0 then
      restoreEuid server originalEuid (errText 256 (cstr "Failed to create user"))
    else
    match ← userCall (.getpwnam username) with
    | none =>
      restoreEuid server originalEuid
        (errText 255 (cstr "Failed to retrieve user info after creation"))
    | some pwd =>
      let rc ← createHomeDirectory server root username perms pwd
      restoreEuid server originalEuid rc

def sessionFifoPath (root : CStr) (pid : Int) : CStr :=
  snprintf (PATH_MAX + 64) (root ++ cstr "/.sessions/fifo_" ++ decimal pid)

/-- `text` is the formatted message; the ones the server sends fit the buffer it is formatted in. -/
def notifyPid (root : CStr) (pid : Int) (text : CStr) : Sys (SysResult Unit) := do
  let fifoPath := sessionFifoPath root pid
  match ← fileCall (.openPath fifoPath { access := .wronly, nonblock := true } 0) with
  | .error e => return .error e
  | .ok fd =>
    let r ← writeAll fd text
    let _ ← fileCall (.close fd)
    return r

/-- `stat(...) == 0 && S_ISDIR(...)`. -/
def statIsDir : SysResult Stat → Bool
  | .ok st => st.kind = .directory
  | .error _ => false

/-- The exits of `handle_login` after the fifo may exist. -/
def loginFailed (server : Server) (session : Session) (nFd : Int) (fifoName msg : CStr) :
    Sys (Except CStr Unit × Session) := do
  when (0 ≤ nFd) do
    let _ ← fileCall (.close nFd)
  let _ ← fileCall (.unlink fifoName)
  when ((← userCall .geteuid) = 0) do
    let _ ← dropPrivileges server
  return (errText 255 msg, { session with notifyFd := -1, loggedIn := false })

def handleLogin (server : Server) (session : Session) (username : CStr) :
    Sys (Except CStr Unit × Session) := do
  match ← userCall (.getpwnam username) with
  | none => return (errText 255 (cstr "User does not exist"), session)
  | some pwd =>
  if !isCsapUser server pwd then
    return (errText 255 (cstr "User exists but is not a valid CSAP user"), session)
  let homeDir :=
    snprintf (PATH_MAX + 64) (session.rootPath ++ cstr "/" ++ username.take 32)
  match ← validatePath homeDir session.rootPath with
  | (.error _, _) =>
    return (errText 255 (cstr "User's home directory is invalid or does not exist"), session)
  | (.ok (), resolvedHome) =>
  let st ← fileCall (.stat resolvedHome)
  if !statIsDir st then
    return (errText 255 (cstr "User's home directory does not exist"), session)
  match ← userCall (.seteuid 0) with
  | .error e =>
    return (errText 255
      (cstr "Failed to set effective UID to root: " ++ server.texts.strerror e), session)
  | .ok () =>
  let fifoName := sessionFifoPath session.rootPath server.pid
  let _ ← fileCall (.unlink fifoName)
  match ← fileCall (.mkfifo fifoName 0o660) with
  | .error e =>
    loginFailed server session (-1) fifoName
      (cstr "Failed to create fifo: " ++ server.texts.strerror e)
  | .ok () =>
  match ← fileCall (.openPath fifoName { access := .rdwr, nonblock := true } 0) with
  | .error e =>
    loginFailed server session (-1) fifoName
      (cstr "Failed to open fifo: " ++ server.texts.strerror e)
  | .ok nFd =>
  let sessionDir := snprintf (PATH_MAX + 64) (session.rootPath ++ cstr "/.sessions")
  match ← fileCall (.chown sessionDir 0 server.serverGid) with
  | .error e =>
    loginFailed server session nFd fifoName
      (cstr "Failed to set ownership of .sessions directory: " ++ server.texts.strerror e)
  | .ok () =>
  match ← fileCall (.chown fifoName pwd.uid server.serverGid) with
  | .error e =>
    loginFailed server session nFd fifoName
      (cstr "Failed to set ownership of fifo: " ++ server.texts.strerror e)
  | .ok () =>
  match ← fileCall (.chdir resolvedHome) with
  | .error e =>
    loginFailed server session nFd fifoName
      (cstr "Failed to change directory to user's home: " ++ server.texts.strerror e)
  | .ok () =>
  match ← userCall (.setegid server.serverGid) with
  | .error e =>
    loginFailed server session nFd fifoName
      (cstr "Failed to set effective GID: " ++ server.texts.strerror e)
  | .ok () =>
  match ← userCall (.seteuid pwd.uid) with
  | .error e =>
    loginFailed server session nFd fifoName
      (cstr "Failed to set effective UID: " ++ server.texts.strerror e)
  | .ok () =>
    return (.ok (), { session with
      notifyFd := nFd
      loggedIn := true
      uid := pwd.uid
      user := snprintf 32 username
      homePath := snprintf PATH_MAX resolvedHome })

end Csap
