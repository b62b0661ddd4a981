import Csap.Fsops
import Csap.Notification
import Csap.Session
import Csap.Transfer

/-! `main-server.c`: the commands of `dispatch`, one definition each, and the loop
of `handle_session`. -/

namespace Csap

open Prog (iterate when)

def pathErrorReason (err : Errno) : CStr :=
  if err = EPERM then cstr "Path outside of allowed scope"
  else if err = ENOENT then cstr "No such file or directory (check the parent directory)"
  else if err = ENAMETOOLONG then cstr "Path or file name too long"
  else if err = EACCES then cstr "Permission denied on a path component"
  else if err = ELOOP then cstr "Too many symbolic links in path"
  else if err = ENOTDIR then cstr "A component of the path is not a directory"
  else if err = ENOMEM then cstr "Out of memory while resolving the path"
  else cstr "Invalid path"

/-- The payload `recv_packet` hands over: NULL when it is empty, else a C string. -/
def payloadText (payload : Network.Bytes) : Option CStr :=
  if payload = [] then none else some (payload.takeWhile (· ≠ 0))

def failWith (err : Errno) (reason : CStr) : Sys Unit := do
  let _ ← sendErr err.code reason

def succeedWith (reason : CStr) : Sys Unit := do
  let _ ← sendOk reason

def cmdParse (payload : Option CStr) : Sys (Option Cmd) := do
  match ← parseCommand payload with
  | .error errorMsg =>
    failWith EINVAL errorMsg
    return none
  | .ok out => return some out

def cmdResolve (path root : CStr) : Sys (Option CStr) := do
  match ← validatePath path root with
  | (.error r, _) =>
    failWith r (pathErrorReason r)
    return none
  | (.ok (), out) => return some out

def cmdPerms (arg : CStr) : Sys (Option Nat) := do
  match validatePermissions arg with
  | none =>
    failWith EINVAL (cstr "Invalid permissions format")
    return none
  | some perms => return some perms

/-- One notification for each request found at login; failures are only logged. -/
def notifyWaiting (server : Server) (rootPath : CStr) : List TransferRequestEntry → Sys Unit
  | [] => return ()
  | request :: rest => do
    let baseName := pathBasename (NAME_MAX + 1) request.filePathAbsolute
    let _ ← notifyPid rootPath server.pid (Notification.req request.id baseName).text
    notifyWaiting server rootPath rest

def dispatchLogin (server : Server) (session : Session) (payload : Option CStr) :
    Sys Session := do
  let some loginCommand ← cmdParse payload | return session
  if session.loggedIn then
    failWith EACCES
      (snprintf 256 (cstr "User " ++ session.user ++ cstr " is already logged in"))
    return session
  let username := loginCommand.buf
  if 32 - 1 < username.length then
    failWith EINVAL (cstr "Username too long")
    return session
  match ← handleLogin server session username with
  | (.error errorMsg, session) =>
    failWith EACCES errorMsg
    return session
  | (.ok (), session) =>
    succeedWith (snprintf 128 (cstr "Logged in as " ++ session.user))
    let _ ← sharedCall (.sessionAdd session.user server.pid)
    let (_, requests) ← sharedCall (.requestsForDest session.user MAX_ENTRIES)
    notifyWaiting server session.rootPath requests
    return session

def dispatchCreateUser (server : Server) (session : Session) (payload : Option CStr) :
    Sys Unit := do
  let some cuCommand ← cmdParse payload | return
  if cuCommand.argc < 2 then
    failWith EINVAL (cstr "Insufficient arguments for create_user")
    return
  let some perms ← cmdPerms cuCommand.buf2 | return
  match ← handleCreateUser server cuCommand.buf perms session.rootPath with
  | .error errorMsg =>
    failWith EACCES (if errorMsg = [] then cstr "Failed to create user" else errorMsg)
  | .ok () => succeedWith []

/-- The answer when `shm_session_find` failed or found no such user. -/
def sourceLost (found : Int) : Sys Unit := do
  if found < 0 then
    let _ ← sendErr (-found) (cstr "Failed to look up source user")
  else
    failWith ENOENT (cstr "Source user not found")

/-- What `accept` and `reject` do first: take the request and look its source user up. The result
is the entry with the source's pid and whether it is online; `none` if an error was answered. -/
def takeRequest (session : Session) (requestId : Int) (newStatus : RequestStatus)
    (reason : CStr) : Sys (Option (TransferRequestEntry × Int × Bool)) := do
  let (r, requestCopy) ← sharedCall (.requestTake requestId session.user newStatus)
  if r < 0 then
    let _ ← sendErr (-r) reason
    return none
  let requestCopy := requestCopy.getD {}
  let (found, source) ← sharedCall (.sessionFind requestCopy.sourceUsername)
  if found ≤ 0 then
    sourceLost found
    return none
  return some (requestCopy, source.getD (-1, false))

def notifySource (session : Session) (sourceUserPid : Int) (sourceUserOnline : Bool)
    (notification : Notification) : Sys (SysResult Unit) :=
  if sourceUserOnline then notifyPid session.rootPath sourceUserPid notification.text
  else return .ok ()

/-- The end of `accept`, once the copy has been tried. -/
def answerAccept (session : Session) (requestCopy : TransferRequestEntry) (sourceUserPid : Int)
    (sourceUserOnline : Bool) (baseName fullDestFilePath : CStr) (copyResult : SysResult Unit) :
    Sys Unit := do
  let notification := match copyResult with
    | .error e => Notification.fail requestCopy.id e
    | .ok () => Notification.accept requestCopy.id fullDestFilePath
  match ← notifySource session sourceUserPid sourceUserOnline notification with
  | .error e => failWith e (cstr "Failed to notify source user about acceptance")
  | .ok () =>
  match copyResult with
  | .error e => failWith e (cstr "Failed to copy file")
  | .ok () =>
    succeedWith (snprintf (128 + NAME_MAX)
      (cstr "Transfer request accepted successfully, file copied to " ++ baseName.take NAME_MAX))

def acceptCopy (session : Session) (requestId : Int) (fullDestPath : CStr)
    (requestCopy : TransferRequestEntry) (sourceUserPid : Int) (sourceUserOnline : Bool) :
    Sys Unit := do
  let baseName := pathBasename (NAME_MAX + 1) requestCopy.filePathAbsolute
  let fullDestFilePath :=
    snprintf (PATH_MAX + NAME_MAX + 2) (fullDestPath ++ cstr "/" ++ baseName.take NAME_MAX)
  let copyResult ← executeTransferCopy requestCopy.filePathAbsolute fullDestFilePath
  when (!copyResult.isOk) do
    let _ ← sharedCall (.requestSet requestId .failed)
  answerAccept session requestCopy sourceUserPid sourceUserOnline baseName fullDestFilePath
    copyResult

def dispatchAccept (session : Session) (payload : Option CStr) : Sys Unit := do
  let some acceptCommand ← cmdParse payload | return
  let requestId := atoi acceptCommand.buf2
  if requestId ≤ 0 then
    failWith EINVAL (cstr "Invalid request ID")
    return
  let some fullDestPath ← cmdResolve acceptCommand.buf session.homePath | return
  let some (requestCopy, sourceUserPid, sourceUserOnline) ←
    takeRequest session requestId .accepted (cstr "Failed to accept request") | return
  acceptCopy session requestId fullDestPath requestCopy sourceUserPid sourceUserOnline

def dispatchReject (session : Session) (payload : Option CStr) : Sys Unit := do
  let some rejectCommand ← cmdParse payload | return
  let requestId := atoi rejectCommand.buf
  if requestId ≤ 0 then
    failWith EINVAL (cstr "Invalid request ID")
    return
  let some (requestCopy, sourceUserPid, sourceUserOnline) ←
    takeRequest session requestId .rejected (cstr "Failed to reject request") | return
  match ← notifySource session sourceUserPid sourceUserOnline
      (Notification.reject requestCopy.id) with
  | .error e => failWith e (cstr "Failed to notify source user about rejection")
  | .ok () => succeedWith (cstr "Transfer request rejected successfully")

/-- Does an account with a home directory belong to this name? -/
def destUserExists (server : Server) (session : Session) (destUser : CStr) : Sys Bool := do
  match ← userCall (.getpwnam destUser) with
  | none => return false
  | some pwd =>
  if !isCsapUser server pwd then return false
  let destUserHome :=
    snprintf (PATH_MAX + NAME_MAX + 2) (session.rootPath ++ cstr "/" ++ destUser.take 32)
  return statIsDir (← fileCall (.stat destUserHome))

/-- The request is entered, and announced to a destination seen online. No answer is sent on
success: the client waits for the destination to accept or reject. -/
def enterRequest (session : Session) (destUser fullSrcPath : CStr) (destUserPid : Int)
    (destOnline : Bool) : Sys Unit := do
  let newId ← sharedCall (.requestAdd session.user destUser fullSrcPath)
  if newId < 0 then
    failWith ENOMEM (cstr "Failed to add transfer request")
    return
  if destOnline then
    let baseName := pathBasename (NAME_MAX + 1) fullSrcPath
    match ← notifyPid session.rootPath destUserPid (Notification.req newId baseName).text with
    | .error e => failWith e (cstr "Failed to notify destination user about transfer request")
    | .ok () => return
  else return

def dispatchTransferReq (server : Server) (session : Session) (payload : Option CStr) :
    Sys Unit := do
  let some transferCommand ← cmdParse payload | return
  let destUser := transferCommand.buf2
  let some fullSrcPath ← cmdResolve transferCommand.buf session.homePath | return
  match ← fileCall (.stat fullSrcPath) with
  | .error e => failWith e (cstr "Source file does not exist")
  | .ok srcSt =>
  if srcSt.kind ≠ .regular then
    failWith EINVAL (cstr "Only regular files can be transferred")
    return
  let (found, dest) ← sharedCall (.sessionFind destUser)
  if found < 0 then
    failWith ENOENT (cstr "Destination user not found")
    return
  let (destUserPid, destOnline) := dest.getD (-1, false)
  if found = 0 ∨ !destOnline then
    let userExists ← destUserExists server session destUser
    if !userExists then
      failWith ENOENT (cstr "Destination user does not exist")
      return
    if destUser = session.user then
      failWith EINVAL (cstr "Cannot transfer a file to yourself")
      return
    enterRequest session destUser fullSrcPath destUserPid false
  else
    enterRequest session destUser fullSrcPath destUserPid true

def dispatchCreate (session : Session) (payload : Option CStr) : Sys Unit := do
  let some createCommand ← cmdParse payload | return
  let some fullPath ← cmdResolve createCommand.buf session.homePath | return
  let some perms ← cmdPerms createCommand.buf2 | return
  match ← createCmd fullPath perms createCommand.isDir with
  | .error e => failWith e (cstr "Failed to create file/directory")
  | .ok () => succeedWith (cstr "File/Directory created successfully")

def dispatchChmod (session : Session) (payload : Option CStr) : Sys Unit := do
  let some chmodCommand ← cmdParse payload | return
  let some fullPath ← cmdResolve chmodCommand.buf session.homePath | return
  let some perms ← cmdPerms chmodCommand.buf2 | return
  match ← chmodCmd fullPath perms with
  | .error e => failWith e (cstr "Failed to change permissions")
  | .ok () => succeedWith (cstr "Permissions changed successfully")

def unlockAndClose (fd : Int) : Sys Unit :=
  when (0 ≤ fd) do
    let _ ← releaseLock fd 0 0
    let _ ← fileCall (.close fd)

/-- Open for locking what the destination names; a file moved into a directory is first created
there. `-1` where there is nothing to lock. -/
def openMoveDest (srcStat : Stat) (fullSrcPath fullDestPath : CStr) :
    Sys (Except (Errno × CStr) (Int × CStr)) := do
  let destPathFinal := snprintf (PATH_MAX + NAME_MAX + 2) fullDestPath
  match ← fileCall (.stat destPathFinal) with
  | .error _ => return .ok (-1, destPathFinal)
  | .ok destStat =>
  if destStat.kind = .regular then
    match ← fileCall (.openPath destPathFinal { access := .rdwr } 0) with
    | .error e => return .error (e, cstr "Failed to open destination file for locking")
    | .ok destFd => return .ok (destFd, destPathFinal)
  if destStat.kind = .directory ∧ srcStat.kind = .regular then
    let baseName := basename (snprintf PATH_MAX fullSrcPath)
    let dest := snprintf (PATH_MAX + NAME_MAX + 2) (fullDestPath ++ cstr "/" ++ baseName)
    match ← fileCall (.openPath dest { access := .rdwr, creat := true, excl := true }
        (srcStat.mode &&& 0o777)) with
    | .error e => return .error (e, cstr "Failed to create destination file in directory")
    | .ok destFd => return .ok (destFd, dest)
  return .ok (-1, destPathFinal)

/-- Open the source for locking if it is a regular file. -/
def lockMoveSource (srcStat : Stat) (fullSrcPath : CStr) : Sys (Option Int) := do
  if srcStat.kind ≠ .regular then return some (-1)
  match ← fileCall (.openPath fullSrcPath { access := .rdwr } 0) with
  | .error e =>
    failWith e (cstr "Failed to open source file for locking")
    return none
  | .ok srcFd =>
  match ← acquireWriteLock srcFd 0 0 with
  | .error e =>
    failWith e (cstr "Failed to acquire write lock on source file")
    let _ ← fileCall (.close srcFd)
    return none
  | .ok () => return some srcFd

def dispatchMove (session : Session) (payload : Option CStr) : Sys Unit := do
  let some moveCommand ← cmdParse payload | return
  let some fullSrcPath ← cmdResolve moveCommand.buf session.homePath | return
  let some fullDestPath ← cmdResolve moveCommand.buf2 session.homePath | return
  match ← fileCall (.stat fullSrcPath) with
  | .error e => failWith e (cstr "Failed to get source file/directory info")
  | .ok srcStat =>
  let some srcFd ← lockMoveSource srcStat fullSrcPath | return
  match ← openMoveDest srcStat fullSrcPath fullDestPath with
  | .error (e, reason) =>
    failWith e reason
    unlockAndClose srcFd
  | .ok (destFd, destPathFinal) =>
  let locked ← if 0 ≤ destFd then acquireWriteLock destFd 0 0 else pure (.ok ())
  match locked with
  | .error e =>
    failWith e (cstr "Failed to acquire write lock on destination file")
    unlockAndClose srcFd
    let _ ← fileCall (.close destFd)
  | .ok () =>
  match ← moveCmd fullSrcPath destPathFinal with
  | .error e =>
    unlockAndClose srcFd
    unlockAndClose destFd
    failWith e (cstr "Failed to move file/directory")
  | .ok () =>
    succeedWith (cstr "File/Directory moved successfully")
    unlockAndClose srcFd
    unlockAndClose destFd

def dispatchCd (session : Session) (payload : Option CStr) : Sys Unit := do
  let some cdCommand ← cmdParse payload | return
  let some fullPath ← cmdResolve cdCommand.buf session.homePath | return
  match ← cdCmd fullPath with
  | .error e => failWith e (cstr "Failed to change directory")
  | .ok () => succeedWith (cstr "Directory changed successfully")

/-- The `error_msg` a transfer left, or the text used when it left none. -/
def orElseText (errorMsg reason : CStr) : CStr := if errorMsg = [] then reason else errorMsg

def dispatchDownload (server : Server) (session : Session) (payload : Option CStr) :
    Sys Unit := do
  let some downloadCommand ← cmdParse payload | return
  let some fullPath ← cmdResolve downloadCommand.buf session.homePath | return
  match ← sendFile server.texts fullPath 0 Command.data.code Command.dataEnd.code with
  | (.error e, errorMsg) => failWith e (orElseText errorMsg (cstr "Failed to download file"))
  | (.ok _, _) => return

def dispatchRead (server : Server) (session : Session) (payload : Option CStr) : Sys Unit := do
  let some readCommand ← cmdParse payload | return
  let some fullPath ← cmdResolve readCommand.buf session.homePath | return
  match ← sendFile server.texts fullPath readCommand.offset Command.readData.code
      Command.readEnd.code with
  | (.error e, errorMsg) => failWith e (orElseText errorMsg (cstr "Failed to read file"))
  | (.ok _, _) => return

/-- The common part of `upload` and `write`: receive the target and answer with the size. -/
def receiveTarget (server : Server) (target : Target) : Sys Unit := do
  match ← receiveIntoFile server.texts target with
  | (.error e, errorMsg) =>
    failWith e (orElseText errorMsg (cstr "Failed to receive data into file"))
  | (.ok n, _) => succeedWith (decimalNat n)

def dispatchUpload (server : Server) (session : Session) (payload : Option CStr) : Sys Unit := do
  let some uploadCommand ← cmdParse payload | return
  let some fullPath ← cmdResolve uploadCommand.buf2 session.homePath | return
  receiveTarget server
    { path := fullPath
      offset := -1
      dataCode := Command.data.code
      endCode := Command.dataEnd.code }

def dispatchWrite (server : Server) (session : Session) (payload : Option CStr) : Sys Unit := do
  let some writeCommand ← cmdParse payload | return
  let some fullPath ← cmdResolve writeCommand.buf session.homePath | return
  receiveTarget server
    { path := fullPath
      offset := writeCommand.offset
      dataCode := Command.writeData.code
      endCode := Command.writeEnd.code }

/-- Open and lock a regular file before it is deleted. -/
def lockDeleted (pathStat : Stat) (fullPath : CStr) : Sys (Option Int) := do
  if pathStat.kind ≠ .regular then return some (-1)
  match ← fileCall (.openPath fullPath { access := .rdwr } 0) with
  | .error e =>
    failWith e (cstr "Failed to open file for locking")
    return none
  | .ok fd =>
  match ← acquireWriteLock fd 0 0 with
  | .error e =>
    failWith e (cstr "Failed to acquire write lock on file")
    let _ ← fileCall (.close fd)
    return none
  | .ok () => return some fd

def dispatchDelete (session : Session) (payload : Option CStr) : Sys Unit := do
  let some deleteCommand ← cmdParse payload | return
  let some fullPath ← cmdResolve deleteCommand.buf session.homePath | return
  match ← fileCall (.stat fullPath) with
  | .error e => failWith e (cstr "Failed to get file/directory info")
  | .ok pathStat =>
  let some fd ← lockDeleted pathStat fullPath | return
  match ← deleteCmd fullPath with
  | .error e =>
    failWith e (cstr "Failed to delete file/directory")
    unlockAndClose fd
  | .ok () =>
    succeedWith (cstr "File/Directory deleted successfully")
    unlockAndClose fd

/-- The directory to list: the working directory, or a path below the root. -/
def listPath (session : Session) (buf : CStr) : Sys (Option CStr) := do
  if buf = [] then
    match ← fileCall .getcwd with
    | .error _ =>
      failWith EINVAL (cstr "Failed to get current working directory")
      return none
    | .ok cwd => return some (snprintf PATH_MAX cwd)
  else cmdResolve buf session.rootPath

def dispatchList (server : Server) (session : Session) (payload : Option CStr) : Sys Unit := do
  let some listCommand ← cmdParse payload | return
  let some fullPath ← listPath session listCommand.buf | return
  match ← list server.texts fullPath with
  | (.error e, _) => failWith e (cstr "Failed to list directory")
  | (.ok (), sb) =>
  let (filled, sb) ← if sb.content = [] then sbAppend sb (cstr "Directory is empty\n")
    else pure (true, sb)
  if !filled then
    failWith ENOMEM (cstr "Failed to allocate memory for response")
    return
  let announced ← sendOk (decimalNat sb.content.length)
  if announced < 0 then return
  match ← sendStreamBuf sb.content Command.listData.code Command.listEnd.code with
  | .error e => failWith e (cstr "Failed to send directory listing")
  | .ok _ => return

/-- Commands that need a login, by the command byte of the header. -/
def dispatchLoggedIn (server : Server) (session : Session) (command : Option Command)
    (payload : Option CStr) : Sys Unit :=
  match command with
  | some .accept => dispatchAccept session payload
  | some .reject => dispatchReject session payload
  | some .transferReq => dispatchTransferReq server session payload
  | some .create => dispatchCreate session payload
  | some .chmod => dispatchChmod session payload
  | some .move => dispatchMove session payload
  | some .cd => dispatchCd session payload
  | some .downloadBegin => dispatchDownload server session payload
  | some .read => dispatchRead server session payload
  | some .uploadBegin => dispatchUpload server session payload
  | some .write => dispatchWrite server session payload
  | some .delete => dispatchDelete session payload
  | some .list => dispatchList server session payload
  | _ => failWith EINVAL (cstr "Command not recognized")

def dispatch (server : Server) (session : Session) (packet : Network.Packet) : Sys Session := do
  let payload := payloadText packet.payload
  let command := Command.ofCode packet.command
  if command = some .login then
    dispatchLogin server session payload
  else if command = some .createUser then
    dispatchCreateUser server session payload
    return session
  else if !session.loggedIn then
    failWith EACCES (cstr "Login required, please execute first 'login <username>' command")
    return session
  else
    dispatchLoggedIn server session command payload
    return session

/-- What `%s` prints for the token `strtok` found. -/
def tokenText (token : Option CStr) : CStr := token.getD (cstr "(null)")

def notifyMessage (text : CStr) : CStr := snprintf (PATH_MAX + 64) text

/-- The message a `REQ` line becomes; the argument is what follows `REQ|`. -/
def requestMessage (line : CStr) : CStr :=
  let requestId := line.takeWhile (· ≠ 124)
  let fileName := (line.drop requestId.length).drop 1
  let intro := cstr "Received transfer request notification with ID " ++ requestId.take 16
  if requestId = [] then
    notifyMessage (cstr "Received malformed transfer request notification")
  else if fileName = [] then notifyMessage intro
  else notifyMessage (intro ++ cstr " for file: " ++ fileName)

/-- The packet a line of the session's fifo is passed on as. -/
def handleNotification (notifyBuffer : CStr) : Sys Unit := do
  if notifyBuffer.take 7 = cstr "ACCEPT|" then
    let requestId := tokenText (tokens 124 [] (notifyBuffer.drop 7)).head?
    let _ ← sendOk
      (notifyMessage (cstr "Transfer request with ID " ++ requestId ++ cstr " accepted"))
  else if notifyBuffer.take 7 = cstr "REJECT|" then
    let requestId := tokenText (tokens 124 [] (notifyBuffer.drop 7)).head?
    failWith ECANCELED
      (notifyMessage (cstr "Transfer request with ID " ++ requestId ++ cstr " rejected"))
  else if notifyBuffer.take 4 = cstr "REQ|" then
    let _ ← sendPacket RSP_NOTIFY (requestMessage (notifyBuffer.drop 4))
  else if notifyBuffer.take 5 = cstr "FAIL|" then
    let fields := tokens 124 [] (notifyBuffer.drop 5)
    let errCode := (fields.tail.head?.map atoi).getD EIO.code
    let _ ← sendErr errCode
      (notifyMessage (cstr "Transfer request with ID " ++ tokenText fields.head? ++
        cstr " failed"))
  else
    failWith EPROTO
      (notifyMessage (cstr "Unknown notification received: " ++ notifyBuffer.take 128))

/-- The branch of the session loop for the client's socket; `none` closes the session. -/
def receiveCommand (server : Server) (session : Session) : Sys (Option Session) := do
  match ← socketCall .recvPacket with
  | none => return none
  | some packet => return some (← dispatch server session packet)

/-- The branch for the fifo; `false` closes the session. -/
def receiveNotification (session : Session) : Sys Bool := do
  match ← readLine session.notifyFd (PATH_MAX + 64 - 1) with
  | .error _ => return false
  | .ok (notifyBuffer, _) =>
    handleNotification notifyBuffer
    return true

/-- The `for(;;)` of `handle_session`; it ends with the session as it is then. -/
def sessionLoop (server : Server) (clientSocket : Int) (session : Session) : Sys Session :=
  iterate session fun session => do
    let readfds := clientSocket :: (if 0 ≤ session.notifyFd then [session.notifyFd] else [])
    match ← socketCall (.select readfds) with
    | .error e => if e = EINTR then return .inl session else return .inr session
    | .ok ready =>
    match ← (if clientSocket ∈ ready then receiveCommand server session
        else pure (some session)) with
    | none => return .inr session
    | some session =>
    if 0 ≤ session.notifyFd ∧ session.notifyFd ∈ ready then
      let stillOpen ← receiveNotification session
      if stillOpen then return .inl session else return .inr session
    return .inl session

def handleSession (server : Server) (clientSocket : Int) : Sys Unit := do
  let session ← sessionLoop server clientSocket
    { rootPath := snprintf PATH_MAX server.rootDirectory }
  when (session.loggedIn = true) do
    let _ ← sharedCall (.requestsSetFailed session.user)
  when (0 ≤ session.notifyFd) do
    let _ ← fileCall (.close session.notifyFd)
    let _ ← userCall (.seteuid 0)
    let _ ← fileCall (.unlink (sessionFifoPath session.rootPath server.pid))

/-- The child forked for a connection. -/
def serveClient (server : Server) (clientSocket : Int) : Sys Unit := do
  match ← dropPrivileges server with
  | .error _ =>
    let _ ← fileCall (.close clientSocket)
  | .ok () =>
    handleSession server clientSocket
    let _ ← fileCall (.close clientSocket)

end Csap
