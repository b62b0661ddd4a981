import Csap.Protocol
import Csap.Utils

/-! `transfer.c`: streams of frames, files received and sent, and the copy of an
accepted transfer request; and the answers of `network.c`. A negative result of
the source is its error number here, and a function that fills `error_msg`
returns its text beside the result. -/

namespace Csap

open Prog (iterate when)
open Network (CHUNK_SIZE MAX_PAYLOAD_SIZE)

def sendPacket (command : UInt8) (payload : CStr) : Sys Int :=
  if MAX_PAYLOAD_SIZE < payload.length then return -1
  else socketCall (.sendPacket command payload)

def sendOk (payload : CStr) : Sys Int := sendPacket RSP_OK payload

/-- `errCode` and the text, as the client reads them back. -/
def errPayload (errCode : Int) (payload : CStr) : CStr := decimal errCode ++ cstr " " ++ payload

def sendErr (errCode : Int) (payload : CStr) : Sys Int := do
  let buf := errPayload errCode payload
  let allocated ← alloc (buf.length + 1)
  if allocated then sendPacket RSP_ERR buf else return -1

/-- The loops of `execute_transfer_copy`: read a block, write it out. -/
def copyLoop (srcFd destFd : Int) : Sys (SysResult Unit) :=
  iterate () fun _ => do
    match ← fileCall (.read srcFd 4096) with
    | .error e => if e = EINTR then return .inl () else return .inr (.error e)
    | .ok buffer =>
    if buffer = [] then return .inr (.ok ())
    match ← writeAll destFd buffer with
    | .error e => return .inr (.error e)
    | .ok () => return .inl ()

def executeTransferCopy (srcPath destPath : CStr) : Sys (SysResult Unit) := do
  let _ ← Prog.perform (Call.enterCopy srcPath destPath)
  let originalEuid ← userCall .geteuid
  match ← userCall (.seteuid 0) with
  | .error e => return .error e
  | .ok () =>
  let opened ← fileCall (.openPath srcPath { access := .rdonly, nofollow := true } 0)
  match ← userCall (.seteuid originalEuid) with
  | .error e =>
    match opened with
    | .error _ => return .error e
    | .ok srcFd =>
      let _ ← fileCall (.close srcFd)
      return .error e
  | .ok () =>
  match opened with
  | .error e => return .error e
  | .ok srcFd =>
  match ← fileCall (.fstat srcFd) with
  | .error e =>
    let _ ← fileCall (.close srcFd)
    return .error e
  | .ok srcStat =>
  if srcStat.kind ≠ .regular then
    let _ ← fileCall (.close srcFd)
    return .error EINVAL
  match ← fileCall (.openPath destPath { access := .wronly, creat := true, excl := true } 0o600) with
  | .error e =>
    let _ ← fileCall (.close srcFd)
    return .error e
  | .ok destFd =>
  match ← acquireReadLock srcFd 0 0 with
  | .error e =>
    let _ ← fileCall (.close srcFd)
    let _ ← fileCall (.close destFd)
    return .error e
  | .ok () =>
  match ← acquireWriteLock destFd 0 0 with
  | .error e =>
    let _ ← releaseLock srcFd 0 0
    let _ ← fileCall (.close srcFd)
    let _ ← fileCall (.close destFd)
    return .error e
  | .ok () =>
  let copied ← copyLoop srcFd destFd
  let _ ← releaseLock srcFd 0 0
  let _ ← releaseLock destFd 0 0
  let _ ← fileCall (.close srcFd)
  let _ ← fileCall (.close destFd)
  match copied with
  | .error e =>
    let _ ← fileCall (.unlink destPath)
    return .error e
  | .ok () => return .ok ()

/-- The chunk loop of `send_stream_buf`; the state is what is left to send. -/
def sendChunks (buf : CStr) (dataCode : UInt8) : Sys Bool :=
  iterate buf fun rest => do
    if rest = [] then return .inr true
    let ret ← sendPacket dataCode (rest.take CHUNK_SIZE)
    if ret < 0 then return .inr false
    return .inl (rest.drop CHUNK_SIZE)

def sendStreamBuf (buf : CStr) (dataCode endCode : UInt8) : Sys (SysResult Nat) := do
  let sent ← sendChunks buf dataCode
  if !sent then return .error EIO
  let ret ← sendPacket endCode []
  if ret < 0 then return .error EIO
  return .ok buf.length

/-- Move the pointer of `fd`, unless there is no offset. -/
def seekTo (fd offset : Int) : Sys (SysResult Unit) := do
  if offset ≤ 0 then return .ok ()
  match ← fileCall (.lseek fd offset) with
  | .error e => return .error e
  | .ok _ => return .ok ()

/-- The read loop of `send_stream`; the state is the number of bytes sent. -/
def sendFrames (fd : Int) (dataCode : UInt8) : Sys (SysResult Nat) :=
  iterate 0 fun totalBytesSent => do
    match ← fileCall (.read fd CHUNK_SIZE) with
    | .error e => if e = EINTR then return .inl totalBytesSent else return .inr (.error e)
    | .ok buffer =>
    if buffer = [] then return .inr (.ok totalBytesSent)
    let ret ← sendPacket dataCode buffer
    if ret < 0 then return .inr (.error EIO)
    return .inl (totalBytesSent + buffer.length)

def sendStream (fd offset : Int) (dataCode endCode : UInt8) : Sys (SysResult Nat) := do
  match ← seekTo fd offset with
  | .error e => return .error e
  | .ok () =>
  match ← sendFrames fd dataCode with
  | .error e => return .error e
  | .ok totalBytesSent =>
  let ret ← sendPacket endCode []
  if ret < 0 then return .error EIO
  return .ok totalBytesSent

/-- What `recv_stream` keeps between two frames. -/
structure Received where
  total : Nat := 0
  writeErr : Option Errno := none
  msg : CStr := []
deriving DecidableEq, Repr

/-- The frame loop of `recv_stream`. -/
def recvFrames (texts : Texts) (fd : Int) (dataCode endCode : UInt8) :
    Sys (SysResult Unit × Received) :=
  iterate ({} : Received) fun got => do
    match ← socketCall (.recvFrameInto CHUNK_SIZE) with
    | .error e => return .inr (.error e, got)
    | .ok frame =>
    if frame.command = endCode then return .inr (.ok (), got)
    if frame.command = RSP_ERR then
      return .inr (.error EIO, { got with msg := errorMsg (cstr "Error received from peer") })
    if frame.command ≠ dataCode then return .inr (.error EINVAL, got)
    let total := got.total + frame.payload.length
    if got.writeErr.isSome then return .inl { got with total }
    -- after a failed write the rest of the stream is still read
    match ← writeAll fd frame.payload with
    | .error e =>
      let msg := errorMsg (cstr "Error writing to file descriptor: " ++ texts.strerror e)
      return .inl { total, writeErr := some e, msg }
    | .ok () => return .inl { got with total }

def recvStream (texts : Texts) (fd offset expectedTotal : Int) (dataCode endCode : UInt8) :
    Sys (SysResult Nat × CStr) := do
  match ← seekTo fd offset with
  | .error e => return (.error e, [])
  | .ok () =>
  let (ended, got) ← recvFrames texts fd dataCode endCode
  match ended with
  | .error e => return (.error e, got.msg)
  | .ok () =>
  match got.writeErr with
  | some e => return (.error e, got.msg)
  | none =>
  if 0 ≤ expectedTotal ∧ expectedTotal ≠ got.total then return (.error EINVAL, got.msg)
  return (.ok got.total, got.msg)

/-- `target_t`. -/
structure Target where
  path : CStr
  offset : Int
  dataCode : UInt8
  endCode : UInt8

/-- The exits of `receive_into_file`: close, unlock and remove what is there. -/
def receiveCleanup (target : Target) (fd lockFd : Int) (tempPath : CStr) (existed : Bool)
    (result : SysResult Nat) : Sys Unit := do
  when (0 ≤ fd ∧ fd ≠ lockFd) do
    let _ ← fileCall (.close fd)
  when (0 ≤ lockFd) do
    let _ ← releaseLock lockFd 0 0
    let _ ← fileCall (.close lockFd)
  when (tempPath ≠ []) do
    let _ ← fileCall (.unlink tempPath)
  when (!result.isOk ∧ !existed) do
    let _ ← fileCall (.unlink target.path)

/-- The descriptor that receives the data, the one that is locked, and the temporary name. -/
structure Receiving where
  fd : Int
  lockFd : Int
  tempPath : CStr

def receiveOpenFlags : OpenFlags := { access := .wronly, creat := true, nofollow := true }

def openTarget (texts : Texts) (target : Target) (existed : Bool) :
    Sys (Except (Errno × CStr) Receiving) := do
  if 0 ≤ target.offset then
    match ← fileCall (.openPath target.path receiveOpenFlags 0o700) with
    | .error e =>
      receiveCleanup target (-1) (-1) [] existed (.error e)
      return .error (e, errorMsg (cstr "Failed to open target file: " ++ texts.strerror e))
    | .ok fd => return .ok { fd, lockFd := fd, tempPath := [] }
  match ← openTempForUpload target.path with
  | (.error e, tempPath) =>
    receiveCleanup target (-1) (-1) tempPath existed (.error e)
    return .error (e, errorMsg (cstr "Failed to open temporary file for upload"))
  | (.ok fd, tempPath) =>
  match ← fileCall (.openPath target.path receiveOpenFlags 0o700) with
  | .error e =>
    receiveCleanup target fd (-1) tempPath existed (.error e)
    return .error (e, errorMsg (cstr "Failed to open target file for locking"))
  | .ok lockFd => return .ok { fd, lockFd, tempPath }

/-- A temporary file takes the place of the target, with the permissions it had. -/
def replaceTarget (texts : Texts) (target : Target) (into : Receiving) (destMode : Nat)
    (existed : Bool) : Sys (Except (Errno × CStr) Unit) := do
  match ← fileCall (.fchmod into.fd destMode) with
  | .error e =>
    receiveCleanup target into.fd into.lockFd into.tempPath existed (.error e)
    return .error (e,
      errorMsg (cstr "Failed to set permissions on temporary file: " ++ texts.strerror e))
  | .ok () =>
  match ← fileCall (.close into.fd) with
  | .error e =>
    receiveCleanup target (-1) into.lockFd into.tempPath existed (.error e)
    return .error (e, errorMsg (cstr "Failed to close temporary file: " ++ texts.strerror e))
  | .ok () =>
  match ← fileCall (.rename into.tempPath target.path) with
  | .error e =>
    receiveCleanup target (-1) into.lockFd into.tempPath existed (.error e)
    return .error (e,
      errorMsg (cstr "Failed to rename temporary file to target path: " ++ texts.strerror e))
  | .ok () => return .ok ()

def receiveIntoFile (texts : Texts) (target : Target) : Sys (SysResult Nat × CStr) := do
  let destStat ← fileCall (.stat target.path)
  let existed := destStat.isOk
  let destMode := match destStat with
    | .ok st => st.mode &&& 0o777
    | .error _ => 0o700
  match ← openTarget texts target existed with
  | .error (e, msg) => return (.error e, msg)
  | .ok into =>
  match ← acquireWriteLock into.lockFd 0 0 with
  | .error e =>
    receiveCleanup target into.fd into.lockFd into.tempPath existed (.error e)
    return (.error e, errorMsg (cstr "Failed to acquire write lock on target file"))
  | .ok () =>
  let _ ← sendOk (cstr "Ready to receive data")
  match ← recvStream texts into.fd target.offset (-1) target.dataCode target.endCode with
  | (.error e, msg) =>
    receiveCleanup target into.fd into.lockFd into.tempPath existed (.error e)
    if msg = [] then
      return (.error e, errorMsg (cstr "Failed to receive stream: " ++ texts.strerror e))
    return (.error e, msg)
  | (.ok n, msg) =>
  if into.tempPath = [] then
    receiveCleanup target into.fd into.lockFd [] existed (.ok n)
    return (.ok n, msg)
  match ← replaceTarget texts target into destMode existed with
  | .error (e, msg) => return (.error e, msg)
  | .ok () =>
    receiveCleanup target (-1) into.lockFd [] existed (.ok n)
    return (.ok n, msg)

/-- The exits of `send_file` after its lock is taken. -/
def sendFileUnlock (fd offset : Int) : Sys Unit := do
  let _ ← releaseLock fd offset 0
  let _ ← fileCall (.close fd)

def sendFile (texts : Texts) (path : CStr) (offset : Int) (dataCode endCode : UInt8) :
    Sys (SysResult Nat × CStr) := do
  let offset := max offset 0
  match ← fileCall (.openPath path { access := .rdonly } 0) with
  | .error e =>
    return (.error e, errorMsg (cstr "Failed to open file for sending: " ++ texts.strerror e))
  | .ok fd =>
  match ← acquireReadLock fd offset 0 with
  | .error e =>
    let _ ← fileCall (.close fd)
    return (.error e, errorMsg (cstr "Failed to acquire read lock on file: " ++ texts.strerror e))
  | .ok () =>
  match ← fileCall (.fstat fd) with
  | .error e =>
    sendFileUnlock fd offset
    return (.error e, errorMsg (cstr "Failed to get file info: " ++ texts.strerror e))
  | .ok statbuf =>
  if statbuf.kind ≠ .regular then
    sendFileUnlock fd offset
    return (.error EISDIR, errorMsg (cstr "File is not a regular file"))
  let toSend := statbuf.size - offset.toNat
  let _ ← sendOk (decimalNat toSend)
  match ← sendStream fd offset dataCode endCode with
  | .error e =>
    sendFileUnlock fd offset
    return (.error e, errorMsg (cstr "Failed to send file stream: " ++ texts.strerror e))
  | .ok n =>
    sendFileUnlock fd offset
    return (.ok n, [])

end Csap
