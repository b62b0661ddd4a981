import Csap.Client
import Csap.Server

/-! Which system calls each function of the server and the client may make. Calls have kinds, and a
function has the list of its kinds as its `Footprint`; what is said of calls by their
kinds then holds of all calls of a function, by `calls_within`. -/

namespace Csap

open Prog

/-- What a call does, without what it does it to. The flags of an opening remain, and whether a
read takes a single byte and a lock reaches to the end of its file. -/
inductive Kind
  | realpath
  | stat
  | lstat
  | openPath (flags : OpenFlags)
  | mkstemp
  | close
  | setlk (toEnd : Bool)
  | lseek
  | read (byte : Bool)
  | write
  | fstat
  | fchmod
  | rename
  | unlink
  | rmdir
  | mkdir
  | chmod
  | chown
  | chdir
  | getcwd
  | mkfifo
  | opendir
  | readdir
  | closedir
  | geteuid
  | seteuid
  | setegid
  | getpwnam
  | getpwuid
  | getgrgid
  | runExec
  | select
  | sendPacket
  | recvPacket
  | recvFrameInto
  | sessionAdd
  | sessionFind
  | sessionsCollectStale
  | requestAdd
  | requestTake
  | requestSet
  | requestsSetFailed
  | requestsForDest
  | alloc
  | enterCopy
deriving DecidableEq, Repr

@[simp] def FileCall.kind : FileCall → Kind
  | realpath _ => .realpath
  | stat _ => .stat
  | lstat _ => .lstat
  | openPath _ flags _ => .openPath flags
  | mkstemp _ => .mkstemp
  | close _ => .close
  | setlk _ _ start len => .setlk (decide (0 ≤ start ∧ len = 0))
  | lseek _ _ => .lseek
  | read _ count => .read (decide (count = 1))
  | write _ _ => .write
  | fstat _ => .fstat
  | fchmod _ _ => .fchmod
  | rename _ _ => .rename
  | unlink _ => .unlink
  | rmdir _ => .rmdir
  | mkdir _ _ => .mkdir
  | chmod _ _ => .chmod
  | chown _ _ _ => .chown
  | chdir _ => .chdir
  | getcwd => .getcwd
  | mkfifo _ _ => .mkfifo
  | opendir _ => .opendir
  | readdir _ => .readdir
  | closedir _ => .closedir

@[simp] def UserCall.kind : UserCall → Kind
  | geteuid => .geteuid
  | seteuid _ => .seteuid
  | setegid _ => .setegid
  | getpwnam _ => .getpwnam
  | getpwuid _ => .getpwuid
  | getgrgid _ => .getgrgid
  | runExec _ => .runExec

@[simp] def SocketCall.kind : SocketCall → Kind
  | select _ => .select
  | sendPacket _ _ => .sendPacket
  | recvPacket => .recvPacket
  | recvFrameInto _ => .recvFrameInto

@[simp] def SharedCall.kind : SharedCall → Kind
  | sessionAdd _ _ => .sessionAdd
  | sessionFind _ => .sessionFind
  | sessionsCollectStale => .sessionsCollectStale
  | requestAdd _ _ _ => .requestAdd
  | requestTake _ _ _ => .requestTake
  | requestSet _ _ => .requestSet
  | requestsSetFailed _ => .requestsSetFailed
  | requestsForDest _ _ => .requestsForDest

/-- The calls on the shared tables. -/
abbrev sharedKinds : List Kind :=
  [.sessionAdd, .sessionFind, .sessionsCollectStale, .requestAdd, .requestTake, .requestSet,
    .requestsSetFailed, .requestsForDest]

@[simp] def Call.kind : Call → Kind
  | file c => c.kind
  | user c => c.kind
  | socket c => c.kind
  | shared c => c.kind
  | alloc _ => .alloc
  | enterCopy _ _ => .enterCopy

def Among (kinds : List Kind) (c : Call) : Prop := kinds.elem c.kind = true

/-- Calls that can be told by their kind. -/
class Judged (P : Call → Prop) where
  admits : Kind → Bool
  sound : ∀ c, admits c.kind = true → P c

/-- Calls told by the kinds that are not among them. -/
abbrev Judged.avoiding {P : Call → Prop} (kinds : List Kind) (sound : ∀ c, c.kind ∉ kinds → P c) :
    Judged P where
  admits k := !kinds.elem k
  sound c fits := sound c (by simpa using fits)

/-- The kinds of calls a program may make, put together from those of its parts. -/
class Footprint {α : Type} (p : Sys α) (kinds : outParam (List Kind)) : Prop where
  among : p.Calls (Among kinds) := by
    repeat' with_reducible first
      | exact calls_within rfl
      | refine Calls.iterate fun _ => ?_
      | refine Calls.bind ?_ fun _ => ?_
      | split
      | dsimp only

instance among_judged (kinds : List Kind) : Judged (Among kinds) where
  admits := kinds.elem
  sound _ among := among

theorem calls_within {α : Type} {p : Sys α} {kinds : List Kind} [Footprint p kinds]
    {P : Call → Prop} [Judged P] (fits : kinds.all (Judged.admits P) = true) : p.Calls P := by
  refine (Footprint.among (p := p)).mono fun c among => Judged.sound c ?_
  exact List.all_eq_true.mp fits _ (List.elem_iff.mp among)

section calls

theorem perform_among (c : Call) : (perform c : Sys _).Calls (Among [c.kind]) :=
  Calls.perform (by simp [Among])

instance pure_footprint {α : Type} (a : α) : Footprint (pure a) [] := ⟨Calls.pure a⟩

-- The type of the replies is no index: it is mostly written as what it reduces to.
instance fileCall_footprint (c : FileCall) :
    @Footprint (no_index c.Reply) (fileCall c) [c.kind] :=
  ⟨perform_among (.file c)⟩

instance userCall_footprint (c : UserCall) :
    @Footprint (no_index c.Reply) (userCall c) [c.kind] :=
  ⟨perform_among (.user c)⟩

instance socketCall_footprint (c : SocketCall) :
    @Footprint (no_index c.Reply) (socketCall c) [c.kind] :=
  ⟨perform_among (.socket c)⟩

instance sharedCall_footprint (c : SharedCall) :
    @Footprint (no_index c.Reply) (sharedCall c) [c.kind] :=
  ⟨perform_among (.shared c)⟩

instance alloc_footprint (size : Nat) : Footprint (alloc size) [.alloc] :=
  ⟨perform_among (.alloc size)⟩

instance enterCopy_footprint (src dest : CStr) :
    Footprint (perform (Call.enterCopy src dest)) [.enterCopy] :=
  ⟨perform_among (.enterCopy src dest)⟩

end calls

section composition

variable {α β σ : Type} {kinds kinds' : List Kind}

theorem among_append_left : kinds.all (Judged.admits (Among (kinds ++ kinds'))) = true :=
  List.all_eq_true.mpr fun _ member => List.elem_iff.mpr (List.mem_append_left _ member)

theorem among_append_right : kinds'.all (Judged.admits (Among (kinds ++ kinds'))) = true :=
  List.all_eq_true.mpr fun _ member => List.elem_iff.mpr (List.mem_append_right _ member)

instance bind_footprint {p : Sys α} {f : α → Sys β} [Footprint p kinds]
    [∀ a, Footprint (f a) kinds'] : Footprint (p >>= f) (kinds ++ kinds') where
  among := Calls.bind (calls_within among_append_left) fun _ => calls_within among_append_right

instance ite_footprint {c : Prop} [Decidable c] {p q : Sys α} [Footprint p kinds]
    [Footprint q kinds'] : Footprint (if c then p else q) (kinds ++ kinds') where
  among := by
    split
    · exact calls_within among_append_left
    · exact calls_within among_append_right

instance when_footprint {c : Prop} [Decidable c] {p : Sys Unit} [Footprint p kinds] :
    Footprint (when c p) kinds where
  among := Calls.when Footprint.among

instance iterate_footprint {s : σ} {body : σ → Sys (σ ⊕ β)} [∀ s, Footprint (body s) kinds] :
    Footprint (iterate s body) kinds where
  among := Calls.iterate fun _ => Footprint.among

end composition

section utils

variable {fd offset len : Int} {size : Nat} {buf path : CStr} {sb : StrBuf} {type : LockType}

instance writeAll_footprint : Footprint (writeAll fd buf) [.write] where
  among := by
    refine Calls.iterate fun remaining => ?_
    split
    · exact calls_within rfl
    · refine Calls.bind (calls_within rfl) fun written => ?_
      repeat' first | exact calls_within rfl | split

instance readLine_footprint : Footprint (readLine fd size) [.read true] where
  among := by
    refine Calls.iterate fun buf => ?_
    split
    · exact calls_within rfl
    · refine Calls.bind (calls_within rfl) fun r => ?_
      repeat' first | exact calls_within rfl | split

instance setLock_footprint :
    Footprint (setLock fd type offset len) [.setlk (decide (0 ≤ offset ∧ len = 0))] :=
  ⟨perform_among (.file (.setlk fd type offset len))⟩

instance releaseLock_footprint :
    Footprint (releaseLock fd offset len) [.setlk (decide (0 ≤ offset ∧ len = 0))] :=
  setLock_footprint

instance acquireReadLock_footprint :
    Footprint (acquireReadLock fd offset len) [.setlk (decide (0 ≤ offset ∧ len = 0))] :=
  setLock_footprint

instance acquireWriteLock_footprint :
    Footprint (acquireWriteLock fd offset len) [.setlk (decide (0 ≤ offset ∧ len = 0))] :=
  setLock_footprint

instance openTempForUpload_footprint : Footprint (openTempForUpload path) [.alloc, .mkstemp] := by
  unfold openTempForUpload
  exact {}

instance sbInit_footprint : Footprint (sbInit sb) [.alloc] where
  among := by
    refine Calls.bind (calls_within rfl) fun allocated => ?_
    split <;> exact calls_within rfl

instance sbAppend_footprint : Footprint (sbAppend sb buf) [.alloc] := by
  unfold sbAppend
  exact {}

end utils

section fsops

variable {path src dest : CStr} {perms : Nat} {isDir : Bool} {texts : Texts} {sb : StrBuf} {dir : Int}

instance deleteCmd_footprint : Footprint (deleteCmd path) [.stat, .rmdir, .unlink] := by
  unfold deleteCmd
  exact {}

instance cdCmd_footprint : Footprint (cdCmd path) [.chdir] :=
  ⟨perform_among (.file (.chdir path))⟩

instance moveCmd_footprint : Footprint (moveCmd src dest) [.rename] :=
  ⟨perform_among (.file (.rename src dest))⟩

instance chmodCmd_footprint : Footprint (chmodCmd path perms) [.chmod] :=
  ⟨perform_among (.file (.chmod path perms))⟩

instance createCmd_footprint :
    Footprint (createCmd path perms isDir)
      [.mkdir, .openPath { access := .wronly, creat := true, excl := true }, .close] := by
  unfold createCmd
  exact {}

instance constructFileInfo_footprint {st : Stat} {filename : CStr} :
    Footprint (constructFileInfo texts sb st filename) [.getpwuid, .getgrgid, .alloc] where
  among := by
    refine Calls.bind (calls_within rfl) fun userName => Calls.bind (calls_within rfl) fun groupName => ?_
    split
    · exact calls_within rfl
    · exact Calls.bind (calls_within rfl) fun appended => calls_within rfl

instance listEntries_footprint :
    Footprint (listEntries texts path dir sb) [.readdir, .lstat, .getpwuid, .getgrgid, .alloc] := by
  unfold listEntries
  exact {}

instance list_footprint :
    Footprint (list texts path)
      [.alloc, .lstat, .opendir, .readdir, .getpwuid, .getgrgid, .closedir] := by
  unfold list
  exact {}

end fsops

section transfer

variable {command dataCode endCode : UInt8} {payload buf : CStr} {fd lockFd offset expectedTotal : Int}
  {texts : Texts} {target : Target} {existed : Bool}

instance sendPacket_footprint : Footprint (sendPacket command payload) [.sendPacket] := by
  unfold sendPacket
  exact {}

instance sendOk_footprint : Footprint (sendOk payload) [.sendPacket] := sendPacket_footprint

instance sendErr_footprint {errCode : Int} :
    Footprint (sendErr errCode payload) [.alloc, .sendPacket] := by
  unfold sendErr
  exact {}

instance copyLoop_footprint {srcFd destFd : Int} :
    Footprint (copyLoop srcFd destFd) [.read false, .write] := by
  unfold copyLoop
  exact {}

instance executeTransferCopy_footprint {srcPath destPath : CStr} :
    Footprint (executeTransferCopy srcPath destPath)
      [.enterCopy, .geteuid, .seteuid, .openPath { access := .rdonly, nofollow := true }, .close, .fstat,
        .openPath { access := .wronly, creat := true, excl := true }, .setlk true, .read false, .write,
        .unlink] := by
  unfold executeTransferCopy
  exact {}

instance sendChunks_footprint : Footprint (sendChunks buf dataCode) [.sendPacket] := by
  unfold sendChunks
  exact {}

instance sendStreamBuf_footprint :
    Footprint (sendStreamBuf buf dataCode endCode) [.sendPacket] := by
  unfold sendStreamBuf
  exact {}

instance seekTo_footprint : Footprint (seekTo fd offset) [.lseek] := by
  unfold seekTo
  exact {}

instance sendFrames_footprint : Footprint (sendFrames fd dataCode) [.read false, .sendPacket] := by
  unfold sendFrames
  exact {}

instance sendStream_footprint :
    Footprint (sendStream fd offset dataCode endCode) [.lseek, .read false, .sendPacket] := by
  unfold sendStream
  exact {}

instance recvFrames_footprint :
    Footprint (recvFrames texts fd dataCode endCode) [.recvFrameInto, .write] := by
  unfold recvFrames
  exact {}

instance recvStream_footprint :
    Footprint (recvStream texts fd offset expectedTotal dataCode endCode)
      [.lseek, .recvFrameInto, .write] := by
  unfold recvStream
  exact {}

instance receiveCleanup_footprint {tempPath : CStr} {result : SysResult Nat} :
    Footprint (receiveCleanup target fd lockFd tempPath existed result)
      [.close, .setlk true, .unlink] := by
  unfold receiveCleanup
  exact {}

instance openTarget_footprint :
    Footprint (openTarget texts target existed)
      [.openPath receiveOpenFlags, .alloc, .mkstemp, .close, .setlk true, .unlink] := by
  unfold openTarget
  exact {}

instance replaceTarget_footprint {into : Receiving} {destMode : Nat} :
    Footprint (replaceTarget texts target into destMode existed)
      [.fchmod, .close, .rename, .setlk true, .unlink] := by
  unfold replaceTarget
  exact {}

instance receiveIntoFile_footprint :
    Footprint (receiveIntoFile texts target)
      [.stat, .openPath receiveOpenFlags, .alloc, .mkstemp, .setlk true, .sendPacket, .lseek, .recvFrameInto,
        .write, .fchmod, .close, .rename, .unlink] := by
  unfold receiveIntoFile
  exact {}

end transfer

section client

variable {command : Command} {localFd : Int} {outSize : Nat} {texts : Texts}

instance recvResponse_footprint : Footprint (recvResponse outSize) [.recvPacket] := by
  unfold recvResponse
  exact {}

instance waitResponse_footprint : Footprint waitResponse [.recvPacket] := by
  unfold waitResponse
  exact {}

instance receiveCommandStream_footprint :
    Footprint (receiveCommandStream texts command localFd)
      [.recvPacket, .lseek, .recvFrameInto, .write] := by
  unfold receiveCommandStream
  exact {}

end client

section session

variable {server : Server} {session : Session} {username path root text fifoName msg : CStr} {perms : Nat}
  {pid nFd : Int} {rc : Except CStr Unit}

instance parseCommand_footprint {line : Option CStr} : Footprint (parseCommand line) [.alloc] := by
  unfold parseCommand
  exact {}

instance validatePath_footprint : Footprint (validatePath path root) [.realpath, .alloc] := by
  unfold validatePath
  exact {}

instance dropPrivileges_footprint :
    Footprint (dropPrivileges server) [.geteuid, .setegid, .seteuid] := by
  unfold dropPrivileges
  exact {}

instance createHomeDirectory_footprint {newPwd : Passwd} :
    Footprint (createHomeDirectory server root username perms newPwd) [.mkdir, .chown, .chmod] := by
  unfold createHomeDirectory
  exact {}

instance restoreEuid_footprint {originalEuid : Int} :
    Footprint (restoreEuid server originalEuid rc) [.seteuid] := by
  unfold restoreEuid
  exact {}

instance handleCreateUser_footprint :
    Footprint (handleCreateUser server username perms root)
      [.geteuid, .seteuid, .getpwnam, .runExec, .mkdir, .chown, .chmod] := by
  unfold handleCreateUser
  exact {}

/-- `notify_pid` opens a fifo with these flags, and nothing else does. -/
def notifyFlags : OpenFlags := { access := .wronly, nonblock := true }

instance notifyPid_footprint :
    Footprint (notifyPid root pid text) [.openPath notifyFlags, .write, .close] := by
  unfold notifyPid
  exact {}

instance loginFailed_footprint :
    Footprint (loginFailed server session nFd fifoName msg)
      [.close, .unlink, .geteuid, .setegid, .seteuid] := by
  unfold loginFailed
  exact {}

instance handleLogin_footprint :
    Footprint (handleLogin server session username)
      [.getpwnam, .realpath, .alloc, .stat, .geteuid, .setegid, .seteuid, .unlink, .mkfifo,
        .openPath { access := .rdwr, nonblock := true }, .close, .chown, .chdir] := by
  unfold handleLogin
  exact {}

end session

section server

variable {server : Server} {session : Session} {payload : Option CStr} {err : Errno}
  {reason arg path root destUser : CStr} {pid : Int} {online : Bool} {requests : List TransferRequestEntry} {entry : TransferRequestEntry}

instance failWith_footprint : Footprint (failWith err reason) [.alloc, .sendPacket] where
  among := Calls.bind (calls_within rfl) fun _ => calls_within rfl

instance succeedWith_footprint : Footprint (succeedWith reason) [.sendPacket] where
  among := Calls.bind (calls_within rfl) fun _ => calls_within rfl

instance cmdParse_footprint : Footprint (cmdParse payload) [.alloc, .sendPacket] := by
  unfold cmdParse
  exact {}

instance cmdResolve_footprint :
    Footprint (cmdResolve path root) [.realpath, .alloc, .sendPacket] := by
  unfold cmdResolve
  exact {}

instance cmdPerms_footprint : Footprint (cmdPerms arg) [.alloc, .sendPacket] := by
  unfold cmdPerms
  exact {}

instance notifyWaiting_footprint :
    Footprint (notifyWaiting server root requests) [.openPath notifyFlags, .write, .close] where
  among := by
    induction requests with
    | nil => exact Calls.pure ()
    | cons request rest ih => exact Calls.bind (calls_within rfl) fun _ => ih

instance dispatchLogin_footprint :
    Footprint (dispatchLogin server session payload)
      [.alloc, .sendPacket, .getpwnam, .realpath, .stat, .geteuid, .setegid, .seteuid, .unlink, .mkfifo,
        .openPath { access := .rdwr, nonblock := true }, .close, .chown, .chdir, .sessionAdd,
        .requestsForDest, .openPath notifyFlags, .write] := by
  unfold dispatchLogin
  exact {}

instance dispatchCreateUser_footprint :
    Footprint (dispatchCreateUser server session payload)
      [.alloc, .sendPacket, .geteuid, .seteuid, .getpwnam, .runExec, .mkdir, .chown, .chmod] := by
  unfold dispatchCreateUser
  exact {}

instance sourceLost_footprint {found : Int} :
    Footprint (sourceLost found) [.alloc, .sendPacket] := by
  unfold sourceLost
  exact {}

instance takeRequest_footprint {id : Int} {newStatus : RequestStatus} :
    Footprint (takeRequest session id newStatus reason)
      [.requestTake, .sessionFind, .alloc, .sendPacket] := by
  unfold takeRequest
  exact {}

instance notifySource_footprint {notification : Notification} :
    Footprint (notifySource session pid online notification)
      [.openPath notifyFlags, .write, .close] := by
  unfold notifySource
  exact {}

instance answerAccept_footprint {copied : SysResult Unit} :
    Footprint (answerAccept session entry pid online reason path copied)
      [.openPath notifyFlags, .write, .close, .alloc, .sendPacket] := by
  unfold answerAccept
  exact {}

instance acceptCopy_footprint {id : Int} :
    Footprint (acceptCopy session id path entry pid online)
      [.enterCopy, .geteuid, .seteuid, .openPath { access := .rdonly, nofollow := true }, .close, .fstat,
        .openPath { access := .wronly, creat := true, excl := true }, .setlk true, .read false, .write,
        .unlink, .requestSet, .openPath notifyFlags, .alloc, .sendPacket] := by
  unfold acceptCopy
  exact {}

instance dispatchAccept_footprint :
    Footprint (dispatchAccept session payload)
      [.enterCopy, .geteuid, .seteuid, .openPath { access := .rdonly, nofollow := true }, .close, .fstat,
        .openPath { access := .wronly, creat := true, excl := true }, .setlk true, .read false, .write,
        .unlink, .requestSet, .openPath notifyFlags, .alloc, .sendPacket, .realpath, .requestTake,
        .sessionFind] := by
  unfold dispatchAccept
  exact {}

instance dispatchReject_footprint :
    Footprint (dispatchReject session payload)
      [.alloc, .sendPacket, .requestTake, .sessionFind, .openPath notifyFlags, .write, .close] := by
  unfold dispatchReject
  exact {}

instance destUserExists_footprint :
    Footprint (destUserExists server session destUser) [.getpwnam, .stat] := by
  unfold destUserExists
  exact {}

instance enterRequest_footprint :
    Footprint (enterRequest session destUser path pid online)
      [.requestAdd, .alloc, .sendPacket, .openPath notifyFlags, .write, .close] := by
  unfold enterRequest
  exact {}

instance dispatchTransferReq_footprint :
    Footprint (dispatchTransferReq server session payload)
      [.alloc, .sendPacket, .realpath, .stat, .sessionFind, .getpwnam, .requestAdd, .openPath notifyFlags,
        .write, .close] := by
  unfold dispatchTransferReq
  exact {}

instance dispatchCreate_footprint :
    Footprint (dispatchCreate session payload)
      [.alloc, .sendPacket, .realpath, .mkdir,
        .openPath { access := .wronly, creat := true, excl := true }, .close] := by
  unfold dispatchCreate
  exact {}

instance dispatchChmod_footprint :
    Footprint (dispatchChmod session payload) [.alloc, .sendPacket, .realpath, .chmod] := by
  unfold dispatchChmod
  exact {}

instance unlockAndClose_footprint {fd : Int} :
    Footprint (unlockAndClose fd) [.setlk true, .close] := by
  unfold unlockAndClose
  exact {}

instance openMoveDest_footprint {srcStat : Stat} {srcPath destPath : CStr} :
    Footprint (openMoveDest srcStat srcPath destPath)
      [.stat, .openPath { access := .rdwr }, .openPath { access := .rdwr, creat := true, excl := true }] := by
  unfold openMoveDest
  exact {}

instance lockMoveSource_footprint {srcStat : Stat} :
    Footprint (lockMoveSource srcStat path)
      [.openPath { access := .rdwr }, .setlk true, .close, .alloc, .sendPacket] := by
  unfold lockMoveSource
  exact {}

instance dispatchMove_footprint :
    Footprint (dispatchMove session payload)
      [.alloc, .sendPacket, .realpath, .stat, .openPath { access := .rdwr },
        .openPath { access := .rdwr, creat := true, excl := true }, .setlk true, .close, .rename] := by
  unfold dispatchMove
  exact {}

instance dispatchCd_footprint :
    Footprint (dispatchCd session payload) [.alloc, .sendPacket, .realpath, .chdir] := by
  unfold dispatchCd
  exact {}

-- `send_file` locks from the offset on, which is not negative by then.
instance setLock_fromMax_footprint {fd offset : Int} {type : LockType} :
    Footprint (setLock fd type (max offset 0) 0) [.setlk true] where
  among := Calls.perform (by simp [Among])

instance sendFileUnlock_footprint {fd offset : Int} :
    Footprint (sendFileUnlock fd offset) [.setlk true, .setlk false, .close] where
  among := by
    refine Calls.bind (Calls.perform ?_) fun _ => calls_within rfl
    by_cases toEnd : 0 ≤ offset <;> simp [Among, toEnd]

instance sendFile_footprint {texts : Texts} {offset : Int} {dataCode endCode : UInt8} :
    Footprint (sendFile texts path offset dataCode endCode)
      [.openPath { access := .rdonly }, .setlk true, .fstat, .lseek, .read false, .sendPacket, .close] := by
  unfold sendFile sendFileUnlock acquireReadLock releaseLock
  exact {}

instance dispatchDownload_footprint :
    Footprint (dispatchDownload server session payload)
      [.alloc, .sendPacket, .realpath, .openPath { access := .rdonly }, .setlk true, .fstat, .lseek,
        .read false, .close] := by
  unfold dispatchDownload
  exact {}

instance dispatchRead_footprint :
    Footprint (dispatchRead server session payload)
      [.alloc, .sendPacket, .realpath, .openPath { access := .rdonly }, .setlk true, .fstat, .lseek,
        .read false, .close] := by
  unfold dispatchRead
  exact {}

instance receiveTarget_footprint {target : Target} :
    Footprint (receiveTarget server target)
      [.stat, .openPath receiveOpenFlags, .alloc, .mkstemp, .setlk true, .sendPacket, .lseek, .recvFrameInto,
        .write, .fchmod, .close, .rename, .unlink] := by
  unfold receiveTarget
  exact {}

instance dispatchUpload_footprint :
    Footprint (dispatchUpload server session payload)
      [.stat, .openPath receiveOpenFlags, .alloc, .mkstemp, .setlk true, .sendPacket, .lseek, .recvFrameInto,
        .write, .fchmod, .close, .rename, .unlink, .realpath] := by
  unfold dispatchUpload
  exact {}

instance dispatchWrite_footprint :
    Footprint (dispatchWrite server session payload)
      [.stat, .openPath receiveOpenFlags, .alloc, .mkstemp, .setlk true, .sendPacket, .lseek, .recvFrameInto,
        .write, .fchmod, .close, .rename, .unlink, .realpath] := by
  unfold dispatchWrite
  exact {}

instance lockDeleted_footprint {pathStat : Stat} :
    Footprint (lockDeleted pathStat path)
      [.openPath { access := .rdwr }, .setlk true, .close, .alloc, .sendPacket] := by
  unfold lockDeleted
  exact {}

instance dispatchDelete_footprint :
    Footprint (dispatchDelete session payload)
      [.alloc, .sendPacket, .realpath, .stat, .openPath { access := .rdwr }, .setlk true, .close, .rmdir,
        .unlink] := by
  unfold dispatchDelete
  exact {}

instance listPath_footprint :
    Footprint (listPath session path) [.getcwd, .alloc, .sendPacket, .realpath] := by
  unfold listPath
  exact {}

instance dispatchList_footprint :
    Footprint (dispatchList server session payload)
      [.alloc, .sendPacket, .getcwd, .realpath, .lstat, .opendir, .readdir, .getpwuid, .getgrgid,
        .closedir] := by
  unfold dispatchList
  exact {}

instance handleNotification_footprint {line : CStr} :
    Footprint (handleNotification line) [.alloc, .sendPacket] := by
  unfold handleNotification
  exact {}

instance receiveNotification_footprint :
    Footprint (receiveNotification session) [.read true, .alloc, .sendPacket] := by
  unfold receiveNotification
  exact {}

end server

end Csap
