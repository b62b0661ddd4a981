import Csap.Network
import Csap.Prog
import Csap.SharedMemory

/-! What a process of the server or the client asks of its environment: the
system calls, with the packet functions of `network.c` and the critical
sections of `sh_mem.c` counted as one call each. `Sys` programs are the C
functions over these calls. Descriptors are `int`s; a call that fails reports
its `errno`. -/

namespace Csap

abbrev SysResult := Except Errno

inductive Access
  | rdonly
  | wronly
  | rdwr
deriving DecidableEq, Repr

structure OpenFlags where
  access : Access
  creat : Bool := false
  excl : Bool := false
  trunc : Bool := false
  nofollow : Bool := false
  nonblock : Bool := false
deriving DecidableEq, Repr

inductive FileKind
  | regular
  | directory
  | symlink
  | fifo
  | socket
  | character
  | block
  | unknown
deriving DecidableEq, Repr

/-- A `struct stat`: the kind is `st_mode & S_IFMT`, `mode` the other bits. -/
structure Stat where
  kind : FileKind
  mode : Nat
  size : Nat := 0
  nlink : Nat := 1
  uid : Int := 0
  gid : Int := 0
  mtime : Int := 0
deriving DecidableEq, Repr

inductive LockType
  | rdlck
  | wrlck
  | unlck
deriving DecidableEq, Repr

structure Passwd where
  uid : Int
  gid : Int
deriving DecidableEq, Repr

/-- `mkstemp` also leaves the name it tried in its argument. -/
inductive FileCall
  | realpath (path : CStr)
  | stat (path : CStr)
  | lstat (path : CStr)
  | openPath (path : CStr) (flags : OpenFlags) (mode : Nat)
  | mkstemp (template : CStr)
  | close (fd : Int)
  | setlk (fd : Int) (type : LockType) (start len : Int)
  | lseek (fd offset : Int)
  | read (fd : Int) (count : Nat)
  | write (fd : Int) (data : CStr)
  | fstat (fd : Int)
  | fchmod (fd : Int) (mode : Nat)
  | rename (old new : CStr)
  | unlink (path : CStr)
  | rmdir (path : CStr)
  | mkdir (path : CStr) (mode : Nat)
  | chmod (path : CStr) (mode : Nat)
  | chown (path : CStr) (uid gid : Int)
  | chdir (path : CStr)
  | getcwd
  | mkfifo (path : CStr) (mode : Nat)
  | opendir (path : CStr)
  | readdir (dir : Int)
  | closedir (dir : Int)
deriving DecidableEq, Repr

@[reducible] def FileCall.Reply : FileCall → Type
  | realpath _ => SysResult CStr
  | stat _ | lstat _ | fstat _ => SysResult Stat
  | openPath _ _ _ => SysResult Int
  | mkstemp _ => SysResult Int × CStr
  | lseek _ _ => SysResult Int
  | read _ _ => SysResult CStr
  | write _ _ => SysResult Nat
  | getcwd => SysResult CStr
  | opendir _ => SysResult Int
  | readdir _ => Option CStr
  | close _ | setlk _ _ _ _ | fchmod _ _ | rename _ _ | unlink _ | rmdir _ | mkdir _ _
  | chmod _ _ | chown _ _ _ | chdir _ | mkfifo _ _ | closedir _ => SysResult Unit

inductive UserCall
  | geteuid
  | seteuid (uid : Int)
  | setegid (gid : Int)
  | getpwnam (name : CStr)
  | getpwuid (uid : Int)
  | getgrgid (gid : Int)
  | runExec (argv : List CStr)
deriving DecidableEq, Repr

@[reducible] def UserCall.Reply : UserCall → Type
  | geteuid => Int
  | seteuid _ | setegid _ => SysResult Unit
  | getpwnam _ => Option Passwd
  | getpwuid _ | getgrgid _ => Option CStr
  | runExec _ => Int

inductive SocketCall
  | select (fds : List Int)
  | sendPacket (command : UInt8) (payload : CStr)
  | recvPacket
  | recvFrameInto (bufCap : Nat)
deriving DecidableEq, Repr

@[reducible] def SocketCall.Reply : SocketCall → Type
  | select _ => SysResult (List Int)
  | sendPacket _ _ => Int
  | recvPacket => Option Network.Packet
  | recvFrameInto _ => SysResult Network.Packet

inductive SharedCall
  | sessionAdd (user : CStr) (pid : Int)
  | sessionFind (user : CStr)
  | sessionsCollectStale
  | requestAdd (srcUser destUser absPath : CStr)
  | requestTake (id : Int) (destUser : CStr) (newStatus : RequestStatus)
  | requestSet (id : Int) (st : RequestStatus)
  | requestsSetFailed (user : CStr)
  | requestsForDest (user : CStr) (max : Int)
deriving DecidableEq, Repr

@[reducible] def SharedCall.Reply : SharedCall → Type
  | sessionAdd _ _ | sessionsCollectStale | requestAdd _ _ _ | requestSet _ _
  | requestsSetFailed _ => Int
  | sessionFind _ => Int × Option (Int × Bool)
  | requestTake _ _ _ => Int × Option TransferRequestEntry
  | requestsForDest _ _ => Int × List TransferRequestEntry

/-- `alloc` is `malloc`, `realloc` or `strdup`, and `enterCopy` marks the entry
of `execute_transfer_copy` in a trace. -/
inductive Call
  | file (c : FileCall)
  | user (c : UserCall)
  | socket (c : SocketCall)
  | shared (c : SharedCall)
  | alloc (size : Nat)
  | enterCopy (srcPath destPath : CStr)
deriving DecidableEq, Repr

@[reducible] def Call.Reply : Call → Type
  | file c => c.Reply
  | user c => c.Reply
  | socket c => c.Reply
  | shared c => c.Reply
  | alloc _ => Bool
  | enterCopy _ _ => Unit

abbrev Sys := Prog Call.Reply

abbrev fileCall (c : FileCall) : Sys c.Reply := Prog.perform (Call.file c)

abbrev userCall (c : UserCall) : Sys c.Reply := Prog.perform (Call.user c)

abbrev socketCall (c : SocketCall) : Sys c.Reply := Prog.perform (Call.socket c)

abbrev sharedCall (c : SharedCall) : Sys c.Reply := Prog.perform (Call.shared c)

abbrev alloc (size : Nat) : Sys Bool := Prog.perform (Call.alloc size)

/-- The texts `strerror` and `ctime` produce. -/
structure Texts where
  strerror : Errno → CStr
  ctime : Int → CStr

end Csap
