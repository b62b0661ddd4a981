import Csap.Client
import Csap.Interleaving

/-! `main-client.c`: the connection to the server, operations in the background
and the main loop, up to what is printed. The client and the children it forks
share a pipe, on which a child says that it has finished. A packet whose payload
is cut off is freed by `recv_packet` and again by its caller, and the process is
aborted. -/

namespace Csap.ClientMain

open Prog (iterate when perform)

/-- The addresses the client was started with; `inetAton` is the C library's. -/
structure Client where
  texts : Texts
  inetAton : CStr → Bool
  ipAddress : CStr
  portNumber : CStr

structure Inherited where
  command : Cmd
  line : CStr
  username : CStr
  pipeFd : Int × Int
  socketFd : Int
deriving DecidableEq, Repr

/-- The calls of the functions that know of no process but their own are `sys`. `forked` is how a
child is given what it inherits, and `background_operations` is read and changed by calls. -/
inductive Call
  | sys (c : Csap.Call)
  | socket
  | connect (sockfd : Int) (ip : CStr) (port : Int)
  | pipe
  | fork (inherited : Inherited)
  | forked
  | read (pipeFd : Int) (size : Nat)
  | write (pipeFd : Int) (msg : CStr)
  | backgroundOperations
  | addBackgroundOperations (n : Int)
  | exit (code : Int)
deriving DecidableEq, Repr

/-- `exit` does not return. -/
@[reducible] def Call.Reply : Call → Type
  | sys c => c.Reply
  | socket => SysResult Int
  | connect _ _ _ => SysResult Unit
  | pipe => SysResult (Int × Int)
  | fork _ => SysResult Nat
  | forked => Inherited
  | read _ _ => SysResult CStr
  | write _ _ => Unit
  | backgroundOperations => Int
  | addBackgroundOperations _ => Unit
  | exit _ => Empty

abbrev Forking := Prog Call.Reply

abbrev call (c : Call) : Forking c.Reply := perform c

abbrev sys {α : Type} (p : Sys α) : Forking α := p.embed Call.sys

def close (fd : Int) : Forking Unit := do
  let _ ← call (.sys (.file (.close fd)))

def exit {α : Type} (code : Int) : Forking α := do
  return (← call (.exit code)).elim

def makeEndpoint (client : Client) : Option Int :=
  let p := atoi client.portNumber
  if p ≤ 0 ∨ 65535 < p then none
  else if client.inetAton client.ipAddress then some p
  else none

def startClient (client : Client) : Forking Int := do
  match ← call .socket with
  | .error _ => exit 1
  | .ok sockfd =>
  match makeEndpoint client with
  | none =>
    close sockfd
    exit 1
  | some port =>
  match ← call (.connect sockfd client.ipAddress port) with
  | .error _ =>
    close sockfd
    exit 1
  | .ok () => return sockfd

def computeLocalFd (command : Cmd) : Sys (Option Int) := do
  if command.code = .read ∨ command.code = .list then return some 1
  if command.code = .write then return some 0
  let opened ←
    if command.code = .uploadBegin then
      fileCall (.openPath command.buf { access := .rdonly } 0)
    else
      fileCall (.openPath command.buf2 { access := .wronly, creat := true, trunc := true } 0o600)
  match opened with
  | .error _ => return none
  | .ok localFd => return some localFd

def bgEndNotify {α : Type} (pipeWriteFd socketFd exitCode : Int) (msg : Option CStr) :
    Forking α := do
  call (.write pipeWriteFd (msg.getD (cstr "Background operation terminated.\n")))
  when (0 ≤ socketFd) do close socketFd
  exit exitCode

def successMsg (command : Cmd) : CStr :=
  if command.code = .downloadBegin then
    snprintf 256 (cstr "[Background] Command: download " ++ command.buf.take 90 ++ cstr " " ++
      command.buf2.take 90 ++ cstr " concluded\n")
  else if command.code = .uploadBegin then
    snprintf 256 (cstr "[Background] Command: upload " ++ command.buf2.take 90 ++ cstr " " ++
      command.buf.take 90 ++ cstr " concluded\n")
  else []

/-- `spawn_background` in the child. -/
def background (client : Client) : Forking Unit := do
  let ⟨command, line, username, pipeFd, socketFd⟩ ← call .forked
  close pipeFd.1
  close socketFd
  let bgSocketFd ← startClient client
  let payload := snprintf 256 (cstr "login " ++ username)
  let _ ← sys (sendPacket Command.login.code payload)
  match ← sys (recvResponse 0) with
  | none =>
    bgEndNotify pipeFd.2 bgSocketFd 1 (some (cstr "[ERROR]: Background login failed.\n"))
  | some _ =>
  match ← sys (computeLocalFd command) with
  | none =>
    bgEndNotify pipeFd.2 bgSocketFd 1
      (some (cstr "Background operation failed to open local file.\n"))
  | some fd =>
  let _ ← sys (sendPacket command.code.code line)
  let rc ← sys (runStreamCommand client.texts command fd)
  when (2 < fd) do close fd
  if !rc then
    bgEndNotify pipeFd.2 bgSocketFd 1
      (some (cstr "[ERROR]: Background operation failed during stream transfer.\n"))
  else bgEndNotify pipeFd.2 bgSocketFd 0 (some (successMsg command))

/-- `spawn_background` in the parent, for which `fork` fails or not. -/
def spawnBackground (inherited : Inherited) : Forking Unit := do
  let _ ← call (.fork inherited)

/-- A round of the loop of `main` goes on with the name of the user, or breaks out of it. -/
abbrev Round := Forking (CStr ⊕ Unit)

def handleInput (client : Client) (socketFd : Int) (pipeFd : Int × Int) (username : CStr) :
    Round := do
  match ← sys (readLine 0 (PATH_MAX + 64)) with
  | .error _ => return .inr ()
  | .ok (buf, stdinEof) =>
  if stdinEof then return .inr ()
  if buf = [] then return .inl username
  let line := buf.takeWhile (· ≠ 0)
  match ← sys (parseCommand (some line)) with
  | .error _ => return .inl username
  | .ok command =>
  if command.code = .exit then
    if 0 < (← call .backgroundOperations) then return .inl username
    return .inr ()
  else
  let isStream := command.code = .read ∨ command.code = .write ∨ command.code = .uploadBegin ∨
    command.code = .downloadBegin ∨ command.code = .list
  match ← sys (if isStream then computeLocalFd command else pure (some (-1))) with
  | none => return .inl username
  | some localFd =>
  if command.isBackground then
    if command.code = .uploadBegin ∨ command.code = .downloadBegin then
      spawnBackground { command, line, username, pipeFd, socketFd }
      when (2 < localFd) do close localFd
      call (.addBackgroundOperations 1)
      return .inl username
    else
      when (2 < localFd) do close localFd
      return .inl username
  else
  let _ ← sys (sendPacket command.code.code line)
  if isStream then
    let _ ← sys (runStreamCommand client.texts command localFd)
    when (2 < localFd) do close localFd
    return .inl username
  else
    let rc ← sys waitResponse
    return .inl (if rc ∧ command.code = .login then command.buf.take 63 else username)

/-- Output of the children: one operation less for each newline. -/
def handlePipe (pipeFd : Int) : Forking Unit := do
  match ← call (.read pipeFd 511) with
  | .error _ => return ()
  | .ok buf => call (.addBackgroundOperations (-(buf.count 10 : Int)))

def round (client : Client) (socketFd : Int) (pipeFd : Int × Int) (username : CStr) : Round := do
  match ← sys (socketCall (.select [0, socketFd, pipeFd.1])) with
  | .error e => if e = EINTR then return .inl username else return .inr ()
  | .ok readfds =>
  if 0 ∈ readfds then handleInput client socketFd pipeFd username
  else if socketFd ∈ readfds then
    match ← sys (socketCall .recvPacket) with
    | none => return .inr ()
    | some packet =>
      if packet.command = RSP_NOTIFY then return .inl username
      when (pipeFd.1 ∈ readfds) (handlePipe pipeFd.1)
      return .inl username
  else
    when (pipeFd.1 ∈ readfds) (handlePipe pipeFd.1)
    return .inl username

def main (client : Client) : Forking Unit := do
  let socketFd ← startClient client
  match ← call .pipe with
  | .error _ =>
    close socketFd
    exit 1
  | .ok pipeFd =>
    let _ ← iterate [] (round client socketFd pipeFd)
    close socketFd

inductive Process
  | parent
  | child (n : Nat)
deriving DecidableEq, Repr

/-- What the schedule settles in a step: outcomes of calls, whether a packet is cut off, and how
many bytes of the pipe are read. -/
structure Choice where
  reply : (c : Csap.Call) → c.Reply
  cut : Bool := false
  socket : SysResult Int := .ok 4
  connect : SysResult Unit := .ok ()
  pipe : SysResult (Int × Int) := .ok (5, 6)
  fork : SysResult Nat := .ok 0
  amount : SysResult Nat := .ok 511

structure State where
  backgroundOperations : Int := 0
  pipe : CStr := []
  children : List (Nat × Inherited) := []
  aborted : List Process := []

def execSys (pid : Process) (choice : Choice) (s : State) : (c : Csap.Call) → c.Reply × State
  | .socket .recvPacket =>
    if choice.cut then (none, { s with aborted := pid :: s.aborted })
    else (choice.reply (.socket .recvPacket), s)
  | c => (choice.reply c, s)

/-- One call, unless it blocks. A message to the pipe is short enough to be written whole. -/
def exec (pid : Process) (choice : Choice) (s : State) : (c : Call) → Option (c.Reply × State)
  | .sys c => some (execSys pid choice s c)
  | .socket => some (choice.socket, s)
  | .connect _ _ _ => some (choice.connect, s)
  | .pipe => some (choice.pipe, s)
  | .fork inherited =>
    match choice.fork with
    | .error e => some (.error e, s)
    | .ok n =>
      if n ∈ s.children.map Prod.fst then none
      else some (.ok n, { s with children := (n, inherited) :: s.children })
  | .forked =>
    match pid with
    | .parent => none
    | .child n => (s.children.lookup n).map fun inherited => (inherited, s)
  | .read _ size =>
    match choice.amount with
    | .error e => some (.error e, s)
    | .ok n =>
      if s.pipe = [] then none
      else
        some (.ok (s.pipe.take (min (n + 1) size)),
          { s with pipe := s.pipe.drop (min (n + 1) size) })
  | .write _ msg => some ((), { s with pipe := s.pipe ++ msg })
  | .backgroundOperations => some (s.backgroundOperations, s)
  | .addBackgroundOperations n =>
    some ((), { s with backgroundOperations := s.backgroundOperations + n })
  | .exit _ => none

def machine : Interleaving.Machine Call.Reply Process State Choice := fun pid c choice s =>
  if pid ∈ s.aborted then none else exec pid choice s c

abbrev Event := Interleaving.Event Call.Reply Process State Choice

abbrev Config := Interleaving.Config Call.Reply Process State Choice

def start (client : Client) : Config where
  state := {}
  procs
    | .parent => main client
    | .child _ => background client
  log := []

end Csap.ClientMain
