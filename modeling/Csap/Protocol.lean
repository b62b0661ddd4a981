import Csap.System

/-! The commands of `network.h` and the command lines of `protocol.c`. -/

namespace Csap

/-- The codes a client sends, in the order of the enumeration. -/
inductive Command
  | login
  | createUser
  | list
  | cd
  | create
  | chmod
  | move
  | delete
  | read
  | write
  | uploadBegin
  | downloadBegin
  | data
  | dataEnd
  | transferReq
  | accept
  | reject
  | exit
  | readData
  | readEnd
  | writeData
  | writeEnd
  | listData
  | listEnd
deriving DecidableEq, Repr

namespace Command

def all : List Command :=
  [login, createUser, list, cd, create, chmod, move, delete, read, write, uploadBegin,
    downloadBegin, data, dataEnd, transferReq, accept, reject, exit, readData, readEnd, writeData,
    writeEnd, listData, listEnd]

def code (c : Command) : UInt8 := UInt8.ofNat (all.idxOf c + 1)

def ofCode (code : UInt8) : Option Command := all.find? fun c => c.code = code

@[simp] theorem ofCode_code (c : Command) : ofCode c.code = some c := by
  cases c <;> decide

end Command

def RSP_OK : UInt8 := 100
def RSP_ERR : UInt8 := 101
def RSP_NOTIFY : UInt8 := 104

def MAX_ARGS : Nat := 8

/-- A row of `CMDS`; `argc` is `none` where the number of arguments is variable. -/
structure CommandRow where
  name : CStr
  code : Command
  argc : Option Nat
  syntaxLine : CStr

def CMDS : List CommandRow :=
  [⟨cstr "create", .create, some 2, cstr "create [-d] <path> <permissions>"⟩,
    ⟨cstr "chmod", .chmod, some 2, cstr "chmod <path> <permissions>"⟩,
    ⟨cstr "move", .move, some 2, cstr "move <old_path> <new_path>"⟩,
    ⟨cstr "delete", .delete, some 1, cstr "delete <path>"⟩,
    ⟨cstr "cd", .cd, some 1, cstr "cd <path>"⟩,
    ⟨cstr "read", .read, some 1, cstr "read [-offset=N] <path>"⟩,
    ⟨cstr "write", .write, some 1, cstr "write [-offset=N] <path>"⟩,
    ⟨cstr "list", .list, none, cstr "list [<path>]"⟩,
    ⟨cstr "login", .login, some 1, cstr "login <username>"⟩,
    ⟨cstr "create_user", .createUser, some 2, cstr "create_user <username> <permissions>"⟩,
    ⟨cstr "upload", .uploadBegin, some 2, cstr "upload [-b] <client_path> <server_path>"⟩,
    ⟨cstr "download", .downloadBegin, some 2, cstr "download [-b] <server_path> <client_path>"⟩,
    ⟨cstr "transfer_request", .transferReq, some 2,
      cstr "transfer_request <file> <dest_user>"⟩,
    ⟨cstr "accept", .accept, some 2, cstr "accept <directory> <id>"⟩,
    ⟨cstr "reject", .reject, some 1, cstr "reject <id>"⟩,
    ⟨cstr "exit", .exit, none, cstr "exit"⟩]

/-- `cmd_t`. -/
structure Cmd where
  code : Command
  isBackground : Bool := false
  isDir : Bool := false
  offset : Int := -1
  argc : Nat := 0
  buf : CStr := []
  buf2 : CStr := []
deriving DecidableEq, Repr

/-- Every caller of `parse_command` passes an `error_msg[256]`. -/
def errorMsg (text : CStr) : CStr := snprintf 256 text

def parseOption (command : Cmd) (token : CStr) : Except CStr Cmd :=
  if token = cstr "-b" then .ok { command with isBackground := true }
  else if token = cstr "-d" then .ok { command with isDir := true }
  else if token.take 8 = cstr "-offset=" then
    let number := token.drop 8
    let offset := strtol 10 number
    if offset.range ∨ offset.rest = number ∨ offset.rest ≠ [] then
      .error (errorMsg (cstr "Invalid offset value"))
    else if offset.value < 0 then .error (errorMsg (cstr "Offset cannot be negative"))
    else .ok { command with offset := offset.value }
  else .error (errorMsg (cstr "Unknown option: " ++ token))

/-- The token loop; `command.argc` counts the arguments read so far. -/
def parseArgs (row : CommandRow) (command : Cmd) : List CStr → Except CStr Cmd
  | [] => .ok command
  | token :: rest =>
    if command.argc < MAX_ARGS then
      if token.head? = some 45 then
        match parseOption command token with
        | .error msg => .error msg
        | .ok command => parseArgs row command rest
      else if command.argc = 0 then
        parseArgs row { command with buf := snprintf PATH_MAX token, argc := 1 } rest
      else if command.argc = 1 then
        parseArgs row { command with buf2 := snprintf PATH_MAX token, argc := 2 } rest
      else .error (errorMsg (cstr "Too many arguments for command: " ++ row.name))
    else .ok command

/-- `parse_command` on a line it could copy. -/
def parseLine (line : CStr) : Except CStr Cmd :=
  match tokens 32 [] line with
  | [] => .error (errorMsg (cstr "Empty command line"))
  | name :: args =>
    match CMDS.find? fun row => row.name = name with
    | none => .error (errorMsg (cstr "Unknown command: " ++ name))
    | some row =>
      match parseArgs row { code := row.code } args with
      | .error msg => .error msg
      | .ok command =>
        if row.argc.all (· = command.argc) then .ok command
        else .error (errorMsg (cstr "Incorrect number of arguments for command: " ++ row.name ++
          cstr ". Syntax: " ++ row.syntaxLine))

/-- The command, or the text left in `error_msg`. -/
def parseCommand (line : Option CStr) : Sys (Except CStr Cmd) := do
  let some line := line | return .error (errorMsg (cstr "Invalid arguments to parse_command"))
  let copied ← alloc (line.length + 1)
  if copied then
    return parseLine line
  else
    return .error (errorMsg (cstr "Memory allocation failed"))

example : parseLine (cstr "write -offset=12 notes.txt") =
    .ok { code := .write, offset := 12, argc := 1, buf := cstr "notes.txt" } := by
  decide

end Csap
