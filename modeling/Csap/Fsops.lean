import Csap.Utils

/-! `fsops.c`: create, chmod, move, delete, cd and list. -/

namespace Csap

open Prog (iterate)

def deleteCmd (path : CStr) : Sys (SysResult Unit) := do
  match ← fileCall (.stat path) with
  | .error e => return .error e
  | .ok st =>
  if st.kind = .directory then fileCall (.rmdir path)
  else fileCall (.unlink path)

def cdCmd (path : CStr) : Sys (SysResult Unit) := fileCall (.chdir path)

def moveCmd (src dest : CStr) : Sys (SysResult Unit) := fileCall (.rename src dest)

def chmodCmd (path : CStr) (perms : Nat) : Sys (SysResult Unit) := fileCall (.chmod path perms)

def createCmd (path : CStr) (perms : Nat) (isDir : Bool) : Sys (SysResult Unit) := do
  if isDir then
    fileCall (.mkdir path perms)
  else
    match ← fileCall (.openPath path { access := .wronly, creat := true, excl := true } perms) with
    | .error e => return .error e
    | .ok fd =>
      let _ ← fileCall (.close fd)
      return .ok ()

def kindLetter : FileKind → CStr
  | .regular => cstr "-"
  | .directory => cstr "d"
  | .symlink => cstr "l"
  | .fifo => cstr "p"
  | .socket => cstr "s"
  | .character => cstr "c"
  | .block => cstr "b"
  | .unknown => cstr "?"

/-- `rwx` for the three bits from `shift` up. -/
def rwx (mode shift : Nat) : CStr :=
  (if mode.testBit (shift + 2) then cstr "r" else cstr "-") ++
    (if mode.testBit (shift + 1) then cstr "w" else cstr "-") ++
    (if mode.testBit shift then cstr "x" else cstr "-")

/-- Drop the newline that ends the text of `ctime`. -/
def timeText (time : CStr) : CStr :=
  let time := snprintf 64 time
  if time.getLast? = some 10 then time.dropLast else time

/-- The line of a file, if it fits `line[1024]`. -/
def fileInfoLine (texts : Texts) (st : Stat) (userName groupName filename : CStr) : Option CStr :=
  let perms := kindLetter st.kind ++ rwx st.mode 6 ++ rwx st.mode 3 ++ rwx st.mode 0
  let line := perms ++ cstr " " ++ userName ++ cstr " " ++ groupName ++ cstr " " ++
    decimalNat st.nlink ++ cstr " " ++ decimalNat st.size ++ cstr " " ++
    timeText (texts.ctime st.mtime) ++ cstr " " ++ filename ++ [10]
  if 1024 ≤ line.length then none else some line

def constructFileInfo (texts : Texts) (sb : StrBuf) (st : Stat) (filename : CStr) :
    Sys (SysResult Unit × StrBuf) := do
  let userName ← userCall (.getpwuid st.uid)
  let groupName ← userCall (.getgrgid st.gid)
  match fileInfoLine texts st (userName.getD (cstr "unknown")) (groupName.getD (cstr "unknown"))
      filename with
  | none => return (.error EPERM, sb)
  | some line =>
  let (appended, sb) ← sbAppend sb line
  if !appended then return (.error ENOMEM, sb)
  return (.ok (), sb)

/-- The `readdir` loop of `list`. -/
def listEntries (texts : Texts) (path : CStr) (dir : Int) (sb : StrBuf) :
    Sys (SysResult Unit × StrBuf) :=
  iterate sb fun sb => do
    match ← fileCall (.readdir dir) with
    | none => return .inr (.ok (), sb)
    | some name =>
    if name = cstr "." ∨ name = cstr ".." then return .inl sb
    match ← fileCall (.lstat (snprintf PATH_MAX (path ++ cstr "/" ++ name))) with
    | .error _ => return .inl sb
    | .ok fileStat =>
    match ← constructFileInfo texts sb fileStat name with
    | (.error e, sb) => return .inr (.error e, sb)
    | (.ok (), sb) => return .inl sb

def list (texts : Texts) (path : CStr) : Sys (SysResult Unit × StrBuf) := do
  match ← sbInit {} with
  | (.error _, sb) => return (.error ENOMEM, sb)
  | (.ok (), sb) =>
  match ← fileCall (.lstat path) with
  | .error e => return (.error e, sb)
  | .ok fileStat =>
  if fileStat.kind = .directory then
    match ← fileCall (.opendir path) with
    | .error e => return (.error e, sb)
    | .ok dir =>
      let (rc, sb) ← listEntries texts path dir sb
      let _ ← fileCall (.closedir dir)
      return (rc, sb)
  else
    constructFileInfo texts sb fileStat (basename (snprintf PATH_MAX path))

end Csap
