import Csap.System

/-! `utils.c`: complete writes, lines, temporary files, permissions and the
string buffer; and the file locks of `locks.c`. -/

namespace Csap

open Prog (iterate when)

/-- The loop of `write_all`; the state is what is left to write. -/
def writeAll (fd : Int) (buf : CStr) : Sys (SysResult Unit) :=
  iterate buf fun remaining => do
    if remaining = [] then return .inr (.ok ())
    match ← fileCall (.write fd remaining) with
    | .error e => if e = EINTR then return .inl remaining else return .inr (.error e)
    | .ok written => return .inl (remaining.drop written)

/-- The line read and the end-of-file flag. -/
def readLine (fd : Int) (size : Nat) : Sys (SysResult (CStr × Bool)) :=
  iterate [] fun buf => do
    if size ≤ buf.length + 1 then return .inr (.ok (buf, false))
    match ← fileCall (.read fd 1) with
    | .error e => if e = EINTR then return .inl buf else return .inr (.error e)
    | .ok [] => return .inr (.ok (buf, buf.isEmpty))
    | .ok (c :: _) => if c = 10 then return .inr (.ok (buf, false)) else return .inl (buf ++ [c])

def setLock (fd : Int) (type : LockType) (offset len : Int) : Sys (SysResult Unit) :=
  fileCall (.setlk fd type offset len)

def acquireReadLock (fd offset len : Int) : Sys (SysResult Unit) := setLock fd .rdlck offset len

def acquireWriteLock (fd offset len : Int) : Sys (SysResult Unit) := setLock fd .wrlck offset len

def releaseLock (fd offset len : Int) : Sys (SysResult Unit) := setLock fd .unlck offset len

def validatePermissions (buf : CStr) : Option Nat :=
  let val := strtol 8 buf
  if buf = [] ∨ val.range ∨ val.rest ≠ [] ∨ val.value < 0 ∨ 0o777 < val.value then none
  else some val.value.toNat

/-- The descriptor, and what is left in `temp_path_out`. -/
def openTempForUpload (destPath : CStr) : Sys (SysResult Int × CStr) := do
  let dirPath := destPath.rdropWhile (· ≠ 47)
  if dirPath = [] then return (.error EINVAL, [])
  let allocated ← alloc (dirPath.length + 1)
  if !allocated then return (.error ENOMEM, [])
  let tempTemplate := snprintf PATH_MAX (dirPath ++ cstr ".tempXXXXXX")
  if PATH_MAX ≤ tempTemplate.length then return (.error ENAMETOOLONG, [])
  fileCall (.mkstemp tempTemplate)

/-- `path_basename` into a buffer of `n` bytes. -/
def pathBasename (n : Nat) (src : CStr) : CStr := snprintf n (basename (snprintf PATH_MAX src))

/-- `strbuf_t`: `data` is NULL until it is allocated, and `len` is its length. -/
structure StrBuf where
  data : Option CStr := none
  cap : Nat := 0
deriving DecidableEq, Repr

def StrBuf.content (sb : StrBuf) : CStr := sb.data.getD []

def sbInit (sb : StrBuf) : Sys (SysResult Unit × StrBuf) := do
  let allocated ← alloc 1024
  if allocated then return (.ok (), { data := some [], cap := 1024 })
  return (.error ENOMEM, { sb with data := none, cap := 1024 })

/-- The doubling loop of `sb_append`, at most once a bit of `size_t`. -/
def doubledCap (need : Nat) : (rounds : Nat) → Nat → Nat
  | 0, cap => cap
  | rounds + 1, cap => if cap < need then doubledCap need rounds (cap * 2) else cap

/-- `false` where the function returns -1. -/
def sbAppend (sb : StrBuf) (s : CStr) : Sys (Bool × StrBuf) := do
  let sb ← if sb.data.isNone then (do return (← sbInit sb).2) else pure sb
  let some data := sb.data | return (false, sb)
  let need := data.length + s.length + 1
  if need ≤ sb.cap then return (true, { sb with data := some (data ++ s) })
  let newCap := doubledCap need 64 (if 0 < sb.cap then sb.cap * 2 else 1024)
  let moved ← alloc newCap
  if moved then return (true, { data := some (data ++ s), cap := newCap })
  return (false, sb)

end Csap
