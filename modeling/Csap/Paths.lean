import Csap.System

/-! `paths.c`: canonical paths and the sandbox check. -/

namespace Csap

/-- The test on a canonical path: it is the root, or continues it with a slash. -/
def insideRoot (nroot path : CStr) : Bool :=
  path.take nroot.length = nroot &&
    ((path.drop nroot.length).head? = some 47 || path.drop nroot.length = [])

/-- The result, and what `validated_path` holds then. -/
def validatePath (path root : CStr) : Sys (SysResult Unit × CStr) := do
  let nroot := stripSlashes (snprintf PATH_MAX root)
  match ← fileCall (.realpath path) with
  | .ok validatedPath =>
    if insideRoot nroot validatedPath then return (.ok (), validatedPath)
    return (.error EPERM, [])
  | .error e =>
    if e ≠ ENOENT then return (.error e, [])
    -- a path that does not exist is judged by its parent directory
    let pathCopy ← alloc (path.length + 1)
    let pathCopy2 ← alloc (path.length + 1)
    if !pathCopy || !pathCopy2 then return (.error ENOMEM, [])
    match ← fileCall (.realpath (dirname path)) with
    | .error e => return (.error e, [])
    | .ok resolvedParent =>
      if !insideRoot nroot resolvedParent then return (.error EPERM, [])
      let slash := if resolvedParent = cstr "/" then [] else cstr "/"
      let joined := resolvedParent ++ slash ++ basename path
      if PATH_MAX ≤ joined.length then return (.error ENAMETOOLONG, [])
      return (.ok (), joined)

end Csap
