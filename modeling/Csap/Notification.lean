import Csap.Libc

/-! The lines that sessions write into each other's fifo. A line tells what it
reports and about which request. -/

namespace Csap

inductive Notification
  | req (id : Int) (baseName : CStr)
  | accept (id : Int) (path : CStr)
  | reject (id : Int)
  | fail (id : Int) (err : Errno)
deriving DecidableEq, Repr

namespace Notification

def text : Notification → CStr
  | req id baseName => cstr "REQ|" ++ decimal id ++ cstr "|" ++ baseName ++ [10]
  | accept id path => cstr "ACCEPT|" ++ decimal id ++ cstr "|" ++ path ++ [10]
  | reject id => cstr "REJECT|" ++ decimal id ++ [10]
  | fail id err => cstr "FAIL|" ++ decimal id ++ cstr "|" ++ decimal err.code ++ [10]

def id : Notification → Int
  | req id _ | accept id _ | reject id | fail id _ => id

def keyword : Notification → CStr
  | req _ _ => cstr "REQ|"
  | accept _ _ => cstr "ACCEPT|"
  | reject _ => cstr "REJECT|"
  | fail _ _ => cstr "FAIL|"

theorem text_ne_nil (n : Notification) : n.text ≠ [] := by
  cases n <;> simp [text]

end Notification

end Csap
