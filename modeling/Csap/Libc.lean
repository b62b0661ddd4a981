import Mathlib.Data.List.DropRight
import Mathlib.Data.Nat.Digits.Lemmas
import Mathlib.Tactic

/-! The C library values the server is written in: strings, error numbers and
the conversions it calls. A C string is the list of its bytes before the
terminating NUL, so `strcmp` is equality and `strlen` is `length`. -/

namespace Csap

abbrev CStr := List UInt8

def cstr (text : String) : CStr := text.toList.map fun c => c.toNat.toUInt8

/-- What `snprintf(dst, size, "%s", src)` leaves in `dst`. -/
def snprintf (size : Nat) (src : CStr) : CStr := src.take (size - 1)

theorem snprintf_eq_self {size : Nat} {src : CStr} (h : src.length < size) :
    snprintf size src = src :=
  List.take_of_length_le (by omega)

@[simp] theorem snprintf_snprintf (size : Nat) (src : CStr) :
    snprintf size (snprintf size src) = snprintf size src := by
  simp [snprintf, List.take_take]

theorem snprintf_length_lt {size : Nat} (src : CStr) (h : 0 < size) :
    (snprintf size src).length < size := by
  simp only [snprintf, List.length_take]
  omega

/-- The digits `%d`, `%lld` and `%llu` print. -/
def decimalNat (n : Nat) : CStr :=
  if n = 0 then cstr "0" else (Nat.digits 10 n).reverse.map fun d => UInt8.ofNat (48 + d)

def decimal : Int → CStr
  | .ofNat n => decimalNat n
  | .negSucc n => cstr "-" ++ decimalNat (n + 1)

/-- A value of type `int`. -/
def IsInt (n : Int) : Prop := -2 ^ 31 ≤ n ∧ n < 2 ^ 31

instance (n : Int) : Decidable (IsInt n) := inferInstanceAs (Decidable (_ ∧ _))

/-- The tokens `strtok_r` finds one after the other; `token` is the one being read. -/
def tokens (delim : UInt8) (token : CStr) : CStr → List CStr
  | [] => if token = [] then [] else [token]
  | c :: rest =>
    if c = delim then
      if token = [] then tokens delim [] rest else token :: tokens delim [] rest
    else tokens delim (token ++ [c]) rest

def isSpace (c : UInt8) : Bool := c = 32 || (9 ≤ c && c ≤ 13)

def isDigit (base : Nat) (c : UInt8) : Bool := 48 ≤ c.toNat && c.toNat < 48 + base

def LONG_MAX : Int := 2 ^ 63 - 1

def digitsValue (base : Nat) (digits : CStr) : Nat :=
  digits.foldl (fun n c => n * base + (c.toNat - 48)) 0

/-- What `strtol` returns, where it leaves `endptr`, and whether it sets `ERANGE`. -/
structure Strtol where
  value : Int
  rest : CStr
  range : Bool
deriving DecidableEq, Repr

/-- For bases up to ten. -/
def strtol (base : Nat) (s : CStr) : Strtol :=
  let body := s.dropWhile isSpace
  let negative := body.head? = some 45
  let number := if negative ∨ body.head? = some 43 then body.tail else body
  let digits := number.takeWhile (isDigit base)
  if digits = [] then { value := 0, rest := s, range := false }
  else
    let n := digitsValue base digits
    let v : Int := if negative then -n else n
    { value := max (-LONG_MAX - 1) (min LONG_MAX v)
      rest := number.dropWhile (isDigit base)
      range := v < -LONG_MAX - 1 || LONG_MAX < v }

/-- Conversion of an `int` result to 32 bits. -/
def int32 (n : Int) : Int := Int.bmod n (2 ^ 32)

def atoi (s : CStr) : Int := int32 (strtol 10 s).value

theorem digitsValue_decimalNat (n : Nat) : digitsValue 10 (decimalNat n) = n := by
  unfold decimalNat
  split_ifs with hn
  · rw [hn]
    decide
  · have small : ∀ d ∈ Nat.digits 10 n, d < 10 := fun d hd => Nat.digits_lt_base (by decide) hd
    have fold : ∀ l : List Nat, (∀ d ∈ l, d < 10) →
        l.foldr (fun d n => n * 10 + ((UInt8.ofNat (48 + d)).toNat - 48)) 0 = Nat.ofDigits 10 l := by
      intro l hl
      induction l with
      | nil => rfl
      | cons d l ih =>
        have hd : d < 10 := hl d List.mem_cons_self
        have digit : (UInt8.ofNat (48 + d)).toNat - 48 = d := by
          rw [UInt8.toNat_ofNat']
          omega
        rw [List.foldr_cons, ih fun x hx => hl x (List.mem_cons_of_mem _ hx), digit,
          Nat.ofDigits_cons]
        omega
    rw [digitsValue, List.foldl_map, List.foldl_reverse, fold _ small, Nat.ofDigits_digits]

theorem isDigit_of_mem_decimalNat {n : Nat} {c : UInt8} (h : c ∈ decimalNat n) :
    isDigit 10 c = true := by
  unfold decimalNat at h
  split_ifs at h
  · rw [show cstr "0" = [48] from rfl] at h
    have zero : c = 48 := List.mem_singleton.mp h
    rw [zero]
    decide
  · obtain ⟨d, hd, rfl⟩ := List.mem_map.mp h
    have small : d < 10 := Nat.digits_lt_base (by decide) (List.mem_reverse.mp hd)
    simp only [isDigit, UInt8.toNat_ofNat', Bool.and_eq_true, decide_eq_true_eq]
    omega

theorem mem_decimal_ne {n : Int} {c : UInt8} (h : c ∈ decimal n) (stop : UInt8)
    (hs : isDigit 10 stop = false) (minus : stop ≠ 45) : c ≠ stop := by
  rintro rfl
  cases n with
  | ofNat n => simp [isDigit_of_mem_decimalNat h] at hs
  | negSucc n =>
    rcases List.mem_append.mp h with h | h
    · simp [cstr] at h
      exact minus h
    · simp [isDigit_of_mem_decimalNat h] at hs

theorem digitsValue_append (s t : CStr) :
    digitsValue 10 (s ++ t) = digitsValue 10 s * 10 ^ t.length + digitsValue 10 t := by
  have fold : ∀ (t : CStr) (n : Nat), t.foldl (fun n c => n * 10 + (c.toNat - 48)) n =
      n * 10 ^ t.length + digitsValue 10 t := by
    intro t
    induction t with
    | nil => intro n; simp [digitsValue]
    | cons c t ih =>
      intro n
      have tail : digitsValue 10 (c :: t) = (0 * 10 + (c.toNat - 48)) * 10 ^ t.length +
        digitsValue 10 t := ih _
      rw [List.foldl_cons, ih, tail, List.length_cons, pow_succ]
      ring
  rw [digitsValue, List.foldl_append, fold]
  rfl

theorem digitsValue_lt {s : CStr} (digits : ∀ c ∈ s, isDigit 10 c = true) :
    digitsValue 10 s < 10 ^ s.length := by
  induction s with
  | nil => decide
  | cons c s ih =>
    have tail := ih fun d hd => digits d (List.mem_cons_of_mem _ hd)
    have digit := digits c List.mem_cons_self
    simp only [isDigit, Bool.and_eq_true, decide_eq_true_eq] at digit
    have head : digitsValue 10 [c] ≤ 9 := by
      simp only [digitsValue, List.foldl_cons, List.foldl_nil]
      omega
    rw [← List.singleton_append, digitsValue_append, List.length_append, List.length_singleton,
      pow_add]
    nlinarith

theorem decimalNat_ne_nil (n : Nat) : decimalNat n ≠ [] := by
  unfold decimalNat
  split_ifs with zero
  · decide
  · simpa using Nat.digits_ne_nil_iff_ne_zero.mpr zero

theorem pow_le_of_decimalNat {n k : Nat} (h : k + 1 < (decimalNat n).length) : 10 ^ (k + 1) ≤ n := by
  unfold decimalNat at h
  split_ifs at h
  · simp [cstr] at h
  · rw [List.length_map, List.length_reverse] at h
    exact (Nat.lt_digits_length_iff (by decide) n).mp h

theorem decimalNat_length_le {n : Nat} (h : n ≤ 2 ^ 31) : (decimalNat n).length ≤ 10 := by
  by_contra long
  have large : 10 ^ (9 + 1) ≤ n := pow_le_of_decimalNat (not_le.mp long)
  omega

theorem decimal_length_le {i : Int} (h : IsInt i) : (decimal i).length ≤ 11 := by
  obtain ⟨low, high⟩ := h
  cases i with
  | ofNat n =>
    have digits : (decimalNat n).length ≤ 10 :=
      decimalNat_length_le (by simp only [Int.ofNat_eq_natCast] at high; omega)
    exact digits.trans (by decide)
  | negSucc n =>
    have digits : (decimalNat (n + 1)).length ≤ 10 := decimalNat_length_le (by omega)
    have sign : (cstr "-").length = 1 := by decide
    simp only [decimal, List.length_append, sign]
    omega

theorem strtol_digits {s : CStr} (some : s ≠ []) (digits : ∀ c ∈ s, isDigit 10 c = true) :
    strtol 10 s =
      { value := min LONG_MAX (digitsValue 10 s)
        rest := []
        range := LONG_MAX < (digitsValue 10 s : Int) } := by
  obtain ⟨c, s, rfl⟩ := List.exists_cons_of_ne_nil some
  have first := digits c List.mem_cons_self
  have space : isSpace c = false := by
    simp only [isDigit, Bool.and_eq_true, decide_eq_true_eq] at first
    simp only [isSpace, Bool.or_eq_false_iff, Bool.and_eq_false_iff,
      decide_eq_false_iff_not, ← UInt8.toNat_inj, UInt8.le_iff_toNat_le, not_le]
    exact ⟨by simp; omega, .inr (by simp; omega)⟩
  have sign : ∀ d : UInt8, d = 45 ∨ d = 43 → ¬ c = d := by
    rintro d (rfl | rfl) rfl <;> simp [isDigit] at first
  have all : (c :: s).takeWhile (isDigit 10) = c :: s := List.takeWhile_eq_self_iff.mpr digits
  have none : (c :: s).dropWhile (isDigit 10) = [] := List.dropWhile_eq_nil_iff.mpr digits
  have body : (c :: s).dropWhile isSpace = c :: s := List.dropWhile_cons_of_neg (by simp [space])
  unfold strtol
  simp only [body, List.head?_cons, Option.some.injEq, sign 45 (.inl rfl), sign 43 (.inr rfl),
    or_self, if_false, all, none, reduceCtorEq]
  have positive : (0 : Int) ≤ digitsValue 10 (c :: s) := Int.natCast_nonneg _
  have bound : -LONG_MAX - 1 ≤ min LONG_MAX (digitsValue 10 (c :: s) : Int) := by
    simp only [LONG_MAX]
    omega
  have small : ¬ (digitsValue 10 (c :: s) : Int) < -LONG_MAX - 1 := by
    simp only [LONG_MAX]
    omega
  rw [max_eq_right bound, decide_eq_false small, Bool.false_or]

def stripSlashes (path : CStr) : CStr := path.rdropWhile (· = 47)

def basename (path : CStr) : CStr :=
  if path = [] then cstr "."
  else if stripSlashes path = [] then cstr "/"
  else (stripSlashes path).rtakeWhile (· ≠ 47)

def dirname (path : CStr) : CStr :=
  let parent := (stripSlashes path).rdropWhile (· ≠ 47)
  if parent = [] then (if path.head? = some 47 then cstr "/" else cstr ".")
  else if stripSlashes parent = [] then cstr "/"
  else stripSlashes parent

def PATH_MAX : Nat := 4096

def NAME_MAX : Nat := 255

/-- An error number. The functions of the server return it negated. -/
structure Errno where
  code : Nat
  pos : 0 < code := by decide
deriving DecidableEq, Repr

namespace Errno

def neg (e : Errno) : Int := -(e.code : Int)

theorem neg_lt_zero (e : Errno) : e.neg < 0 := by
  have h := e.pos
  simp only [neg]
  omega

end Errno

def EPERM : Errno := { code := 1 }
def ENOENT : Errno := { code := 2 }
def ESRCH : Errno := { code := 3 }
def EINTR : Errno := { code := 4 }
def EIO : Errno := { code := 5 }
def EAGAIN : Errno := { code := 11 }
def ENOMEM : Errno := { code := 12 }
def EACCES : Errno := { code := 13 }
def EEXIST : Errno := { code := 17 }
def ENOTDIR : Errno := { code := 20 }
def EISDIR : Errno := { code := 21 }
def EINVAL : Errno := { code := 22 }
def ENAMETOOLONG : Errno := { code := 36 }
def ELOOP : Errno := { code := 40 }
def EPROTO : Errno := { code := 71 }
def EALREADY : Errno := { code := 114 }
def ECANCELED : Errno := { code := 125 }

end Csap
