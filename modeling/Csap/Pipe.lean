import Mathlib.Algebra.Order.BigOperators.Group.List
import Mathlib.Algebra.Order.Ring.Nat

/-! A pipe with room for so many bytes, whose reader is idle. A message is put in as a whole if it
fits into what room is left, and is refused otherwise; a later one may still fit. -/

namespace Pipe

variable {α : Type}

def size (messages : List (List α)) : Nat := (messages.map List.length).sum

@[simp] theorem size_nil : size ([] : List (List α)) = 0 := rfl

@[simp] theorem size_append (messages rest : List (List α)) :
    size (messages ++ rest) = size messages + size rest := by
  simp [size]

@[simp] theorem size_singleton (message : List α) : size [message] = message.length := by
  simp [size]

theorem size_perm {messages other : List (List α)} (h : messages.Perm other) :
    size messages = size other :=
  (h.map List.length).sum_nat

theorem le_size {messages : List (List α)} {bound : Nat}
    (long : ∀ message ∈ messages, bound ≤ message.length) :
    messages.length * bound ≤ size messages := by
  have each := List.card_nsmul_le_sum (messages.map List.length) bound (by simpa using long)
  simpa [size] using each

def Fits (capacity : Nat) (messages : List (List α)) (message : List α) : Prop :=
  size messages + message.length ≤ capacity

instance (capacity : Nat) (messages : List (List α)) (message : List α) :
    Decidable (Fits capacity messages message) :=
  inferInstanceAs (Decidable (_ ≤ _))

/-- Of the messages `offered` these are in the pipe; `denied` if one of them was never put to it. -/
structure Holds (capacity : Nat) (offered messages : List (List α)) (denied : Prop) : Prop where
  fits : size messages ≤ capacity
  fewer : messages.length ≤ offered.length
  whole : ¬denied → size offered ≤ capacity → messages = offered
  missing : denied → messages.length < offered.length

namespace Holds

variable {capacity : Nat} {offered messages : List (List α)} {message : List α} {denied : Prop}

theorem empty (asked : ¬denied) : Holds capacity ([] : List (List α)) [] denied where
  fits := Nat.zero_le _
  fewer := Nat.le_refl _
  whole := fun _ _ => rfl
  missing := fun unasked => absurd unasked asked

theorem accept (h : Holds capacity offered messages denied) (fits : Fits capacity messages message) :
    Holds capacity (offered ++ [message]) (messages ++ [message]) denied where
  fits := by
    rw [size_append, size_singleton]
    exact fits
  fewer := by simpa using h.fewer
  whole := by
    intro asked small
    rw [size_append, size_singleton] at small
    rw [h.whole asked (by omega)]
  missing := by
    intro unasked
    simpa using h.missing unasked

theorem refuse (h : Holds capacity offered messages denied) (full : ¬Fits capacity messages message) :
    Holds capacity (offered ++ [message]) messages denied where
  fits := h.fits
  fewer := by
    rw [List.length_append]
    exact Nat.le_add_right_of_le h.fewer
  whole := by
    intro asked small
    rw [size_append, size_singleton] at small
    have same := h.whole asked (by omega)
    exact absurd (same ▸ small) full
  missing := by
    intro unasked
    rw [List.length_append]
    exact Nat.lt_add_right _ (h.missing unasked)

theorem deny (h : Holds capacity offered messages denied) {more : List (List α)} (some_ : more ≠ []) :
    Holds capacity (offered ++ more) messages True where
  fits := h.fits
  fewer := by
    rw [List.length_append]
    exact Nat.le_add_right_of_le h.fewer
  whole := fun asked => absurd True.intro asked
  missing := by
    intro _
    have positive := List.length_pos_of_ne_nil some_
    have fewer := h.fewer
    rw [List.length_append]
    omega

/-- Every message offered is in the pipe exactly if they were all put to it and fit together. -/
theorem perm_iff (h : Holds capacity offered messages denied) :
    messages.Perm offered ↔ ¬denied ∧ size offered ≤ capacity := by
  constructor
  · intro all
    constructor
    · intro unasked
      exact absurd all.length_eq (Nat.ne_of_lt (h.missing unasked))
    · rw [← size_perm all]
      exact h.fits
  · rintro ⟨asked, small⟩
    rw [h.whole asked small]

end Holds

end Pipe
