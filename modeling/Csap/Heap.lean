import Csap.Prog
import Mathlib.Tactic

/-! The heap of a C program as an interface of calls. Blocks are handed out under
names, and the name of a block that was released is not used again. A `Heap` says
for each name what has become of it. -/

/-- A block of memory; a byte that was never stored is `none`. -/
abbrev Block := List (Option UInt8)

namespace Block

def store (block : Block) (offset : Nat) (bytes : List UInt8) : Block :=
  block.take offset ++ bytes.map some ++ block.drop (offset + bytes.length)

def resize (block : Block) (size : Nat) : Block :=
  block.take size ++ List.replicate (size - block.length) none

def Begins (block : Block) (bytes : List UInt8) : Prop := bytes.map some <+: block

variable {block : Block} {bytes more : List UInt8} {offset size : Nat}

theorem store_length (fits : offset + bytes.length ≤ block.length) :
    (block.store offset bytes).length = block.length := by
  simp only [store, List.length_append, List.length_take, List.length_map, List.length_drop]
  omega

@[simp] theorem resize_length : (block.resize size).length = size := by
  simp only [resize, List.length_append, List.length_take, List.length_replicate]
  omega

theorem begins_nil : block.Begins [] := List.nil_prefix

theorem Begins.of_append (h : block.Begins (bytes ++ more)) : block.Begins bytes := by
  apply List.IsPrefix.trans ?_ h
  rw [List.map_append]
  exact List.prefix_append _ _

theorem Begins.take (h : block.Begins bytes) : block.take bytes.length = bytes.map some := by
  simpa using (List.prefix_iff_eq_take.mp h).symm

theorem Begins.resize (h : block.Begins bytes) (fits : bytes.length ≤ size) :
    (block.resize size).Begins bytes := by
  have kept : bytes.map some = (block.take size).take bytes.length := by
    rw [List.take_take, min_eq_left fits, h.take]
  unfold Begins Block.resize
  rw [kept]
  exact (List.take_prefix _ _).trans (List.prefix_append _ _)

theorem Begins.store (h : block.Begins bytes) :
    (block.store bytes.length more).Begins (bytes ++ more) := by
  unfold Begins Block.store
  rw [h.take, List.map_append]
  exact List.prefix_append _ _

end Block

/-- What has become of a name: a block may be released more than once by mistake. -/
inductive Cell
  | fresh
  | live (block : Block)
  | released (times : Nat)
deriving DecidableEq, Repr

abbrev Heap := Nat → Cell

inductive HeapCall
  | malloc (size : Nat)
  | realloc (ptr size : Nat)
  | free (ptr : Nat)
  | store (ptr offset : Nat) (bytes : List UInt8)
deriving DecidableEq, Repr

namespace HeapCall

@[reducible] def Reply : HeapCall → Type
  | malloc _ | realloc _ _ => Option Nat
  | free _ | store _ _ _ => Unit

end HeapCall

abbrev heapCall (c : HeapCall) : Prog HeapCall.Reply c.Reply := Prog.perform c

namespace Heap

def empty : Heap := fun _ => .fresh

def set (h : Heap) (ptr : Nat) (cell : Cell) : Heap := Function.update h ptr cell

def isFresh (h : Heap) (ptr : Nat) : Bool := h ptr = .fresh

/-- The block of that name has room for so many bytes at the offset. -/
def Room (h : Heap) (ptr offset count : Nat) : Prop :=
  ∃ block, h ptr = .live block ∧ offset + count ≤ block.length

def Live (h : Heap) (ptr : Nat) : Prop := ∃ block, h ptr = .live block

def releasedBy : Cell → Cell
  | .fresh | .live _ => .released 1
  | .released times => .released (times + 1)

def resized (size : Nat) : Cell → Cell
  | .live block => .live (block.resize size)
  | cell => cell

def stored (offset : Nat) (bytes : List UInt8) : Cell → Cell
  | .live block => .live (block.store offset bytes)
  | cell => cell

def after (h : Heap) : (c : HeapCall) → c.Reply → Heap
  | .malloc size, some ptr => h.set ptr (.live (List.replicate size none))
  | .malloc _, none | .realloc _ _, none => h
  | .realloc ptr size, some moved => (h.set ptr (releasedBy (h ptr))).set moved (resized size (h ptr))
  | .free ptr, _ => h.set ptr (releasedBy (h ptr))
  | .store ptr offset bytes, _ => h.set ptr (stored offset bytes (h ptr))

def Allows (h : Heap) : HeapCall → Prop
  | .malloc _ => True
  | .realloc ptr _ | .free ptr => h.Live ptr
  | .store ptr offset bytes => h.Room ptr offset bytes.length

/-- A block that has no room where it is moves to a new name. -/
def answers (h : Heap) : (c : HeapCall) → c.Reply → Bool
  | .malloc _, reply => ∀ ptr ∈ reply, h.isFresh ptr = true
  | .realloc old _, reply => ∀ ptr ∈ reply, ptr = old ∨ h.isFresh ptr = true
  | .free _, _ | .store _ _ _, _ => true

/-- A program may release, move and fill the blocks it was given, inside their bounds. -/
def discipline : Typestate HeapCall.Reply Heap where
  allowed := Allows
  expects h c r := h.answers c r = true
  next := after

variable {h : Heap} {ptr q : Nat} {block : Block}

@[simp] theorem set_same {cell : Cell} : h.set ptr cell ptr = cell := Function.update_self ..

theorem set_other {cell : Cell} (other : q ≠ ptr) : h.set ptr cell q = h q :=
  Function.update_of_ne other ..

theorem isFresh_iff : h.isFresh ptr = true ↔ h ptr = .fresh := by simp [isFresh]

theorem ne_of_fresh (fresh : h.isFresh ptr = true) (used : h.isFresh q = false) : q ≠ ptr := by
  intro same
  rw [same, fresh] at used
  cases used

section rules

variable {α : Type} {Q : α → Heap → Prop} {size offset : Nat} {bytes : List UInt8}

theorem wp_malloc {k : Option Nat → Prog HeapCall.Reply α}
    (refused : Prog.wp discipline (k none) Q h)
    (granted : ∀ ptr, h.isFresh ptr = true →
      Prog.wp discipline (k (some ptr)) Q (h.set ptr (.live (List.replicate size none)))) :
    Prog.wp discipline (heapCall (.malloc size) >>= k) Q h := by
  apply Prog.wp_call trivial
  intro reply new
  cases reply with
  | none => exact refused
  | some ptr => exact granted ptr (of_decide_eq_true new ptr rfl)

theorem wp_realloc {k : Option Nat → Prog HeapCall.Reply α} (here : h ptr = .live block)
    (refused : Prog.wp discipline (k none) Q h)
    (granted : ∀ moved, moved = ptr ∨ h.isFresh moved = true → Prog.wp discipline (k (some moved)) Q
      ((h.set ptr (.released 1)).set moved (.live (block.resize size)))) :
    Prog.wp discipline (heapCall (.realloc ptr size) >>= k) Q h := by
  have may : h.Allows (.realloc ptr size) := ⟨block, here⟩
  apply Prog.wp_call may
  intro reply new
  cases reply with
  | none => exact refused
  | some moved =>
    have result := granted moved (of_decide_eq_true new moved rfl)
    simpa only [discipline, after, here, releasedBy, resized] using result

theorem wp_store {k : Unit → Prog HeapCall.Reply α} (here : h ptr = .live block)
    (fits : offset + bytes.length ≤ block.length)
    (next : Prog.wp discipline (k ()) Q (h.set ptr (.live (block.store offset bytes)))) :
    Prog.wp discipline (heapCall (.store ptr offset bytes) >>= k) Q h := by
  have may : h.Allows (.store ptr offset bytes) := ⟨block, here, fits⟩
  apply Prog.wp_call may
  intro _ _
  simpa only [discipline, after, here, stored] using next

end rules

end Heap
