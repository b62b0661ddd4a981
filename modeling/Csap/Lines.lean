import Csap.Runs
import Csap.Utils

/-! `read_line` on a stream of bytes: it takes a line with its newline, or as much of
a line as its buffer has room for. -/

namespace Csap

open Prog

/-- The bytes up to the newline, or as many as there is room for, and the bytes after them. -/
def cutLine : (room : Nat) → CStr → CStr × CStr
  | 0, input => ([], input)
  | _ + 1, [] => ([], [])
  | room + 1, c :: input =>
    if c = 10 then ([], input) else (c :: (cutLine room input).1, (cutLine room input).2)

/-- The bytes of a stream that were not read yet. A read of its descriptor takes some of them, and
reports the end of file when there are none. Nothing else is opened under that descriptor. -/
def reading (fd : Int) : Typestate Call.Reply CStr where
  allowed _ _ := True
  expects
    | input, .file (.read fd' count), r =>
      fd' = fd → ∀ data, r = .ok data → data <+: input ∧ data.length ≤ count ∧
        (data = [] → input = [] ∨ count = 0)
    | _, .file (.openPath _ _ _), r => ∀ opened, r = .ok opened → opened ≠ fd
    | _, _, _ => True
  next
    | input, .file (.read fd' _), .ok data => if fd' = fd then input.drop data.length else input
    | input, _, _ => input

section cutLine

variable {line rest : CStr} {room : Nat}

theorem cutLine_newline (fits : line.length < room) (one : 10 ∉ line) :
    cutLine room (line ++ 10 :: rest) = (line, rest) := by
  induction line generalizing room with
  | nil =>
    obtain ⟨room, rfl⟩ : ∃ n, room = n + 1 := ⟨room - 1, by rw [List.length_nil] at fits; omega⟩
    simp [cutLine]
  | cons c line ih =>
    rw [List.length_cons] at fits
    obtain ⟨room, rfl⟩ : ∃ n, room = n + 1 := ⟨room - 1, by omega⟩
    obtain ⟨other, inner⟩ := List.ne_and_not_mem_of_not_mem_cons one
    simp only [List.cons_append, cutLine, if_neg (Ne.symm other)]
    rw [ih (by omega) inner]

theorem cutLine_last (fits : line.length ≤ room) (one : 10 ∉ line) :
    cutLine room line = (line, []) := by
  induction line generalizing room with
  | nil => cases room <;> rfl
  | cons c line ih =>
    rw [List.length_cons] at fits
    obtain ⟨room, rfl⟩ : ∃ n, room = n + 1 := ⟨room - 1, by omega⟩
    obtain ⟨other, inner⟩ := List.ne_and_not_mem_of_not_mem_cons one
    simp only [cutLine, if_neg (Ne.symm other)]
    rw [ih (by omega) inner]

theorem cutLine_long (long : room ≤ line.length) (one : 10 ∉ line) :
    cutLine room (line ++ rest) = (line.take room, line.drop room ++ rest) := by
  induction line generalizing room with
  | nil =>
    obtain rfl : room = 0 := by simpa using long
    rfl
  | cons c line ih =>
    obtain ⟨other, inner⟩ := List.ne_and_not_mem_of_not_mem_cons one
    cases room with
    | zero => rfl
    | succ room =>
      rw [List.length_cons] at long
      simp only [List.cons_append, cutLine, if_neg (Ne.symm other)]
      rw [ih (by omega) inner]
      rfl

theorem cutLine_no_newline (room : Nat) (input : CStr) : 10 ∉ (cutLine room input).1 := by
  induction input generalizing room with
  | nil => cases room <;> simp [cutLine]
  | cons c input ih =>
    cases room with
    | zero => simp [cutLine]
    | succ room =>
      unfold cutLine
      split_ifs with newline
      · simp
      · intro inside
        rcases List.mem_cons.mp inside with same | inside
        · exact newline same.symm
        · exact ih room inside

end cutLine

section readLine

variable {fd : Int} {input : CStr} {size : Nat}

theorem cutLine_nil (room : Nat) : cutLine room [] = ([], []) := by
  cases room <;> rfl

/-- What `read_line` has read belongs to the line that is being cut off. -/
structure Cutting (size : Nat) (input buf rest : CStr) : Prop where
  short : buf.length ≤ size - 1
  cut : cutLine (size - 1) input = (buf ++ (cutLine (size - 1 - buf.length) rest).1,
    (cutLine (size - 1 - buf.length) rest).2)
  first : buf = [] → rest = input

/-- What `read_line` returns is the line, and the end of file only where there is nothing else. -/
def CutOff (size : Nat) (input rest : CStr) (r : SysResult (CStr × Bool)) : Prop :=
  ∀ line eof, r = .ok (line, eof) → (line, rest) = cutLine (size - 1) input ∧
    (eof = true ↔ 1 < size ∧ input = [])

section cutting

variable {buf rest : CStr} {c : UInt8}

theorem Cutting.start : Cutting size input [] input where
  short := Nat.zero_le _
  cut := by simp
  first := fun _ => rfl

theorem Cutting.nothing (h : Cutting size input buf rest) (empty : input = []) : buf = [] := by
  have cut := h.cut
  rw [empty, cutLine_nil, Prod.mk.injEq] at cut
  exact (List.append_eq_nil_iff.mp cut.1.symm).1

theorem Cutting.room (h : ¬ size ≤ buf.length + 1) : ∃ left, size - 1 - buf.length = left + 1 :=
  ⟨size - 1 - buf.length - 1, by omega⟩

theorem Cutting.full (h : Cutting size input buf rest) (full : size ≤ buf.length + 1) :
    CutOff size input rest (.ok (buf, false)) := by
  intro line eof result
  cases result
  have none : size - 1 - buf.length = 0 := by omega
  have cut := h.cut
  rw [none] at cut
  rw [cut]
  refine ⟨by simp [cutLine], ?_⟩
  constructor
  · intro impossible
    cases impossible
  · intro ⟨large, empty⟩
    rw [h.nothing empty, List.length_nil] at full
    omega

theorem Cutting.ended (h : Cutting size input buf []) (room : ¬ size ≤ buf.length + 1) :
    CutOff size input [] (.ok (buf, buf.isEmpty)) := by
  intro line eof result
  cases result
  have cut := h.cut
  rw [cutLine_nil, List.append_nil] at cut
  rw [cut]
  refine ⟨rfl, ?_⟩
  rw [List.isEmpty_iff]
  constructor
  · intro unread
    rw [← h.first unread]
    exact ⟨by omega, rfl⟩
  · intro ⟨_, nowhere⟩
    exact h.nothing nowhere

theorem Cutting.newline (h : Cutting size input buf (10 :: rest)) (room : ¬ size ≤ buf.length + 1) :
    CutOff size input rest (.ok (buf, false)) := by
  intro line eof result
  cases result
  obtain ⟨left, more⟩ := Cutting.room room
  have cut := h.cut
  rw [more] at cut
  rw [cut]
  refine ⟨by simp [cutLine], ?_⟩
  constructor
  · intro impossible
    cases impossible
  · intro ⟨_, empty⟩
    have unread := h.first (h.nothing empty)
    rw [empty] at unread
    cases unread

theorem Cutting.byte (h : Cutting size input buf (c :: rest)) (room : ¬ size ≤ buf.length + 1)
    (other : c ≠ 10) : Cutting size input (buf ++ [c]) rest where
  short := by
    rw [List.length_append, List.length_singleton]
    omega
  cut := by
    obtain ⟨left, more⟩ := Cutting.room room
    have next : size - 1 - (buf ++ [c]).length = left := by
      rw [List.length_append, List.length_singleton]
      omega
    have cut := h.cut
    rw [more] at cut
    rw [next, cut]
    simp [cutLine, other]
  first := by simp

end cutting

/-- Whatever interrupts it, `read_line` that succeeds has cut a line off. -/
theorem wp_readLine_cut : wp (reading fd) (readLine fd size) (fun r rest =>
    ∀ line eof, r = .ok (line, eof) → (line, rest) = cutLine (size - 1) input ∧
      (eof = true ↔ 1 < size ∧ input = [])) input := by
  refine wp_iterate (Cutting size input) .start ?_
  rintro buf rest sofar
  rw [wp_ite]
  refine ⟨fun full => sofar.full full, fun room => ?_⟩
  refine wp_call trivial ?_
  intro reply expected
  cases reply with
  | error e =>
    dsimp only
    rw [wp_ite]
    refine ⟨fun _ => sofar, ?_⟩
    intro _ line eof result
    cases result
  | ok data =>
    obtain ⟨taken, one, ended⟩ := expected rfl data rfl
    cases data with
    | nil =>
      obtain rfl : rest = [] := (ended rfl).resolve_right (by decide)
      have same : (reading fd).next [] (.file (.read fd 1)) (.ok []) = [] := by simp [reading]
      rw [same]
      exact sofar.ended room
    | cons c data =>
      obtain ⟨rest, rfl⟩ : ∃ tail, rest = c :: tail := by
        obtain ⟨tail, whole⟩ := taken
        exact ⟨data ++ tail, whole.symm⟩
      have single : data = [] := by simpa using one
      subst single
      have later : (reading fd).next (c :: rest) (.file (.read fd 1)) (.ok [c]) = rest := by
        simp [reading]
      rw [later]
      dsimp only
      rw [wp_ite]
      constructor
      · rintro rfl
        exact sofar.newline room
      · exact fun other => sofar.byte room other

/-- One round of the loop of `read_line`. -/
def readByte (fd : Int) (size : Nat) (buf : CStr) : Sys (CStr ⊕ SysResult (CStr × Bool)) := do
  if size ≤ buf.length + 1 then return .inr (.ok (buf, false))
  match ← fileCall (.read fd 1) with
  | .error e => if e = EINTR then return .inl buf else return .inr (.error e)
  | .ok [] => return .inr (.ok (buf, buf.isEmpty))
  | .ok (c :: _) => if c = 10 then return .inr (.ok (buf, false)) else return .inl (buf ++ [c])

theorem readByte_full {buf rest : CStr} (full : size ≤ buf.length + 1) :
    Ends (reading fd) (readByte fd size buf) rest (.inr (.ok (buf, false))) rest := by
  unfold readByte
  rw [if_pos full]
  exact .ret _ _

theorem readByte_end {buf : CStr} (room : ¬ size ≤ buf.length + 1) :
    Ends (reading fd) (readByte fd size buf) [] (.inr (.ok (buf, buf.isEmpty))) [] := by
  unfold readByte
  rw [if_neg room]
  refine .call (r := .ok []) ?_ ?_
  · intro _ data same
    cases same
    exact ⟨List.prefix_rfl, by simp, fun _ => .inl rfl⟩
  · have same : (reading fd).next [] (.file (.read fd 1)) (.ok []) = [] := by simp [reading]
    rw [same]
    exact .ret _ _

theorem readByte_byte {buf rest : CStr} {c : UInt8} (room : ¬ size ≤ buf.length + 1) :
    Ends (reading fd) (readByte fd size buf) (c :: rest)
      (if c = 10 then .inr (.ok (buf, false)) else .inl (buf ++ [c])) rest := by
  unfold readByte
  rw [if_neg room]
  refine .call (r := .ok [c]) ?_ ?_
  · intro _ data same
    cases same
    exact ⟨⟨rest, rfl⟩, by simp, by simp⟩
  · have same : (reading fd).next (c :: rest) (.file (.read fd 1)) (.ok [c]) = rest := by
      simp [reading]
    rw [same]
    by_cases newline : c = 10
    · change Ends _ (if c = 10 then _ else _) _ _ _
      rw [if_pos newline, if_pos newline]
      exact .ret _ _
    · change Ends _ (if c = 10 then _ else _) _ _ _
      rw [if_neg newline, if_neg newline]
      exact .ret _ _

theorem readLine_ends (fd : Int) (size : Nat) (input : CStr) : ∃ eof, Ends (reading fd) (readLine fd size) input
    (.ok ((cutLine (size - 1) input).1, eof)) (cutLine (size - 1) input).2 := by
  have rounds : ∀ rest buf : CStr, ∃ eof, Ends (reading fd) (iterate buf (readByte fd size)) rest
      (.ok (buf ++ (cutLine (size - 1 - buf.length) rest).1, eof))
      (cutLine (size - 1 - buf.length) rest).2 := by
    intro rest
    induction rest with
    | nil =>
      intro buf
      rw [cutLine_nil, List.append_nil]
      by_cases full : size ≤ buf.length + 1
      · exact ⟨false, Ends.exit (readByte_full full)⟩
      · exact ⟨_, Ends.exit (readByte_end full)⟩
    | cons c rest ih =>
      intro buf
      by_cases full : size ≤ buf.length + 1
      · have none : size - 1 - buf.length = 0 := by omega
        rw [none]
        unfold cutLine
        rw [List.append_nil]
        exact ⟨false, Ends.exit (readByte_full full)⟩
      · obtain ⟨left, more⟩ : ∃ n, size - 1 - buf.length = n + 1 :=
          ⟨size - 1 - buf.length - 1, by omega⟩
        have byte : Ends (reading fd) (readByte fd size buf) (c :: rest) _ rest := readByte_byte full
        rw [more]
        unfold cutLine
        by_cases newline : c = 10
        · rw [if_pos newline] at byte ⊢
          rw [List.append_nil]
          exact ⟨false, Ends.exit byte⟩
        · rw [if_neg newline] at byte ⊢
          obtain ⟨eof, later⟩ := ih (buf ++ [c])
          have next : size - 1 - (buf ++ [c]).length = left := by
            rw [List.length_append, List.length_singleton]
            omega
          rw [next, List.append_assoc] at later
          exact ⟨eof, Ends.again byte later⟩
  exact rounds input []

end readLine

end Csap
