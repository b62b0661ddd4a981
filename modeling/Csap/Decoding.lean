import Csap.Runs
import Csap.ServerRuns

/-! The fifo of a session as a stream of bytes. Other sessions write `REQ` lines
into it at any moment; the session loop splits the stream into lines again and
passes each of them on to its client. -/

namespace Csap

open Prog
open Network (Packet MAX_PAYLOAD_SIZE)

/-- A request that another session announces: its id and the base name of its file. -/
structure Sending where
  id : Int
  name : CStr
deriving DecidableEq, Repr

namespace Sending

/-- What `notify_pid` writes, without the newline at its end. -/
def body (r : Sending) : CStr := cstr "REQ|" ++ decimal r.id ++ cstr "|" ++ r.name

def text (r : Sending) : CStr := (Notification.req r.id r.name).text

/-- The lines of the text; a name with newlines makes several. -/
def lines (r : Sending) : List CStr := r.body.splitOn 10

def announcement (r : Sending) : Packet :=
  ⟨RSP_NOTIFY, cstr "Received transfer request notification with ID " ++ decimal r.id ++
    cstr " for file: " ++ r.name⟩

/-- An id is an `int`, and a file's name has what the file system and `parse_command` allow. -/
structure Possible (r : Sending) : Prop where
  id : IsInt r.id
  some : r.name ≠ []
  short : r.name.length ≤ NAME_MAX
  bytes : ∀ c ∈ r.name, c ≠ 0 ∧ c ≠ 32 ∧ c ≠ 47

end Sending

def unlines (lines : List CStr) : CStr := lines.flatMap (· ++ [10])

/-- What happens when the session makes a call: what others write into its fifo before the call
takes effect, whether a signal interrupts it, and what `send_packet` would return. -/
structure Moment where
  written : List Sending := []
  interrupted : Bool := false
  sent : Int := 0

def Moment.lines (m : Moment) : List CStr := m.written.flatMap Sending.lines

/-- A session that waits for its fifo: the bytes in it, the moments to come, and the packets its
client was sent. -/
structure Receiver where
  waiting : CStr := []
  moments : List Moment
  answers : List Packet := []

namespace Receiver

def moment (s : Receiver) : Moment := s.moments.head?.getD {}

def arrive (s : Receiver) : Receiver :=
  { s with
    waiting := s.waiting ++ s.moment.written.flatMap Sending.text
    moments := s.moments.tail }

/-- The client stays silent until nothing is left to read, and closes the connection then. -/
def select (clientSocket notifyFd : Int) (s : Receiver) : SysResult (List Int) × Receiver :=
  let t := s.arrive
  if s.moment.interrupted then (.error EINTR, t)
  else if t.waiting ≠ [] then (.ok [notifyFd], t)
  else if t.moments ≠ [] then (.error EINTR, t)
  else (.ok [clientSocket], t)

/-- The fifo is not blocking. -/
def read (s : Receiver) : SysResult CStr × Receiver :=
  let t := s.arrive
  if s.moment.interrupted then (.error EINTR, t)
  else match t.waiting with
    | [] => (.error EAGAIN, t)
    | c :: waiting => (.ok [c], { t with waiting })

end Receiver

def receiver (clientSocket notifyFd : Int) : Handler Call.Reply Receiver Unit
  | .socket (.select _), _, s => some (s.select clientSocket notifyFd)
  | .socket .recvPacket, _, s => some (none, s)
  | .socket (.sendPacket command payload), _, s =>
    some (s.moment.sent, { s.arrive with answers := s.answers ++ [⟨command, payload⟩] })
  | .file (.read _ 1), _, s => some s.read
  | .alloc _, _, s => some (true, s)
  | _, _, _ => none

/-- The packets `send_packet` lets out: none that is too long. -/
def packets (command : UInt8) (payload : CStr) : List Packet :=
  if MAX_PAYLOAD_SIZE < payload.length then [] else [⟨command, payload⟩]

/-- The answer to a line, as `handleNotification` chooses it. -/
def answersTo (line : CStr) : List Packet :=
  if line.take 7 = cstr "ACCEPT|" then
    packets RSP_OK (notifyMessage (cstr "Transfer request with ID " ++
      tokenText (tokens 124 [] (line.drop 7)).head? ++ cstr " accepted"))
  else if line.take 7 = cstr "REJECT|" then
    packets RSP_ERR (errPayload ECANCELED.code (notifyMessage (cstr "Transfer request with ID " ++
      tokenText (tokens 124 [] (line.drop 7)).head? ++ cstr " rejected")))
  else if line.take 4 = cstr "REQ|" then
    packets RSP_NOTIFY (requestMessage (line.drop 4))
  else if line.take 5 = cstr "FAIL|" then
    let fields := tokens 124 [] (line.drop 5)
    packets RSP_ERR (errPayload ((fields.tail.head?.map atoi).getD EIO.code)
      (notifyMessage (cstr "Transfer request with ID " ++ tokenText fields.head? ++
        cstr " failed")))
  else
    packets RSP_ERR (errPayload EPROTO.code
      (notifyMessage (cstr "Unknown notification received: " ++ line.take 128)))

section lines

@[simp] theorem unlines_nil : unlines [] = [] := rfl

@[simp] theorem unlines_cons (line : CStr) (lines : List CStr) :
    unlines (line :: lines) = line ++ 10 :: unlines lines := by
  simp [unlines]

@[simp] theorem unlines_append (lines lines' : List CStr) :
    unlines (lines ++ lines') = unlines lines ++ unlines lines' :=
  List.flatMap_append

theorem unlines_splitOn (s : CStr) : unlines (s.splitOn 10) = s ++ [10] := by
  induction s with
  | nil => rfl
  | cons c s ih =>
    rw [List.splitOn_cons_eq_if_modifyHead]
    obtain ⟨line, lines, split⟩ := List.exists_cons_of_ne_nil (List.splitOn_ne_nil 10 s)
    rw [split] at ih ⊢
    split_ifs with newline
    · rw [beq_iff_eq.mp newline, unlines_cons, ih]
      rfl
    · rw [List.modifyHead_cons, unlines_cons, List.cons_append, ← unlines_cons, ih]
      rfl

theorem not_mem_of_mem_splitOn {s line : CStr} (h : line ∈ s.splitOn 10) : 10 ∉ line := by
  induction s generalizing line with
  | nil => simp_all
  | cons c s ih =>
    rw [List.splitOn_cons_eq_if_modifyHead] at h
    obtain ⟨first, lines, split⟩ := List.exists_cons_of_ne_nil (List.splitOn_ne_nil 10 s)
    rw [split] at ih h
    split_ifs at h with newline
    · rcases List.mem_cons.mp h with rfl | old
      · exact List.not_mem_nil
      · exact ih old
    · rcases List.mem_cons.mp h with rfl | old
      · have last := ih List.mem_cons_self
        have other : c ≠ 10 := fun same => newline (beq_iff_eq.mpr same)
        exact List.not_mem_cons_of_ne_of_not_mem other.symm last
      · exact ih (List.mem_cons_of_mem _ old)

theorem length_of_mem_splitOn {s line : CStr} (h : line ∈ s.splitOn 10) :
    line.length ≤ s.length := by
  have inside : line.length + 1 ≤ (unlines (s.splitOn 10)).length := by
    obtain ⟨before, after, split⟩ := List.append_of_mem h
    rw [split]
    simp
    omega
  rw [unlines_splitOn, List.length_append] at inside
  exact Nat.le_of_succ_le_succ inside

namespace Sending

theorem unlines_lines (r : Sending) : unlines r.lines = r.text := by
  rw [lines, unlines_splitOn]
  rfl

theorem decimal_ne_nil (id : Int) : decimal id ≠ [] := by
  cases id with
  | ofNat n => exact decimalNat_ne_nil n
  | negSucc n => exact List.cons_ne_nil _ _

theorem body_length {r : Sending} (h : r.Possible) : r.body.length ≤ 16 + NAME_MAX := by
  have number := decimal_length_le h.id
  have name := h.short
  simp only [body, List.length_append, show (cstr "REQ|").length = 4 from rfl,
    show (cstr "|").length = 1 from rfl]
  omega

theorem short_of_mem_lines {r : Sending} (h : r.Possible) {line : CStr} (mem : line ∈ r.lines) :
    10 ∉ line ∧ line.length + 1 < PATH_MAX + 64 - 1 := by
  have length := (length_of_mem_splitOn mem).trans (body_length h)
  refine ⟨not_mem_of_mem_splitOn mem, lt_of_le_of_lt (Nat.succ_le_succ length) ?_⟩
  decide

theorem keyword_bytes : cstr "REQ|" = [82, 69, 81, 124] ∧ cstr "|" = [124] ∧
    (cstr "ACCEPT|").head? = some 65 ∧ cstr "REJECT|" = [82, 69, 74, 69, 67, 84, 124] := by
  decide

theorem decimal_no_bar (id : Int) : ∀ c ∈ decimal id, c ≠ 124 := fun _ h =>
  mem_decimal_ne h 124 (by decide) (by decide)

theorem requestMessage_line {id : Int} {name : CStr} (range : IsInt id)
    (short : name.length ≤ NAME_MAX) :
    requestMessage (decimal id ++ cstr "|" ++ name) =
      cstr "Received transfer request notification with ID " ++ decimal id ++
        if name = [] then [] else cstr " for file: " ++ name := by
  obtain ⟨-, bar, -⟩ := keyword_bytes
  have number := decimal_length_le range
  have some := decimal_ne_nil id
  have cut : (decimal id ++ cstr "|" ++ name).takeWhile (· ≠ 124) = decimal id := by
    rw [bar, List.append_assoc, List.takeWhile_append_of_pos, List.singleton_append,
      List.takeWhile_cons_of_neg, List.append_nil]
    · decide
    · exact fun c h => decide_eq_true (decimal_no_bar id c h)
  have rest : ((decimal id ++ cstr "|" ++ name).drop (decimal id).length).drop 1 = name := by
    rw [List.append_assoc, List.drop_left, bar]
    rfl
  have whole : (decimal id).take 16 = decimal id := List.take_of_length_le (by omega)
  have intro_ : (cstr "Received transfer request notification with ID ").length = 47 := by decide
  have file : (cstr " for file: ").length = 11 := by decide
  have limit : NAME_MAX = 255 ∧ PATH_MAX = 4096 := ⟨rfl, rfl⟩
  unfold requestMessage
  simp only [cut, rest, whole]
  rw [if_neg some]
  split_ifs with empty
  · rw [List.append_nil]
    refine snprintf_eq_self ?_
    rw [List.length_append]
    omega
  · rw [← List.append_assoc]
    refine snprintf_eq_self ?_
    simp only [List.length_append]
    omega

theorem answersTo_line {id : Int} {name : CStr} (range : IsInt id)
    (short : name.length ≤ NAME_MAX) :
    answersTo (cstr "REQ|" ++ decimal id ++ cstr "|" ++ name) =
      [⟨RSP_NOTIFY, cstr "Received transfer request notification with ID " ++ decimal id ++
        if name = [] then [] else cstr " for file: " ++ name⟩] := by
  obtain ⟨request, -, accept, reject⟩ := keyword_bytes
  have message := requestMessage_line range short
  have line : cstr "REQ|" ++ decimal id ++ cstr "|" ++ name =
      82 :: 69 :: 81 :: 124 :: (decimal id ++ cstr "|" ++ name) := by
    rw [request]
    simp
  have fits : (requestMessage (decimal id ++ cstr "|" ++ name)).length ≤ MAX_PAYLOAD_SIZE := by
    have limit : ∀ text, (notifyMessage text).length ≤ MAX_PAYLOAD_SIZE := fun text =>
      (List.length_take_le _ _).trans (by decide)
    unfold requestMessage
    dsimp only
    split_ifs <;> exact limit _
  rw [line, answersTo, if_neg, if_neg, if_pos]
  · show packets RSP_NOTIFY (requestMessage (decimal id ++ cstr "|" ++ name)) = _
    rw [packets, if_neg (Nat.not_lt.mpr fits), message]
  · exact request.symm
  · intro same
    rw [reject] at same
    cases same
  · intro same
    have first := congrArg List.head? same
    rw [accept] at first
    cases first

theorem body_clean {id : Int} {name : CStr} (clean : 10 ∉ name) :
    10 ∉ cstr "REQ|" ++ decimal id ++ cstr "|" ++ name := by
  obtain ⟨request, bar, -⟩ := keyword_bytes
  have number : 10 ∉ decimal id := fun h =>
    mem_decimal_ne h 10 (by decide) (by decide) rfl
  rw [request, bar]
  simp [number, clean]

theorem answers_clean {r : Sending} (h : r.Possible) (clean : 10 ∉ r.name) :
    r.lines.flatMap answersTo = [r.announcement] := by
  rw [lines, body, List.splitOn_eq_singleton (body_clean clean), List.flatMap_singleton,
    answersTo_line h.id h.short, if_neg h.some, announcement, ← List.append_assoc]

theorem answers_broken {r : Sending} (h : r.Possible) (broken : 10 ∈ r.name) :
    ∃ packet rest, r.lines.flatMap answersTo = packet :: rest ∧ packet ≠ r.announcement := by
  obtain ⟨start, after, split, clean⟩ := List.eq_append_cons_of_mem broken
  have short : start.length ≤ NAME_MAX := by
    refine le_trans ?_ h.short
    rw [split, List.length_append]
    omega
  have body : r.body = cstr "REQ|" ++ decimal r.id ++ cstr "|" ++ start ++ 10 :: after := by
    rw [Sending.body, split, ← List.append_assoc]
  refine ⟨⟨RSP_NOTIFY, cstr "Received transfer request notification with ID " ++
    decimal r.id ++ if start = [] then [] else cstr " for file: " ++ start⟩,
    (after.splitOn 10).flatMap answersTo, ?_, ?_⟩
  · rw [lines, body, List.splitOn_append_cons_self_of_not_mem (body_clean clean),
      List.flatMap_cons, answersTo_line h.id short]
    rfl
  · intro same
    have text := congrArg Packet.payload same
    simp only [announcement] at text
    rw [List.append_assoc _ _ r.name] at text
    have tail := List.append_cancel_left text
    split_ifs at tail with empty
    · cases tail
    · have name := List.append_cancel_left tail
      exact clean (name ▸ broken)

theorem answers_iff {written : List Sending} (h : ∀ r ∈ written, r.Possible) :
    (written.flatMap lines).flatMap answersTo = written.map announcement ↔
      ∀ r ∈ written, 10 ∉ r.name := by
  induction written with
  | nil => simp
  | cons r written ih =>
    obtain ⟨possible, later⟩ := List.forall_mem_cons.mp h
    rw [List.flatMap_cons, List.flatMap_append, List.map_cons, List.forall_mem_cons]
    by_cases clean : 10 ∈ r.name
    · obtain ⟨packet, rest, first, other⟩ := answers_broken possible clean
      rw [first, List.cons_append, List.cons.injEq]
      simp [clean, other]
    · rw [answers_clean possible clean, List.singleton_append, List.cons.injEq, ih later]
      simp [clean]

end Sending

end lines

/-- In the fifo are `pending` and some whole lines; these and the lines still to be written
are `lines`. -/
def Receiver.Holds (s : Receiver) (pending : CStr) (lines : List CStr) : Prop :=
  ∃ here, s.waiting = pending ++ unlines here ∧ lines = here ++ s.moments.flatMap Moment.lines

/-- From `s` on the session has sent `answers`, and `lines` are left to be read. -/
structure Passed (s : Receiver) (answers : List Packet) (lines : List CStr) (t : Receiver) :
    Prop where
  holds : t.Holds [] lines
  answers : t.answers = s.answers ++ answers
  moments : t.moments.length ≤ s.moments.length

section receiving

variable {s u : Receiver} {pending line : CStr} {lines : List CStr} {clientSocket notifyFd : Int}

theorem Moment.unlines_lines (m : Moment) :
    unlines m.lines = m.written.flatMap Sending.text := by
  unfold Moment.lines
  induction m.written with
  | nil => rfl
  | cons r written ih =>
    rw [List.flatMap_cons, List.flatMap_cons, unlines_append, ih, r.unlines_lines]

theorem Receiver.Holds.arrive (h : s.Holds pending lines) : s.arrive.Holds pending lines := by
  obtain ⟨here, waiting, rfl⟩ := h
  refine ⟨here ++ s.moment.lines, ?_, ?_⟩
  · rw [unlines_append, Moment.unlines_lines, ← List.append_assoc, ← waiting]
    rfl
  · unfold Receiver.arrive Receiver.moment
    cases s.moments <;> simp [Moment.lines]

theorem Receiver.arrive_moments (s : Receiver) : s.arrive.moments.length = s.moments.length - 1 :=
  List.length_tail

theorem Receiver.read_cases {c : UInt8} (h : s.Holds (c :: pending) lines) :
    (s.read = (.error EINTR, s.arrive) ∧ s.arrive.moments.length < s.moments.length ∧
      s.arrive.Holds (c :: pending) lines) ∨
    ∃ t, s.read = (.ok [c], t) ∧ t.Holds pending lines ∧ t.answers = s.answers ∧
      t.moments.length ≤ s.moments.length := by
  obtain ⟨here, waiting, all⟩ := h.arrive
  by_cases signal : s.moment.interrupted = true
  · refine .inl ⟨by simp [read, signal], ?_, here, waiting, all⟩
    have some : s.moments ≠ [] := by
      intro none
      simp [moment, none] at signal
    have positive := List.length_pos_iff.mpr some
    rw [arrive_moments]
    omega
  · refine .inr ⟨{ s.arrive with waiting := pending ++ unlines here }, ?_, ⟨here, rfl, all⟩, rfl, ?_⟩
    · simp only [read, signal, Bool.false_eq_true, if_false]
      rw [waiting]
      rfl
    · have fewer := s.arrive_moments
      simp only
      omega

theorem readLine_achieves {size : Nat} (short : line.length + 1 < size) (one : 10 ∉ line)
    (holds : s.Holds (line ++ [10]) lines) :
    Achieves (receiver clientSocket notifyFd) (readLine notifyFd size) (fun r t =>
      r = .ok (line, false) ∧ Passed s [] lines t) s := by
  -- the rest of the line is in the fifo, and moments pass only while it is read
  refine achieves_loop (fun n buf t => ∃ rest, buf ++ rest = line ∧
    t.Holds (rest ++ [10]) lines ∧ t.answers = s.answers ∧ t.moments.length ≤ s.moments.length ∧
    rest.length + t.moments.length = n) ?_ ⟨line, rfl, holds, rfl, le_rfl, rfl⟩
  rintro n buf t ⟨rest, whole, holds, same, fewer, measure⟩
  have length := congrArg List.length whole
  rw [List.length_append] at length
  rw [if_neg (by omega)]
  refine Achieves.bind ?_
  cases rest with
  | nil =>
    rw [List.append_nil] at whole
    rcases Receiver.read_cases holds with ⟨done, less, holds'⟩ | ⟨u, done, holds', eq, le⟩
    · refine achieves_call (congrArg some done) (achieves_pure ?_)
      exact ⟨_, measure ▸ Nat.add_lt_add_left less _, [], by rwa [List.append_nil], holds', same,
        less.le.trans fewer, rfl⟩
    · refine achieves_call (congrArg some done) ?_
      dsimp only
      rw [if_pos rfl]
      exact achieves_pure ⟨by rw [whole], holds', by rw [eq, same, List.append_nil], le.trans fewer⟩
  | cons c rest =>
    have other : c ≠ 10 := by
      rintro rfl
      exact one (whole ▸ by simp)
    rcases Receiver.read_cases holds with ⟨done, less, holds'⟩ | ⟨u, done, holds', eq, le⟩
    · refine achieves_call (congrArg some done) (achieves_pure ?_)
      exact ⟨_, measure ▸ Nat.add_lt_add_left less _, c :: rest, whole, holds', same,
        less.le.trans fewer, rfl⟩
    · refine achieves_call (congrArg some done) ?_
      dsimp only
      rw [if_neg other]
      refine achieves_pure ⟨rest.length + u.moments.length, ?_, rest, ?_, holds', eq.trans same,
        le.trans fewer, rfl⟩
      · rw [← measure, List.length_cons]
        omega
      · rw [List.append_assoc]
        exact whole

theorem sendPacket_passes {command : UInt8} {payload : CStr} (holds : s.Holds [] lines) :
    Achieves (receiver clientSocket notifyFd) (sendPacket command payload)
      (fun _ t => Passed s (packets command payload) lines t) s := by
  unfold sendPacket packets
  split
  · exact achieves_pure ⟨holds, by rw [List.append_nil], le_rfl⟩
  · refine achieves_call rfl ⟨holds.arrive, rfl, ?_⟩
    simp [s.arrive_moments]

theorem sendErr_passes {code : Int} {payload : CStr} (holds : s.Holds [] lines) :
    Achieves (receiver clientSocket notifyFd) (sendErr code payload)
      (fun _ t => Passed s (packets RSP_ERR (errPayload code payload)) lines t) s :=
  Achieves.bind (achieves_call rfl (sendPacket_passes holds))

theorem handleNotification_passes (holds : s.Holds [] lines) :
    Achieves (receiver clientSocket notifyFd) (handleNotification line)
      (fun _ t => Passed s (answersTo line) lines t) s := by
  have done : ∀ {t : Receiver} {answers : List Packet}, Passed s answers lines t →
      Achieves (receiver clientSocket notifyFd) (pure ()) (fun _ u => Passed s answers lines u) t :=
    fun passed => achieves_pure passed
  unfold handleNotification answersTo
  split_ifs
  · exact Achieves.bind ((sendPacket_passes holds).mono fun _ _ => done)
  · exact Achieves.bind ((sendErr_passes holds).mono fun _ _ => done)
  · exact Achieves.bind ((sendPacket_passes holds).mono fun _ _ => done)
  · exact Achieves.bind ((sendErr_passes holds).mono fun _ _ => done)
  · exact Achieves.bind ((sendErr_passes holds).mono fun _ _ => done)

/-- A line that `read_line` reads to its end. -/
def Short (line : CStr) : Prop := 10 ∉ line ∧ line.length + 1 < PATH_MAX + 64 - 1

theorem Receiver.select_cases (holds : s.Holds [] lines) :
    (s.select clientSocket notifyFd = (.error EINTR, s.arrive) ∧
      s.arrive.moments.length < s.moments.length) ∨
    (s.select clientSocket notifyFd = (.ok [notifyFd], s.arrive) ∧ ∃ line rest,
      lines = line :: rest ∧ s.arrive.Holds (line ++ [10]) rest) ∨
    (s.select clientSocket notifyFd = (.ok [clientSocket], s.arrive) ∧ lines = []) := by
  obtain ⟨here, waiting, all⟩ := holds.arrive
  rw [List.nil_append] at waiting
  have fewer := s.arrive_moments
  unfold select
  by_cases signal : s.moment.interrupted = true
  · have some : s.moments ≠ [] := by
      intro none
      simp [moment, none] at signal
    have positive := List.length_pos_iff.mpr some
    exact .inl ⟨by simp [signal], by omega⟩
  cases here with
  | cons line here =>
    have ready : s.arrive.waiting ≠ [] := by simp [waiting]
    refine .inr (.inl ⟨by simp [signal, ready], line, here ++ s.arrive.moments.flatMap Moment.lines,
      all, here, ?_, rfl⟩)
    simp [waiting]
  | nil =>
    have empty : s.arrive.waiting = [] := waiting
    by_cases none : s.arrive.moments = []
    · exact .inr (.inr ⟨by simp [signal, empty, none], by simp [all, none]⟩)
    · have positive := List.length_pos_iff.mpr none
      exact .inl ⟨by simp [signal, empty, none], by omega⟩

theorem receiveNotification_passes {session : Session} {rest : List CStr} (short : Short line)
    (open_ : session.notifyFd = notifyFd) (holds : s.Holds (line ++ [10]) rest) :
    Achieves (receiver clientSocket notifyFd) (receiveNotification session)
      (fun r t => r = true ∧ Passed s (answersTo line) rest t) s := by
  subst open_
  unfold receiveNotification
  refine Achieves.bind ((readLine_achieves short.2 short.1 holds).mono ?_)
  rintro r t ⟨rfl, read⟩
  refine Achieves.bind ((handleNotification_passes read.holds).mono ?_)
  rintro - u answered
  refine achieves_pure ⟨rfl, answered.holds, ?_, answered.moments.trans read.moments⟩
  rw [answered.answers, read.answers, List.append_nil]

/-- The session answers each line that is written into its fifo, in their order. -/
theorem sessionLoop_achieves {server : Server} {session : Session} (apart : clientSocket ≠ notifyFd)
    (open_ : session.notifyFd = notifyFd) (valid : 0 ≤ notifyFd) (holds : s.Holds [] lines)
    (short : ∀ line ∈ lines, Short line) :
    Achieves (receiver clientSocket notifyFd) (sessionLoop server clientSocket session)
      (fun _ t => t.answers = s.answers ++ lines.flatMap answersTo) s := by
  -- the lines left over are answered in the rounds to come
  refine achieves_loop (fun n session' t => session' = session ∧ ∃ left, t.Holds [] left ∧
    (∀ line ∈ left, Short line) ∧
    t.answers ++ left.flatMap answersTo = s.answers ++ lines.flatMap answersTo ∧
    left.length + t.moments.length = n) ?_ ⟨rfl, lines, holds, short, rfl, rfl⟩
  rintro n _ t ⟨rfl, left, holds, short, answers, measure⟩
  refine Achieves.bind ?_
  rcases @Receiver.select_cases _ _ clientSocket notifyFd holds with
    ⟨done, less⟩ | ⟨done, line, rest, rfl, next⟩ | ⟨done, rfl⟩
  · refine achieves_call (congrArg some done) (achieves_pure ?_)
    exact ⟨_, by omega, rfl, left, holds.arrive, short, answers, rfl⟩
  · refine achieves_call (congrArg some done) ?_
    dsimp only
    rw [if_neg (by simpa using apart)]
    refine Achieves.bind (achieves_pure ?_)
    dsimp only
    rw [if_pos ⟨open_ ▸ valid, by simp [open_]⟩]
    refine Achieves.bind ((receiveNotification_passes (short line List.mem_cons_self) open_
      next).mono ?_)
    rintro _ u ⟨rfl, passed⟩
    have fewer := t.arrive_moments
    have later := passed.moments
    refine achieves_pure ⟨rest.length + u.moments.length, ?_, rfl, rest, passed.holds,
      fun line h => short line (List.mem_cons_of_mem _ h), ?_, rfl⟩
    · simp at measure
      omega
    · rw [passed.answers, ← answers, List.flatMap_cons, List.append_assoc]
      rfl
  · refine achieves_call (congrArg some done) ?_
    dsimp only
    rw [if_pos (by simp)]
    refine Achieves.bind (Achieves.bind (achieves_call rfl (achieves_pure (achieves_pure ?_))))
    rw [← answers, List.flatMap_nil, List.append_nil]
    rfl

end receiving

/-- A session is told of each request as it was announced exactly when no name has a newline. -/
theorem announcements_decoded (server : Server) (clientSocket : Int) (session : Session)
    (apart : clientSocket ≠ session.notifyFd) (valid : 0 ≤ session.notifyFd)
    (moments : List Moment) (possible : ∀ m ∈ moments, ∀ r ∈ m.written, r.Possible) :
    Achieves (receiver clientSocket session.notifyFd) (sessionLoop server clientSocket session)
      (fun _ t => t.answers = (moments.flatMap Moment.written).map Sending.announcement)
      { moments } ↔
    ∀ m ∈ moments, ∀ r ∈ m.written, 10 ∉ r.name := by
  set written := moments.flatMap Moment.written with hwritten
  have each : ∀ r ∈ written, r.Possible := by
    intro r h
    obtain ⟨m, hm, hr⟩ := List.mem_flatMap.mp h
    exact possible m hm r hr
  have lines : moments.flatMap Moment.lines = written.flatMap Sending.lines := by
    rw [hwritten, List.flatMap_assoc]
    rfl
  have holds : ({ moments } : Receiver).Holds [] (written.flatMap Sending.lines) :=
    ⟨[], rfl, lines.symm⟩
  have short : ∀ line ∈ written.flatMap Sending.lines, Short line := by
    intro line h
    obtain ⟨r, hr, mem⟩ := List.mem_flatMap.mp h
    exact Sending.short_of_mem_lines (each r hr) mem
  have answers := @sessionLoop_achieves _ _ clientSocket session.notifyFd server session apart rfl
    valid holds short
  have clean : (∀ m ∈ moments, ∀ r ∈ m.written, 10 ∉ r.name) ↔ ∀ r ∈ written, 10 ∉ r.name := by
    simp only [hwritten, List.mem_flatMap]
    exact ⟨fun h r ⟨m, hm, hr⟩ => h m hm r hr, fun h m hm r hr => h r ⟨m, hm, hr⟩⟩
  rw [clean, ← Sending.answers_iff each]
  constructor
  · intro h
    obtain ⟨_, _, t, ran, all⟩ := answers
    obtain ⟨_, _, t', ran', told⟩ := h
    obtain ⟨-, -, rfl⟩ := ran.unique ran'
    rw [← told, all, List.nil_append]
  · intro h
    refine answers.mono fun _ t all => ?_
    rw [all, List.nil_append, h]

/-- A session that waits for its fifo on descriptor 5; its client is on 4. -/
def waitingSession : Session := { rootPath := cstr "/srv", notifyFd := 5 }

theorem announcements_decoded_two : Achieves (receiver 4 5)
    (sessionLoop Sessions.calmServer 4 waitingSession) (fun _ t =>
      t.answers = [⟨7, cstr "a|b"⟩, ⟨8, cstr "c"⟩].map Sending.announcement)
    { moments := [{ written := [⟨7, cstr "a|b"⟩] }, { interrupted := true },
      { written := [⟨8, cstr "c"⟩] }] } := by
  refine (announcements_decoded Sessions.calmServer 4 waitingSession (by decide) (by decide)
    [{ written := [⟨7, cstr "a|b"⟩] }, { interrupted := true }, { written := [⟨8, cstr "c"⟩] }]
    ?_).mpr (by decide)
  have first : Sending.Possible ⟨7, cstr "a|b"⟩ := ⟨by decide, by decide, by decide, by simp [cstr]⟩
  have second : Sending.Possible ⟨8, cstr "c"⟩ := ⟨by decide, by decide, by decide, by simp [cstr]⟩
  simp [first, second]

/-- The name `a`, newline, `ACCEPT|1` makes the session tell its client that request 1 was
accepted. -/
theorem acceptance_forged : Achieves (receiver 4 5)
    (sessionLoop Sessions.calmServer 4 waitingSession) (fun _ t => t.answers =
      [⟨RSP_NOTIFY, cstr "Received transfer request notification with ID 7 for file: a"⟩,
        ⟨RSP_OK, cstr "Transfer request with ID 1 accepted"⟩] ∧
      t.answers ≠ [⟨7, cstr "a\nACCEPT|1"⟩].map Sending.announcement)
    { moments := [{ written := [⟨7, cstr "a\nACCEPT|1"⟩] }] } := by
  have lines : Sending.lines ⟨7, cstr "a\nACCEPT|1"⟩ = [cstr "REQ|7|a", cstr "ACCEPT|1"] := by
    decide
  have holds : Receiver.Holds { moments := [{ written := [⟨7, cstr "a\nACCEPT|1"⟩] }] } []
      [cstr "REQ|7|a", cstr "ACCEPT|1"] := ⟨[], rfl, by simp [Moment.lines, lines]⟩
  have short : ∀ line ∈ [cstr "REQ|7|a", cstr "ACCEPT|1"], Short line := by
    unfold Short
    decide
  refine (@sessionLoop_achieves _ _ 4 5 Sessions.calmServer waitingSession (by decide) rfl
    (by decide) holds short).mono ?_
  intro _ t all
  have answers : [cstr "REQ|7|a", cstr "ACCEPT|1"].flatMap answersTo =
      [⟨RSP_NOTIFY, cstr "Received transfer request notification with ID 7 for file: a"⟩,
        ⟨RSP_OK, cstr "Transfer request with ID 1 accepted"⟩] := by
    decide
  rw [answers, List.nil_append] at all
  exact ⟨all, by rw [all]; decide⟩

end Csap
