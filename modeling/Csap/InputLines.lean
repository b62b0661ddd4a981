import Csap.ClientMain
import Csap.Footprints
import Csap.Lines

/-! The lines of the standard input, as the loop of the client's `main` hands them to
`parse_command`: each one once and in full, as long as they fit in its buffer. -/

namespace Csap.ClientMain

open Prog

/-- `sizeof(line) - 1`. -/
def lineRoom : Nat := PATH_MAX + 63

/-- What `main` does with a line. -/
def handleLine (client : Client) (socketFd : Int) (pipeFd : Int × Int) (username line : CStr) :
    Round := do
  match ← sys (parseCommand (some line)) with
  | .error _ => return .inl username
  | .ok command =>
  if command.code = .exit then
    if 0 < (← call .backgroundOperations) then return .inl username
    return .inr ()
  else
  let isStream := command.code = .read ∨ command.code = .write ∨ command.code = .uploadBegin ∨
    command.code = .downloadBegin ∨ command.code = .list
  match ← sys (if isStream then computeLocalFd command else pure (some (-1))) with
  | none => return .inl username
  | some localFd =>
  if command.isBackground then
    if command.code = .uploadBegin ∨ command.code = .downloadBegin then
      spawnBackground { command, line, username, pipeFd, socketFd }
      when (2 < localFd) do close localFd
      call (.addBackgroundOperations 1)
      return .inl username
    else
      when (2 < localFd) do close localFd
      return .inl username
  else
  let _ ← sys (sendPacket command.code.code line)
  if isStream then
    let _ ← sys (runStreamCommand client.texts command localFd)
    when (2 < localFd) do close localFd
    return .inl username
  else
    let rc ← sys waitResponse
    return .inl (if rc ∧ command.code = .login then command.buf.take 63 else username)

/-- Read a line, and go on with it unless it is empty or the input has ended. -/
def takeLine {σ β : Type} (again : σ) (stop : β) (act : CStr → Forking (σ ⊕ β)) :
    Forking (σ ⊕ β) := do
  match ← sys (readLine 0 (PATH_MAX + 64)) with
  | .error _ => return .inr stop
  | .ok (buf, stdinEof) =>
  if stdinEof then return .inr stop
  if buf = [] then return .inl again
  act (buf.takeWhile (· ≠ 0))

/-- A round of the loop of `main` that goes on with the lines it reads in this way. -/
def roundOf {σ β : Type} (socketFd : Int) (pipeFd : Int × Int) (again : σ) (stop : β)
    (act : CStr → Forking (σ ⊕ β)) : Forking (σ ⊕ β) := do
  match ← sys (socketCall (.select [0, socketFd, pipeFd.1])) with
  | .error e => if e = EINTR then return .inl again else return .inr stop
  | .ok readfds =>
  if 0 ∈ readfds then takeLine again stop act
  else if socketFd ∈ readfds then
    match ← sys (socketCall .recvPacket) with
    | none => return .inr stop
    | some packet =>
      if packet.command = RSP_NOTIFY then return .inl again
      when (pipeFd.1 ∈ readfds) (handlePipe pipeFd.1)
      return .inl again
  else
    when (pipeFd.1 ∈ readfds) (handlePipe pipeFd.1)
    return .inl again

theorem round_eq (client : Client) (socketFd : Int) (pipeFd : Int × Int) (username : CStr) :
    round client socketFd pipeFd username =
      roundOf socketFd pipeFd username () (handleLine client socketFd pipeFd username) :=
  rfl

/-- The outcome of a round, with the lines that were handed to `parse_command` so far. -/
def withLines (lines : List CStr) : CStr ⊕ Unit → (CStr × List CStr) ⊕ List CStr
  | .inl username => .inl (username, lines)
  | .inr _ => .inr lines

def withoutLines : (CStr × List CStr) ⊕ List CStr → CStr ⊕ Unit
  | .inl state => .inl state.1
  | .inr _ => .inr ()

/-- The round, with a log of the lines it has handed to `parse_command`. -/
def loggedRound (client : Client) (socketFd : Int) (pipeFd : Int × Int)
    (state : CStr × List CStr) : Forking ((CStr × List CStr) ⊕ List CStr) :=
  roundOf socketFd pipeFd state state.2 fun line =>
    handleLine client socketFd pipeFd state.1 line >>= fun r =>
      pure (withLines (state.2 ++ [line]) r)

section log

variable {α σ β σ' β' : Type} {f : σ ⊕ β → σ' ⊕ β'} {again : σ} {stop : β} {again' : σ'}
  {stop' : β'} {act : CStr → Forking (σ ⊕ β)} {act' : CStr → Forking (σ' ⊕ β')}

theorem bind_ret (p : Forking α) : p.bind Prog.ret = p := by
  induction p with
  | ret a => rfl
  | call c k ih => simp only [Prog.bind, ih]
  | loop s body k _ ih => simp only [Prog.bind, ih]

theorem map_takeLine (goes : f (.inl again) = .inl again') (stops : f (.inr stop) = .inr stop')
    (acts : ∀ line, (act line).bind (fun r => .ret (f r)) = act' line) :
    (takeLine again stop act).bind (fun r => .ret (f r)) = takeLine again' stop' act' := by
  unfold takeLine
  change (Prog.bind _ _).bind _ = Prog.bind _ _
  rw [bind_assoc]
  congr 1
  funext r
  cases r with
  | error e => exact congrArg Prog.ret stops
  | ok got =>
    obtain ⟨buf, stdinEof⟩ := got
    dsimp only
    split_ifs
    · exact congrArg Prog.ret stops
    · exact congrArg Prog.ret goes
    · exact acts _

theorem map_roundOf {socketFd : Int} {pipeFd : Int × Int} (goes : f (.inl again) = .inl again')
    (stops : f (.inr stop) = .inr stop')
    (acts : ∀ line, (act line).bind (fun r => .ret (f r)) = act' line) :
    (roundOf socketFd pipeFd again stop act).bind (fun r => .ret (f r)) =
      roundOf socketFd pipeFd again' stop' act' := by
  have output : ∀ readfds : List Int, (do
        when (pipeFd.1 ∈ readfds) (handlePipe pipeFd.1)
        return .inl again : Forking (σ ⊕ β)).bind (fun r => .ret (f r)) = do
      when (pipeFd.1 ∈ readfds) (handlePipe pipeFd.1)
      return .inl again' := by
    intro readfds
    change (Prog.bind _ _).bind _ = Prog.bind _ _
    rw [bind_assoc]
    congr 1
    funext _
    exact congrArg Prog.ret goes
  unfold roundOf
  change (Prog.bind _ _).bind _ = Prog.bind _ _
  rw [bind_assoc]
  congr 1
  funext r
  cases r with
  | error e =>
    dsimp only
    split_ifs
    · exact congrArg Prog.ret goes
    · exact congrArg Prog.ret stops
  | ok readfds =>
    dsimp only
    split_ifs
    · exact map_takeLine goes stops acts
    · change (Prog.bind _ _).bind _ = Prog.bind _ _
      rw [bind_assoc]
      congr 1
      funext packet
      cases packet with
      | none => exact congrArg Prog.ret stops
      | some packet =>
        dsimp only
        split_ifs
        · exact congrArg Prog.ret goes
        · exact output readfds
    · exact output readfds

/-- Without its log it is the round of `main`. -/
theorem loggedRound_erased (client : Client) (socketFd : Int) (pipeFd : Int × Int)
    (state : CStr × List CStr) :
    (loggedRound client socketFd pipeFd state).bind (fun r => .ret (withoutLines r)) =
      round client socketFd pipeFd state.1 := by
  rw [round_eq]
  apply map_roundOf
  · rfl
  · rfl
  · intro line
    change (Prog.bind _ _).bind _ = _
    rw [bind_assoc]
    have same : ∀ r : CStr ⊕ Unit, withoutLines (withLines (state.2 ++ [line]) r) = r := by
      intro r
      cases r <;> rfl
    have each : (fun r : CStr ⊕ Unit => (Prog.ret (withLines (state.2 ++ [line]) r)).bind
        fun r => (Prog.ret (withoutLines r) : Forking (CStr ⊕ Unit))) = Prog.ret := by
      funext r
      exact congrArg Prog.ret (same r)
    change (handleLine client socketFd pipeFd state.1 line).bind (fun r : CStr ⊕ Unit =>
      (Prog.ret (withLines (state.2 ++ [line]) r)).bind
        fun r => (Prog.ret (withoutLines r) : Forking (CStr ⊕ Unit))) = _
    rw [each, bind_ret]

theorem rounds_logged {T : Typestate Call.Reply CStr} {client : Client} {socketFd : Int}
    {pipeFd : Int × Int} {input username rest : CStr}
    (run : Rounds T (round client socketFd pipeFd) [] input username rest) :
    ∃ lines, Rounds T (loggedRound client socketFd pipeFd) ([], []) input (username, lines) rest := by
  induction run with
  | start => exact ⟨[], .start⟩
  | @round y z h h' _ ends ih =>
    obtain ⟨lines, logged⟩ := ih
    have erased := loggedRound_erased client socketFd pipeFd (y, lines)
    rw [← erased] at ends
    obtain ⟨r, g, first, last⟩ := Ends.split ends
    cases r with
    | inl state =>
      obtain ⟨user, lines'⟩ := state
      cases last
      exact ⟨lines', .round logged first⟩
    | inr _ => cases last

end log

/-- The bytes of the standard input that were not read yet; the end of the file is read only when
there are none. -/
def stdin : Typestate Call.Reply CStr where
  allowed _ _ := True
  expects
    | input, .sys c, r => (reading 0).expects input c r
    | _, _, _ => True
  next
    | input, .sys c, r => (reading 0).next input c r
    | input, _, _ => input

theorem stdin_along : stdin.along Call.sys = reading 0 := rfl

section data

variable {α : Type} {input : CStr} {socketFd localFd : Int} {pipeFd : Int × Int}
  {client : Client} {username line : CStr}

theorem next_suffix (input : CStr) (c : Call) (r : c.Reply) : stdin.next input c r <:+ input := by
  cases c with
  | sys c =>
    cases c with
    | file c =>
      cases c with
      | read fd count =>
        cases r with
        | error e => exact List.suffix_rfl
        | ok data =>
          change (if fd = 0 then input.drop data.length else input) <:+ input
          split_ifs
          · exact List.drop_suffix _ _
          · exact List.suffix_rfl
      | _ => exact List.suffix_rfl
    | _ => exact List.suffix_rfl
  | _ => exact List.suffix_rfl

theorem wp_suffix (p : Forking α) : wp stdin p (fun _ rest => rest <:+ input) input := by
  refine (Calls.trivial p).wp_preserving (· <:+ input) ?_ List.suffix_rfl fun _ _ kept => kept
  intro g c _ kept
  exact ⟨trivial, fun r => (next_suffix g c r).trans kept⟩

@[reducible] def Unread : Csap.Call → Prop
  | .file (.read fd _) => fd ≠ 0
  | _ => True

instance unread_judged : Judged Unread :=
  .avoiding [.read true, .read false] <| by
    rintro (c | c | c | c | c | c) <;> cases c <;> simp

theorem unread_next {c : Csap.Call} (unread : Unread c) (r : c.Reply) :
    (reading 0).next input c r = input := by
  cases c with
  | file c =>
    cases c with
    | read fd count =>
      cases r with
      | error e => rfl
      | ok data => exact if_neg unread
    | _ => rfl
  | _ => rfl

theorem wp_unread {p : Sys α} {Q : α → CStr → Prop} (calls : p.Calls Unread)
    (hQ : ∀ a, Q a input) : wp stdin (sys p) Q input := by
  rw [wp_embed, stdin_along]
  exact calls.wp (fun c unread => ⟨trivial, unread_next unread⟩) hQ

theorem wp_parsed {Q : Except CStr Cmd → CStr → Prop}
    (failed : ∀ msg, Q (.error msg) input)
    (parsed : ∀ command, parseLine line = .ok command → Q (.ok command) input) :
    wp stdin (sys (parseCommand (some line))) Q input := by
  rw [wp_embed, stdin_along]
  refine wp_call trivial ?_
  intro copied _
  refine wp_ite.mpr ⟨fun _ => ?_, fun _ => failed _⟩
  rw [wp_pure]
  cases result : parseLine line with
  | error msg => exact failed msg
  | ok command => exact parsed command result

theorem sendStream_unread {fd : Int} (other : fd ≠ 0) (offset : Int) (dataCode endCode : UInt8) :
    (sendStream fd offset dataCode endCode).Calls Unread := by
  unfold sendStream sendFrames
  repeat' with_reducible first
    | exact calls_within rfl
    | exact Calls.perform other
    | refine Calls.iterate fun _ => ?_
    | refine Calls.bind ?_ fun _ => ?_
    | split

theorem runStreamCommand_unread (texts : Texts) (command : Cmd) (other : localFd ≠ 0) :
    (runStreamCommand texts command localFd).Calls Unread := by
  unfold runStreamCommand sendCommandStream
  repeat' with_reducible first
    | exact calls_within rfl
    | exact sendStream_unread other _ _ _
    | refine Calls.bind ?_ fun _ => ?_
    | split

theorem wp_computeLocalFd (command : Cmd) : wp stdin (sys (computeLocalFd command)) (fun r rest =>
    rest = input ∧ ∀ fd, r = some fd → command.code ≠ .write → fd ≠ 0) input := by
  rw [wp_embed, stdin_along]
  unfold computeLocalFd
  rw [wp_ite]
  constructor
  · intro _
    refine ⟨rfl, ?_⟩
    intro fd same _
    cases same
    decide
  intro _
  rw [wp_ite]
  constructor
  · intro writes
    exact ⟨rfl, fun _ _ other => absurd writes other⟩
  intro _
  dsimp only
  rw [wp_ite]
  constructor
  all_goals
    intro _
    refine wp_call trivial ?_
    intro r expected
    cases r with
    | error e =>
      refine ⟨rfl, ?_⟩
      intro fd same
      cases same
    | ok opened =>
      refine ⟨rfl, ?_⟩
      intro fd same _
      cases same
      exact expected _ rfl

/-- The bytes a line's command takes: the data of a `write`. -/
def Data (line data : CStr) : Prop :=
  data = [] ∨ ∃ command, parseLine line = .ok command ∧ command.code = .write

theorem wp_closing {fd : Int} {Q : Unit → CStr → Prop} (hQ : Q () input) :
    wp stdin (close fd) Q input := by
  refine wp_call trivial ?_
  intro _ _
  exact hQ

theorem wp_spawnBackground {inherited : Inherited} {Q : Unit → CStr → Prop} (hQ : Q () input) :
    wp stdin (spawnBackground inherited) Q input := by
  refine wp_call trivial ?_
  intro _ _
  exact hQ

/-- A command takes no input but the data of a `write`. -/
theorem wp_handleLine : wp stdin (handleLine client socketFd pipeFd username line)
    (fun _ rest => ∃ data, input = data ++ rest ∧ Data line data) input := by
  by_cases writes : ∃ command, parseLine line = .ok command ∧ command.code = .write
  · refine wp_mono (wp_suffix _) ?_
    intro _ rest suffix
    obtain ⟨data, same⟩ := suffix
    exact ⟨data, same.symm, .inr writes⟩
  have nothing : ∃ data, input = data ++ input ∧ Data line data := ⟨[], rfl, .inl rfl⟩
  have closed : ∀ {fd : Int} {Q : CStr ⊕ Unit → CStr → Prop}, Q (.inl username) input →
      wp stdin (do
        when (2 < fd) do close fd
        return .inl username : Round) Q input := by
    intro fd Q hQ
    exact wp_bind.mpr (wp_when.mpr ⟨fun _ => wp_closing hQ, fun _ => hQ⟩)
  refine wp_bind.mpr (wp_parsed (fun _ => nothing) fun command parsed => ?_)
  have other : command.code ≠ .write := fun write => writes ⟨command, parsed, write⟩
  refine wp_ite.mpr ⟨fun _ => ?_, fun _ => ?_⟩
  · exact wp_call trivial fun n _ => wp_ite.mpr ⟨fun _ => nothing, fun _ => nothing⟩
  dsimp only
  rw [wp_bind]
  refine wp_mono (Q := fun r rest => rest = input ∧ ∀ fd, r = some fd → fd ≠ 0) ?_ ?_
  · split
    · refine wp_mono (wp_computeLocalFd command) ?_
      intro r rest ⟨same, open_⟩
      exact ⟨same, fun fd found => open_ fd found other⟩
    · refine ⟨rfl, ?_⟩
      intro fd same
      cases same
      decide
  rintro opened _ ⟨rfl, elsewhere⟩
  cases opened with
  | none => exact nothing
  | some localFd =>
    have apart := elsewhere localFd rfl
    refine wp_ite.mpr ⟨fun _ => wp_ite.mpr ⟨fun _ => ?_, fun _ => closed nothing⟩, fun _ => ?_⟩
    · refine wp_bind.mpr (wp_spawnBackground (wp_bind.mpr (wp_when.mpr ⟨fun _ => ?_, fun _ => ?_⟩)))
      · exact wp_closing (wp_call trivial fun _ _ => nothing)
      · exact wp_call trivial fun _ _ => nothing
    · refine wp_bind.mpr (wp_unread (calls_within rfl) fun _ => ?_)
      refine wp_ite.mpr ⟨fun _ => ?_, fun _ => ?_⟩
      · exact wp_bind.mpr (wp_unread (runStreamCommand_unread _ _ apart) fun _ => closed nothing)
      · exact wp_bind.mpr (wp_unread (calls_within rfl) fun _ => nothing)

/-- What a line ends with: the end of the input, or a newline, which is read with it or is left to
be read as an empty line. -/
inductive Stops : CStr → CStr → Prop
  | input : Stops [] []
  | newline (after : CStr) : Stops (10 :: after) after
  | left (after : CStr) : Stops (10 :: after) (10 :: after)

/-- The input up to where it was read, taken apart at its newlines: the lines that are not empty,
without the data of the `write` commands among them. -/
inductive Transcript (input : CStr) : List CStr → CStr → Prop
  | start : Transcript input [] input
  | line {lines : List CStr} {line tail after data rest : CStr} :
      Transcript input lines (line ++ tail) → 10 ∉ line → Stops tail after →
      after = data ++ rest → Data line data →
      Transcript input (lines ++ if line = [] then [] else [line]) rest

/-- The next line has room in the buffer and is a C string. -/
def Readable (input : CStr) : Prop :=
  (input.takeWhile (· ≠ 10)).length ≤ lineRoom ∧ 0 ∉ input.takeWhile (· ≠ 10)

theorem takeWhile_newline (input : CStr) : 10 ∉ input.takeWhile (· ≠ 10) := by
  intro inside
  have plain := List.mem_takeWhile_imp inside
  simp at plain

theorem cutLine_readable {input : CStr} (fits : (input.takeWhile (· ≠ 10)).length ≤ lineRoom) :
    ∃ tail after, input = input.takeWhile (· ≠ 10) ++ tail ∧ Stops tail after ∧
      cutLine lineRoom input = (input.takeWhile (· ≠ 10), after) := by
  have whole := List.takeWhile_append_dropWhile (p := (· ≠ (10 : UInt8))) (l := input)
  have one := takeWhile_newline input
  generalize input.takeWhile (· ≠ 10) = line at whole one fits ⊢
  cases behind : input.dropWhile (· ≠ 10) with
  | nil =>
    rw [behind, List.append_nil] at whole
    subst whole
    exact ⟨[], [], (List.append_nil _).symm, .input, cutLine_last fits one⟩
  | cons c tail =>
    obtain rfl : c = 10 := by
      have head := List.head?_dropWhile_not (· ≠ (10 : UInt8)) input
      rw [behind] at head
      simpa using head
    rw [behind] at whole
    subst whole
    by_cases room : line.length < lineRoom
    · exact ⟨_, tail, rfl, .newline tail, cutLine_newline room one⟩
    · refine ⟨_, 10 :: tail, rfl, .left tail, ?_⟩
      rw [cutLine_long (by omega) one]
      have all : line.length = lineRoom := by omega
      rw [← all, List.take_length, List.drop_length, List.nil_append]

section run

variable {lines : List CStr}

def handed : (CStr × List CStr) ⊕ List CStr → List CStr
  | .inl state => state.2
  | .inr lines => lines

/-- After a round the lines are those of the input up to here, or up to where reading failed. -/
def Read (input : CStr) (r : (CStr × List CStr) ⊕ List CStr) (rest : CStr) : Prop :=
  ∃ left, Transcript input (handed r) left ∧ (r.isLeft = true → left = rest)

abbrev handleLogged (client : Client) (socketFd : Int) (pipeFd : Int × Int) (username : CStr)
    (lines : List CStr) (line : CStr) : Forking ((CStr × List CStr) ⊕ List CStr) :=
  handleLine client socketFd pipeFd username line >>= fun r => pure (withLines (lines ++ [line]) r)

theorem read_stopped {start rest : CStr} (before : Transcript start lines input) :
    Read start (.inr lines) rest :=
  ⟨input, before, fun impossible => by cases impossible⟩

theorem wp_takeLine {start : CStr} (before : Transcript start lines input)
    (readable : Readable input) : wp stdin (takeLine (username, lines) lines
      (handleLogged client socketFd pipeFd username lines)) (Read start) input := by
  obtain ⟨tail, after, whole, stops, cut⟩ := cutLine_readable readable.1
  have one := takeWhile_newline input
  have plain := readable.2
  have stopped : ∀ rest, Read start (.inr lines) rest := fun rest => read_stopped before
  generalize input.takeWhile (· ≠ 10) = line at whole one plain cut
  unfold takeLine
  rw [wp_bind, wp_embed, stdin_along]
  refine wp_mono wp_readLine_cut ?_
  intro r rest result
  cases r with
  | error e => exact stopped _
  | ok got =>
    obtain ⟨buf, stdinEof⟩ := got
    obtain ⟨same, ended⟩ := result buf stdinEof rfl
    rw [show PATH_MAX + 64 - 1 = lineRoom from rfl, cut] at same
    obtain ⟨rfl, rfl⟩ := Prod.mk.inj same
    refine wp_ite.mpr ⟨fun _ => stopped _, fun _ => wp_ite.mpr ⟨fun empty => ?_, fun some => ?_⟩⟩
    · have behind : ∀ rest : CStr, rest = [] ++ rest := fun _ => rfl
      have next := Transcript.line (whole ▸ before) one stops (behind _) (.inl rfl)
      rw [if_pos empty, List.append_nil] at next
      exact ⟨_, next, fun _ => rfl⟩
    · have text : buf.takeWhile (· ≠ 0) = buf := by
        rw [List.takeWhile_eq_self_iff]
        intro c inside
        simp only [ne_eq, decide_eq_true_eq]
        intro zero
        exact plain (zero ▸ inside)
      rw [text, wp_bind]
      refine wp_mono wp_handleLine ?_
      intro r left ⟨data, taken, allowed⟩
      have next := Transcript.line (whole ▸ before) one stops taken allowed
      rw [if_neg some] at next
      refine ⟨left, ?_, fun _ => rfl⟩
      cases r <;> exact next

theorem cutLine_ne_nil (some : input.takeWhile (· ≠ 10) ≠ []) : (cutLine lineRoom input).1 ≠ [] := by
  have one := takeWhile_newline input
  by_cases fits : (input.takeWhile (· ≠ 10)).length ≤ lineRoom
  · obtain ⟨_, _, _, _, cut⟩ := cutLine_readable fits
    rw [cut]
    exact some
  · have cut : cutLine lineRoom (input.takeWhile (· ≠ 10) ++ input.dropWhile (· ≠ 10)) = _ :=
      cutLine_long (not_le.mp fits).le one
    rw [List.takeWhile_append_dropWhile] at cut
    rw [cut]
    intro nothing
    have length := congrArg List.length nothing
    rw [List.length_take, min_eq_left (not_le.mp fits).le] at length
    cases length

theorem wp_takeLine_unreadable {start : CStr} (before : Transcript start lines input)
    (unreadable : ¬ Readable input) : wp stdin (takeLine (username, lines) lines
      (handleLogged client socketFd pipeFd username lines))
      (fun r rest => handed r ≠ lines ∨ Read start r rest) input := by
  have some : input.takeWhile (· ≠ 10) ≠ [] := by
    intro empty
    apply unreadable
    rw [Readable, empty]
    exact ⟨Nat.zero_le _, List.not_mem_nil⟩
  unfold takeLine
  rw [wp_bind, wp_embed, stdin_along]
  refine wp_mono wp_readLine_cut ?_
  intro r rest result
  cases r with
  | error e => exact .inr (read_stopped before)
  | ok got =>
    obtain ⟨buf, stdinEof⟩ := got
    obtain ⟨same, -⟩ := result buf stdinEof rfl
    have full : buf ≠ [] := by
      have piece := cutLine_ne_nil some
      rw [show PATH_MAX + 64 - 1 = lineRoom from rfl] at same
      rwa [← same] at piece
    refine wp_ite.mpr ⟨fun _ => .inr (read_stopped before), fun _ => ?_⟩
    refine wp_ite.mpr ⟨fun empty => absurd empty full, fun _ => wp_bind.mpr ?_⟩
    refine (Calls.trivial _).wp_preserving (fun _ => True) (fun _ _ _ _ => ⟨trivial, fun _ => trivial⟩)
      trivial ?_
    intro r _ _
    left
    have longer : handed (withLines (lines ++ [buf.takeWhile (· ≠ 0)]) r) =
        lines ++ [buf.takeWhile (· ≠ 0)] := by
      cases r <;> rfl
    rw [longer]
    simp

theorem wp_loggedRound {start : CStr} (before : Transcript start lines input) :
    wp stdin (loggedRound client socketFd pipeFd (username, lines))
      (fun r rest => (handed r ≠ lines → Readable input) → Read start r rest) input := by
  have again : Read start (.inl (username, lines)) input := ⟨input, before, fun _ => rfl⟩
  have output : ∀ readfds : List Int, wp stdin (do
        when (pipeFd.1 ∈ readfds) (handlePipe pipeFd.1)
        return .inl (username, lines) : Forking ((CStr × List CStr) ⊕ List CStr))
      (fun r rest => (handed r ≠ lines → Readable input) → Read start r rest) input := by
    intro readfds
    refine wp_bind.mpr (wp_when.mpr ⟨fun _ => ?_, fun _ _ => again⟩)
    refine wp_call trivial ?_
    intro r _
    cases r with
    | error e => exact fun _ => again
    | ok buf =>
      refine ⟨trivial, ?_⟩
      intro _ _ _
      exact again
  unfold loggedRound roundOf
  refine wp_bind.mpr (wp_unread (calls_within rfl) fun ready => ?_)
  cases ready with
  | error e => exact wp_ite.mpr ⟨fun _ _ => again, fun _ _ => read_stopped before⟩
  | ok readfds =>
    refine wp_ite.mpr ⟨fun _ => ?_, fun _ => wp_ite.mpr ⟨fun _ => ?_, fun _ => output readfds⟩⟩
    · by_cases readable : Readable input
      · exact wp_mono (wp_takeLine before readable) fun _ _ read _ => read
      · refine wp_mono (wp_takeLine_unreadable before readable) ?_
        rintro r rest (longer | read) needed
        · exact absurd (needed longer) readable
        · exact read
    · refine wp_bind.mpr (wp_unread (calls_within rfl) fun packet => ?_)
      cases packet with
      | none => exact fun _ => read_stopped before
      | some packet => exact wp_ite.mpr ⟨fun _ _ => again, fun _ => output readfds⟩

/-- A run of the loop in which each line that is handed over had room in the buffer. -/
inductive Session (client : Client) (socketFd : Int) (pipeFd : Int × Int) (input : CStr) :
    List CStr → CStr → CStr → Prop
  | start : Session client socketFd pipeFd input [] [] input
  | round {lines lines' : List CStr} {username username' rest rest' : CStr} :
      Session client socketFd pipeFd input lines username rest → (lines' ≠ lines → Readable rest) →
      Ends stdin (loggedRound client socketFd pipeFd (username, lines)) rest
        (.inl (username', lines')) rest' →
      Session client socketFd pipeFd input lines' username' rest'

/-- In every such run the lines handed to `parse_command` are the lines of the input, whatever
is typed and whatever the server answers; and so they are after one more round. -/
theorem lines_handed_once {start rest : CStr}
    (run : Session client socketFd pipeFd start lines username rest) :
    Transcript start lines rest ∧ ∀ r rest', (handed r ≠ lines → Readable rest) →
      Ends stdin (loggedRound client socketFd pipeFd (username, lines)) rest r rest' →
      Read start r rest' := by
  have sofar : Transcript start lines rest := by
    induction run with
    | start => exact .start
    | round _ readable ends ih =>
      obtain ⟨left, read, here⟩ := ends.of_wp (wp_loggedRound ih) readable
      rw [← here rfl]
      exact read
  refine ⟨sofar, ?_⟩
  intro r rest' readable ends
  exact ends.of_wp (wp_loggedRound sofar) readable

theorem round_unknown {rest msg : CStr} (cut : cutLine lineRoom input = (line, rest))
    (some : line ≠ []) (plain : 0 ∉ line) (unknown : parseLine line = .error msg) :
    Ends stdin (loggedRound client socketFd pipeFd (username, lines)) input
      (.inl (username, lines ++ [line])) rest := by
  have full : input ≠ [] := by
    rintro rfl
    rw [cutLine_nil] at cut
    exact some (Prod.mk.inj cut).1.symm
  obtain ⟨eof, reads⟩ := readLine_ends 0 (PATH_MAX + 64) input
  obtain ⟨-, ended⟩ := reads.of_wp wp_readLine_cut _ _ rfl
  obtain rfl : eof = false := by
    cases eof with
    | false => rfl
    | true => exact absurd (ended.mp rfl).2 full
  rw [show PATH_MAX + 64 - 1 = lineRoom from rfl, cut] at reads
  have text : line.takeWhile (· ≠ 0) = line := by
    rw [List.takeWhile_eq_self_iff]
    intro c inside
    simp only [ne_eq, decide_eq_true_eq]
    intro zero
    exact plain (zero ▸ inside)
  have parses : Ends stdin (handleLine client socketFd pipeFd username line) rest (.inl username)
      rest := by
    refine Ends.bind (a := .error msg) (h := rest) (Ends.embed ?_) (.ret _ _)
    refine .call (r := true) (by trivial) ?_
    change Ends _ (pure (parseLine line)) _ _ _
    rw [unknown]
    exact .ret _ _
  have acts : Ends stdin (takeLine (username, lines) lines fun line =>
      handleLine client socketFd pipeFd username line >>= fun r =>
        pure (withLines (lines ++ [line]) r)) input (.inl (username, lines ++ [line])) rest := by
    refine Ends.bind (Ends.embed reads) ?_
    dsimp only
    rw [if_neg Bool.false_ne_true, if_neg some, text]
    exact Ends.bind parses (.ret _ _)
  refine .call (r := .ok [0]) (by trivial) ?_
  exact acts

theorem lines_handed_once_unknown :
    Transcript (cstr "hello" ++ [10] ++ cstr "exit") [cstr "hello"] (cstr "exit") := by
  have plain : Readable (cstr "hello" ++ [10] ++ cstr "exit") := by
    constructor <;> decide
  have round : Ends stdin (loggedRound ⟨⟨fun _ => [], fun _ => []⟩, fun _ => true, [], []⟩ 4 (5, 6)
      ([], [])) (cstr "hello" ++ [10] ++ cstr "exit") (.inl ([], [cstr "hello"])) (cstr "exit") :=
    round_unknown (by decide) (by decide) (by decide)
      (show parseLine (cstr "hello") = .error (cstr "Unknown command: hello") by decide)
  exact (lines_handed_once (.round .start (fun _ => plain) round)).1

theorem tokens_replicate (n : Nat) (token : CStr) (some : token ++ List.replicate n 120 ≠ []) :
    tokens 32 token (List.replicate n 120) = [token ++ List.replicate n 120] := by
  induction n generalizing token with
  | zero =>
    rw [List.replicate_zero, List.append_nil] at some ⊢
    simp [tokens, some]
  | succ n ih =>
    have shift : token ++ List.replicate (n + 1) 120 = token ++ [120] ++ List.replicate n 120 := by
      rw [List.replicate_succ, List.append_assoc, List.singleton_append]
    rw [shift]
    exact ih (token ++ [120]) (by simp)

theorem parseLine_replicate (n : Nat) : ∃ msg, parseLine (List.replicate (n + 1) 120) = .error msg := by
  have one := tokens_replicate (n + 1) [] (by simp)
  have unknown : CMDS.find? (fun row => row.name = List.replicate (n + 1) 120) = none := by
    rw [List.find?_eq_none]
    intro row known same
    have names : ∀ row ∈ CMDS, row.name.head? ≠ some 120 := by decide
    apply names row known
    rw [of_decide_eq_true same]
    rfl
  unfold parseLine
  rw [one, List.nil_append]
  dsimp only
  rw [unknown]
  exact ⟨_, rfl⟩

theorem transcript_of_line {long left : CStr} (one : 10 ∉ long) (some : long ≠ [])
    (transcript : Transcript long lines left) :
    lines = [] ∧ left = long ∨ lines = [long] ∧ left = [] := by
  induction transcript with
  | start => exact .inl ⟨rfl, rfl⟩
  | @line lines line tail after data rest _ _ stops taken _ ih =>
    rcases ih with ⟨rfl, whole⟩ | ⟨rfl, nothing⟩
    · cases stops with
      | input =>
        rw [List.append_nil] at whole
        subst whole
        rw [if_neg some, List.nil_append]
        exact .inr ⟨rfl, (List.append_eq_nil_iff.mp taken.symm).2⟩
      | newline after => exact absurd (whole ▸ by simp) one
      | left after => exact absurd (whole ▸ by simp) one
    · obtain ⟨rfl, rfl⟩ := List.append_eq_nil_iff.mp nothing
      cases stops
      rw [if_pos rfl, List.append_nil]
      exact .inr ⟨rfl, (List.append_eq_nil_iff.mp taken.symm).2⟩

/-- A line of one byte more than fits: the last byte is handed over as a line of its own. -/
theorem long_line_handed_twice :
    Rounds stdin (loggedRound ⟨⟨fun _ => [], fun _ => []⟩, fun _ => true, [], []⟩ 4 (5, 6))
      ([], []) (List.replicate 4160 120) ([], [List.replicate 4159 120, [120]]) [] ∧
    ¬ Transcript (List.replicate 4160 120) [List.replicate 4159 120, [120]] [] := by
  have plain : ∀ (n : Nat) (c : UInt8), c ≠ 120 → c ∉ List.replicate n 120 := by
    intro n c other inside
    exact other (List.eq_of_mem_replicate inside)
  have nonempty : ∀ n, List.replicate (n + 1) (120 : UInt8) ≠ [] := fun n same => by cases same
  have cut : cutLine lineRoom (List.replicate 4160 120) = (List.replicate 4159 120, [120]) := by
    have long : cutLine lineRoom (List.replicate 4160 120 ++ []) = _ :=
      cutLine_long (by rw [List.length_replicate]; decide) (plain _ 10 (by decide))
    rw [List.append_nil, List.append_nil, List.take_replicate, List.drop_replicate] at long
    exact long
  constructor
  · obtain ⟨msg, unknown⟩ := parseLine_replicate 4158
    obtain ⟨msg', unknown'⟩ := parseLine_replicate 0
    refine .round (.round .start (round_unknown cut ?_ (plain _ 0 (by decide)) unknown)) ?_
    · exact nonempty 4158
    · exact round_unknown (cutLine_last (by decide) (by decide)) (by decide) (by decide) unknown'
  · intro transcript
    rcases transcript_of_line (plain _ 10 (by decide)) (nonempty 4159) transcript with
      ⟨impossible, -⟩ | ⟨impossible, -⟩
    · cases impossible
    · cases (List.cons.inj impossible).2

end run

end data

end Csap.ClientMain
