import Csap.ClientMain

/-! Operations in the background are counted: one more for each that is started,
one less for each newline on the pipe. A child that ends sends one newline, but
where it is not connected to the server, or is aborted, it sends none, and a
`fork` that fails is counted as well. -/

namespace Csap.ClientMain

open Prog Interleaving

section lines

theorem mem_of_mem_tokens {delim c : UInt8} {s token t : CStr} (h : t ∈ tokens delim token s)
    (hc : c ∈ t) : c ∈ token ∨ c ∈ s := by
  induction s generalizing token with
  | nil =>
    unfold tokens at h
    split_ifs at h
    · cases h
    · rw [List.mem_singleton.mp h] at hc
      exact .inl hc
  | cons d s ih =>
    have tail : ∀ {token}, t ∈ tokens delim token s → c ∈ token ∨ c ∈ d :: s := fun h =>
      (ih h).imp_right (List.mem_cons_of_mem d)
    unfold tokens at h
    split_ifs at h with stop empty
    · exact (tail h).imp_left fun absent => absurd absent List.not_mem_nil
    · rcases List.mem_cons.mp h with rfl | h
      · exact .inl hc
      · exact (tail h).imp_left fun absent => absurd absent List.not_mem_nil
    · rcases ih h with old | new
      · rcases List.mem_append.mp old with old | new
        · exact .inl old
        · exact .inr (List.mem_cons.mpr (.inl (List.mem_singleton.mp new)))
      · exact .inr (List.mem_cons_of_mem d new)

def OneLine (command : Cmd) : Prop := 10 ∉ command.buf ∧ 10 ∉ command.buf2

theorem oneLine_parseOption {command command' : Cmd} {token : CStr} (h : OneLine command)
    (parsed : parseOption command token = .ok command') : OneLine command' := by
  unfold parseOption at parsed
  dsimp only at parsed
  split_ifs at parsed <;> cases parsed <;> exact h

theorem oneLine_parseArgs {row : CommandRow} {args : List CStr} {command command' : Cmd}
    (h : OneLine command) (plain : ∀ token ∈ args, 10 ∉ token)
    (parsed : parseArgs row command args = .ok command') : OneLine command' := by
  induction args generalizing command with
  | nil =>
    cases parsed
    exact h
  | cons token rest ih =>
    have others : ∀ token ∈ rest, 10 ∉ token := fun t ht => plain t (List.mem_cons_of_mem _ ht)
    have name : 10 ∉ snprintf PATH_MAX token := fun newline =>
      plain token List.mem_cons_self (List.mem_of_mem_take newline)
    unfold parseArgs at parsed
    split_ifs at parsed
    · split at parsed
      · cases parsed
      · rename_i read
        exact ih (oneLine_parseOption h read) others parsed
    · refine ih ?_ others parsed
      exact ⟨name, h.2⟩
    · refine ih ?_ others parsed
      exact ⟨h.1, name⟩
    · cases parsed
      exact h

theorem oneLine_parseLine {line : CStr} {command : Cmd} (plain : 10 ∉ line)
    (parsed : parseLine line = .ok command) : OneLine command := by
  unfold parseLine at parsed
  split at parsed
  · cases parsed
  · rename_i name args split
    have tokens : ∀ token ∈ args, 10 ∉ token := by
      intro token ht newline
      have found : token ∈ tokens 32 [] line := by
        rw [split]
        exact List.mem_cons_of_mem _ ht
      rcases mem_of_mem_tokens found newline with absent | newline
      · cases absent
      · exact plain newline
    split at parsed
    · cases parsed
    · split at parsed
      · cases parsed
      · rename_i read
        split_ifs at parsed
        cases parsed
        exact oneLine_parseArgs ⟨List.not_mem_nil, List.not_mem_nil⟩ tokens read

theorem count_successMsg {command : Cmd} (h : OneLine command)
    (transfers : command.code = .uploadBegin ∨ command.code = .downloadBegin) :
    (successMsg command).count 10 = 1 := by
  have plain : ∀ {s : CStr}, 10 ∉ s → (s.take 90).count 10 = 0 := fun absent =>
    List.count_eq_zero.mpr fun newline => absent (List.mem_of_mem_take newline)
  have short : ∀ s : CStr, (s.take 90).length ≤ 90 := fun s => List.length_take_le 90 s
  have first := short command.buf
  have second := short command.buf2
  have one := plain h.1
  have two := plain h.2
  unfold successMsg
  rcases transfers with upload | download
  · rw [if_neg (by simp [upload]), if_pos upload, snprintf_eq_self]
    · simp only [List.count_append, one, two]
      decide
    · simp only [List.length_append, cstr, List.length_map, String.length_toList]
      have sizes : "[Background] Command: upload ".length = 29 ∧ " ".length = 1 ∧
        " concluded\n".length = 11 := by decide
      omega
  · rw [if_pos download, snprintf_eq_self]
    · simp only [List.count_append, one, two]
      decide
    · simp only [List.length_append, cstr, List.length_map, String.length_toList]
      have sizes : "[Background] Command: download ".length = 31 ∧ " ".length = 1 ∧
        " concluded\n".length = 11 := by decide
      omega

end lines

/-- Where a process stands: the parent between a `fork` or a read and the counter, a child
before and after its message. A `silent` child could not reach the server. -/
inductive Phase
  | idle
  | forking
  | counting (newlines : Nat)
  | unborn
  | running
  | silent
  | notified
deriving DecidableEq, Repr

structure Inherits (client : Client) (inherited : Inherited) : Prop where
  oneLine : OneLine inherited.command
  transfers : inherited.command.code = .uploadBegin ∨ inherited.command.code = .downloadBegin
  endpoint : makeEndpoint client ≠ none

namespace Phase

def allowed (client : Client) : Phase → Call → Prop
  | idle, .fork inherited => Inherits client inherited
  | idle, .forked | idle, .write _ _ | idle, .addBackgroundOperations _ => False
  | idle, _ => True
  | forking, .addBackgroundOperations n => n = 1
  | forking, .sys (.file (.close _)) => True
  | counting newlines, .addBackgroundOperations n => n = -newlines
  | unborn, .forked => True
  | running, .write _ msg => msg.count 10 = 1
  | running, .sys _ | running, .socket | running, .connect _ _ _ => True
  | silent, .sys (.file (.close _)) | notified, .sys (.file (.close _)) => True
  | silent, .exit _ | notified, .exit _ => True
  | _, _ => False

def next : Phase → (c : Call) → c.Reply → Phase
  | idle, .fork _, _ => forking
  | idle, .read _ _, .ok buf => counting (buf.count 10)
  | forking, .addBackgroundOperations _, _ => idle
  | counting _, .addBackgroundOperations _, _ => idle
  | unborn, .forked, _ => running
  | running, .socket, .error _ => silent
  | running, .connect _ _ _, .error _ => silent
  | running, .write _ _, _ => notified
  | phase, _, _ => phase

def expects (client : Client) : Phase → (c : Call) → c.Reply → Prop
  | _, .forked, inherited => Inherits client inherited
  | _, _, _ => True

end Phase

def accounting (client : Client) : Typestate Call.Reply Phase where
  allowed := Phase.allowed client
  expects := Phase.expects client
  next := Phase.next

section programs

variable {client : Client} {α : Type} {Q : α → Phase → Prop}

theorem wp_sys {p : Sys α} {phase : Phase} (on : phase = .idle ∨ phase = .running)
    (hQ : ∀ a, Q a phase) : wp (accounting client) (sys p) Q phase := by
  refine wp_embed.mpr (Calls.wp (Calls.trivial p) (fun c _ => ?_) hQ)
  rcases on with rfl | rfl <;> exact ⟨trivial, fun _ => rfl⟩

theorem wp_close {fd : Int} {phase : Phase} {Q : Unit → Phase → Prop}
    (on : ∀ c, (accounting client).allowed phase (.sys (.file (.close c)))) (hQ : Q () phase) :
    wp (accounting client) (close fd) Q phase := by
  refine wp_call (on fd) fun r _ => ?_
  have same : (accounting client).next phase (.sys (.file (.close fd))) r = phase := by
    cases phase <;> rfl
  rw [same]
  exact hQ

theorem wp_exit {code : Int} {phase : Phase}
    (on : (accounting client).allowed phase (.exit code)) :
    wp (accounting client) (exit code) Q phase :=
  wp_call on fun r => r.elim

theorem wp_bgEndNotify {pipeWriteFd socketFd exitCode : Int} {msg : CStr}
    (line : msg.count 10 = 1) :
    wp (accounting client) (bgEndNotify pipeWriteFd socketFd exitCode (some msg)) Q .running := by
  refine wp_call line fun _ _ => wp_bind.mpr (wp_when.mpr ⟨fun _ => ?_, fun _ => ?_⟩)
  · exact wp_close (fun _ => trivial) (wp_exit trivial)
  · exact wp_exit trivial

theorem wp_startClient {phase : Phase} {Q : Int → Phase → Prop}
    (on : phase = .idle ∨ phase = .running ∧ makeEndpoint client ≠ none)
    (hQ : makeEndpoint client ≠ none → ∀ sockfd, Q sockfd phase) :
    wp (accounting client) (startClient client) Q phase := by
  rcases on with rfl | ⟨rfl, endpoint⟩
  · refine wp_call trivial fun r _ => ?_
    rcases r with e | sockfd
    · exact wp_exit trivial
    · dsimp only
      split
      · exact wp_bind.mpr (wp_close (fun _ => trivial) (wp_exit trivial))
      · rename_i found
        refine wp_call trivial fun r _ => ?_
        rcases r with e | ⟨⟩
        · exact wp_bind.mpr (wp_close (fun _ => trivial) (wp_exit trivial))
        · exact hQ (by simp [found]) sockfd
  · refine wp_call trivial fun r _ => ?_
    rcases r with e | sockfd
    · exact wp_exit trivial
    · obtain ⟨port, found⟩ := Option.ne_none_iff_exists'.mp endpoint
      rw [found]
      refine wp_call trivial fun r _ => ?_
      rcases r with e | ⟨⟩
      · exact wp_bind.mpr (wp_close (fun _ => trivial) (wp_exit trivial))
      · exact hQ endpoint sockfd

theorem wp_background : wp (accounting client) (background client) (fun _ _ => True) .unborn := by
  have closes : ∀ fd, (accounting client).allowed .running (.sys (.file (.close fd))) :=
    fun _ => trivial
  refine wp_call trivial ?_
  rintro ⟨command, line, username, pipeFd, socketFd⟩ inherits
  refine wp_bind.mpr (wp_close closes (wp_bind.mpr (wp_close closes ?_)))
  refine wp_bind.mpr (wp_startClient (.inr ⟨rfl, inherits.endpoint⟩) fun _ bgSocketFd => ?_)
  refine wp_bind.mpr (wp_sys (.inr rfl) fun _ => wp_bind.mpr (wp_sys (.inr rfl) fun login => ?_))
  cases login with
  | none => exact wp_bgEndNotify (by decide)
  | some _ =>
    refine wp_bind.mpr (wp_sys (.inr rfl) fun opened => ?_)
    cases opened with
    | none => exact wp_bgEndNotify (by decide)
    | some fd =>
      refine wp_bind.mpr (wp_sys (.inr rfl) fun _ => wp_bind.mpr (wp_sys (.inr rfl) fun rc => ?_))
      have told : wp (accounting client)
          (if !rc then bgEndNotify pipeFd.2 bgSocketFd 1
              (some (cstr "[ERROR]: Background operation failed during stream transfer.\n"))
            else bgEndNotify pipeFd.2 bgSocketFd 0 (some (successMsg command)))
          (fun (_ : Unit) _ => True) .running := by
        refine wp_ite.mpr ⟨fun _ => wp_bgEndNotify (by decide), fun _ => ?_⟩
        exact wp_bgEndNotify (count_successMsg inherits.oneLine inherits.transfers)
      exact wp_bind.mpr (wp_when.mpr ⟨fun _ => wp_close closes told, fun _ => told⟩)

theorem wp_readLine {fd : Int} {size : Nat} {Q : SysResult (CStr × Bool) → Phase → Prop}
    (failed : ∀ e, Q (.error e) .idle)
    (read : ∀ line eof, 10 ∉ line → Q (.ok (line, eof)) .idle) :
    wp (accounting client) (sys (readLine fd size)) Q .idle := by
  refine wp_embed.mpr (wp_iterate (fun buf phase => phase = .idle ∧ 10 ∉ buf) ⟨rfl, by simp⟩ ?_)
  rintro buf _ ⟨rfl, plain⟩
  refine wp_ite.mpr ⟨fun _ => read _ _ plain, fun _ => wp_call trivial ?_⟩
  rintro (e | _ | ⟨c, rest⟩) -
  · exact wp_ite.mpr ⟨fun _ => ⟨rfl, plain⟩, fun _ => failed e⟩
  · exact read _ _ plain
  · refine wp_ite.mpr ⟨fun _ => read _ _ plain, fun other => ⟨rfl, ?_⟩⟩
    simp [plain, Ne.symm other]

theorem wp_parseCommand {line : CStr} {Q : Except CStr Cmd → Phase → Prop}
    (failed : ∀ msg, Q (.error msg) .idle)
    (parsed : ∀ command, parseLine line = .ok command → Q (.ok command) .idle) :
    wp (accounting client) (sys (parseCommand (some line))) Q .idle := by
  refine wp_embed.mpr (wp_call trivial fun copied _ => wp_ite.mpr ⟨fun _ => ?_, fun _ => ?_⟩)
  · rw [wp_pure]
    cases result : parseLine line with
    | error msg => exact failed msg
    | ok command => exact parsed command result
  · exact failed _

variable {socketFd : Int} {pipeFd : Int × Int} {username : CStr}

theorem wp_handleInput (endpoint : makeEndpoint client ≠ none) :
    wp (accounting client) (handleInput client socketFd pipeFd username)
      (fun _ phase => phase = .idle) .idle := by
  have closes : ∀ fd, (accounting client).allowed .idle (.sys (.file (.close fd))) :=
    fun _ => trivial
  refine wp_bind.mpr (wp_readLine (fun _ => rfl) fun buf eof plain => ?_)
  refine wp_ite.mpr ⟨fun _ => rfl, fun _ => wp_ite.mpr ⟨fun _ => rfl, fun _ => ?_⟩⟩
  refine wp_bind.mpr (wp_parseCommand (fun _ => rfl) fun command parsed => ?_)
  refine wp_ite.mpr ⟨fun _ => ?_, fun _ => ?_⟩
  · exact wp_call trivial fun n _ => wp_ite.mpr ⟨fun _ => rfl, fun _ => rfl⟩
  refine wp_bind.mpr (wp_sys (.inl rfl) fun opened => ?_)
  cases opened with
  | none => exact rfl
  | some localFd =>
    refine wp_ite.mpr ⟨fun _ => wp_ite.mpr ⟨fun transfers => ?_, fun _ => ?_⟩, fun _ => ?_⟩
    · have oneLine := oneLine_parseLine (fun h => plain ((List.takeWhile_sublist _).subset h)) parsed
      have inherits : (accounting client).allowed .idle (.fork
          { command, line := buf.takeWhile (· ≠ 0), username, pipeFd, socketFd }) :=
        ⟨oneLine, transfers, endpoint⟩
      refine wp_call inherits fun _ _ => wp_bind.mpr (wp_when.mpr ⟨?_, ?_⟩)
      · exact fun _ => wp_close (fun _ => trivial) (wp_call rfl fun _ _ => rfl)
      · exact fun _ => wp_call rfl fun _ _ => rfl
    · exact wp_bind.mpr (wp_when.mpr ⟨fun _ => wp_close closes rfl, fun _ => rfl⟩)
    · refine wp_bind.mpr (wp_sys (.inl rfl) fun _ => wp_ite.mpr ⟨fun _ => ?_, fun _ => ?_⟩)
      · refine wp_bind.mpr (wp_sys (.inl rfl) fun _ => ?_)
        exact wp_bind.mpr (wp_when.mpr ⟨fun _ => wp_close closes rfl, fun _ => rfl⟩)
      · exact wp_bind.mpr (wp_sys (.inl rfl) fun _ => rfl)

theorem wp_handlePipe {fd : Int} {Q : Unit → Phase → Prop} (hQ : Q () .idle) :
    wp (accounting client) (handlePipe fd) Q .idle := by
  refine wp_call trivial fun r _ => ?_
  rcases r with e | buf
  · exact hQ
  · exact ⟨rfl, fun _ _ => hQ⟩

theorem wp_round (endpoint : makeEndpoint client ≠ none) :
    wp (accounting client) (round client socketFd pipeFd username)
      (fun _ phase => phase = .idle) .idle := by
  have output : ∀ readfds : List Int, wp (accounting client)
      (do
        when (pipeFd.1 ∈ readfds) (handlePipe pipeFd.1)
        return .inl username : Round)
      (fun _ phase => phase = .idle) .idle := fun readfds =>
    wp_bind.mpr (wp_when.mpr ⟨fun _ => wp_handlePipe rfl, fun _ => rfl⟩)
  refine wp_bind.mpr (wp_sys (.inl rfl) fun ready => ?_)
  rcases ready with e | readfds
  · exact wp_ite.mpr ⟨fun _ => rfl, fun _ => rfl⟩
  · refine wp_ite.mpr ⟨fun _ => wp_handleInput endpoint, fun _ => wp_ite.mpr ⟨fun _ => ?_, ?_⟩⟩
    · refine wp_bind.mpr (wp_sys (.inl rfl) fun packet => ?_)
      cases packet with
      | none => exact rfl
      | some packet => exact wp_ite.mpr ⟨fun _ => rfl, fun _ => output readfds⟩
    · exact fun _ => output readfds

theorem wp_main : wp (accounting client) (main client) (fun _ _ => True) .idle := by
  refine wp_bind.mpr (wp_startClient (.inl rfl) fun endpoint socketFd => ?_)
  refine wp_call trivial fun r _ => ?_
  rcases r with e | pipeFd
  · exact wp_bind.mpr (wp_close (fun _ => trivial) (wp_exit trivial))
  · refine wp_bind.mpr (wp_iterate (fun _ phase => phase = .idle) rfl ?_)
    rintro username _ rfl
    refine wp_mono (wp_round endpoint) ?_
    rintro (username | ⟨⟩) _ rfl
    · exact rfl
    · exact wp_close (fun _ => trivial) trivial

end programs

def init : Process → Phase
  | .parent => .idle
  | .child _ => .unborn

theorem start_disciplined (client : Client) :
    Disciplined (accounting client) init (start client) := by
  rintro (_ | n)
  · exact wp_main
  · exact wp_background

section steps

variable {pid : Process} {choice : Choice} {s s' : State}

theorem machine_some {c : Call} {r : c.Reply} (h : machine pid c choice s = some (r, s')) :
    pid ∉ s.aborted ∧ exec pid choice s c = some (r, s') := by
  unfold machine at h
  split at h
  · cases h
  · rename_i alive
    exact ⟨alive, h⟩

def cuts (choice : Choice) : Call → Bool
  | .sys (.socket .recvPacket) => choice.cut
  | _ => false

theorem exec_sys {c : Csap.Call} {r : c.Reply}
    (h : exec pid choice s (.sys c) = some (r, s')) :
    s' = { s with aborted := if cuts choice (.sys c) then pid :: s.aborted else s.aborted } := by
  have result : execSys pid choice s c = (r, s') := Option.some.inj h
  have state : (execSys pid choice s c).2 = s' := congrArg Prod.snd result
  rw [← state]
  cases c with
  | socket c =>
    cases c with
    | recvPacket =>
      by_cases cut : choice.cut = true
      · simp [execSys, cuts, cut]
      · simp [execSys, cuts, cut]
    | _ => rfl
  | _ => rfl

def failedFork : (c : Call) → c.Reply → Bool
  | .fork _, .error _ => true
  | _, _ => false

/-- A child is not started, cannot be connected to the server, or has a packet cut off. -/
def lost (pid : Process) (choice : Choice) (c : Call) (r : c.Reply) : Bool :=
  match c, r with
  | .fork _, .error _ => true
  | .socket, .error _ | .connect _ _ _, .error _ => pid ≠ .parent
  | c, _ => pid ≠ .parent && cuts choice c

def Phase.owed : Phase → Int
  | forking => 1
  | counting newlines => -newlines
  | _ => 0

def Phase.isParent : Phase → Bool
  | idle | forking | counting _ => true
  | _ => false

def outstanding (phases : Process → Phase) (children : List (Nat × Inherited)) : Nat :=
  children.countP fun p => phases (.child p.1) ≠ .notified

structure Accounts (client : Client) (phases : Process → Phase) (failed : Nat) (losses : Prop)
    (s : State) : Prop where
  parent : (phases .parent).isParent = true
  child : ∀ n, (phases (.child n)).isParent = false
  inherits : ∀ p ∈ s.children, Inherits client p.2
  nodup : (s.children.map Prod.fst).Nodup
  born : ∀ n, phases (.child n) ≠ .unborn → n ∈ s.children.map Prod.fst
  aborted : ∀ n, .child n ∈ s.aborted → phases (.child n) = .running
  balance : s.backgroundOperations + (phases .parent).owed =
    failed + outstanding phases s.children + s.pipe.count 10
  nonneg : 0 ≤ s.backgroundOperations
  losses_iff : losses ↔ 0 < failed ∨ ∃ n ∈ s.children.map Prod.fst,
    phases (.child n) = .silent ∨ .child n ∈ s.aborted

section accounts

variable {client : Client} {phases : Process → Phase} {failed : Nat} {losses : Prop}

theorem Accounts.of_parent (h : Accounts client phases failed losses s) {phase : Phase}
    (parent : phase.isParent = true) (children : s'.children = s.children)
    (aborted : ∀ n, .child n ∈ s'.aborted ↔ .child n ∈ s.aborted)
    (balance : s'.backgroundOperations + phase.owed =
      failed + outstanding phases s.children + s'.pipe.count 10)
    (nonneg : 0 ≤ s'.backgroundOperations) :
    Accounts client (Function.update phases .parent phase) (failed + 0) (losses ∨ false = true)
      s' where
  parent
  child := h.child
  inherits := by
    rw [children]
    exact h.inherits
  nodup := by
    rw [children]
    exact h.nodup
  born := by
    rw [children]
    exact h.born
  aborted n old := h.aborted n ((aborted n).mp old)
  balance := by
    rw [children]
    exact balance
  nonneg
  losses_iff := by
    rw [children]
    simpa [aborted] using h.losses_iff

theorem Accounts.fork_failed (h : Accounts client phases failed losses s)
    (idle : phases .parent = .idle) :
    Accounts client (Function.update phases .parent .forking) (failed + 1) (losses ∨ true = true)
      s where
  parent := rfl
  child := h.child
  inherits := h.inherits
  nodup := h.nodup
  born := h.born
  aborted := h.aborted
  balance := by
    have balance := h.balance
    rw [idle] at balance
    simp only [Function.update_self, Phase.owed] at balance ⊢
    rw [show outstanding (Function.update phases .parent .forking) s.children =
      outstanding phases s.children from rfl]
    push_cast
    omega
  nonneg := h.nonneg
  losses_iff := by simp

theorem Accounts.forked (h : Accounts client phases failed losses s)
    (idle : phases .parent = .idle) {n : Nat} {inherited : Inherited}
    (inherits : Inherits client inherited) (fresh : n ∉ s.children.map Prod.fst) :
    Accounts client (Function.update phases .parent .forking) (failed + 0) (losses ∨ false = true)
      { s with children := (n, inherited) :: s.children } := by
  have unborn : phases (.child n) = .unborn := by
    by_contra born
    exact fresh (h.born n born)
  have alive : .child n ∉ s.aborted := by
    intro aborted
    rw [h.aborted n aborted] at unborn
    cases unborn
  constructor
  case parent => rfl
  case child => exact h.child
  case inherits =>
    intro p hp
    rcases List.mem_cons.mp hp with rfl | old
    · exact inherits
    · exact h.inherits p old
  case nodup => exact List.nodup_cons.mpr ⟨fresh, h.nodup⟩
  case born => exact fun m born => List.mem_cons_of_mem n (h.born m born)
  case aborted => exact h.aborted
  case balance =>
    have balance := h.balance
    rw [idle] at balance
    have more : outstanding (Function.update phases .parent .forking)
        ((n, inherited) :: s.children) = outstanding phases s.children + 1 :=
      List.countP_cons_of_pos (by simp [unborn])
    simp only [Function.update_self, Phase.owed, more] at balance ⊢
    push_cast
    omega
  case nonneg => exact h.nonneg
  case losses_iff => simpa [unborn, alive] using h.losses_iff

theorem Accounts.step_parent (h : Accounts client phases failed losses s) {c : Call} {r : c.Reply}
    (allowed : (phases .parent).allowed client c)
    (done : exec .parent choice s c = some (r, s')) :
    Accounts client (Function.update phases .parent ((phases .parent).next c r))
      (failed + if failedFork c r then 1 else 0) (losses ∨ lost .parent choice c r = true) s' := by
  have parent := h.parent
  have balance := h.balance
  have nonneg := h.nonneg
  -- what the parent does on its own
  have quiet : ∀ c : Csap.Call, ∀ r, exec .parent choice s (.sys c) = some (r, s') →
      Accounts client (Function.update phases .parent (phases .parent)) (failed + 0)
        (losses ∨ false = true) s' := by
    intro c r done
    rw [exec_sys done]
    refine h.of_parent h.parent rfl (fun n => ?_) balance nonneg
    dsimp only
    split <;> simp
  have still : Accounts client (Function.update phases .parent (phases .parent)) (failed + 0)
      (losses ∨ false = true) s :=
    h.of_parent h.parent rfl (fun _ => Iff.rfl) balance nonneg
  cases phase : phases .parent with
  | idle =>
    rw [phase] at allowed balance quiet still
    cases c with
    | fork inherited =>
      simp only [exec] at done
      split at done
      · cases done
        exact h.fork_failed phase
      · split_ifs at done with taken
        cases done
        exact h.forked phase allowed taken
    | read fd size =>
      simp only [exec] at done
      split at done
      · cases done
        exact still
      · rename_i n _
        split_ifs at done with empty
        cases done
        refine h.of_parent rfl rfl (fun _ => Iff.rfl) ?_ nonneg
        have parts : s.pipe.count 10 = (s.pipe.take (min (n + 1) size)).count 10 +
            (s.pipe.drop (min (n + 1) size)).count 10 := by
          rw [← List.count_append, List.take_append_drop]
        simp only [Phase.owed, Phase.next] at balance ⊢
        omega
    | sys c => exact quiet c r done
    | exit code => cases done
    | forked | write _ _ | addBackgroundOperations _ => exact absurd allowed id
    | socket =>
      cases done
      rcases choice.socket with e | sockfd <;> exact still
    | connect sockfd ip port =>
      cases done
      rcases choice.connect with e | ⟨⟩ <;> exact still
    | pipe | backgroundOperations =>
      cases done
      exact still
  | forking =>
    rw [phase] at allowed balance quiet
    cases c with
    | addBackgroundOperations n =>
      cases done
      obtain rfl : n = 1 := allowed
      refine h.of_parent rfl rfl (fun _ => Iff.rfl) ?_ ?_
      · simp only [Phase.owed, Phase.next] at balance ⊢
        omega
      · exact Int.add_nonneg nonneg (by decide)
    | sys c => exact quiet c r done
    | _ => exact absurd allowed id
  | counting newlines =>
    rw [phase] at allowed balance
    cases c with
    | addBackgroundOperations n =>
      cases done
      obtain rfl : n = -newlines := allowed
      refine h.of_parent rfl rfl (fun _ => Iff.rfl) ?_ ?_
      · simp only [Phase.owed, Phase.next] at balance ⊢
        omega
      · simp only [Phase.owed] at balance ⊢
        omega
    | _ => exact absurd allowed id
  | unborn | running | silent | notified => simp [phase, Phase.isParent] at parent

theorem outstanding_congr {phases' : Process → Phase} {children : List (Nat × Inherited)}
    (same : ∀ n, phases' (.child n) = .notified ↔ phases (.child n) = .notified) :
    outstanding phases' children = outstanding phases children := by
  simp only [outstanding, ne_eq, same]

theorem outstanding_notified {children : List (Nat × Inherited)} {n : Nat}
    (nodup : (children.map Prod.fst).Nodup) (known : n ∈ children.map Prod.fst)
    (unheard : phases (.child n) ≠ .notified) :
    outstanding (Function.update phases (.child n) .notified) children + 1 =
      outstanding phases children := by
  induction children with
  | nil => cases known
  | cons p children ih =>
    obtain ⟨fresh, nodup⟩ := List.nodup_cons.mp nodup
    simp only [outstanding, List.countP_cons] at ih ⊢
    rcases List.mem_cons.mp known with rfl | known
    · have others : outstanding (Function.update phases (.child p.1) .notified) children =
          outstanding phases children := by
        refine List.countP_congr fun q hq => ?_
        have other : Process.child q.1 ≠ .child p.1 := by
          intro same
          rw [← Process.child.inj same] at fresh
          exact fresh (List.mem_map_of_mem hq)
        rw [Function.update_of_ne other]
      unfold outstanding at others
      rw [others]
      simp [unheard]
    · have other : p.1 ≠ n := by
        rintro rfl
        exact fresh known
      have other : Process.child p.1 ≠ .child n := by simp [other]
      simp only [← ih nodup known, Function.update_of_ne other]
      omega

section child

variable {n : Nat}

theorem Accounts.of_child (h : Accounts client phases failed losses s) {phase : Phase}
    {losses' : Prop} (child : phase.isParent = false) (known : n ∈ s.children.map Prod.fst)
    (alive : .child n ∉ s.aborted) (loud : phases (.child n) ≠ .silent)
    (same : s' = { s with pipe := s'.pipe })
    (balance : s.backgroundOperations + (phases .parent).owed =
      failed + outstanding (Function.update phases (.child n) phase) s.children + s'.pipe.count 10)
    (losses_iff : losses' ↔ losses ∨ phase = .silent) :
    Accounts client (Function.update phases (.child n) phase) (failed + 0) losses' s' := by
  have others : ∀ {m}, m ≠ n → Function.update phases (.child n) phase (.child m) =
      phases (.child m) := fun other => Function.update_of_ne (by simp [other]) ..
  rw [same]
  constructor
  case parent => exact h.parent
  case child =>
    intro m
    by_cases self : m = n
    · rw [self, Function.update_self]
      exact child
    · rw [others self]
      exact h.child m
  case inherits => exact h.inherits
  case nodup => exact h.nodup
  case born =>
    intro m born
    by_cases self : m = n
    · rw [self]
      exact known
    · rw [others self] at born
      exact h.born m born
  case aborted =>
    intro m aborted
    by_cases self : m = n
    · rw [self] at aborted
      exact absurd aborted alive
    · rw [others self]
      exact h.aborted m aborted
  case balance => exact balance
  case nonneg => exact h.nonneg
  case losses_iff =>
    rw [losses_iff, h.losses_iff, add_zero]
    constructor
    · rintro ((failure | ⟨m, hm, gone⟩) | silent)
      · exact .inl failure
      · have other : m ≠ n := by
          rintro rfl
          exact gone.elim loud alive
        exact .inr ⟨m, hm, by rwa [others other]⟩
      · exact .inr ⟨n, known, .inl (by rw [Function.update_self, silent])⟩
    · rintro (failure | ⟨m, hm, gone⟩)
      · exact .inl (.inl failure)
      · by_cases self : m = n
        · subst self
          rw [Function.update_self] at gone
          exact gone.elim .inr fun aborted => absurd aborted alive
        · rw [others self] at gone
          exact .inl (.inr ⟨m, hm, gone⟩)

theorem Accounts.started (h : Accounts client phases failed losses s)
    (unborn : phases (.child n) = .unborn) (known : n ∈ s.children.map Prod.fst)
    (alive : .child n ∉ s.aborted) :
    Accounts client (Function.update phases (.child n) .running) (failed + 0)
      (losses ∨ false = true) s := by
  refine h.of_child rfl known alive (by simp [unborn]) rfl ?_ (by simp)
  rw [outstanding_congr]
  · exact h.balance
  · intro m
    by_cases self : m = n
    · simp [self, unborn]
    · rw [Function.update_of_ne (by simp [self])]

theorem Accounts.unconnected (h : Accounts client phases failed losses s)
    (running : phases (.child n) = .running) (alive : .child n ∉ s.aborted) :
    Accounts client (Function.update phases (.child n) .silent) (failed + 0)
      (losses ∨ true = true) s := by
  refine h.of_child rfl (h.born n (by simp [running])) alive (by simp [running]) rfl ?_ (by simp)
  rw [outstanding_congr]
  · exact h.balance
  · intro m
    by_cases self : m = n
    · simp [self, running]
    · rw [Function.update_of_ne (by simp [self])]

/-- The newline on the pipe takes the place of the child. -/
theorem Accounts.told (h : Accounts client phases failed losses s)
    (running : phases (.child n) = .running) {msg : CStr} (line : msg.count 10 = 1)
    (alive : .child n ∉ s.aborted) :
    Accounts client (Function.update phases (.child n) .notified) (failed + 0)
      (losses ∨ false = true) { s with pipe := s.pipe ++ msg } := by
  have known := h.born n (by simp [running])
  have unheard : phases (.child n) ≠ .notified := by simp [running]
  have fewer := outstanding_notified h.nodup known unheard
  refine h.of_child rfl known alive (by simp [running]) rfl ?_ (by simp)
  have balance := h.balance
  simp only [List.count_append, line]
  push_cast
  omega

theorem Accounts.cut_off (h : Accounts client phases failed losses s)
    (running : phases (.child n) = .running) :
    Accounts client phases (failed + 0) (losses ∨ true = true)
      { s with aborted := .child n :: s.aborted } :=
  { h with
    aborted := fun m aborted => by
      rcases List.mem_cons.mp aborted with self | old
      · rw [self]
        exact running
      · exact h.aborted m old
    losses_iff := by
      have known := h.born n (by simp [running])
      simp only [or_true, true_iff]
      exact .inr ⟨n, known, .inr List.mem_cons_self⟩ }

end child

theorem lookup_mem {children : List (Nat × Inherited)} {n : Nat} {inherited : Inherited}
    (found : children.lookup n = some inherited) : (n, inherited) ∈ children := by
  obtain ⟨before, after, rfl, -⟩ := List.lookup_eq_some_iff.mp found
  simp

theorem Accounts.step_child (h : Accounts client phases failed losses s) {n : Nat} {c : Call}
    {r : c.Reply} (allowed : (phases (.child n)).allowed client c) (alive : .child n ∉ s.aborted)
    (done : exec (.child n) choice s c = some (r, s')) :
    Accounts client (Function.update phases (.child n) ((phases (.child n)).next c r))
      (failed + if failedFork c r then 1 else 0) (losses ∨ lost (.child n) choice c r = true)
      s' := by
  have child := h.child n
  have quiet : Accounts client phases (failed + 0) (losses ∨ false = true) s := by simpa using h
  have still : Accounts client (Function.update phases (.child n) (phases (.child n))) (failed + 0)
      (losses ∨ false = true) s := by
    rwa [Function.update_eq_self]
  cases phase : phases (.child n) with
  | unborn =>
    rw [phase] at allowed
    cases c with
    | forked =>
      obtain ⟨inherited, found, same⟩ := Option.map_eq_some_iff.mp done
      cases same
      exact h.started phase (List.mem_map_of_mem (lookup_mem found)) alive
    | _ => exact absurd allowed id
  | running =>
    rw [phase] at allowed still
    cases c with
    | sys c =>
      rw [exec_sys done]
      have back : Function.update phases (.child n) (Phase.running.next (.sys c) r) = phases := by
        rw [show Phase.running.next (.sys c) r = phases (.child n) from phase.symm]
        exact Function.update_eq_self ..
      have told : lost (.child n) choice (.sys c) r = cuts choice (.sys c) := by
        simp [lost]
      rw [back, told]
      cases cuts choice (.sys c) with
      | true => exact h.cut_off phase
      | false => exact quiet
    | socket =>
      cases done
      rcases choice.socket with e | sockfd
      · exact h.unconnected phase alive
      · exact still
    | connect sockfd ip port =>
      cases done
      rcases choice.connect with e | ⟨⟩
      · exact h.unconnected phase alive
      · exact still
    | write fd msg =>
      cases done
      exact h.told phase allowed alive
    | _ => exact absurd allowed id
  | silent | notified =>
    rw [phase] at allowed still
    cases c with
    | sys c =>
      cases c with
      | file c =>
        rw [exec_sys done]
        exact still
      | _ => exact absurd allowed id
    | exit code => cases done
    | _ => exact absurd allowed id
  | idle | forking | counting _ => simp [phase, Phase.isParent] at child

end accounts

end steps

def Lost (e : Event) : Prop := lost e.act.pid e.choice e.act.call e.act.reply = true

def failedForks (log : List Event) : Nat :=
  log.countP fun e => failedFork e.act.call e.act.reply

abbrev phaseOf (client : Client) (log : List Event) (pid : Process) : Phase :=
  ghostOf (accounting client) init pid log

theorem trace_accounts {client : Client} {log : List Event} {s : State}
    (trace : Trace (accounting client) init machine {} log s) :
    Accounts client (phaseOf client log) (failedForks log) (∃ e ∈ log, Lost e) s := by
  induction trace with
  | nil => constructor <;> simp [init, Phase.isParent, failedForks, outstanding, Phase.owed]
  | @snoc log t t' pid c choice r old allowed expected done ih =>
    obtain ⟨alive, done⟩ := machine_some done
    have phases : phaseOf client (log ++ [⟨⟨pid, c, r⟩, choice, t, t'⟩]) =
        Function.update (phaseOf client log) pid ((phaseOf client log pid).next c r) := by
      funext other
      simp only [phaseOf, ghostOf_append]
      by_cases same : other = pid
      · rw [same, if_pos rfl, Function.update_self]
        rfl
      · rw [if_neg (Ne.symm same), Function.update_of_ne same]
    have failures : failedForks (log ++ [⟨⟨pid, c, r⟩, choice, t, t'⟩]) =
        failedForks log + if failedFork c r then 1 else 0 := by
      simp [failedForks, List.countP_singleton]
    have losses : (∃ e ∈ log ++ [⟨⟨pid, c, r⟩, choice, t, t'⟩], Lost e) ↔
        (∃ e ∈ log, Lost e) ∨ lost pid choice c r = true := by
      simp only [List.mem_append, List.mem_singleton, or_and_right, exists_or, exists_eq_left, Lost]
    rw [phases, failures, propext losses]
    cases pid with
    | parent => exact ih.step_parent allowed done
    | child n => exact ih.step_child allowed alive done

theorem meets (client : Client) : Meets machine (accounting client) init {} := by
  intro log t t' pid c choice r trace allowed done
  cases c with
  | forked =>
    have accounts := trace_accounts trace
    cases pid with
    | parent =>
      cases (machine_some done).2
    | child n =>
      obtain ⟨inherited, found, same⟩ := Option.map_eq_some_iff.mp (machine_some done).2
      cases same
      exact accounts.inherits _ (lookup_mem found)
  | _ => trivial

def selects : Forking Unit → Bool
  | .call (.sys (.socket (.select _))) _ => true
  | _ => false

def exits : Forking Unit → Bool
  | .call (.exit _) _ => true
  | _ => false

/-- The client waits for input, every child has ended, and nothing is left in the pipe. -/
structure Settled (c : Config) : Prop where
  waits : selects (c.procs .parent) = true
  ended : ∀ p ∈ c.state.children, .child p.1 ∈ c.state.aborted ∨ exits (c.procs (.child p.1)) = true
  drained : c.state.pipe = []

section settled

variable {client : Client} {c : Config}

theorem phase_waits (disciplined : Disciplined (accounting client) init c)
    {failed : Nat} {losses : Prop}
    (accounts : Accounts client (phaseOf client c.log) failed losses c.state)
    (waits : selects (c.procs .parent) = true) : phaseOf client c.log .parent = .idle := by
  obtain ⟨fds, k, current⟩ : ∃ fds k, c.procs .parent = .call (.sys (.socket (.select fds))) k := by
    unfold selects at waits
    split at waits
    · rename_i fds k current
      exact ⟨fds, k, current⟩
    · cases waits
  have keeps := disciplined .parent
  rw [current] at keeps
  have allowed : (phaseOf client c.log .parent).allowed client
    (.sys (.socket (.select fds))) := keeps.1
  have parent := accounts.parent
  cases phase : phaseOf client c.log .parent with
  | idle => rfl
  | running =>
    rw [phase] at parent
    cases parent
  | _ =>
    rw [phase] at allowed
    exact absurd allowed id

theorem phase_exits {n : Nat} (disciplined : Disciplined (accounting client) init c)
    {failed : Nat} {losses : Prop}
    (accounts : Accounts client (phaseOf client c.log) failed losses c.state)
    (exited : exits (c.procs (.child n)) = true) :
    phaseOf client c.log (.child n) = .silent ∨ phaseOf client c.log (.child n) = .notified := by
  obtain ⟨code, k, current⟩ : ∃ code k, c.procs (.child n) = .call (.exit code) k := by
    unfold exits at exited
    split at exited
    · rename_i code k current
      exact ⟨code, k, current⟩
    · cases exited
  have keeps := disciplined (.child n)
  rw [current] at keeps
  have allowed : (phaseOf client c.log (.child n)).allowed client (.exit code) := keeps.1
  have child := accounts.child n
  cases phase : phaseOf client c.log (.child n) with
  | silent => exact .inl rfl
  | notified => exact .inr rfl
  | idle =>
    rw [phase] at child
    cases child
  | _ =>
    rw [phase] at allowed
    exact absurd allowed id

end settled

/-- The count is never negative, and comes back to zero if and only if no `fork` failed, and every
child was connected to the server and had no packet cut off. -/
theorem background_operations_return {client : Client} {c : Config}
    (reached : Reaches machine (start client) c) :
    0 ≤ c.state.backgroundOperations ∧
      (Settled c → (c.state.backgroundOperations = 0 ↔ ∀ e ∈ c.log, ¬ Lost e)) := by
  obtain ⟨disciplined, trace⟩ := (start_disciplined client).reaches (meets client) rfl reached
  have accounts := trace_accounts trace
  refine ⟨accounts.nonneg, fun settled => ?_⟩
  have idle := phase_waits disciplined accounts settled.waits
  have balance := accounts.balance
  rw [idle, settled.drained] at balance
  have none : (¬ ∃ e ∈ c.log, Lost e) ↔ ∀ e ∈ c.log, ¬ Lost e := by
    simp only [not_exists, not_and]
  rw [← none, accounts.losses_iff, not_or, not_lt, nonpos_iff_eq_zero]
  have heard : outstanding (phaseOf client c.log) c.state.children = 0 ↔
      ¬ ∃ n ∈ c.state.children.map Prod.fst, phaseOf client c.log (.child n) = .silent ∨
        .child n ∈ c.state.aborted := by
    simp only [outstanding, List.countP_eq_zero, decide_eq_true_eq, not_not, not_exists, not_and]
    constructor
    · intro notified n known gone
      obtain ⟨p, hp, rfl⟩ := List.mem_map.mp known
      have phase := notified p hp
      rcases gone with silent | aborted
      · rw [silent] at phase
        cases phase
      · rw [accounts.aborted p.1 aborted] at phase
        cases phase
    · intro kept p hp
      have gone := kept p.1 (List.mem_map_of_mem hp)
      rcases settled.ended p hp with aborted | exited
      · exact absurd (.inr aborted) gone
      · exact (phase_exits disciplined accounts exited).resolve_left fun silent =>
          gone (.inl silent)
  rw [← heard]
  simp only [Phase.owed, List.count_nil] at balance
  omega

/-- A user at a terminal, and a server that takes every connection and refuses every login. -/
def strict (input : CStr) : Choice where
  reply
    | .file (.read _ _) => .ok input
    | .file (.openPath _ _ _) => .ok 7
    | .file (.close _) => .ok ()
    | .file (.realpath _) | .file .getcwd | .file (.stat _) | .file (.lstat _) | .file (.fstat _)
    | .file (.lseek _ _) | .file (.write _ _) | .file (.opendir _) | .file (.setlk _ _ _ _)
    | .file (.fchmod _ _) | .file (.rename _ _) | .file (.unlink _) | .file (.rmdir _)
    | .file (.mkdir _ _) | .file (.chmod _ _) | .file (.chown _ _ _) | .file (.chdir _)
    | .file (.mkfifo _ _) | .file (.closedir _) => .error EIO
    | .file (.mkstemp template) => (.error EIO, template)
    | .file (.readdir _) => none
    | .user .geteuid => 0
    | .user (.getpwnam _) => none
    | .user (.getpwuid _) | .user (.getgrgid _) => none
    | .user (.runExec _) => -1
    | .user (.seteuid _) | .user (.setegid _) => .error EPERM
    | .socket (.select fds) => .ok (if input = [] then fds.drop 2 else fds.take 1)
    | .socket (.sendPacket _ _) => 0
    | .socket .recvPacket => some { command := RSP_ERR, payload := cstr "13 no" }
    | .socket (.recvFrameInto _) => .error EIO
    | .shared (.sessionAdd _ _) | .shared .sessionsCollectStale | .shared (.requestAdd _ _ _)
    | .shared (.requestSet _ _) | .shared (.requestsSetFailed _) => 0
    | .shared (.sessionFind _) => (0, none)
    | .shared (.requestTake _ _ _) => (0, none)
    | .shared (.requestsForDest _ _) => (0, [])
    | .alloc _ => true
    | .enterCopy _ _ => ()

def localhost : Client where
  texts := { strerror := fun _ => [], ctime := fun _ => [] }
  inetAton := fun _ => true
  ipAddress := cstr "127.0.0.1"
  portNumber := cstr "8080"

/-- The client is started, and the user types an upload in the background. -/
def uploadTyped : List (Process × Choice × Nat) :=
  [(.parent, strict [], 4), (.parent, strict (cstr "u"), 1)] ++
    (cstr "upload -b a b\n").map (fun c => (.parent, strict [c], 2)) ++ [(.parent, strict [], 6)]

/-- A child is refused its login, and its message is read in two pieces. -/
theorem background_operations_return_login : ∃ c, Reaches machine (start localhost) c ∧
    Settled c ∧ c.state.children ≠ [] ∧
      (c.state.backgroundOperations = 0 ↔ ∀ e ∈ c.log, ¬ Lost e) := by
  have ran : (run machine (uploadTyped ++
      [(.child 0, strict [], 10), (.parent, { strict [] with amount := .ok 20 }, 8)])
      (start localhost)).any (fun c => decide (selects (c.procs .parent) = true ∧
        (∀ p ∈ c.state.children,
          .child p.1 ∈ c.state.aborted ∨ exits (c.procs (.child p.1)) = true) ∧
        c.state.pipe = [] ∧ c.state.children ≠ [])) = true := by
    decide +kernel
  obtain ⟨c, reached, waits, ended, drained, started⟩ := exists_of_run _ ran
  have settled : Settled c := ⟨waits, ended, drained⟩
  exact ⟨c, reached, settled, started, (background_operations_return reached).2 settled⟩

/-- A child is refused its connection, and its operation is never counted as done. -/
theorem operation_never_ends : ∃ c, Reaches machine (start localhost) c ∧ Settled c ∧
    c.state.backgroundOperations = 1 := by
  have ran : (run machine (uploadTyped ++
      [(.child 0, { strict [] with connect := .error EIO }, 6)])
      (start localhost)).any (fun c => decide (selects (c.procs .parent) = true ∧
        (∀ p ∈ c.state.children,
          .child p.1 ∈ c.state.aborted ∨ exits (c.procs (.child p.1)) = true) ∧
        c.state.pipe = [] ∧ c.state.backgroundOperations = 1)) = true := by
    decide +kernel
  obtain ⟨c, reached, waits, ended, drained, left⟩ := exists_of_run _ ran
  exact ⟨c, reached, ⟨waits, ended, drained⟩, left⟩

end Csap.ClientMain
