import Csap.Notices

/-! To whom the answer to a request goes. The request names its source user only, so
the process that resolves it looks that user up in the session table and notifies the
session in the first slot under that name. -/

namespace Csap.Sessions

open Interleaving

/-- The first slot under a user name records this process, as present. -/
def SessionOf (mem : SharedMemory) (user : CStr) (pid : Int) : Prop :=
  ∃ slot entry, mem.sessionTable.first (fun e => e.username = user) = some (slot, entry) ∧
    entry.pid = pid ∧ entry.inUse = true

/-- The process has left the loop of `handle_session`. -/
def Ended (log : Log) (pid : Int) : Prop :=
  ∃ e ∈ log, e.act.pid = pid ∧ ∃ user, e.act.call = .shared (.requestsSetFailed user)

def Open (log : Log) (s : State) (pid : Int) : Prop := s.gone pid = false ∧ ¬ Ended log pid

/-- The process that issued the request a call of `shm_request_take` found. -/
def askerOf (e : Event) : Option Int :=
  match e.act.call with
  | .shared (.requestTake id _ _) =>
    (e.before.mem.pendingRequestsTable.first fun r => r.id = id).map fun found =>
      e.before.issuer found.1
  | _ => none

/-- In its current command the process has taken request `id`, which `asker` had issued. -/
def ResolvesFor (log : Log) (pid asker id : Int) : Prop :=
  ∃ t ∈ command pid log, (∃ user st out, Takes t id user st out) ∧ askerOf t = some asker

/-- The answer to a request goes to the fifo of the process that issued it, if its session is
still open, to no other, and before the command ends. -/
def RoutesReply (root : CStr) (before : Log) (e : Event) : Prop :=
  ∀ asker id, ResolvesFor before e.act.pid asker id → Open before e.before asker →
    (∀ path mode, e.act.call = .file (.openPath path notifyFlags mode) →
      path = sessionFifoPath root asker) ∧
    ∀ fds, e.act.call = .socket (.select fds) →
      Attempted root ((command e.act.pid before).map (·.act)) e.act.pid ⟨asker, Resolves id⟩

/-- When the source of a taken request is looked up and its session is still open, the semaphore
is taken and that session is in the first slot under the source's name. -/
def AskerListed (before : Log) (e : Event) : Prop :=
  ∀ user, e.act.call = .shared (.sessionFind user) →
    ∀ asker id, ResolvesFor before e.act.pid asker id → Open before e.before asker →
      e.choice.sem = .ok () ∧ SessionOf e.before.mem user asker

theorem shmSessionFind_of_sessionOf {mem : SharedMemory} {user : CStr} {pid : Int}
    (h : SessionOf mem user pid) : shmSessionFind (.ok ()) mem user = (1, some (pid, true)) := by
  obtain ⟨slot, entry, found, rfl, present⟩ := h
  simp [shmSessionFind, found, present]

section runs

variable {root : CStr} {s t : State} {log : Log} {e : Event} {pid asker id : Int}

theorem gone_mono (made : Made e) (h : e.after.gone pid = false) : e.before.gone pid = false := by
  obtain ⟨⟨who, q, r⟩, choice, s, s'⟩ := e
  cases q with
  | shared q =>
    have result := machine_shared made
    cases q <;> simp only [execShared, Prod.mk.injEq] at result <;> obtain ⟨-, rfl⟩ := result
    case sessionsCollectStale => exact (Bool.or_eq_false_iff.mp h).1
    all_goals exact h
  | _ =>
    have same := machine_other (by simp) made
    simp only at same
    subst same
    exact h

theorem Open.of_append (made : Made e) (h : Open (log ++ [e]) e.after pid) :
    Open log e.before pid :=
  ⟨gone_mono made h.1, fun ⟨e', member, ended⟩ => h.2 ⟨e', List.mem_append_left _ member, ended⟩⟩

def Quiet : Call → Prop
  | .socket (.select _) => False
  | .shared (.sessionFind _) | .shared (.requestAdd _ _ _) | .shared (.requestTake _ _ _)
  | .shared (.requestsForDest _ _) => False
  | _ => True

theorem quiet_next {g : Ghost} {c : Call} (quiet : Quiet c) (r : c.Reply) :
    (g.next c r).taken = g.taken ∧ (g.next c r).found = g.found ∧
      (∀ o ∈ (g.next c r).owed, o ∈ g.owed) ∧
      ∀ fd o, (g.next c r).writing = some (fd, o) → o ∈ g.owed ∨ g.writing = some (fd, o) := by
  cases c with
  | file c =>
    cases c with
    | openPath path flags mode =>
      simp only [Ghost.next]
      split
      · split
        · rename_i first rest fd owed
          refine ⟨rfl, rfl, fun o member => ?_, fun fd' o same => .inl ?_⟩
          · exact owed ▸ List.mem_cons_of_mem _ member
          · cases same
            exact owed ▸ List.mem_cons_self
        · rename_i first rest err owed
          exact ⟨rfl, rfl, fun o member => owed ▸ List.mem_cons_of_mem _ member, fun _ _ => .inr⟩
        · exact ⟨rfl, rfl, fun _ => id, fun _ _ => .inr⟩
      · exact ⟨rfl, rfl, fun _ => id, fun _ _ => .inr⟩
    | write fd data => exact ⟨rfl, rfl, fun _ => id, fun _ _ same => by cases same⟩
    | _ => exact ⟨rfl, rfl, fun _ => id, fun _ _ => .inr⟩
  | socket c =>
    cases c with
    | select fds => exact quiet.elim
    | _ => exact ⟨rfl, rfl, fun _ => id, fun _ _ => .inr⟩
  | shared c =>
    cases c with
    | sessionFind _ => exact quiet.elim
    | requestAdd _ _ _ => exact quiet.elim
    | requestTake _ _ _ => exact quiet.elim
    | requestsForDest _ _ => exact quiet.elim
    | _ => exact ⟨rfl, rfl, fun _ => id, fun _ _ => .inr⟩
  | _ => exact ⟨rfl, rfl, fun _ => id, fun _ _ => .inr⟩

/-- How far a process is with answering the request it took: it has not looked its source up, or
all it owes is the answer to `asker`, which it still owes or has attempted. -/
structure Answers (root : CStr) (log : Log) (pid asker id : Int) : Prop where
  taken : ∃ entry, (ghostOf (protocol root) init pid log).taken = some entry ∧ entry.id = id
  progress :
    let g := ghostOf (protocol root) init pid log
    let answer : Owed := ⟨asker, Resolves id⟩
    (g.found = none ∧ g.owed = [] ∧ g.writing = none) ∨
      g.found ≠ none ∧ (∀ o ∈ g.owed, o = answer) ∧
        (∀ fd o, g.writing = some (fd, o) → o = answer) ∧
        (Owes root log pid answer ∨
          Attempted root ((command pid log).map (·.act)) pid answer)

theorem Answers.quiet (h : Answers root log e.act.pid asker id)
    (trace : Trace (protocol root) init machine s log e.before)
    (allowed : (protocol root).allowed (ghostOf (protocol root) init e.act.pid log) e.act.call)
    (waits : isSelect e.act.call = false) (quiet : Quiet e.act.call) :
    Answers root (log ++ [e]) e.act.pid asker id := by
  obtain ⟨taken, progress⟩ := h
  obtain ⟨sameTaken, sameFound, fewer, writes⟩ := quiet_next quiet e.act.reply
  have next : ghostOf (protocol root) init e.act.pid (log ++ [e]) =
      (ghostOf (protocol root) init e.act.pid log).next e.act.call e.act.reply := by
    rw [ghostOf_append, if_pos rfl]
    rfl
  have longer : command e.act.pid (log ++ [e]) = command e.act.pid log ++ [e] := by
    simp [command_append, waits]
  refine ⟨by rwa [next, sameTaken], ?_⟩
  rcases progress with ⟨unsought, owed, idle⟩ | ⟨sought, only, only', owes⟩
  · refine .inl ⟨by rwa [next, sameFound], ?_, ?_⟩
    · rw [next]
      refine List.eq_nil_iff_forall_not_mem.mpr fun o member => ?_
      have old := fewer o member
      rw [owed] at old
      cases old
    · rw [next]
      cases writing : ((ghostOf (protocol root) init e.act.pid log).next e.act.call
          e.act.reply).writing with
      | none => rfl
      | some w =>
        rcases writes w.1 w.2 writing with old | old
        · rw [owed] at old
          cases old
        · rw [idle] at old
          cases old
  · refine .inr ⟨by rwa [next, sameFound], ?_, ?_, ?_⟩
    · rw [next]
      exact fun o member => only o (fewer o member)
    · rw [next]
      intro fd o writing
      rcases writes fd o writing with old | old
      · exact only o old
      · exact only' fd o old
    · rcases owes with owes | attempted
      · exact owes_append trace allowed owes
      · refine .inr (attempted.mono ?_)
        rw [longer, List.map_append]
        exact (List.prefix_append _ _).isInfix

theorem Answers.look (h : Answers root log e.act.pid asker id) (made : Made e)
    (allowed : (protocol root).allowed (ghostOf (protocol root) init e.act.pid log) e.act.call)
    (waits : isSelect e.act.call = false) (visible : ¬ Quiet e.act.call)
    (listed : ∀ user, e.act.call = .shared (.sessionFind user) →
      e.choice.sem = .ok () ∧ SessionOf e.before.mem user asker) :
    Answers root (log ++ [e]) e.act.pid asker id := by
  obtain ⟨⟨entry, taken, same⟩, -⟩ := h
  obtain ⟨⟨who, q, r⟩, choice, before, after⟩ := e
  have untaken : (ghostOf (protocol root) init who log).taken ≠ none := by simp [taken]
  cases q with
  | socket q =>
    cases q with
    | select fds => cases waits
    | _ => exact absurd trivial visible
  | shared q =>
    obtain ⟨idle, may⟩ := Ghost.may_of_allowed allowed (by simp)
    cases q with
    | requestAdd src dst path => exact absurd may.2.2.1 untaken
    | requestTake id user st => exact absurd may.2.1 untaken
    | requestsForDest user max => exact absurd may.2.2.1 untaken
    | sessionFind user =>
      obtain ⟨sem, recorded⟩ := listed user rfl
      have result := machine_shared made
      obtain rfl : (1, some (asker, true)) = r := by
        have found : shmSessionFind choice.sem before.mem user = r := congrArg Prod.fst result
        rw [show choice.sem = .ok () from sem, shmSessionFind_of_sessionOf recorded] at found
        exact found
      have next : ghostOf (protocol root) init who
          (log ++ [⟨⟨who, .shared (.sessionFind user), (1, some (asker, true))⟩, choice, before,
            after⟩]) =
          { ghostOf (protocol root) init who log with
            found := some (some (asker, true))
            owed := [⟨asker, Resolves id⟩] } := by
        have taken' : (ghostOf (protocol root) init who log).taken = some entry := taken
        rw [ghostOf_append, if_pos rfl]
        change (ghostOf (protocol root) init who log).lookedUp (some (asker, true)) = _
        simp only [Ghost.lookedUp, taken', same]
      refine ⟨⟨entry, by rw [next]; exact taken, same⟩, .inr ⟨by simp [next], ?_, ?_, .inl ?_⟩⟩
      · simp [next]
      · simp [next, idle]
      · exact .inl (by simp [next])
    | _ => exact absurd trivial visible
  | _ => exact absurd trivial visible

theorem answers_of_take
    (allowed : (protocol root).allowed (ghostOf (protocol root) init e.act.pid log) e.act.call)
    (expected : (protocol root).expects (ghostOf (protocol root) init e.act.pid log) e.act.call
      e.act.reply)
    (took : ∃ user st out, Takes e id user st out) :
    Answers root (log ++ [e]) e.act.pid asker id := by
  obtain ⟨user, st, out, rc, act, success⟩ := took
  obtain ⟨⟨who, q, r⟩, choice, before, after⟩ := e
  cases act
  obtain ⟨idle, -, -, unsought, owed, -⟩ := Ghost.may_of_allowed allowed (by simp)
  obtain ⟨entry, out', same⟩ := expected success
  have next : ghostOf (protocol root) init who
      (log ++ [⟨⟨who, .shared (.requestTake id user st), (rc, out)⟩, choice, before, after⟩]) =
      (ghostOf (protocol root) init who log).next (.shared (.requestTake id user st)) (rc, out) := by
    rw [ghostOf_append, if_pos rfl]
    rfl
  refine ⟨⟨entry, ?_, same⟩, .inl ⟨?_, ?_, ?_⟩⟩ <;>
    simp [next, Ghost.next, not_lt.mpr success, unsought, owed, idle]
  exact out'

theorem answers_append (made : Made e)
    (trace : Trace (protocol root) init machine s log e.before)
    (allowed : (protocol root).allowed (ghostOf (protocol root) init e.act.pid log) e.act.call)
    (expected : (protocol root).expects (ghostOf (protocol root) init e.act.pid log) e.act.call
      e.act.reply)
    (listed : AskerListed log e)
    (ih : ∀ {pid asker id}, ResolvesFor log pid asker id → Open log e.before asker →
      Answers root log pid asker id)
    (resolves : ResolvesFor (log ++ [e]) pid asker id) (still : Open (log ++ [e]) e.after asker) :
    Answers root (log ++ [e]) pid asker id := by
  have before := still.of_append made
  by_cases same : e.act.pid = pid
  · subst same
    have waits : isSelect e.act.call = false := by
      obtain ⟨t, member, -⟩ := resolves
      by_contra select
      rw [command_append, if_neg (not_not.mpr rfl), if_pos (by simpa using select)] at member
      cases member
    obtain ⟨t, member, took, asked⟩ := resolves
    rw [command_append, if_neg (not_not.mpr rfl), waits, if_neg Bool.false_ne_true] at member
    rcases List.mem_append.mp member with old | new
    · have answers := ih ⟨t, old, took, asked⟩ before
      by_cases quiet : Quiet e.act.call
      · exact answers.quiet trace allowed waits quiet
      · exact answers.look made allowed waits quiet fun user lookup =>
          listed user lookup asker id ⟨t, old, took, asked⟩ before
    · obtain rfl := List.mem_singleton.mp new
      exact answers_of_take allowed expected took
  · -- another process moves: nothing changes for this one
    have sameCommand : command pid (log ++ [e]) = command pid log := by
      rw [command_append, if_pos same]
    have sameGhost : ghostOf (protocol root) init pid (log ++ [e]) =
        ghostOf (protocol root) init pid log := by
      rw [ghostOf_append, if_neg same]
    have old : Answers root log pid asker id := ih (by rwa [ResolvesFor, sameCommand] at resolves) before
    obtain ⟨taken, progress⟩ := old
    constructor
    · rwa [sameGhost]
    · simpa only [sameGhost, sameCommand, Owes] using progress

/-- In a run in which the asker's session is found, every resolution is being answered to it. -/
theorem trace_answers (trace : Trace (protocol root) init machine setupState log t)
    (listed : Every AskerListed log) :
    ∀ {pid asker id}, ResolvesFor log pid asker id → Open log t asker →
      Answers root log pid asker id := by
  induction trace with
  | nil =>
    rintro pid asker id ⟨t, member, -⟩
    cases member
  | @snoc log t t' who q choice r old allowed expected done ih =>
    intro pid asker id resolves still
    obtain ⟨before, here⟩ := every_append.mp listed
    have made : Made ⟨⟨who, q, r⟩, choice, t, t'⟩ := done
    exact answers_append made old allowed expected here (ih before) resolves still

theorem routesReply_of_answers (answers : Open log e.before asker → ResolvesFor log e.act.pid asker id →
      Answers root log e.act.pid asker id)
    (allowed : (protocol root).allowed (ghostOf (protocol root) init e.act.pid log) e.act.call)
    (resolves : ResolvesFor log e.act.pid asker id) (still : Open log e.before asker) :
    (∀ path mode, e.act.call = .file (.openPath path notifyFlags mode) →
      path = sessionFifoPath root asker) ∧
    ∀ fds, e.act.call = .socket (.select fds) →
      Attempted root ((command e.act.pid log).map (·.act)) e.act.pid ⟨asker, Resolves id⟩ := by
  obtain ⟨⟨entry, taken, -⟩, progress⟩ := answers still resolves
  constructor
  · intro path mode opens
    rw [opens] at allowed
    obtain ⟨-, first, rest, owed, rfl⟩ := (Ghost.may_of_allowed allowed (by simp)).2 rfl
    rcases progress with ⟨-, none, -⟩ | ⟨-, only, -, -⟩
    · rw [none] at owed
      cases owed
    · rw [only first (by simp [owed])]
  · intro fds waits
    rw [waits] at allowed
    obtain ⟨idle, none, sought, -⟩ := Ghost.may_of_allowed allowed (by simp)
    have looked := sought (by simp [taken])
    rcases progress with ⟨unsought, -, -⟩ | ⟨-, -, -, owes | attempted⟩
    · exact absurd unsought looked
    · rcases owes with owed | ⟨fd, writing⟩
      · rw [none] at owed
        cases owed
      · rw [idle] at writing
        cases writing
    · exact attempted

end runs

/-- In every run in which the session that issued a taken request, if it is still open, is the one
the lookup finds, the answer goes to that session's fifo and to no other. -/
theorem replies_reach_asker {server : Server} {mainPid : Int} {clientSocket : Int → Int}
    {c : Config} (h : Reaches machine (start server mainPid clientSocket) c)
    (listed : Every AskerListed c.log) : Every (RoutesReply (rootOf server)) c.log := by
  intro before e after split asker id resolves still
  have trace := (server_trace h).2
  obtain ⟨earlier, allowed, -, -⟩ := trace.every before e after split
  have listed' : Every AskerListed before := by
    intro b e' a split'
    exact listed b e' (a ++ e :: after) (by simp [split, split'])
  exact routesReply_of_answers (fun _ _ => trace_answers earlier listed' resolves still) allowed
    resolves still

section examples

def isTeardown : Call → Bool
  | .shared (.requestsSetFailed _) => true
  | _ => false

theorem not_ended {log : Log} {pid : Int}
    (h : ∀ e ∈ log, e.act.pid = pid → isTeardown e.act.call = false) : ¬ Ended log pid := by
  rintro ⟨e, member, own, user, teardown⟩
  have runs := h e member own
  rw [teardown] at runs
  cases runs

def isSessionOf (mem : SharedMemory) (user : CStr) (pid : Int) : Bool :=
  (mem.sessionTable.first fun entry => entry.username = user).any fun found =>
    found.2.pid = pid && found.2.inUse

theorem isSessionOf_iff {mem : SharedMemory} {user : CStr} {pid : Int} :
    isSessionOf mem user pid = true ↔ SessionOf mem user pid := by
  simp [isSessionOf, SessionOf, Option.any_eq_true]

/-- The lookup of a source finds the asker of every request taken in the command. -/
def findsAskers (before : Log) (e : Event) : Bool :=
  match e.act.call with
  | .shared (.sessionFind user) => (command e.act.pid before).all fun t =>
    (askerOf t).all fun asker => e.choice.sem = .ok () && isSessionOf e.before.mem user asker
  | _ => true

theorem askerListed_of_findsAskers (before : Log) (e : Event) (h : findsAskers before e = true) :
    AskerListed before e := by
  rintro user lookup asker id ⟨t, member, -, asked⟩ -
  rw [findsAskers, lookup] at h
  have found := List.all_eq_true.mp h t member
  rw [asked] at found
  obtain ⟨sem, entry⟩ := Bool.and_eq_true_iff.mp found
  exact ⟨of_decide_eq_true sem, isSessionOf_iff.mp entry⟩

theorem replies_reach_asker_accept :
    ∃ c, Reaches machine (start calmServer 1 fun _ => 3) c ∧ (∃ e ∈ c.log, isTake 1 e = true) ∧
      Every (RoutesReply (rootOf calmServer)) c.log := by
  have ran : (run machine acceptedTransfer (start calmServer 1 fun _ => 3)).any (fun c => decide
      ((∃ e ∈ c.log, isTake 1 e = true) ∧ everyFrom findsAskers [] c.log = true)) = true := by
    decide +kernel
  obtain ⟨c, reaches, taken, listed⟩ := exists_of_run _ ran
  exact ⟨c, reaches, taken,
    replies_reach_asker reaches (every_of_everyFrom askerListed_of_findsAskers listed)⟩

/-- Alice is logged in twice, her second session asks to send a file, and Bob refuses it. -/
def secondSessionAsks : List (Int × Choice × Nat) :=
  [(2, calm (cstr "alice") (line .login "login alice"), 23),
    (4, calm (cstr "alice") (line .login "login alice"), 23),
    (3, calm (cstr "bob") (line .login "login bob"), 23),
    (4, calm (cstr "alice") (line .transferReq "transfer_request note bob"), 13),
    (3, calm (cstr "bob") (line .reject "reject 1"), 12)]

/-- Bob's process tells process 2 about the request of process 4. -/
abbrev Misroutes (before : Log) (e : Event) : Prop :=
  (∃ t ∈ command e.act.pid before, isTake 1 t = true ∧ askerOf t = some 4) ∧
    e.act.call = notifyOpen (sessionFifoPath (rootOf calmServer) 2) ∧ e.before.gone 4 = false ∧
    ∀ e' ∈ before, e'.act.pid = 4 → isTeardown e'.act.call = false

theorem reply_reaches_other_session :
    ¬ ∀ (server : Server) (mainPid : Int) (clientSocket : Int → Int) (c : Config),
      Reaches machine (start server mainPid clientSocket) c →
        Every (RoutesReply (rootOf server)) c.log := by
  intro everywhere
  have ran : ((run machine secondSessionAsks (start calmServer 1 fun _ => 3)).bind fun c =>
      c.log[78]?.map fun e => decide (Misroutes (c.log.take 78) e)) = some true := by
    decide +kernel
  obtain ⟨c, before, e, after, reaches, split, ⟨t, member, took, asked⟩, opens, present, alive⟩ :=
    exists_event_of_run 78 Misroutes ran
  have routed := (everywhere _ _ _ c reaches before e after split 4 1
    ⟨t, member, isTake_iff.mp took, asked⟩ ⟨present, not_ended alive⟩).1 _ _ opens
  revert routed
  decide

end examples

end Csap.Sessions
