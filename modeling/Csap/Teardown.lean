import Csap.RequestHistory

/-! The end of a session. `handle_session` fails the requests of the user name it
ran under, and other sessions of that user may have issued some of them. -/

namespace Csap.Sessions

open Interleaving

/-- A teardown fails the pending requests that its own process issued, and leaves the others. -/
def FailsOwn (e : Event) : Prop :=
  ∀ user, e.act.call = .shared (.requestsSetFailed user) →
    ∀ slot entry, PendingAt e.before.mem slot entry →
      e.after.mem.pendingRequestsTable.live[slot]? =
        some (if e.before.issuer slot = e.act.pid then { entry with status := .failed } else entry)

/-- The semaphore is taken if the process has requests to fail, and then no other process has a
pending request under its user name. -/
def OwnsName (e : Event) : Prop :=
  ∀ user, e.act.call = .shared (.requestsSetFailed user) →
    ∀ slot entry, PendingAt e.before.mem slot entry →
      (e.before.issuer slot = e.act.pid → e.choice.sem = .ok ()) ∧
        (e.choice.sem = .ok () → entry.sourceUsername = user →
          e.before.issuer slot = e.act.pid)

theorem failed_ne {entry : TransferRequestEntry} (pending : entry.status = .pending) :
    { entry with status := .failed } ≠ entry := by
  intro same
  rw [← same] at pending
  cases pending

theorem failsOwn_iff {root : CStr} {log : Log} {e : Event}
    (trace : Trace (protocol root) init machine setupState log e.before)
    (allowed : (protocol root).allowed (ghostOf (protocol root) init e.act.pid log) e.act.call)
    (made : Made e) : FailsOwn e ↔ OwnsName e := by
  unfold FailsOwn OwnsName
  refine forall_congr' fun user => forall_congr' fun teardown => forall_congr' fun slot =>
    forall_congr' fun entry => forall_congr' fun pending => ?_
  obtain ⟨⟨pid, q, r⟩, choice, s, s'⟩ := e
  cases teardown
  have result := machine_shared made
  simp only [execShared, Prod.mk.injEq] at result
  obtain ⟨-, rfl⟩ := result
  have other := failed_ne pending.2
  have name : (ghostOf (protocol root) init pid log).user = some user :=
    (Ghost.may_of_allowed allowed (by simp)).2
  have own : s.issuer slot = pid → entry.sourceUsername = user := by
    intro mine
    have issued := issuer_user trace pending
    rw [mine, name] at issued
    exact (Option.some.inj issued).symm
  rw [pending.setFailed, Option.some.injEq]
  by_cases mine : s.issuer slot = pid
  · by_cases sem : choice.sem = .ok ()
    · simp [mine, own mine, sem]
    · simp [mine, sem, other.symm]
  · by_cases named : choice.sem = .ok () ∧ entry.sourceUsername = user
    · rw [if_pos named, if_neg mine]
      exact iff_of_false other fun owns => mine (owns.2 named.1 named.2)
    · rw [if_neg named, if_neg mine]
      exact iff_of_true rfl ⟨fun own => absurd own mine, fun sem same => absurd ⟨sem, same⟩ named⟩

theorem ended_next {g : Ghost} {call : Call} {r : call.Reply} (ended : (g.next call r).ended = true) :
    g.ended = true ∨ ∃ user, call = .shared (.requestsSetFailed user) := by
  unfold Ghost.next at ended
  repeat' split at ended
  all_goals first
    | exact .inl ended
    | exact .inr ⟨_, rfl⟩

/-- A process that has torn its session down, where teardowns fail what it has issued, has no request
pending and issues none. -/
theorem none_pending {root : CStr} {log : Log} {t : State} {pid : Int} {slot : Nat}
    {entry : TransferRequestEntry} (trace : Trace (protocol root) init machine setupState log t)
    (fails : ∀ e ∈ log, FailsOwn e) (ended : (ghostOf (protocol root) init pid log).ended = true)
    (pending : PendingAt t.mem slot entry) : t.issuer slot ≠ pid := by
  induction trace with
  | nil => cases ended
  | @snoc log t t' who q choice r old allowed expected done ih =>
    have made : Made ⟨⟨who, q, r⟩, choice, t, t'⟩ := done
    have before : ∀ e ∈ log, FailsOwn e := fun e member => fails e (List.mem_append_left _ member)
    rw [ghostOf_append] at ended
    rcases pendingAt_of_made made allowed pending with
      ⟨waiting, same⟩ | ⟨own, -, -, src, dst, path, act, -, -, -⟩
    · dsimp only at waiting same
      rw [same]
      have ended_before : (ghostOf (protocol root) init pid log).ended = true → t.issuer slot ≠ pid :=
        fun ended => ih before ended waiting
      by_cases mine : who = pid
      · subst mine
        rw [if_pos rfl] at ended
        rcases ended_next ended with earlier | ⟨user, rfl⟩
        · exact ended_before earlier
        · intro issued
          have failed := fails _ (List.mem_append_right _ (List.mem_singleton_self _)) user rfl slot entry waiting
          rw [if_pos issued] at failed
          rw [pending.1] at failed
          exact failed_ne pending.2 (Option.some.inj failed).symm
      · rw [if_neg mine] at ended
        exact ended_before ended
    · dsimp only at own
      rw [own]
      rintro rfl
      cases act
      have issuing := (Ghost.may_of_allowed allowed (by simp)).2
      rw [if_pos rfl] at ended
      rcases ended_next ended with earlier | ⟨user, teardown⟩
      · rw [issuing.2.1] at earlier
        cases earlier
      · cases teardown

/-- A request lives as long as the session that issued it: teardowns fail those of their own process,
and nothing waits that was issued by a process which has returned. -/
structure LivesWithIssuer (c : Config) : Prop where
  fails : ∀ e ∈ c.log, FailsOwn e
  gone : ∀ pid, c.procs pid = .ret () → ∀ slot entry, PendingAt c.state.mem slot entry →
    c.state.issuer slot ≠ pid

/-- The runs in which requests live as long as the sessions that issued them are the runs in whose
teardowns no other session has a request pending under the name. -/
theorem teardowns_fail_own_iff {server : Server} {mainPid : Int} {clientSocket : Int → Int}
    {c : Config} (h : Reaches machine (start server mainPid clientSocket) c) :
    LivesWithIssuer c ↔ ∀ e ∈ c.log, OwnsName e := by
  obtain ⟨concludes, trace⟩ := server_trace h
  have own : (∀ e ∈ c.log, FailsOwn e) ↔ ∀ e ∈ c.log, OwnsName e := by
    refine forall₂_congr fun e member => ?_
    obtain ⟨before, after, split⟩ := List.append_of_mem member
    obtain ⟨trace, allowed, -, made⟩ := trace.every before e after split
    exact failsOwn_iff trace allowed made
  rw [← own]
  refine ⟨LivesWithIssuer.fails, fun fails => ⟨fails, ?_⟩⟩
  intro pid returned slot entry pending issued
  have named : (ghostOf (protocol (rootOf server)) init pid c.log).user ≠ none := by
    rw [← issued, issuer_user trace pending]
    exact Option.some_ne_none _
  exact none_pending trace fails (concludes.ended returned named) pending issued

/-- Alice asks to send a file to Bob, and a second session of hers ends. -/
def secondSessionEnds : List (Int × Choice × Nat) :=
  [(2, calm (cstr "alice") (line .login "login alice"), 23),
    (3, calm (cstr "alice") (line .login "login alice"), 23),
    (2, calm (cstr "alice") (line .transferReq "transfer_request note bob"), 10),
    (3, calm (cstr "alice") none, 3)]

def waiting : TransferRequestEntry where
  id := 1
  sourceUsername := cstr "alice"
  destUsername := cstr "bob"
  filePathAbsolute := cstr "/srv/alice/note"

/-- A teardown of Alice fails a request that another process issued. -/
abbrev FailsWaiting (e : Event) : Prop :=
  e.act.call = .shared (.requestsSetFailed (cstr "alice")) ∧
    e.before.mem.pendingRequestsTable.live[0]? = some waiting ∧
    e.before.issuer 0 ≠ e.act.pid ∧
    e.after.mem.pendingRequestsTable.live[0]? = some { waiting with status := .failed }

theorem secondSessionEnds_run :
    ∃ c, Reaches machine (start calmServer 1 fun _ => 3) c ∧ ∃ e ∈ c.log, FailsWaiting e := by
  have ran : (run machine secondSessionEnds (start calmServer 1 fun _ => 3)).any
      (fun c => decide (∃ e ∈ c.log, FailsWaiting e)) = true := by
    decide +kernel
  exact exists_of_run _ ran

theorem not_failsOwn_of_failsWaiting {e : Event} (h : FailsWaiting e) : ¬ FailsOwn e := by
  intro own
  obtain ⟨teardown, pending, other, failed⟩ := h
  have kept := own _ teardown 0 waiting ⟨pending, rfl⟩
  rw [failed, if_neg other] at kept
  cases kept

/-- The end of a background session fails what the foreground session asked for. -/
theorem second_session_end_fails_request :
    ¬ ∀ (server : Server) (mainPid : Int) (clientSocket : Int → Int) (c : Config),
      Reaches machine (start server mainPid clientSocket) c → LivesWithIssuer c := by
  intro everywhere
  obtain ⟨c, reaches, e, member, fails⟩ := secondSessionEnds_run
  exact not_failsOwn_of_failsWaiting fails ((everywhere _ _ _ c reaches).fails e member)

theorem teardowns_fail_own_iff_second_session :
    ∃ c, Reaches machine (start calmServer 1 fun _ => 3) c ∧ ¬ ∀ e ∈ c.log, OwnsName e := by
  obtain ⟨c, reaches, e, member, fails⟩ := secondSessionEnds_run
  refine ⟨c, reaches, fun owns => not_failsOwn_of_failsWaiting fails ?_⟩
  exact ((teardowns_fail_own_iff reaches).mpr owns).fails e member

end Csap.Sessions
