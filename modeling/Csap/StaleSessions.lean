import Csap.Supervision

/-! No session that has ended is forgotten. Its process is waited for by the handler of `SIGCHLD`, which
raises the flag; the main process lowers the flag before it looks through the table, so that a session
that ends meanwhile makes it look again. -/

namespace Csap.MainServer

open Interleaving

structure State.Stale (s : State) (e : SessionEntry) : Prop where
  live : e ∈ s.mem.sessionTable.live
  inUse : e.inUse = true
  waitedFor : s.children.status e.pid = .waitedFor

structure Attentive (s : State) : Prop where
  signalled : ∀ pid, s.children.status pid = .ended → s.control.pending = true
  remembered : s.sessionsCleanup = 0 → ∀ e, ¬ s.Stale e

/-- The main process will look through the table without being told. -/
def Phase.Behind : Phase → Prop
  | .cleared | .failed | .leaving => True
  | _ => False

structure Watched (w : World) (s : State) : Prop where
  handling : w.handler ≠ .idle → s.control.handling = true
  catching : w.main.phase ≠ .setup → s.control.catching = true
  unborn : w.main.phase = .setup → ∀ pid, s.children.status pid = .unborn
  signalled : ∀ pid, s.children.status pid = .ended →
    s.control.pending = true ∨ w.handler = .looking ∨ w.handler = .owes
  remembered : ∀ e, s.Stale e → s.sessionsCleanup ≠ 0 ∨ w.handler = .owes ∨ w.main.phase.Behind

variable {w : World} {s : State} {choice : Choice} {c : Call} {r : c.Reply} {thread : Thread}

section table

theorem live_of_atomic {sem : SemResult} {alive : Int → Bool} {mem : SharedMemory} {c : SharedCall}
    {e : SessionEntry} (live : e ∈ (Semaphore.atomic sem alive mem c).2.sessionTable.live)
    (inUse : e.inUse = true) : e ∈ mem.sessionTable.live ∨ ∃ user, c = .sessionAdd user e.pid := by
  cases sem with
  | error err => cases c <;> exact .inl live
  | ok _ =>
  cases c with
  | sessionAdd user pid =>
    simp only [Semaphore.atomic, shmSessionAdd] at live
    split at live
    · rename_i slots stored
      rcases SlotTable.store_eq_some stored with ⟨before, old, after, split, -, split'⟩ | ⟨-, split'⟩
      · change e ∈ slots.live at live
        rw [split', List.mem_append, List.mem_cons] at live
        rw [split, List.mem_append, List.mem_cons]
        rcases live with first | rfl | last
        · exact .inl (.inl first)
        · exact .inr ⟨user, rfl⟩
        · exact .inl (.inr (.inr last))
      · change e ∈ slots.live at live
        rw [split', List.mem_append, List.mem_singleton] at live
        rcases live with old | rfl
        · exact .inl old
        · exact .inr ⟨user, rfl⟩
    · exact .inl live
  | sessionsCollectStale =>
    simp only [Semaphore.atomic, shmSessionsCollectStale, SlotTable.live_mapLive] at live
    obtain ⟨old, member, rfl⟩ := List.mem_map.mp live
    split at inUse
    · cases inUse
    · rename_i kept
      rw [if_neg kept]
      exact .inl member
  | requestAdd srcUser destUser absPath =>
    simp only [Semaphore.atomic, shmRequestAdd] at live
    split at live <;> exact .inl live
  | requestTake id destUser newStatus =>
    simp only [Semaphore.atomic, shmRequestTake] at live
    split at live
    · exact .inl live
    · split_ifs at live <;> exact .inl live
  | requestSet id st =>
    simp only [Semaphore.atomic, shmRequestSet] at live
    split at live <;> exact .inl live
  | sessionFind user => exact .inl live
  | requestsSetFailed user => exact .inl live
  | requestsForDest user max => exact .inl live

theorem alive_of_collected {sem : SemResult} {alive : Int → Bool} {mem : SharedMemory} {e : SessionEntry}
    (taken : 0 ≤ (Semaphore.atomic sem alive mem .sessionsCollectStale).1)
    (live : e ∈ (Semaphore.atomic sem alive mem .sessionsCollectStale).2.sessionTable.live)
    (inUse : e.inUse = true) : alive e.pid = true := by
  cases sem with
  | error err => exact absurd err.neg_lt_zero (not_lt.mpr taken)
  | ok _ =>
  simp only [Semaphore.atomic, shmSessionsCollectStale, SlotTable.live_mapLive] at live
  obtain ⟨old, member, rfl⟩ := List.mem_map.mp live
  split at inUse
  · cases inUse
  · rename_i kept
    rw [if_neg kept]
    simpa [inUse] using kept

theorem waitedFor_of_next {children : Children} {pid : Int}
    (h : (children.next thread c r).status pid = .waitedFor) :
    children.status pid = .waitedFor ∨ ∃ nohang, c = .waitpid nohang := by
  have become : ∀ {other : Int} {st : Status}, st ≠ .waitedFor →
      (children.become other st).status pid = .waitedFor → children.status pid = .waitedFor := by
    intro other st different h
    rw [Children.status_become] at h
    split_ifs at h
    · exact absurd h different
    · exact h
  cases c with
  | waitpid nohang => exact .inr ⟨nohang, rfl⟩
  | killed => exact .inl (become (by decide) h)
  | fork inherited =>
    cases r with
    | error e => exact .inl h
    | ok number => exact .inl (become (by decide) h)
  | exit code =>
    cases thread with
    | session number => exact .inl (become (by decide) h)
    | _ => exact .inl h
  | _ => exact .inl h

theorem stale_of_next {e : SessionEntry} (h : (s.next thread choice c r).Stale e) :
    s.Stale e ∨ (∃ nohang, c = .waitpid nohang) ∨ ∃ user, c = .sys (.shared (.sessionAdd user e.pid)) := by
  obtain ⟨live, inUse, waitedFor⟩ := h
  rcases waitedFor_of_next waitedFor with before | waits
  · cases c with
    | zeroTables =>
      change e ∈ Csap.setupShmem.sessionTable.live at live
      rw [Csap.setupShmem, SlotTable.live_zeroed] at live
      cases live
    | sys c =>
      cases c with
      | shared c =>
        rcases live_of_atomic live inUse with old | ⟨user, rfl⟩
        · exact .inl ⟨old, inUse, before⟩
        · exact .inr (.inr ⟨user, rfl⟩)
      | _ => exact .inl ⟨live, inUse, before⟩
    | _ => exact .inl ⟨live, inUse, before⟩
  · exact .inr (.inl waits)

theorem ended_of_next {children : Children} {pid : Int} (h : (children.next thread c r).status pid = .ended) :
    children.status pid = .ended ∨ c = .killed ∨ ∃ number code, thread = .session number ∧ c = .exit code := by
  cases c with
  | killed => exact .inr (.inl rfl)
  | waitpid nohang =>
    change (if children.status r = .ended then children.become r .waitedFor else children).status pid = _ at h
    split_ifs at h
    · rw [Children.status_become] at h
      split_ifs at h
      exact .inl h
    · exact .inl h
  | fork inherited =>
    cases r with
    | error e => exact .inl h
    | ok number =>
      change (children.become number .running).status pid = _ at h
      rw [Children.status_become] at h
      split_ifs at h
      exact .inl h
  | exit code =>
    cases thread with
    | session number => exact .inr (.inr ⟨number, code, rfl, rfl⟩)
    | _ => exact .inl h
  | _ => exact .inl h

end table

section steps

theorem Watched.start : Watched {} boot where
  handling idle := absurd rfl idle
  catching set := absurd rfl set
  unborn _ _ := rfl
  signalled pid ended := by cases ended
  remembered e stale := by cases stale.waitedFor

theorem Watched.idle (watched : Watched w s) (free : s.control.handling = false) : w.handler = .idle := by
  by_contra busy
  rw [watched.handling busy] at free
  cases free

theorem Known.children_next {g : Known} (may : g.may c) (setup : (g.next c r).phase = .setup) :
    s.children.next .main c r = s.children := by
  have before : g.phase = .setup := by
    by_contra set
    exact Known.phase_stays set setup
  cases c with
  | fork inherited =>
    have serving : g.phase = .serving := may
    rw [before] at serving
    cases serving
  | waitpid nohang =>
    have leaving : g.phase = .leaving := may
    rw [before] at leaving
    cases leaving
  | killed => cases may
  | _ => rfl

theorem catching_of_next {control : Control} (catching : control.catching = true) :
    (control.next thread c r).catching = true := by
  cases c with
  | sigaction => cases r <;> first | exact catching | rfl
  | exit code => cases thread <;> exact catching
  | delivered => cases thread <;> exact catching
  | _ => exact catching

theorem Known.pending_next {g : Known} (may : g.may c) :
    (s.control.next .main c r).pending = s.control.pending := by
  cases c with
  | sigaction => cases r <;> rfl
  | delivered | killed => cases may
  | _ => rfl

/-- The main process does not let go of a session that has ended. -/
theorem Watched.recalls (watched : Watched w s) (may : w.main.may c)
    (answered : s.answer .main choice c = some r) {e : SessionEntry} (before : s.Stale e)
    (now : (s.next .main choice c r).Stale e) (idle : w.handler = .idle) :
    (s.next .main choice c r).sessionsCleanup ≠ 0 ∨ (w.main.next c r).phase.Behind := by
  have known : s.sessionsCleanup ≠ 0 ∨ w.main.phase.Behind := by
    rcases watched.remembered e before with raised | owes | behind
    · exact .inl raised
    · rw [idle] at owes
      cases owes
    · exact .inr behind
  cases c with
  | set v value =>
    cases v with
    | sessionsCleanup =>
      rcases may with ⟨serving, -⟩ | ⟨-, raised⟩
      · right
        change (if w.main.phase = .serving then Phase.cleared else .serving).Behind
        rw [if_pos serving]
        trivial
      · exact .inl raised
    | _ => exact known
  | terminateGroup => exact .inr trivial
  | sigaction =>
    have unborn := watched.unborn may.1 e.pid
    rw [before.waitedFor] at unborn
    cases unborn
  | sys c =>
    cases c with
    | shared c =>
      cases c with
      | sessionsCollectStale =>
        right
        change (if (r : Int) < 0 then Phase.failed else .serving).Behind
        by_cases failed : (r : Int) < 0
        · rw [if_pos failed]
          trivial
        · obtain rfl := Option.some.inj answered
          have alive := alive_of_collected (not_lt.mp failed) now.live now.inUse
          simp only [Children.alive, decide_eq_true_eq, before.waitedFor] at alive
          rcases alive with running | ended
          · cases running
          · cases ended
      | _ => cases may
    | _ => exact known
  | _ => exact known

theorem Watched.main (watched : Watched w s) (may : w.main.may c) (free : s.control.handling = false)
    (answered : s.answer .main choice c = some r) : Watched (w.next .main c r) (s.next .main choice c r) := by
  have idle := watched.idle free
  constructor
  · exact fun busy => absurd idle busy
  · intro set
    rcases Known.phase_next may set with before | ⟨-, -, catches⟩
    · exact catching_of_next (watched.catching before)
    · exact catches s.control
  · intro setup pid
    change (s.children.next .main c r).status pid = .unborn
    rw [Known.children_next may setup]
    refine watched.unborn ?_ pid
    by_contra set
    exact Known.phase_stays set setup
  · intro pid ended
    change (s.control.next .main c r).pending = true ∨ _
    rw [Known.pending_next may]
    rcases ended_of_next ended with before | rfl | ⟨number, code, other, -⟩
    · exact watched.signalled pid before
    · cases may
    · cases other
  · intro e stale
    rcases stale_of_next stale with before | ⟨nohang, rfl⟩ | ⟨user, rfl⟩
    · rcases watched.recalls may answered before stale idle with raised | behind
      · exact .inl raised
      · exact .inr (.inr behind)
    · have leaving : w.main.phase = .leaving := may
      refine .inr (.inr ?_)
      change w.main.phase.Behind
      rw [leaving]
      trivial
    · cases may

theorem none_ended {nohang : Bool} {pid : Int} (waited : s.wait choice nohang = some pid) (nobody : pid ≤ 0) :
    ∀ other, s.children.status other ≠ .ended := by
  apply (Children.any_eq_false (by decide)).mp
  by_contra some
  rw [State.wait, if_pos (Bool.not_eq_false _ |>.mp some)] at waited
  split at waited
  · split_ifs at waited with found
    cases waited
    exact absurd nobody (not_le.mpr found.1)
  · cases waited

theorem Watched.found_nobody {main : Known} {cleanup : Signal → Cleanup} {session : Int → Serving} {pid : Int}
    (watched : Watched ⟨main, .looking, cleanup, session⟩ s)
    (nobody : ∀ other, s.children.status other ≠ .ended) :
    Watched ⟨main, .leaving, cleanup, session⟩ (s.next .onChild choice (.waitpid true) pid) := by
  have same : s.children.next .onChild (.waitpid true) pid = s.children := if_neg (nobody pid)
  constructor
  · exact fun _ => watched.handling (by simp)
  · exact watched.catching
  · intro setup other
    change (s.children.next .onChild (.waitpid true) pid).status other = .unborn
    rw [same]
    exact watched.unborn setup other
  · intro other ended
    change (s.children.next .onChild (.waitpid true) pid).status other = .ended at ended
    rw [same] at ended
    exact absurd ended (nobody other)
  · intro e stale
    obtain ⟨live, inUse, waitedFor⟩ := stale
    change (s.children.next .onChild (.waitpid true) pid).status e.pid = .waitedFor at waitedFor
    rw [same] at waitedFor
    rcases watched.remembered e ⟨live, inUse, waitedFor⟩ with raised | owes | behind
    · exact .inl raised
    · cases owes
    · exact .inr (.inr behind)

theorem Watched.found {main : Known} {cleanup : Signal → Cleanup} {session : Int → Serving} {pid : Int}
    (watched : Watched ⟨main, .looking, cleanup, session⟩ s) :
    Watched ⟨main, .owes, cleanup, session⟩ (s.next .onChild choice (.waitpid true) pid) := by
  constructor
  · exact fun _ => watched.handling (by simp)
  · exact watched.catching
  · intro setup other
    have unborn := watched.unborn setup
    have same : s.children.next .onChild (.waitpid true) pid = s.children := by
      refine if_neg ?_
      rw [unborn pid]
      decide
    change (s.children.next .onChild (.waitpid true) pid).status other = .unborn
    rw [same]
    exact unborn other
  · exact fun _ _ => .inr (.inr rfl)
  · exact fun _ _ => .inr (.inl rfl)

theorem Watched.onChild (watched : Watched w s) (may : childTurns.allowed w.handler c)
    (answered : s.answer .onChild choice c = some r) :
    Watched (w.next .onChild c r) (s.next .onChild choice c r) := by
  obtain ⟨main, handler, cleanup, session⟩ := w
  cases handler with
  | idle =>
    cases c with
    | delivered =>
      refine ⟨fun _ => rfl, watched.catching, watched.unborn, fun _ _ => .inr (.inl rfl), ?_⟩
      intro e stale
      rcases watched.remembered e ⟨stale.live, stale.inUse, stale.waitedFor⟩ with raised | owes | behind
      · exact .inl raised
      · cases owes
      · exact .inr (.inr behind)
    | _ => cases may
  | looking =>
    cases c with
    | waitpid nohang =>
      obtain rfl : nohang = true := may
      change Watched ⟨main, childTurns.next .looking (.waitpid true) r, cleanup, session⟩ _
      by_cases found : (0 : Int) < r
      · rw [show childTurns.next .looking (.waitpid true) r = .owes from if_pos found]
        exact watched.found
      · rw [show childTurns.next .looking (.waitpid true) r = .leaving from if_neg found]
        exact watched.found_nobody (none_ended answered (not_lt.mp found))
    | _ => cases may
  | owes =>
    cases c with
    | set v value =>
      cases v with
      | sessionsCleanup =>
        refine ⟨fun _ => watched.handling (by simp), watched.catching, watched.unborn,
          fun _ _ => .inr (.inl rfl), fun _ _ => .inl may⟩
      | _ => cases may
    | _ => cases may
  | leaving =>
    cases c with
    | finished =>
      refine ⟨fun busy => absurd rfl busy, watched.catching, watched.unborn, ?_, ?_⟩
      · intro pid ended
        rcases watched.signalled pid ended with pending | looking | owes
        · exact .inl pending
        · cases looking
        · cases owes
      · intro e stale
        rcases watched.remembered e ⟨stale.live, stale.inUse, stale.waitedFor⟩ with raised | owes | behind
        · exact .inl raised
        · cases owes
        · exact .inr (.inr behind)
    | _ => cases may

theorem Watched.ends (watched : Watched w s) {pid : Int} (running : s.children.status pid = .running)
    {w' : World} {s' : State} (main : w'.main = w.main) (handler : w'.handler = w.handler)
    (mem : s'.mem = s.mem) (flag : s'.sessionsCleanup = s.sessionsCleanup)
    (children : s'.children = s.children.become pid .ended)
    (control : s'.control = { s.control with pending := s.control.catching }) : Watched w' s' := by
  have set : w.main.phase ≠ .setup := by
    intro setup
    rw [watched.unborn setup pid] at running
    cases running
  constructor
  · rw [handler, control]
    exact watched.handling
  · intro _
    rw [control]
    exact watched.catching set
  · rw [main]
    exact fun setup => absurd setup set
  · intro _ _
    rw [control]
    exact .inl (watched.catching set)
  · intro e stale
    obtain ⟨live, inUse, waitedFor⟩ := stale
    rw [mem] at live
    rw [children, Children.status_become] at waitedFor
    split_ifs at waitedFor
    rw [flag, handler, main]
    exact watched.remembered e ⟨live, inUse, waitedFor⟩

theorem Serving.enters {g : Serving} {user : CStr} {pid : Int}
    (may : sessionTurns.allowed g (.sys (.shared (.sessionAdd user pid)))) : ∃ root held, g.session = some (root, held) ∧ pid = held.pid := by
  obtain ⟨number, session⟩ := g
  cases session with
  | none => cases may
  | some session =>
    obtain ⟨root, held⟩ := session
    have idle := Sessions.Ghost.may_of_allowed may (by simp)
    exact ⟨root, held, rfl, idle.2.2.1⟩

theorem Watched.session {pid : Int} (watched : Watched w s) (own : (w.session pid).Own pid)
    (may : sessionTurns.allowed (w.session pid) c) (running : s.children.status pid = .running) :
    Watched (w.next (.session pid) c r) (s.next (.session pid) choice c r) := by
  have kept : (∃ inherited, c = .sys inherited) ∨ c = .forked ∨ c = .getpid ∨ (∃ fd, c = .close fd) ∨
      ∃ code, c = .exit code := by
    cases here : (w.session pid).session with
    | none =>
      simp only [sessionTurns, here] at may
      exact .inr (.inl may)
    | some session =>
      simp only [sessionTurns, here] at may
      cases c with
      | sys c => exact .inl ⟨c, rfl⟩
      | getpid => exact .inr (.inr (.inl rfl))
      | close fd => exact .inr (.inr (.inr (.inl ⟨fd, rfl⟩)))
      | exit code => exact .inr (.inr (.inr (.inr ⟨code, rfl⟩)))
      | _ => cases may
  rcases kept with ⟨c, rfl⟩ | rfl | rfl | ⟨fd, rfl⟩ | ⟨code, rfl⟩
  · refine ⟨watched.handling, watched.catching, watched.unborn, watched.signalled, ?_⟩
    intro e stale
    rcases stale_of_next stale with before | ⟨nohang, other⟩ | ⟨user, same⟩
    · exact watched.remembered e before
    · cases other
    · cases same
      obtain ⟨root, held, here, entered⟩ := Serving.enters may
      have number : e.pid = pid := entered.trans (own.session root held here)
      have ended : s.children.status e.pid = .waitedFor := stale.waitedFor
      rw [number, running] at ended
      cases ended
  · exact ⟨watched.handling, watched.catching, watched.unborn, watched.signalled,
      fun e stale => watched.remembered e ⟨stale.live, stale.inUse, stale.waitedFor⟩⟩
  · exact ⟨watched.handling, watched.catching, watched.unborn, watched.signalled,
      fun e stale => watched.remembered e ⟨stale.live, stale.inUse, stale.waitedFor⟩⟩
  · exact ⟨watched.handling, watched.catching, watched.unborn, watched.signalled,
      fun e stale => watched.remembered e ⟨stale.live, stale.inUse, stale.waitedFor⟩⟩
  · exact watched.ends running rfl rfl rfl rfl rfl rfl

theorem Watched.termination {sig : Signal} (watched : Watched w s)
    (may : terminationTurns.allowed (w.cleanup sig) c) :
    Watched (w.next (.onTermination sig) c r) (s.next (.onTermination sig) choice c r) := by
  have apart : (s.next (.onTermination sig) choice c r).mem = s.mem ∧
      (s.next (.onTermination sig) choice c r).sessionsCleanup = s.sessionsCleanup ∧
      (s.next (.onTermination sig) choice c r).children = s.children ∧
      (s.next (.onTermination sig) choice c r).control.handling = s.control.handling ∧
      (s.next (.onTermination sig) choice c r).control.pending = s.control.pending ∧
      (s.next (.onTermination sig) choice c r).control.catching = s.control.catching := by
    cases c with
    | set v value =>
      cases v with
      | sessionsCleanup => cases here : w.cleanup sig <;> rw [here] at may <;> cases may
      | _ => exact ⟨rfl, rfl, rfl, rfl, rfl, rfl⟩
    | sys | zeroTables | fork | killed | waitpid | sigaction | finished =>
      cases here : w.cleanup sig <;> rw [here] at may <;> cases may
    | _ => exact ⟨rfl, rfl, rfl, rfl, rfl, rfl⟩
  obtain ⟨mem, flag, children, handling, pending, catching⟩ := apart
  constructor
  · rw [handling]
    exact watched.handling
  · rw [catching]
    exact watched.catching
  · rw [children]
    exact watched.unborn
  · rw [children, pending]
    exact watched.signalled
  · intro e stale
    obtain ⟨live, inUse, waitedFor⟩ := stale
    rw [mem] at live
    rw [children] at waitedFor
    rw [flag]
    exact watched.remembered e ⟨live, inUse, waitedFor⟩

theorem Watched.step (watched : Watched w s) (own : ∀ pid, (w.session pid).Own pid)
    (may : turns.allowed (w.ghost thread) c) {s' : State} (done : machine thread c choice s = some (r, s')) :
    Watched (w.next thread c r) s' := by
  obtain ⟨goes, answered, rfl⟩ := machine_cases done
  cases thread with
  | main =>
    obtain ⟨unhandled, -⟩ := State.free_of_main goes
    exact watched.main may unhandled answered
  | onChild => exact watched.onChild may answered
  | onTermination sig => exact watched.termination may
  | session pid =>
    exact watched.session (own pid) may (State.running_of_session goes)
  | outside =>
    obtain rfl : c = .killed := may
    have running : s.children.status r = .running := by
      simp only [State.answer] at answered
      split at answered
      · split_ifs at answered with running
        cases answered
        exact running
      · cases answered
    exact watched.ends running rfl rfl rfl rfl rfl rfl

theorem watched_of_trace {log : List Event} {t : State} (h : Trace turns init machine boot log t) :
    Watched (.after log) t := by
  induction h with
  | nil => exact Watched.start
  | @snoc log t t' thread c choice r _ may _ done ih =>
    rw [World.ghostOf_eq] at may
    have next := ih.step (World.session_own log) may done
    rw [World.after, List.foldl_append]
    exact next

end steps

structure SeenTo (e : Event) : Prop where
  checks : e.act.call = .get .sessionsCleanup → Attentive e.before
  waits : ∀ fds, e.act.call = .sys (.socket (.select fds)) → Attentive e.before
  collects : ∀ r : Int, e.act = ⟨.main, .sys (.shared .sessionsCollectStale), r⟩ → 0 ≤ r →
    ∀ entry, ¬ e.after.Stale entry

/-- Whenever the main process looks at its flag, or waits in its loop, the sessions that have ended are
signalled to it, or it has waited for them; and then the flag is up or their entries are gone. A
collection that does not fail leaves none of them. -/
theorem ended_sessions_are_remembered {args : Arguments} {c : Config}
    (reached : Reaches machine (start args) c) : Every (fun _ e => e.act.pid = .main → SeenTo e) c.log := by
  intro before e after split mine
  obtain ⟨trace, may, -, done⟩ := (trace_of_reaches reached).every before e after split
  obtain ⟨⟨thread, call, reply⟩, choice, s, s'⟩ := e
  obtain rfl : thread = .main := mine
  dsimp only at trace may done
  have watched := watched_of_trace trace
  rw [World.ghostOf_eq] at may
  obtain ⟨goes, answered, rfl⟩ := machine_cases done
  obtain ⟨unhandled, -⟩ := State.free_of_main goes
  have idle := watched.idle unhandled
  have attentive : (World.after before).main.phase = .serving → Attentive s := by
    intro serving
    constructor
    · intro pid ended
      rcases watched.signalled pid ended with pending | looking | owes
      · exact pending
      · rw [idle] at looking
        cases looking
      · rw [idle] at owes
        cases owes
    · intro down e stale
      rcases watched.remembered e stale with raised | owes | behind
      · exact raised down
      · rw [idle] at owes
        cases owes
      · rw [serving] at behind
        cases behind
  constructor
  · intro checks
    obtain rfl : call = .get .sessionsCleanup := checks
    exact attentive may
  · intro fds waits
    obtain rfl : call = .sys (.socket (.select fds)) := waits
    exact attentive may
  · intro r collects taken entry stale
    cases collects
    obtain rfl := Option.some.inj answered
    have alive := alive_of_collected taken stale.live stale.inUse
    have status : s.children.status entry.pid = .waitedFor := stale.waitedFor
    simp only [Children.alive, decide_eq_true_eq, status] at alive
    rcases alive with running | ended
    · cases running
    · cases ended

def killedSession : List (Thread × Choice × Nat) :=
  [(.main, calm 7 true, 38), (.session 7, calm 7 false, 28), (.outside, calm 7 false, 2),
    (.onChild, calm 7 false, 9), (.main, calm 8 true, 11)]

theorem killed_session_is_remembered : ∃ c before e after, Reaches machine (start calmArguments) c ∧
    c.log = before ++ e :: after ∧ e.act.pid = .main ∧ e.act.call = .get .sessionsCleanup ∧
    e.before.children.status 7 = .waitedFor ∧ e.before.sessionsCleanup = 0 ∧ ∀ entry, ¬ e.before.Stale entry := by
  have ran : ((run machine killedSession (start calmArguments)).bind fun c =>
      c.log[76]?.map fun e => decide (e.act.pid = .main ∧ e.act.call = .get .sessionsCleanup ∧
        e.before.children.status 7 = .waitedFor ∧ e.before.sessionsCleanup = 0)) = some true := by
    decide +kernel
  obtain ⟨c, before, e, after, reached, split, thread, checks, ended, down⟩ := exists_event_of_run 76
    (fun _ (e : Event) => e.act.pid = .main ∧ e.act.call = .get .sessionsCleanup ∧
      e.before.children.status 7 = .waitedFor ∧ e.before.sessionsCleanup = 0) ran
  have seen := ended_sessions_are_remembered reached before e after split thread
  exact ⟨c, before, e, after, reached, split, thread, checks, ended, down, (seen.checks checks).remembered down⟩

end Csap.MainServer
