import Csap.MainTurns
import Csap.RequestHistory

/-! What the main process makes sure of, wherever its handlers interrupt it and whenever its sessions
end: what it has set up is taken down again, and no session that has ended is forgotten. -/

namespace Csap.MainServer

open Interleaving

structure World where
  main : Known := {}
  handler : Handler := .idle
  cleanup : Signal → Cleanup := fun _ => .waiting
  session : Int → Serving := fun pid => { pid }

namespace World

def ghost (w : World) : Thread → Ghost
  | .main => .main w.main
  | .onChild => .onChild w.handler
  | .onTermination sig => .onTermination (w.cleanup sig)
  | .session pid => .session (w.session pid)
  | .outside => .outside

def next (w : World) (thread : Thread) (c : Call) (r : c.Reply) : World :=
  match thread with
  | .main => { w with main := w.main.next c r }
  | .onChild => { w with handler := childTurns.next w.handler c r }
  | .onTermination sig =>
    { w with cleanup := Function.update w.cleanup sig (terminationTurns.next (w.cleanup sig) c r) }
  | .session pid => { w with session := Function.update w.session pid (sessionTurns.next (w.session pid) c r) }
  | .outside => w

def after (log : List Event) : World := log.foldl (fun w e => w.next e.act.pid e.act.call e.act.reply) {}

theorem ghost_next (w : World) (thread other : Thread) (c : Call) (r : c.Reply) :
    (w.next thread c r).ghost other =
      if thread = other then turns.next (w.ghost other) c r else w.ghost other := by
  cases thread with
  | main => cases other <;> rfl
  | onChild => cases other <;> rfl
  | outside => cases other <;> rfl
  | onTermination sig =>
    cases other with
    | onTermination other =>
      simp only [next, ghost, Thread.onTermination.injEq, Function.update_apply]
      split_ifs with here there there
      · rw [here]
        rfl
      · exact absurd here.symm there
      · exact absurd there.symm here
      · rfl
    | _ => rfl
  | session pid =>
    cases other with
    | session other =>
      simp only [next, ghost, Thread.session.injEq, Function.update_apply]
      split_ifs with here there there
      · rw [here]
        rfl
      · exact absurd here.symm there
      · exact absurd there.symm here
      · rfl
    | _ => rfl

theorem ghostOf_eq (log : List Event) (thread : Thread) :
    ghostOf turns init thread log = (after log).ghost thread := by
  induction log using List.reverseRecOn with
  | nil => cases thread <;> rfl
  | append_singleton log e ih =>
    have last : after (log ++ [e]) = (after log).next e.act.pid e.act.call e.act.reply := by
      rw [after, List.foldl_append]
      rfl
    rw [ghostOf_append, last, ghost_next, ih]

end World

section resources

def Lessens : Call → Prop
  | .set .semId _ | .shmget | .semget => False
  | _ => True

theorem Ipc.Steady.next {ipc : Ipc} (h : ipc.Steady) {c : Call} (lessens : Lessens c) (r : c.Reply) :
    (ipc.next c r).Steady ∧ (ipc.next c r).semId = ipc.semId ∧
      (ipc.semaphores = [] → (ipc.next c r).semaphores = []) := by
  obtain ⟨segments, semId, semaphores⟩ := h
  cases c with
  | set v value =>
    cases v with
    | semId => cases lessens
    | _ => exact ⟨⟨segments, semId, semaphores⟩, rfl, id⟩
  | shmget | semget => cases lessens
  | shmRemove id =>
    cases r with
    | error e => exact ⟨⟨segments, semId, semaphores⟩, rfl, fun none => none⟩
    | ok _ =>
      have left : ipc.segments.erase id = [] := by rw [segments, List.erase_nil]
      exact ⟨⟨left, semId, semaphores⟩, rfl, fun none => none⟩
  | semRemove id =>
    cases r with
    | error e => exact ⟨⟨segments, semId, semaphores⟩, rfl, fun none => none⟩
    | ok _ =>
      have left : ipc.semaphores.erase id = [] ∨ ipc.semaphores.erase id = [ipc.semId] := by
        cases semaphores with
        | inl none =>
          rw [none]
          exact .inl (List.erase_nil id)
        | inr one =>
          rw [one]
          by_cases same : id = ipc.semId
          · rw [same, List.erase_cons_head]
            exact .inl rfl
          · rw [List.erase_of_not_mem (mt List.mem_singleton.mp same)]
            exact .inr rfl
      refine ⟨⟨segments, semId, left⟩, rfl, fun none => ?_⟩
      change ipc.semaphores.erase id = []
      rw [none, List.erase_nil]
  | _ => exact ⟨⟨segments, semId, semaphores⟩, rfl, id⟩

/-- What the threads know of the segment and the semaphore is true. -/
structure Tidy (w : World) (s : State) : Prop where
  mirrored : s.control.terminating = false → w.main.ipc = s.ipc
  caught : s.control.caught ≠ [] → w.main.phase ≠ .setup
  begun : s.control.terminating = true → w.main.phase ≠ .setup
  steady : w.main.phase ≠ .setup → s.ipc.Steady
  started : ∀ sig, w.cleanup sig ≠ .waiting → s.control.terminating = true
  named : ∀ sig id, w.cleanup sig = .begun (some id) → id = s.ipc.semId
  removed : ∀ sig, w.cleanup sig = .removed → s.ipc.semaphores = []

variable {w : World} {s : State} {choice : Choice} {c : Call} {r : c.Reply}

theorem Tidy.start : Tidy {} boot where
  mirrored _ := rfl
  caught none := absurd rfl none
  begun h := by cases h
  steady set := absurd rfl set
  started _ h := absurd rfl h
  named _ _ h := by cases h
  removed _ h := by cases h

theorem Tidy.of_same (tidy : Tidy w s) {w' : World} {s' : State} (main : w'.main = w.main)
    (cleanup : w'.cleanup = w.cleanup) (ipc : s'.ipc = s.ipc) (caught : s'.control.caught = s.control.caught)
    (terminating : s'.control.terminating = s.control.terminating) : Tidy w' s' := by
  obtain ⟨main', _, cleanup', _⟩ := w'
  obtain ⟨_, _, ipc', _, ⟨_, _, _, caught', terminating', _⟩, _⟩ := s'
  obtain rfl : main' = w.main := main
  obtain rfl : cleanup' = w.cleanup := cleanup
  obtain rfl : ipc' = s.ipc := ipc
  obtain rfl : caught' = s.control.caught := caught
  obtain rfl : terminating' = s.control.terminating := terminating
  exact ⟨tidy.mirrored, tidy.caught, tidy.begun, tidy.steady, tidy.started, tidy.named, tidy.removed⟩

theorem Known.may_lessen {g : Known} (may : g.may c) (set : g.phase ≠ .setup) : Lessens c := by
  cases c with
  | set v value =>
    cases v with
    | semId => exact absurd may set
    | _ => trivial
  | shmget | semget => exact absurd may set
  | _ => trivial

theorem Known.phase_next {g : Known} (may : g.may c) (set : (g.next c r).phase ≠ .setup) :
    g.phase ≠ .setup ∨ g.ipc.Standing ∧ (∀ ipc : Ipc, ipc.next c r = ipc) ∧
      ∀ control : Control, (control.next .main c r).catching = true := by
  by_cases setup : g.phase = .setup
  · right
    cases c with
    | sigaction =>
      cases r with
      | error e => exact absurd setup set
      | ok _ => exact ⟨may.2, fun _ => rfl, fun _ => rfl⟩
    | set v value =>
      cases v with
      | sessionsCleanup =>
        rcases may with ⟨serving, -⟩ | ⟨failed, -⟩
        · rw [setup] at serving
          cases serving
        · rw [setup] at failed
          cases failed
      | _ => exact absurd setup set
    | terminateGroup =>
      have serving : g.phase = .serving := may
      rw [setup] at serving
      cases serving
    | sys c =>
      cases c with
      | shared c =>
        cases c with
        | sessionsCollectStale =>
          have cleared : g.phase = .cleared := may
          rw [setup] at cleared
          cases cleared
        | _ => cases may
      | _ => exact absurd setup set
    | _ => exact absurd setup set
  · exact .inl setup

theorem Known.phase_stays {g : Known} (set : g.phase ≠ .setup) : (g.next c r).phase ≠ .setup := by
  cases c with
  | sigaction =>
    cases r with
    | error e => exact set
    | ok _ =>
      change Phase.serving ≠ .setup
      decide
  | set v value =>
    cases v with
    | sessionsCleanup =>
      change (if g.phase = .serving then Phase.cleared else .serving) ≠ .setup
      split_ifs <;> decide
    | _ => exact set
  | terminateGroup =>
    change Phase.leaving ≠ .setup
    decide
  | sys c =>
    cases c with
    | shared c =>
      cases c with
      | sessionsCollectStale =>
        change (if (r : Int) < 0 then Phase.failed else .serving) ≠ .setup
        split_ifs <;> decide
      | _ => exact set
    | _ => exact set
  | _ => exact set

theorem Known.caught_next {g : Known} (may : g.may c)
    (caught : (s.control.next .main c r).caught ≠ []) :
    s.control.caught ≠ [] ∨ g.phase ≠ .setup := by
  cases c with
  | signal sig ignored =>
    cases ignored with
    | false => exact .inr (may rfl)
    | true =>
      refine .inl fun none => caught ?_
      change s.control.caught.filter (· ≠ sig) = []
      rw [none]
      rfl
  | sigaction => cases r <;> exact .inl caught
  | delivered => cases may
  | _ => exact .inl caught

theorem Known.terminating_next {g : Known} (may : g.may c) :
    (s.control.next .main c r).terminating = s.control.terminating := by
  cases c with
  | sigaction => cases r <;> rfl
  | delivered => cases may
  | _ => rfl

theorem Tidy.main (tidy : Tidy w s) (may : w.main.may c) (running : s.control.terminating = false) :
    Tidy (w.next .main c r) (s.next .main choice c r) := by
  have same := tidy.mirrored running
  have stays : (s.control.next .main c r).terminating = false :=
    (Known.terminating_next may).trans running
  have waiting : ∀ sig, w.cleanup sig = .waiting := by
    intro sig
    by_contra other
    rw [tidy.started sig other] at running
    cases running
  constructor
  · intro _
    exact congrArg (Ipc.next · c r) same
  · intro caught
    cases Known.caught_next may caught with
    | inl before => exact Known.phase_stays (tidy.caught before)
    | inr set => exact Known.phase_stays set
  · intro terminating
    exact absurd (terminating.symm.trans stays) (by decide)
  · intro set
    change (s.ipc.next c r).Steady
    rcases Known.phase_next may set with before | ⟨standing, still, -⟩
    · exact ((tidy.steady before).next (Known.may_lessen may before) r).1
    · rw [still, ← same]
      exact standing.steady
  · intro sig other
    exact absurd (waiting sig) other
  · intro sig id here
    rw [show (w.next .main c r).cleanup sig = .waiting from waiting sig] at here
    cases here
  · intro sig here
    rw [show (w.next .main c r).cleanup sig = .waiting from waiting sig] at here
    cases here

theorem Cleanup.may_lessen {g : Cleanup} (may : terminationTurns.allowed g c) : Lessens c := by
  cases c with
  | set v value =>
    cases v with
    | semId => cases g <;> cases may
    | _ => trivial
  | shmget | semget => cases g <;> cases may
  | _ => trivial

theorem Cleanup.control_next {g : Cleanup} {sig : Signal} (may : terminationTurns.allowed g c)
    (begun : g ≠ .waiting → s.control.terminating = true) :
    (s.control.next (.onTermination sig) c r).terminating = true ∧
      ((s.control.next (.onTermination sig) c r).caught ≠ [] → s.control.caught ≠ []) := by
  cases g with
  | waiting =>
    obtain rfl : c = .delivered := may
    exact ⟨rfl, id⟩
  | begun | removed =>
    have begun := begun (by simp)
    cases c with
    | signal sig ignored =>
      obtain rfl : ignored = true := may
      refine ⟨begun, fun caught none => caught ?_⟩
      change s.control.caught.filter (· ≠ sig) = []
      rw [none]
      rfl
    | sigaction => cases may
    | delivered => exact ⟨rfl, id⟩
    | killed => exact ⟨begun, id⟩
    | _ => exact ⟨begun, id⟩

theorem Cleanup.names {g : Cleanup} {thread : Thread} {id : Int} (answered : s.answer thread choice c = some r)
    (here : terminationTurns.next g c r = .begun (some id)) : g = .begun (some id) ∨ id = s.ipc.semId := by
  cases g with
  | waiting => cases c <;> cases here
  | removed => cases here
  | begun semId =>
    cases c with
    | get v =>
      cases v with
      | semId =>
        cases here
        exact .inr (Option.some.inj answered).symm
      | _ => exact .inl here
    | semRemove => cases here
    | _ => exact .inl here

theorem Cleanup.removes {g : Cleanup} {thread : Thread} (steady : s.ipc.Steady)
    (may : terminationTurns.allowed g c) (named : ∀ id, g = .begun (some id) → id = s.ipc.semId)
    (answered : s.answer thread choice c = some r) (here : terminationTurns.next g c r = .removed) :
    g = .removed ∨ (s.ipc.next c r).semaphores = [] := by
  cases g with
  | waiting => cases c <;> cases here
  | removed => exact .inl rfl
  | begun semId =>
    cases c with
    | semRemove id =>
      obtain rfl : semId = some id := may
      obtain rfl : id = s.ipc.semId := named id rfl
      right
      cases steady.semaphores with
      | inl none => exact (steady.next (c := .semRemove _) trivial r).2.2 none
      | inr one =>
        have member : s.ipc.semId ∈ s.ipc.semaphores := one ▸ List.mem_singleton_self _
        have gone : r = .ok () := (Option.some.inj answered).symm.trans (if_pos member)
        rw [gone]
        change s.ipc.semaphores.erase s.ipc.semId = []
        rw [one, List.erase_cons_head]
    | get v => cases v <;> cases here
    | _ => cases here

theorem Tidy.termination {sig : Signal} (tidy : Tidy w s) (may : terminationTurns.allowed (w.cleanup sig) c)
    (answered : s.answer (.onTermination sig) choice c = some r) :
    Tidy (w.next (.onTermination sig) c r) (s.next (.onTermination sig) choice c r) := by
  have set : w.main.phase ≠ .setup := by
    by_cases waiting : w.cleanup sig = .waiting
    · rw [waiting] at may
      obtain rfl : c = .delivered := may
      refine tidy.caught fun none => ?_
      have delivered : (if sig ∈ s.control.caught then some () else Option.none) = some r := answered
      rw [none, if_neg List.not_mem_nil] at delivered
      cases delivered
    · exact tidy.begun (tidy.started sig waiting)
  have steady := tidy.steady set
  obtain ⟨still, sameId, gone⟩ := steady.next (Cleanup.may_lessen may) r
  have controls : (s.control.next (.onTermination sig) c r).terminating = true ∧
      ((s.control.next (.onTermination sig) c r).caught ≠ [] → s.control.caught ≠ []) :=
    Cleanup.control_next may (tidy.started sig)
  obtain ⟨terminating, -⟩ := controls
  constructor
  · intro running
    exact absurd (terminating.symm.trans running) (by decide)
  · exact fun _ => set
  · exact fun _ => set
  · exact fun _ => still
  · exact fun _ _ => terminating
  · intro other id here
    change id = (s.ipc.next c r).semId
    rw [sameId]
    by_cases same : other = sig
    · subst same
      rw [show (w.next (.onTermination other) c r).cleanup other = _ from Function.update_self ..] at here
      cases Cleanup.names answered here with
      | inl before => exact tidy.named other id before
      | inr found => exact found
    · rw [show (w.next (.onTermination sig) c r).cleanup other = _ from Function.update_of_ne same ..] at here
      exact tidy.named other id here
  · intro other here
    change (s.ipc.next c r).semaphores = []
    by_cases same : other = sig
    · subst same
      rw [show (w.next (.onTermination other) c r).cleanup other = _ from Function.update_self ..] at here
      cases Cleanup.removes steady may (tidy.named other) answered here with
      | inl before => exact gone (tidy.removed other before)
      | inr now => exact now
    · rw [show (w.next (.onTermination sig) c r).cleanup other = _ from Function.update_of_ne same ..] at here
      exact gone (tidy.removed other here)

theorem Handler.apart {g : Handler} (may : childTurns.allowed g c) :
    s.ipc.next c r = s.ipc ∧ (s.control.next .onChild c r).caught = s.control.caught ∧
      (s.control.next .onChild c r).terminating = s.control.terminating := by
  cases c with
  | delivered | waitpid | finished => exact ⟨rfl, rfl, rfl⟩
  | set v value =>
    cases v with
    | sessionsCleanup => exact ⟨rfl, rfl, rfl⟩
    | _ => cases g <;> cases may
  | _ => cases g <;> cases may

theorem Serving.apart {g : Serving} {pid : Int} (may : sessionTurns.allowed g c) :
    s.ipc.next c r = s.ipc ∧ (s.control.next (.session pid) c r).caught = s.control.caught ∧
      (s.control.next (.session pid) c r).terminating = s.control.terminating := by
  obtain ⟨_, session⟩ := g
  cases session with
  | none =>
    obtain rfl : c = .forked := may
    exact ⟨rfl, rfl, rfl⟩
  | some session =>
    cases c with
    | sys | getpid | close | exit => exact ⟨rfl, rfl, rfl⟩
    | _ => cases may

theorem Tidy.step (tidy : Tidy w s) {thread : Thread} (may : turns.allowed (w.ghost thread) c)
    {s' : State} (done : machine thread c choice s = some (r, s')) : Tidy (w.next thread c r) s' := by
  obtain ⟨goes, answered, rfl⟩ := machine_cases done
  cases thread with
  | main =>
    obtain ⟨-, running⟩ := State.free_of_main goes
    exact tidy.main may running
  | onTermination sig => exact tidy.termination may answered
  | onChild =>
    obtain ⟨ipc, caught, terminating⟩ := Handler.apart may
    exact tidy.of_same rfl rfl ipc caught terminating
  | session pid =>
    have apart : s.ipc.next c r = s.ipc ∧ (s.control.next (.session pid) c r).caught = s.control.caught ∧
        (s.control.next (.session pid) c r).terminating = s.control.terminating := Serving.apart may
    obtain ⟨ipc, caught, terminating⟩ := apart
    exact tidy.of_same rfl rfl ipc caught terminating
  | outside =>
    obtain rfl : c = .killed := may
    exact tidy.of_same rfl rfl rfl rfl rfl

theorem tidy_of_trace {log : List Event} {t : State} (h : Trace turns init machine boot log t) :
    Tidy (.after log) t := by
  induction h with
  | nil => exact Tidy.start
  | @snoc log t t' thread c choice r _ may _ done ih =>
    rw [World.ghostOf_eq] at may
    have next := ih.step may done
    rw [World.after, List.foldl_append]
    exact next

end resources

section replies

variable {w : World} {s : State} {choice : Choice} {c : Call} {r : c.Reply}

theorem pick_eq {possible : Int → Bool} {n : Int} (h : choice.pick possible = some (.ok n)) :
    possible n = true := by
  unfold Choice.pick at h
  split at h
  · cases h
  · split at h
    · rename_i holds
      cases h
      exact holds
    · cases h

theorem Known.expected {g : Known} (mirrored : g.ipc = s.ipc) (answered : s.answer .main choice c = some r) :
    g.expects c r := by
  cases c with
  | get v =>
    cases v with
    | semId => exact (Option.some.inj answered).symm.trans (congrArg Ipc.semId mirrored.symm)
    | sharedMemory => exact (Option.some.inj answered).symm.trans (congrArg Ipc.sharedMemory mirrored.symm)
    | _ => trivial
  | shmat shmId =>
    cases r with
    | error e => trivial
    | ok shmPtr =>
      have given : shmPtr ≠ 0 := by simpa using pick_eq answered
      exact given
  | semget =>
    cases r with
    | error e => trivial
    | ok id =>
      have given : decide (0 ≤ id ∧ id ∉ s.ipc.semaphores) = true := pick_eq answered
      exact (of_decide_eq_true given).1
  | shmRemove id =>
    intro member
    rw [mirrored] at member
    exact (Option.some.inj answered).symm.trans (if_pos member)
  | semRemove id =>
    intro member
    rw [mirrored] at member
    exact (Option.some.inj answered).symm.trans (if_pos member)
  | _ => trivial

theorem Cleanup.expected {g : Cleanup} {thread : Thread} (begun : g ≠ .waiting → s.ipc.Steady)
    (answered : s.answer thread choice c = some r) : terminationTurns.expects g c r := by
  cases g with
  | begun semId =>
    cases c with
    | get v =>
      cases v with
      | semId =>
        have found : s.ipc.semId = r := Option.some.inj answered
        exact found ▸ (begun (by simp)).semId
      | _ => trivial
    | _ => trivial
  | _ => trivial

theorem Serving.expected {g : Serving} {pid : Int} (own : g.pid = pid)
    (answered : s.answer (.session pid) choice c = some r) : sessionTurns.expects g c r := by
  obtain ⟨number, session⟩ := g
  cases c with
  | getpid =>
    have found : pid = r := Option.some.inj answered
    cases session <;> exact found.symm.trans own.symm
  | sys c =>
    cases session with
    | none => trivial
    | some session =>
      cases c with
      | shared c =>
        cases c with
        | requestTake id destUser newStatus =>
          intro taken
          obtain rfl := Option.some.inj answered
          exact Sessions.shmRequestTake_expected taken
        | _ => trivial
      | _ => trivial
  | _ => cases session <;> trivial

structure Serving.Own (g : Serving) (pid : Int) : Prop where
  number : g.pid = pid
  session : ∀ root held, g.session = some (root, held) → held.pid = pid

theorem Serving.Own.next {g : Serving} {pid : Int} (own : g.Own pid) : (sessionTurns.next g c r).Own pid := by
  obtain ⟨number, session⟩ := g
  obtain ⟨rfl, held⟩ := own
  cases session with
  | none =>
    cases c with
    | forked =>
      refine ⟨rfl, fun _ _ here => ?_⟩
      cases here
      rfl
    | _ => exact ⟨rfl, held⟩
  | some session =>
    obtain ⟨root, g⟩ := session
    cases c with
    | sys c =>
      refine ⟨rfl, fun _ _ here => ?_⟩
      cases here
      exact (Sessions.pid_next _ _ _).trans (held root g rfl)
    | _ => exact ⟨rfl, held⟩

theorem World.session_own (log : List Event) (pid : Int) : ((World.after log).session pid).Own pid := by
  have kept : ∀ (w : World) (thread : Thread) (c : Call) (r : c.Reply), (w.session pid).Own pid →
      ((w.next thread c r).session pid).Own pid := by
    intro w thread c r own
    cases thread with
    | session other =>
      change (Function.update w.session other (sessionTurns.next (w.session other) c r) pid).Own pid
      by_cases same : pid = other
      · subst same
        rw [Function.update_self]
        exact own.next
      · rw [Function.update_of_ne same]
        exact own
    | _ => exact own
  induction log using List.reverseRecOn with
  | nil =>
    refine ⟨rfl, fun _ _ here => ?_⟩
    cases here
  | append_singleton log e ih =>
    rw [World.after, List.foldl_append]
    exact kept _ _ _ _ ih

theorem meets : Meets machine turns init boot := by
  intro log t t' thread c choice r trace may done
  have tidy := tidy_of_trace trace
  rw [World.ghostOf_eq] at may ⊢
  obtain ⟨goes, answered, -⟩ := machine_cases done
  cases thread with
  | main =>
    obtain ⟨-, running⟩ := State.free_of_main goes
    exact Known.expected (tidy.mirrored running) answered
  | onTermination sig =>
    refine Cleanup.expected (fun begun => ?_) answered
    exact tidy.steady (tidy.begun (tidy.started sig begun))
  | session pid => exact Serving.expected (World.session_own log pid).number answered
  | onChild => trivial
  | outside => trivial

variable {args : Arguments} {config : Config}

theorem trace_of_reaches (h : Reaches machine (start args) config) :
    Trace turns init machine boot config.log config.state :=
  ((start_disciplined args).reaches meets rfl h).2

end replies

/-- Whenever the main process exits, from its setup, from its loop or from a handler, it has left
behind no segment, and a semaphore only where it gives up after the tables were set up. -/
theorem nothing_is_left {args : Arguments} {c : Config} (reached : Reaches machine (start args) c) :
    Every (fun _ e => ∀ code, e.act.call = .exit code → (∀ pid, e.act.pid ≠ .session pid) →
      e.after.ipc.Released code) c.log := by
  intro before e after split code exits own
  obtain ⟨trace, may, -, done⟩ := (trace_of_reaches reached).every before e after split
  obtain ⟨⟨thread, call, reply⟩, choice, s, s'⟩ := e
  obtain rfl : call = .exit code := exits
  dsimp only at trace may done own
  have tidy := tidy_of_trace trace
  rw [World.ghostOf_eq] at may
  obtain ⟨goes, answered, rfl⟩ := machine_cases done
  change s.ipc.Released code
  cases thread with
  | main =>
    obtain ⟨-, running⟩ := State.free_of_main goes
    rw [← tidy.mirrored running]
    exact may
  | onTermination sig =>
    change terminationTurns.allowed ((World.after before).cleanup sig) (.exit code) at may
    cases here : (World.after before).cleanup sig with
    | removed =>
      rw [here] at may
      obtain rfl : code = 0 := may
      have begun := tidy.started sig (by rw [here]; decide)
      refine ⟨(tidy.steady (tidy.begun begun)).segments, ?_⟩
      rw [if_neg fun h => h.1 rfl]
      exact tidy.removed sig here
    | waiting =>
      rw [here] at may
      cases may
    | begun semId =>
      rw [here] at may
      cases may
  | session pid => exact absurd rfl (own pid)
  | onChild =>
    change childTurns.allowed (World.after before).handler (.exit code) at may
    cases here : (World.after before).handler <;> rw [here] at may <;> cases may
  | outside => cases may

def calmArguments : Arguments where
  texts := Sessions.calmServer.texts
  inetAton _ := true
  rootDirectory := some (cstr "/srv")

/-- Every call succeeds, and new things get the number `n`; clients connect until there is input. -/
def calm (n : Int) (connecting : Bool) : Choice where
  number := .ok n
  group := some 1001
  reply
    | .socket (.select fds) => .ok (if connecting then fds.drop 1 else fds.take 1)
    | c => (Sessions.calm (cstr "alice") (Sessions.line .login "login alice")).reply c

def stopped : List (Thread × Choice × Nat) :=
  [(.main, calm 7 true, 40), (.onTermination .sigterm, calm 7 true, 12)]

theorem stopped_leaves_nothing : ∃ c before e after, Reaches machine (start calmArguments) c ∧
    c.log = before ++ e :: after ∧ e.act.pid = .onTermination .sigterm ∧ e.act.call = .exit 0 ∧
    e.before.ipc.semId = 7 ∧ e.after.ipc.Released 0 := by
  have ran : ((run machine stopped (start calmArguments)).bind fun c =>
      c.log[48]?.map fun e => decide (e.act.pid = .onTermination .sigterm ∧ e.act.call = .exit 0 ∧
        e.before.ipc.semId = 7)) = some true := by
    decide +kernel
  obtain ⟨c, before, e, after, reached, split, thread, exits, semId⟩ := exists_event_of_run 48
    (fun _ (e : Event) => e.act.pid = .onTermination .sigterm ∧ e.act.call = .exit 0 ∧ e.before.ipc.semId = 7) ran
  refine ⟨c, before, e, after, reached, split, thread, exits, semId, ?_⟩
  exact nothing_is_left reached before e after split 0 exits fun pid same => by
    rw [thread] at same
    cases same

end Csap.MainServer
