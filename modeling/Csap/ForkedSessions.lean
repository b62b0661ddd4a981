import Csap.StaleSessions
import Csap.Atomicity

/-! What the main process forks is the server of `ServerRuns`: the same sessions on the same tables, with
a process that collects stale ones now and then. The setup, the signals, the waiting for children and
the end of processes are steps that it does not make. -/

namespace Csap.MainServer

open Prog (iterate wp wp_bind wp_call wp_ite wp_when wp_mono Calls)
open Interleaving

section forks

variable {texts : Texts}

/-- All sessions are forked with the same settings; the ghost state is the last ones. -/
def forkTurns (texts : Texts) : Typestate Call.Reply (Option Server) where
  allowed
    | g, .fork inherited => ∀ server, g = some server → inherited.server texts 0 = server
    | _, _ => True
  expects _ _ _ := True
  next
    | _, .fork inherited, _ => some (inherited.server texts 0)
    | g, _, _ => g

@[reducible] def NoFork : Call → Prop
  | .fork _ => False
  | _ => True

theorem noFork_of_quiet (c : Call) (h : Quiet c) : NoFork c := by
  cases c with
  | fork inherited => cases h
  | _ => trivial

theorem wp_noFork {α : Type} {p : Main α} {g : Option Server} {Q : α → Option Server → Prop}
    (h : p.Calls NoFork) (hQ : ∀ a, Q a g) : wp (forkTurns texts) p Q g := by
  apply h.wp
  · intro c none
    cases c with
    | fork inherited => cases none
    | _ => exact ⟨trivial, fun _ => rfl⟩
  · exact hQ

theorem exit_noFork {α : Type} (code : Int) : (exit code : Main α).Calls NoFork :=
  Calls.bind (Calls.perform trivial) fun _ => Calls.iterate fun _ => Calls.pure _

theorem setupShmem_noFork (ownerGid : Int) : (setupShmem ownerGid).Calls NoFork := by
  unfold setupShmem undoSetup ownSemaphore
  repeat' with_reducible first
    | exact Calls.pure _
    | exact Calls.perform trivial
    | refine Calls.bind ?_ fun _ => ?_
    | split

theorem setupSignalHandler_noFork : setupSignalHandler.Calls NoFork := by
  unfold setupSignalHandler
  apply Calls.bind (Calls.perform trivial)
  intro caught
  split
  · exact exit_noFork 1
  · exact Calls.pure _

theorem cleanupIpc_noFork : cleanupIpc.Calls NoFork := by
  unfold cleanupIpc cleanupShmem
  repeat' with_reducible first
    | exact Calls.pure _
    | exact Calls.perform trivial
    | refine Calls.bind ?_ fun _ => ?_
    | refine Calls.when ?_

theorem collectStaleSessions_noFork : collectStaleSessions.Calls NoFork := by
  unfold collectStaleSessions
  repeat' with_reducible first
    | exact Calls.pure _
    | exact Calls.perform trivial
    | refine Calls.bind ?_ fun _ => ?_
    | refine Calls.when ?_
    | split

theorem handleInput_noFork : handleInput.Calls NoFork := by
  unfold handleInput waitForChildren
  repeat' with_reducible first
    | exact Calls.pure _
    | exact Calls.perform trivial
    | refine Calls.iterate fun _ => ?_
    | refine Calls.bind ?_ fun _ => ?_
    | split

def Forks (server : Server) (g : Option Server) : Prop := g = none ∨ g = some server

theorem wp_round_forks {inherited : Inherited} {g : Option Server}
    (forks : Forks (inherited.server texts 0) g) : wp (forkTurns texts) (round inherited)
      (fun _ g => Forks (inherited.server texts 0) g) g := by
  unfold round
  apply wp_call trivial
  intro sessionsCleanup _
  apply wp_bind.mpr
  apply wp_noFork (Calls.when collectStaleSessions_noFork)
  intro _
  apply wp_call trivial
  intro ready _
  cases ready with
  | error e => exact wp_ite.mpr ⟨fun _ => forks, fun _ => forks⟩
  | ok readfds =>
  apply wp_bind.mpr
  apply wp_mono (Q := fun _ g => Forks (inherited.server texts 0) g)
  · exact wp_ite.mpr ⟨fun _ => wp_noFork handleInput_noFork fun _ => forks, fun _ => forks⟩
  intro r g forks
  cases r with
  | some ended => exact forks
  | none =>
  apply wp_bind.mpr
  apply wp_when.mpr
  refine ⟨fun _ => ?_, fun _ => forks⟩
  unfold acceptConnection
  apply wp_call trivial
  intro clientSocket _
  cases clientSocket with
  | error e => exact forks
  | ok clientSocket =>
  apply wp_call
  · intro server last
    cases forks with
    | inl none =>
      rw [none] at last
      cases last
    | inr same =>
      rw [same] at last
      cases last
      rfl
  intro _ _
  exact wp_noFork (Calls.bind (Calls.perform trivial) fun _ => Calls.pure _) fun _ => .inr rfl

theorem wp_main_forks (args : Arguments) : wp (forkTurns texts) (main args) (fun _ _ => True) none := by
  unfold main
  cases args.rootDirectory with
  | none => exact wp_noFork (exit_noFork 1) fun _ => trivial
  | some argument =>
  apply wp_bind.mpr
  apply wp_noFork ((createRootDirectory_quiet _).mono noFork_of_quiet)
  intro rootDirectory
  apply wp_call trivial
  intro _ _
  apply wp_bind.mpr
  apply wp_noFork (setupServerGid_quiet.mono noFork_of_quiet)
  intro serverGid
  cases serverGid with
  | none => exact wp_noFork (exit_noFork 1) fun _ => trivial
  | some serverGid =>
  apply wp_bind.mpr
  apply wp_noFork (setupShmem_noFork serverGid)
  intro made
  cases made with
  | error e => exact wp_noFork (exit_noFork 1) fun _ => trivial
  | ok _ =>
  apply wp_bind.mpr
  apply wp_noFork setupSignalHandler_noFork
  intro _
  apply wp_call trivial
  intro _ _
  apply wp_call trivial
  intro _ _
  apply wp_bind.mpr
  apply wp_noFork (setupUnprivilegedUser_quiet.mono noFork_of_quiet)
  intro unpriv
  apply wp_bind.mpr
  apply wp_noFork ((startServer_quiet args).mono noFork_of_quiet)
  intro listening
  apply wp_bind.mpr
  apply Prog.wp_iterate fun _ g =>
    Forks (Inherited.server texts ⟨rootDirectory, serverGid, unpriv.1, unpriv.2, listening, -1⟩ 0) g
  · exact .inl rfl
  · intro _ g forks
    apply wp_mono (wp_round_forks forks)
    intro r g forks
    cases r with
    | inl _ => exact forks
    | inr _ =>
    apply wp_noFork
    · apply Calls.bind cleanupIpc_noFork
      intro _
      apply Calls.bind (Calls.bind (Calls.perform trivial) fun _ => Calls.pure _)
      intro _
      exact exit_noFork 0
    · exact fun _ => trivial

theorem start_forks (args : Arguments) : Disciplined (forkTurns texts) (fun _ => none) (start args) := by
  intro thread
  cases thread with
  | main => exact wp_main_forks args
  | onChild =>
    apply wp_noFork
    · apply Calls.iterate
      intro _
      apply Calls.bind (Calls.perform trivial)
      intro _
      apply Calls.bind
      · apply Calls.iterate
        intro _
        apply Calls.bind (Calls.perform trivial)
        intro _
        split
        · exact Calls.bind (Calls.perform trivial) fun _ => Calls.pure _
        · exact Calls.pure _
      · intro _
        exact Calls.bind (Calls.perform trivial) fun _ => Calls.pure _
    · exact fun _ => trivial
  | onTermination sig =>
    apply wp_noFork
    · apply Calls.bind (Calls.perform trivial)
      intro _
      apply Calls.bind cleanupIpc_noFork
      intro _
      apply Calls.bind (Calls.perform trivial)
      intro _
      apply Calls.bind (Calls.perform trivial)
      intro _
      exact exit_noFork 0
    · exact fun _ => trivial
  | session pid =>
    apply wp_noFork
    · apply Calls.bind (Calls.perform trivial)
      intro inherited
      apply Calls.bind (Calls.perform trivial)
      intro number
      apply Calls.bind (Calls.bind (Calls.perform trivial) fun _ => Calls.pure _)
      intro _
      apply Calls.bind (Calls.embed (Calls.trivial _))
      intro _
      exact exit_noFork 0
    · exact fun _ => trivial
  | outside =>
    apply wp_noFork
    · apply Calls.iterate
      intro _
      exact Calls.bind (Calls.perform trivial) fun _ => Calls.pure _
    · exact fun _ => trivial

theorem forks_of_reaches {args : Arguments} {c : Config} (h : Reaches machine (start args) c) :
    Trace (forkTurns texts) (fun _ => none) machine boot c.log c.state :=
  ((start_forks args).reaches (fun _ _ _ => trivial) rfl h).2

theorem server_kept {server : Server} {c : Call} {r : c.Reply}
    (may : (forkTurns texts).allowed (some server) c) :
    (forkTurns texts).next (some server) c r = some server := by
  cases c with
  | fork inherited => exact congrArg some (may server rfl)
  | _ => rfl

theorem forks_alike {log : List Event} {s : State}
    (h : Trace (forkTurns texts) (fun _ => none) machine boot log s) : ∀ e ∈ log, ∀ inherited,
      e.act.pid = .main → e.act.call = .fork inherited →
      ghostOf (forkTurns texts) (fun _ => none) .main log = some (inherited.server texts 0) := by
  induction h with
  | nil =>
    intro e member
    cases member
  | @snoc log t t' thread c choice r _ may _ done ih =>
    intro e member inherited mine forks
    rw [ghostOf_append]
    rcases List.mem_append.mp member with old | new
    · have before := ih e old inherited mine forks
      split_ifs with main
      · dsimp only at main
        rw [main, before] at may
        rw [before]
        exact server_kept may
      · exact before
    · obtain rfl := List.mem_singleton.mp new
      obtain rfl : thread = .main := mine
      obtain rfl : c = .fork inherited := forks
      rw [if_pos rfl]
      rfl

end forks

section born

structure Born (log : List Event) (s : State) : Prop where
  positive : ∀ pid, s.children.status pid ≠ .unborn → 0 < pid
  forked : ∀ pid, s.children.status pid ≠ .unborn →
    ∃ e ∈ log, e.act.pid = .main ∧ e.act.call = .fork (s.inherited pid)
  entered : ∀ e ∈ s.mem.sessionTable.live, e.inUse = true → s.children.status e.pid ≠ .unborn
  zeroed : (World.after log).main.phase = .setup → s.mem = Csap.setupShmem

variable {log : List Event} {s : State} {thread : Thread} {choice : Choice} {c : Call} {r : c.Reply}

theorem born_of_next {pid : Int} (answered : s.answer thread choice c = some r)
    (running : ∀ number, thread = .session number → s.children.status number = .running)
    (born : (s.next thread choice c r).children.status pid ≠ .unborn) :
    (s.children.status pid ≠ .unborn ∧ (s.next thread choice c r).inherited pid = s.inherited pid) ∨
      0 < pid ∧ c = .fork ((s.next thread choice c r).inherited pid) := by
  have become : ∀ {number : Int} {st : Status}, s.children.status number ≠ .unborn →
      (s.children.become number st).status pid ≠ .unborn → s.children.status pid ≠ .unborn := by
    intro number st known born
    rw [Children.status_become] at born
    split_ifs at born with same
    · rw [same]
      exact known
    · exact born
  cases c with
  | fork inherited =>
    cases r with
    | error e => exact .inl ⟨born, rfl⟩
    | ok number =>
      have possible := pick_eq answered
      simp only [decide_eq_true_eq] at possible
      change (s.children.become number .running).status pid ≠ .unborn at born
      rw [Children.status_become] at born
      by_cases same : pid = number
      · subst same
        refine .inr ⟨possible.1, ?_⟩
        exact congrArg Call.fork (if_pos rfl).symm
      · rw [if_neg same] at born
        exact .inl ⟨born, if_neg same⟩
  | killed =>
    have here : s.children.status r = .running := by
      simp only [State.answer] at answered
      split at answered
      · split_ifs at answered with here
        cases answered
        exact here
      · cases answered
    exact .inl ⟨become (by rw [here]; decide) born, rfl⟩
  | waitpid nohang =>
    refine .inl ⟨?_, rfl⟩
    change (if s.children.status r = .ended then s.children.become r .waitedFor else s.children).status pid ≠ _ at born
    split_ifs at born with here
    · exact become (by rw [here]; decide) born
    · exact born
  | exit code =>
    cases thread with
    | session number => exact .inl ⟨become (by rw [running number rfl]; decide) born, rfl⟩
    | _ => exact .inl ⟨born, rfl⟩
  | _ => exact .inl ⟨born, rfl⟩

theorem born_stays {pid : Int} (born : s.children.status pid ≠ .unborn) :
    (s.next thread choice c r).children.status pid ≠ .unborn := by
  have become : ∀ {number : Int} {st : Status}, st ≠ .unborn →
      (s.children.become number st).status pid ≠ .unborn := by
    intro number st other
    rw [Children.status_become]
    split_ifs
    · exact other
    · exact born
  cases c with
  | fork inherited =>
    cases r with
    | error e => exact born
    | ok number => exact become (by decide)
  | killed => exact become (by decide)
  | waitpid nohang =>
    change (if s.children.status r = .ended then s.children.become r .waitedFor else s.children).status pid ≠ _
    split_ifs
    · exact become (by decide)
    · exact born
  | exit code =>
    cases thread with
    | session number => exact become (by decide)
    | _ => exact born
  | _ => exact born

theorem forks_main {w : World} {inherited : Inherited} (may : turns.allowed (w.ghost thread) (.fork inherited)) :
    thread = .main := by
  cases thread with
  | main => rfl
  | onChild =>
    change childTurns.allowed w.handler _ at may
    cases here : w.handler <;> rw [here] at may <;> cases may
  | onTermination sig =>
    change terminationTurns.allowed (w.cleanup sig) _ at may
    cases here : w.cleanup sig <;> rw [here] at may <;> cases may
  | session pid =>
    change sessionTurns.allowed (w.session pid) _ at may
    cases here : (w.session pid).session <;> simp only [sessionTurns, here] at may
    cases may
  | outside => cases may

theorem shared_cases {w : World} {sc : SharedCall} (may : turns.allowed (w.ghost thread) (.sys (.shared sc))) :
    (thread = .main ∧ w.main.phase = .cleared ∧ sc = .sessionsCollectStale) ∨ ∃ pid, thread = .session pid := by
  cases thread with
  | main =>
    cases sc with
    | sessionsCollectStale => exact .inl ⟨rfl, may, rfl⟩
    | _ => cases may
  | onChild =>
    change childTurns.allowed w.handler _ at may
    cases here : w.handler <;> rw [here] at may <;> cases may
  | onTermination sig =>
    change terminationTurns.allowed (w.cleanup sig) _ at may
    cases here : w.cleanup sig <;> rw [here] at may <;> cases may
  | session pid => exact .inr ⟨pid, rfl⟩
  | outside => cases may

theorem Born.entered_next (born : Born log s) (own : ∀ pid, ((World.after log).session pid).Own pid)
    (may : turns.allowed ((World.after log).ghost thread) c) (goes : s.blocks thread = false)
    {e : SessionEntry} (live : e ∈ (s.next thread choice c r).mem.sessionTable.live) (inUse : e.inUse = true) :
    (s.next thread choice c r).children.status e.pid ≠ .unborn := by
  cases c with
  | zeroTables =>
    change e ∈ Csap.setupShmem.sessionTable.live at live
    rw [Csap.setupShmem, SlotTable.live_zeroed] at live
    cases live
  | sys c =>
    cases c with
    | shared sc =>
      rcases live_of_atomic live inUse with old | ⟨user, rfl⟩
      · exact born_stays (born.entered e old inUse)
      · rcases shared_cases may with ⟨-, -, other⟩ | ⟨pid, rfl⟩
        · cases other
        · obtain ⟨root, held, here, entered⟩ := Serving.enters may
          have number : e.pid = pid := entered.trans ((own pid).session root held here)
          apply born_stays
          rw [number, State.running_of_session goes]
          decide
    | _ => exact born_stays (born.entered e live inUse)
  | _ => exact born_stays (born.entered e live inUse)

theorem Born.zeroed_next (born : Born log s) (watched : Watched (.after log) s)
    (may : turns.allowed ((World.after log).ghost thread) c) (goes : s.blocks thread = false)
    (setup : ((World.after log).next thread c r).main.phase = .setup) :
    (s.next thread choice c r).mem = Csap.setupShmem := by
  have before : (World.after log).main.phase = .setup := by
    by_contra set
    cases thread with
    | main => exact Known.phase_stays set setup
    | _ => exact set setup
  have zeroed := born.zeroed before
  cases c with
  | zeroTables => rfl
  | sys c =>
    cases c with
    | shared sc =>
      rcases shared_cases may with ⟨-, cleared, -⟩ | ⟨pid, rfl⟩
      · rw [before] at cleared
        cases cleared
      · have unborn := watched.unborn before pid
        rw [State.running_of_session goes] at unborn
        cases unborn
    | _ => exact zeroed
  | _ => exact zeroed

theorem born_of_trace (h : Trace turns init machine boot log s) : Born log s := by
  induction h with
  | nil =>
    refine ⟨fun pid born => absurd rfl born, fun pid born => absurd rfl born, ?_, fun _ => rfl⟩
    intro e live
    change e ∈ Csap.setupShmem.sessionTable.live at live
    rw [Csap.setupShmem, SlotTable.live_zeroed] at live
    cases live
  | @snoc log t t' thread c choice r old may _ done ih =>
    rw [World.ghostOf_eq] at may
    obtain ⟨goes, answered, rfl⟩ := machine_cases done
    have running : ∀ number, thread = .session number → t.children.status number = .running := by
      rintro number rfl
      exact State.running_of_session goes
    constructor
    · intro pid born
      rcases born_of_next answered running born with ⟨before, -⟩ | ⟨positive, -⟩
      · exact ih.positive pid before
      · exact positive
    · intro pid born
      rcases born_of_next answered running born with ⟨before, same⟩ | ⟨-, forks⟩
      · obtain ⟨e, member, mine, forked⟩ := ih.forked pid before
        rw [same]
        exact ⟨e, List.mem_append_left _ member, mine, forked⟩
      · have main : thread = .main := by
          rw [forks] at may
          exact forks_main may
        exact ⟨_, List.mem_append_right _ (List.mem_singleton_self _), main, forks⟩
    · intro e live inUse
      exact ih.entered_next (World.session_own log) may goes live inUse
    · intro setup
      rw [World.after, List.foldl_append] at setup
      exact ih.zeroed_next (watched_of_trace old) may goes setup

end born

end Csap.MainServer
