import Csap.ForkedSessions

/-! The sessions of the whole server make the same calls as those of `ServerRuns`, with the same replies
and in the same order, and find the same tables. -/

namespace Csap.MainServer

open Prog (iterate)
open Interleaving

/-- A session, and the process of the other system that does what it does. -/
inductive Serves (server : Server) (clientSocket : Int) : Main Unit → Sys Unit → Prop
  | connecting : Serves server clientSocket (connection server.texts) (serveClient server clientSocket)
  | knowing {inherited : Inherited} : inherited.server server.texts server.pid = server →
      inherited.clientSocket = clientSocket →
      Serves server clientSocket (call .getpid >>= serveConnection server.texts inherited)
        (serveClient server clientSocket)
  | closing {inherited : Inherited} : inherited.server server.texts server.pid = server →
      inherited.clientSocket = clientSocket →
      Serves server clientSocket (serveConnection server.texts inherited server.pid)
        (serveClient server clientSocket)
  | serving (p : Sys Unit) : Serves server clientSocket (sys p >>= fun _ => exit 0) p

/-- The next call of a session, which the other process makes too if it is one of `serveClient`. -/
inductive Next (server : Server) (clientSocket : Int) :
    (q : Call) → (q.Reply → Main Unit) → Sys Unit → Prop
  | forked : Next server clientSocket .forked
      (fun inherited => call .getpid >>= serveConnection server.texts inherited)
      (serveClient server clientSocket)
  | getpid {inherited : Inherited} : inherited.server server.texts server.pid = server →
      inherited.clientSocket = clientSocket →
      Next server clientSocket .getpid (serveConnection server.texts inherited)
        (serveClient server clientSocket)
  | close (fd : Int) : Next server clientSocket (.close fd)
      (fun _ => sys (serveClient server clientSocket) >>= fun _ => exit 0) (serveClient server clientSocket)
  | sys {c : Csap.Call} (k : c.Reply → Sys Unit) : Next server clientSocket (.sys c)
      (fun r => sys (k r) >>= fun _ => exit 0) (.call c k)
  | exit (k : Unit → Main Unit) : Next server clientSocket (.exit 0) k (.ret ())

section session

variable {server : Server} {clientSocket : Int} {high : Sys Unit}

theorem Serves.calls {q : Call} {k : q.Reply → Main Unit} (h : Serves server clientSocket (.call q k) high) :
    Next server clientSocket q k high := by
  generalize same : Prog.call q k = low at h
  cases h with
  | connecting =>
    cases same
    exact .forked
  | knowing settings socket =>
    cases same
    exact .getpid settings socket
  | @closing inherited settings socket =>
    have close : Next server clientSocket (.close inherited.listening) _ _ := .close inherited.listening
    subst socket
    unfold serveConnection at same
    rw [settings] at same
    cases same
    exact close
  | serving =>
    cases high with
    | ret a =>
      cases same
      exact .exit _
    | call c k =>
      cases same
      exact .sys k
    | loop s body k => cases same

theorem Serves.loops {σ β : Type} {s : σ} {body : σ → Main (σ ⊕ β)} {k : β → Main Unit}
    (h : Serves server clientSocket (.loop s body k) high) :
    ∃ (σ' β' : Type) (s' : σ') (body' : σ' → Sys (σ' ⊕ β')) (k' : β' → Sys Unit),
      high = .loop s' body' k' ∧
        Serves server clientSocket (Prog.unroll s body k) (Prog.unroll s' body' k') := by
  generalize same : Prog.loop s body k = low at h
  cases h with
  | connecting => cases same
  | knowing settings socket => cases same
  | closing settings socket => cases same
  | serving =>
    cases high with
    | ret a => cases same
    | call c k => cases same
    | loop s' body' k' =>
      cases same
      refine ⟨_, _, _, _, _, rfl, ?_⟩
      have unrolled : Serves server clientSocket _ (Prog.unroll s body' k') := .serving _
      rw [sys, Prog.embed_unroll, Prog.unroll_andThen] at unrolled
      exact unrolled

end session

/-- What the sessions, and the main process when it collects, make the tables and the rest of the system
do. -/
def visible : Event → Option Sessions.Action
  | ⟨⟨.session pid, .sys c, r⟩, _, _, _⟩ => some ⟨pid, c, r⟩
  | ⟨⟨.main, .sys (.shared c), r⟩, _, _, _⟩ => some ⟨0, .shared c, r⟩
  | _ => none

def Fits (server : Server) (clientSocket : Int → Int) (s : State) : Prop :=
  ∀ pid, s.children.status pid ≠ .unborn → (s.inherited pid).server server.texts pid = { server with pid } ∧
    (s.inherited pid).clientSocket = clientSocket pid

def Open (st : Status) : Prop := st = .unborn ∨ st = .running

structure Tracks (server : Server) (clientSocket : Int → Int) (c : Config) (c' : Sessions.Config) : Prop where
  mem : c'.state.mem = c.state.mem
  gone : ∀ pid, c'.state.gone pid = true → c.state.children.status pid = .waitedFor
  collector : c'.procs 0 = Sessions.collector
  serves : ∀ pid, 0 < pid → Open (c.state.children.status pid) →
    Serves { server with pid } (clientSocket pid) (c.procs (.session pid)) (c'.procs pid)
  seen : c.log.filterMap visible = c'.log.map (·.act)

section simulation

variable {server : Server} {clientSocket : Int → Int} {c : Config} {c' : Sessions.Config} {thread : Thread}
  {choice : Choice} {s : State}

theorem status_of_step {q : Call} {r : q.Reply} (goes : s.blocks thread = false)
    (answered : s.answer thread choice q = some r) (pid : Int) :
    (Open ((s.next thread choice q r).children.status pid) → Open (s.children.status pid)) ∧
      (s.children.status pid = .waitedFor → (s.next thread choice q r).children.status pid = .waitedFor) := by
  have become : ∀ {number : Int} {st : Status}, s.children.status number ≠ .waitedFor →
      (Open st → Open (s.children.status number)) →
      (Open ((s.children.become number st).status pid) → Open (s.children.status pid)) ∧
        (s.children.status pid = .waitedFor → (s.children.become number st).status pid = .waitedFor) := by
    intro number st before still
    rw [Children.status_become]
    split_ifs with same
    · rw [same]
      exact ⟨still, fun waited => absurd waited before⟩
    · exact ⟨id, id⟩
  cases q with
  | fork inherited =>
    cases r with
    | error e => exact ⟨id, id⟩
    | ok number =>
      have possible := pick_eq answered
      simp only [decide_eq_true_eq] at possible
      refine become ?_ fun _ => .inl possible.2
      rw [possible.2]
      decide
  | killed =>
    have here : s.children.status r = .running := by
      simp only [State.answer] at answered
      split at answered
      · split_ifs at answered with here
        cases answered
        exact here
      · cases answered
    refine become ?_ fun _ => .inr here
    rw [here]
    decide
  | waitpid nohang =>
    change (Open ((if s.children.status r = .ended then s.children.become r .waitedFor
      else s.children).status pid) → _) ∧ (_ → (if s.children.status r = .ended then
        s.children.become r .waitedFor else s.children).status pid = _)
    split_ifs with here
    · refine become ?_ fun still => ?_
      · rw [here]
        decide
      · rcases still with unborn | running
        · cases unborn
        · cases running
    · exact ⟨id, id⟩
  | exit code =>
    cases thread with
    | session number =>
      have here := State.running_of_session goes
      refine become ?_ fun _ => .inr here
      rw [here]
      decide
    | _ => exact ⟨id, id⟩
  | _ => exact ⟨id, id⟩

theorem Fits.before {q : Call} {r : q.Reply} (answered : s.answer thread choice q = some r)
    (fits : Fits server clientSocket (s.next thread choice q r)) : Fits server clientSocket s := by
  intro pid born
  have stays : (s.next thread choice q r).children.status pid ≠ .unborn := born_stays born
  have same : (s.next thread choice q r).inherited pid = s.inherited pid := by
    cases q with
    | fork inherited =>
      cases r with
      | error e => rfl
      | ok number =>
        have possible := pick_eq answered
        simp only [decide_eq_true_eq] at possible
        refine if_neg fun equal => born ?_
        rw [equal, possible.2]
    | _ => rfl
  have settings := fits pid stays
  rwa [same] at settings

theorem tracks_stay {p : Main Unit} {s' : State} {e : Event} (tracks : Tracks server clientSocket c c')
    (hidden : visible e = none) (mem : s'.mem = c.state.mem)
    (status : ∀ pid, (Open (s'.children.status pid) → Open (c.state.children.status pid)) ∧
      (c.state.children.status pid = .waitedFor → s'.children.status pid = .waitedFor))
    (serves : ∀ pid, 0 < pid → thread = .session pid → Open (s'.children.status pid) →
      Serves { server with pid } (clientSocket pid) p (c'.procs pid)) :
    Tracks server clientSocket { state := s', procs := c.become thread p, log := c.log ++ [e] } c' where
  mem := tracks.mem.trans mem.symm
  gone pid ended := (status pid).2 (tracks.gone pid ended)
  collector := tracks.collector
  serves pid positive still := by
    by_cases same : Thread.session pid = thread
    · change Serves _ _ (c.become thread p (.session pid)) _
      rw [same, Config.become_self]
      exact serves pid positive same.symm still
    · change Serves _ _ (c.become thread p (.session pid)) _
      rw [Config.become_of_ne _ _ same]
      exact tracks.serves pid positive ((status pid).1 still)
  seen := by
    rw [List.filterMap_append, tracks.seen]
    simp [hidden]

def outcome (s : State) (choice : Choice) : Sessions.Choice where
  sem := choice.sem
  alive pid := s.children.status pid ≠ .waitedFor
  reply := choice.reply

theorem atomic_alive {sem : SemResult} {alive alive' : Int → Bool} {mem : SharedMemory}
    (agree : ∀ e ∈ mem.sessionTable.live, e.inUse = true → alive e.pid = alive' e.pid) (sc : SharedCall) :
    Semaphore.atomic sem alive mem sc = Semaphore.atomic sem alive' mem sc := by
  cases sc with
  | sessionsCollectStale =>
    cases sem with
    | error e => rfl
    | ok _ =>
      simp only [Semaphore.atomic, shmSessionsCollectStale]
      congr 2
      apply SlotTable.mapLive_congr
      intro e live
      cases used : e.inUse with
      | false => rfl
      | true => rw [agree e live used]
  | _ => rfl

theorem sessions_machine {pid : Int} {log : List Event} {q : Csap.Call} {r : q.Reply} {t : Sessions.State}
    (born : Born log s) (answered : s.answer thread choice (.sys q) = some r) (mem : t.mem = s.mem)
    (runs : t.gone pid = false) : ∃ t', Sessions.machine pid q (outcome s choice) t = some (r, t') ∧
      t'.mem = (s.next thread choice (.sys q) r).mem ∧
      ∀ other, t'.gone other = true → t.gone other = true ∨ s.children.status other = .waitedFor := by
  have idle : ¬ t.gone pid = true := by simp [runs]
  cases q with
  | shared sc =>
    have same : Semaphore.atomic choice.sem (outcome s choice).alive t.mem sc = s.atomic choice sc := by
      rw [mem]
      apply atomic_alive
      intro e live inUse
      have known := born.entered e live inUse
      cases status : s.children.status e.pid with
      | unborn => exact absurd status known
      | _ => simp [outcome, Children.alive, status]
    obtain ⟨reply, left, gone⟩ := Semaphore.execShared_eq pid (outcome s choice) t sc
    have given : (s.atomic choice sc).1 = r := Option.some.inj answered
    refine ⟨(Sessions.execShared pid (outcome s choice) t sc).2, ?_, ?_, ?_⟩
    · refine (if_neg idle).trans (congrArg some (Prod.ext ?_ rfl))
      exact (reply.trans (congrArg Prod.fst same)).trans given
    · exact left.trans (congrArg Prod.snd same)
    · intro other ended
      rcases gone other ended with before | dead
      · exact .inl before
      · exact .inr (by simpa [outcome] using dead)
  | _ =>
    refine ⟨t, ?_, mem, fun _ gone => .inl gone⟩
    rw [← Option.some.inj answered]
    exact if_neg idle

theorem runs_of_tracks (tracks : Tracks server clientSocket c c') {pid : Int}
    (here : c.state.children.status pid ≠ .waitedFor) : c'.state.gone pid = false := by
  cases gone : c'.state.gone pid with
  | false => rfl
  | true => exact absurd (tracks.gone pid gone) here

theorem tracks_call {pid : Int} {q : Csap.Call} {r : q.Reply} {k : q.Reply → Sys Unit} {p : Main Unit}
    {procs : Int → Sys Unit} (born : Born c.log c.state)
    (answered : c.state.answer thread choice (.sys q) = some r) (tracks : Tracks server clientSocket c c')
    (ready : Reaches Sessions.machine c' { c' with procs }) (calls : procs pid = .call q k)
    (here : c.state.children.status pid ≠ .waitedFor)
    (shown : ∀ s', visible ⟨⟨thread, .sys q, r⟩, choice, c.state, s'⟩ = some ⟨pid, q, r⟩)
    (collector : Interleaving.Config.become { c' with procs } pid (k r) 0 = Sessions.collector)
    (serves : ∀ number, 0 < number → Open (c.state.children.status number) →
      Serves { server with pid := number } (clientSocket number) (c.become thread p (.session number))
        (Interleaving.Config.become { c' with procs } pid (k r) number)) :
    ∃ c₁', Reaches Sessions.machine c' c₁' ∧ Tracks server clientSocket
      { state := c.state.next thread choice (.sys q) r
        procs := c.become thread p
        log := c.log ++ [⟨⟨thread, .sys q, r⟩, choice, c.state, c.state.next thread choice (.sys q) r⟩] } c₁' := by
  obtain ⟨t', made, mem, gone⟩ := sessions_machine born answered tracks.mem (runs_of_tracks tracks here)
  have next : step Sessions.machine pid (outcome c.state choice) { c' with procs } = some
      { state := t'
        procs := Interleaving.Config.become { c' with procs } pid (k r)
        log := c'.log ++ [⟨⟨pid, q, r⟩, outcome c.state choice, c'.state, t'⟩] } := by
    unfold step
    simp only [calls, made]
  refine ⟨_, ready.step pid _ next, mem, ?_, collector, serves, ?_⟩
  · intro other ended
    rcases gone other ended with before | waited
    · exact tracks.gone other before
    · exact waited
  · rw [List.filterMap_append, List.map_append, tracks.seen]
    simp [shown]

theorem serves_become (tracks : Tracks server clientSocket c c') {pid : Int} {p : Main Unit} {p' : Sys Unit}
    (here : Serves { server with pid } (clientSocket pid) p p') (number : Int) (positive : 0 < number)
    (still : Open (c.state.children.status number)) :
    Serves { server with pid := number } (clientSocket number) (c.become (.session pid) p (.session number))
      (c'.become pid p' number) := by
  by_cases same : number = pid
  · subst same
    rw [Config.become_self, Config.become_self]
    exact here
  · have apart : Thread.session number ≠ .session pid := fun equal => same (Thread.session.inj equal)
    rw [Config.become_of_ne _ _ apart, Config.become_of_ne _ _ same]
    exact tracks.serves number positive still

theorem tracks_session {pid : Int} {q : Call} {r : q.Reply} {k : q.Reply → Main Unit} (born : Born c.log c.state)
    (goes : c.state.blocks (.session pid) = false) (answered : c.state.answer (.session pid) choice q = some r)
    (fits : Fits server clientSocket c.state) (tracks : Tracks server clientSocket c c')
    (current : c.procs (.session pid) = .call q k) :
    ∃ c₁', Reaches Sessions.machine c' c₁' ∧ Tracks server clientSocket
      { state := c.state.next (.session pid) choice q r
        procs := c.become (.session pid) (k r)
        log := c.log ++ [⟨⟨.session pid, q, r⟩, choice, c.state, c.state.next (.session pid) choice q r⟩] } c₁' := by
  have running := State.running_of_session goes
  have known : c.state.children.status pid ≠ .unborn := by
    rw [running]
    decide
  have positive := born.positive pid known
  have serves := tracks.serves pid positive (.inr running)
  have status := status_of_step goes answered
  rw [current] at serves
  have next := serves.calls
  generalize other : c'.procs pid = high at next
  cases next with
  | forked =>
    obtain ⟨settings, socket⟩ := fits pid known
    have found : c.state.inherited pid = r := Option.some.inj answered
    rw [found] at settings socket
    refine ⟨c', .refl, tracks_stay tracks rfl rfl status ?_⟩
    intro number _ same _
    cases same
    rw [other]
    exact .knowing settings socket
  | getpid settings socket =>
    have found : pid = r := Option.some.inj answered
    refine ⟨c', .refl, tracks_stay tracks rfl rfl status ?_⟩
    intro number _ same _
    cases same
    rw [other, ← found]
    exact .closing settings socket
  | close fd =>
    refine ⟨c', .refl, tracks_stay tracks rfl rfl status ?_⟩
    intro number _ same _
    cases same
    rw [other]
    exact .serving _
  | sys k =>
    apply tracks_call born answered tracks .refl other
    · rw [running]
      decide
    · exact fun _ => rfl
    · exact (Interleaving.Config.become_of_ne c' _ positive.ne).trans tracks.collector
    · exact serves_become tracks (.serving _)
  | exit k =>
    refine ⟨c', .refl, tracks_stay tracks rfl rfl status ?_⟩
    intro number _ same still
    cases same
    change Open ((c.state.children.become pid .ended).status pid) at still
    rw [Children.status_become, if_pos rfl] at still
    rcases still with unborn | runs
    · cases unborn
    · cases runs

theorem tracks_collect {r : Int} {p : Main Unit} (born : Born c.log c.state)
    (answered : c.state.answer .main choice (.sys (.shared .sessionsCollectStale)) = some r)
    (tracks : Tracks server clientSocket c c') :
    ∃ c₁', Reaches Sessions.machine c' c₁' ∧ Tracks server clientSocket
      { state := c.state.next .main choice (.sys (.shared .sessionsCollectStale)) r
        procs := c.become .main p
        log := c.log ++ [⟨⟨.main, .sys (.shared .sessionsCollectStale), r⟩, choice, c.state,
          c.state.next .main choice (.sys (.shared .sessionsCollectStale)) r⟩] } c₁' := by
  have unborn : c.state.children.status 0 = .unborn := by
    by_contra known
    exact absurd (born.positive 0 known) (lt_irrefl 0)
  have again : step Sessions.machine 0 (outcome c.state choice) c' = some { c' with
      procs := c'.become 0 (Prog.call (.shared .sessionsCollectStale) fun _ => Sessions.collector) } := by
    unfold step
    rw [tracks.collector]
    rfl
  apply tracks_call born answered tracks (Reaches.refl.step 0 _ again) (Config.become_self ..)
  · rw [unborn]
    decide
  · exact fun _ => rfl
  · exact Config.become_self ..
  · intro number positive still
    have apart : Thread.session number ≠ .main := by simp
    rw [Config.become_of_ne _ _ apart, Config.become_of_ne _ _ positive.ne']
    change Serves _ _ _ (c'.become 0 _ number)
    rw [Config.become_of_ne _ _ positive.ne']
    exact tracks.serves number positive still

theorem tracks_main {q : Call} {r : q.Reply} {p : Main Unit} (born : Born c.log c.state)
    (may : (World.after c.log).main.may q) (goes : c.state.blocks .main = false)
    (answered : c.state.answer .main choice q = some r) (tracks : Tracks server clientSocket c c') :
    ∃ c₁', Reaches Sessions.machine c' c₁' ∧ Tracks server clientSocket
      { state := c.state.next .main choice q r
        procs := c.become .main p
        log := c.log ++ [⟨⟨.main, q, r⟩, choice, c.state, c.state.next .main choice q r⟩] } c₁' := by
  have status := status_of_step goes answered
  have apart : ∀ pid, 0 < pid → Thread.main = .session pid → Open ((c.state.next .main choice q r).children.status pid) →
      Serves { server with pid } (clientSocket pid) p (c'.procs pid) := by
    intro pid _ same
    cases same
  cases q with
  | sys q =>
    cases q with
    | shared sc =>
      cases sc with
      | sessionsCollectStale => exact tracks_collect born answered tracks
      | _ => cases may
    | _ => exact ⟨c', .refl, tracks_stay tracks rfl rfl status apart⟩
  | zeroTables => exact ⟨c', .refl, tracks_stay tracks rfl (born.zeroed may).symm status apart⟩
  | _ => exact ⟨c', .refl, tracks_stay tracks rfl rfl status apart⟩

theorem hidden_apart {w : World} {q : Call} (may : turns.allowed (w.ghost thread) q) (main : thread ≠ .main)
    (session : ∀ pid, thread ≠ .session pid) (r : q.Reply) :
    (∀ s s', visible ⟨⟨thread, q, r⟩, choice, s, s'⟩ = none) ∧ ∀ s : State, (s.next thread choice q r).mem = s.mem := by
  cases thread with
  | main => exact absurd rfl main
  | session pid => exact absurd rfl (session pid)
  | onChild =>
    refine ⟨fun _ _ => rfl, fun s => ?_⟩
    change childTurns.allowed w.handler q at may
    cases q with
    | sys | zeroTables => cases here : w.handler <;> rw [here] at may <;> cases may
    | _ => rfl
  | onTermination sig =>
    refine ⟨fun _ _ => rfl, fun s => ?_⟩
    change terminationTurns.allowed (w.cleanup sig) q at may
    cases q with
    | sys | zeroTables => cases here : w.cleanup sig <;> rw [here] at may <;> cases may
    | _ => rfl
  | outside =>
    obtain rfl : q = .killed := may
    exact ⟨fun _ _ => rfl, fun _ => rfl⟩

theorem tracks_loop {σ β : Type} {x : σ} {body : σ → Main (σ ⊕ β)} {k : β → Main Unit}
    (choice : Choice) (tracks : Tracks server clientSocket c c') (current : c.procs thread = .loop x body k) :
    ∃ c₁', Reaches Sessions.machine c' c₁' ∧
      Tracks server clientSocket { c with procs := c.become thread (Prog.unroll x body k) } c₁' := by
  by_cases session : ∃ pid, thread = .session pid ∧ 0 < pid ∧ Open (c.state.children.status pid)
  · obtain ⟨pid, rfl, positive, still⟩ := session
    have serves := tracks.serves pid positive still
    rw [current] at serves
    obtain ⟨_, _, s', body', k', loops, after⟩ := serves.loops
    have next : step Sessions.machine pid (outcome c.state choice) c' =
        some { c' with procs := c'.become pid (Prog.unroll s' body' k') } := by
      unfold step
      rw [loops]
    refine ⟨_, Reaches.refl.step pid _ next, tracks.mem, tracks.gone, ?_, serves_become tracks after, tracks.seen⟩
    exact (Interleaving.Config.become_of_ne c' _ positive.ne).trans tracks.collector
  · refine ⟨c', .refl, tracks.mem, tracks.gone, tracks.collector, ?_, tracks.seen⟩
    intro number positive still
    have apart : Thread.session number ≠ thread := fun same => session ⟨number, same.symm, positive, still⟩
    change Serves _ _ (c.become thread _ (.session number)) _
    rw [Config.become_of_ne _ _ apart]
    exact tracks.serves number positive still

end simulation

/-- What the server does on its tables, it does in the other system too, where the sessions that are
forked are there from the beginning. -/
theorem tracks_of_reaches {args : Arguments} {c : Config} (reached : Reaches machine (start args) c)
    {server : Server} (texts : server.texts = args.texts) {clientSocket : Int → Int}
    (fits : Fits server clientSocket c.state) : ∃ c', Reaches Sessions.machine
      (Sessions.start server 0 clientSocket) c' ∧ Tracks server clientSocket c c' := by
  induction reached with
  | refl =>
    refine ⟨_, .refl, rfl, fun _ gone => (by cases gone), by simp [Sessions.start], ?_, rfl⟩
    intro pid positive _
    have apart : (Sessions.start server 0 clientSocket).procs pid = serveClient { server with pid } (clientSocket pid) :=
      if_neg positive.ne'
    rw [apart]
    change Serves _ _ (connection args.texts) _
    rw [← texts]
    exact .connecting
  | @step c c₁ thread choice before next ih =>
    obtain ⟨disciplined, trace⟩ := (start_disciplined args).reaches meets rfl before
    rcases step_cases next with ⟨σ, β, x, body, k, current, rfl⟩ | ⟨q, k, r, s', current, done, rfl⟩
    · obtain ⟨c', there, tracks⟩ := ih fits
      obtain ⟨c₁', further, tracks⟩ := tracks_loop choice tracks current
      exact ⟨c₁', there.trans further, tracks⟩
    · obtain ⟨goes, answered, rfl⟩ := machine_cases done
      have settled := fits.before answered
      obtain ⟨c', there, tracks⟩ := ih settled
      have may := disciplined thread
      rw [current, World.ghostOf_eq] at may
      have may := may.1
      have born := born_of_trace trace
      have followed : ∃ c₁', Reaches Sessions.machine c' c₁' ∧ Tracks server clientSocket
          { state := c.state.next thread choice q r
            procs := c.become thread (k r)
            log := c.log ++ [⟨⟨thread, q, r⟩, choice, c.state, c.state.next thread choice q r⟩] } c₁' := by
        cases thread with
        | main => exact tracks_main born may goes answered tracks
        | session pid => exact tracks_session born goes answered settled tracks current
        | _ =>
          obtain ⟨hidden, mem⟩ := hidden_apart may (by simp) (by simp) r
          refine ⟨c', .refl, tracks_stay tracks (hidden _ _) (mem _) (status_of_step goes answered) ?_⟩
          intro pid _ same
          cases same
      obtain ⟨c₁', further, tracks⟩ := followed
      exact ⟨c₁', there.trans further, tracks⟩

theorem fits_of_reaches {args : Arguments} {c : Config} (reached : Reaches machine (start args) c) :
    ∃ server clientSocket, server.texts = args.texts ∧ Fits server clientSocket c.state := by
  have born := born_of_trace (trace_of_reaches reached)
  have forks : Trace (forkTurns args.texts) (fun _ => none) machine boot c.log c.state := forks_of_reaches reached
  cases last : ghostOf (forkTurns args.texts) (fun _ => none) .main c.log with
  | none =>
    refine ⟨Inherited.server args.texts (c.state.inherited 0) 0, fun _ => 0, rfl, fun pid known => ?_⟩
    obtain ⟨e, member, mine, forked⟩ := born.forked pid known
    have same := forks_alike forks e member _ mine forked
    rw [last] at same
    cases same
  | some server =>
    have settings : ∀ pid, c.state.children.status pid ≠ .unborn →
        (c.state.inherited pid).server args.texts 0 = server := by
      intro pid known
      obtain ⟨e, member, mine, forked⟩ := born.forked pid known
      have same := forks_alike forks e member _ mine forked
      rw [last] at same
      exact (Option.some.inj same).symm
    refine ⟨{ server with texts := args.texts }, fun pid => (c.state.inherited pid).clientSocket, rfl, ?_⟩
    intro pid known
    refine ⟨?_, rfl⟩
    rw [← settings pid known]
    rfl

/-- The whole server, its main process with the handlers and the sessions it forks, makes its sessions
do what the sessions of `ServerRuns` do: every run has a run of these with the same calls, the same
replies and the same tables. -/
theorem server_runs_sessions {args : Arguments} {c : Config} (reached : Reaches machine (start args) c) :
    ∃ server clientSocket c', Reaches Sessions.machine (Sessions.start server 0 clientSocket) c' ∧
      c.log.filterMap visible = c'.log.map (·.act) ∧ c'.state.mem = c.state.mem := by
  obtain ⟨server, clientSocket, texts, fits⟩ := fits_of_reaches reached
  obtain ⟨c', there, tracks⟩ := tracks_of_reaches reached texts fits
  exact ⟨server, clientSocket, c', there, tracks.seen, tracks.mem⟩

/-- Alice's session is forked, logs in and is collected. -/
theorem killed_session_runs : ∃ c server clientSocket c', Reaches machine (start calmArguments) c ∧
    Reaches Sessions.machine (Sessions.start server 0 clientSocket) c' ∧
    c.log.filterMap visible = c'.log.map (·.act) ∧ c'.state.mem = c.state.mem ∧
    (c.log.filterMap visible).length = 24 := by
  have ran : (run machine killedSession (start calmArguments)).any (fun c =>
      decide ((c.log.filterMap visible).length = 24)) = true := by
    decide +kernel
  obtain ⟨c, reached, length⟩ := exists_of_run _ ran
  obtain ⟨server, clientSocket, c', there, seen, mem⟩ := server_runs_sessions reached
  exact ⟨c, server, clientSocket, c', reached, there, seen, mem, length⟩

end Csap.MainServer
