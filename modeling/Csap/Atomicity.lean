import Csap.CriticalSections

/-! Under one semaphore the functions of `sh_mem` are steps that nothing comes in between: what the
processes do access by access is what they do on tables that answer at once. -/

namespace Csap.Semaphore

open Prog (wp)
open Interleaving

inductive Stage (c : SharedCall)
  | waiting
  | inside (now : SharedMemory)
  | over (r : c.Reply)

/-- What a call may do that finds `start` in the segment when it gets the semaphore. It gives it back
when it has done all that the call does. -/
def holding (c : SharedCall) (start : SharedMemory) (alive : Int → Bool) :
    Typestate Call.Reply (Stage c) where
  allowed g q :=
    match g, q with
    | .waiting, .semop op => op = -1
    | .inside _, .access _ => True
    | .inside now, .semop op => op = 1 ∧ now = (atomic (.ok ()) alive start c).2
    | _, _ => False
  expects g q r :=
    match g, q, r with
    | .inside now, .access a, r => r = (exec alive now a).1
    | _, _, _ => True
  next g q r :=
    match g, q, r with
    | .waiting, .semop _, .ok _ => .inside start
    | .waiting, .semop _, .error e =>
      if e = EINTR then .waiting else .over (atomic (.error e) alive start c).1
    | .inside now, .access a, _ => .inside (exec alive now a).2
    | .inside _, .semop _, .ok _ => .over (atomic (.ok ()) alive start c).1
    | .inside now, .semop _, .error e =>
      if e = EINTR then .inside now else .over (atomic (.ok ()) alive start c).1
    | g, _, _ => g

section calls

theorem next_refused {c : SharedCall} {start : SharedMemory} {alive : Int → Bool} {op : Int} {e : Errno} :
    (holding c start alive).next .waiting (.semop op) (.error e) =
      if e = EINTR then .waiting else .over (atomic (.error e) alive start c).1 := rfl

theorem next_kept {c : SharedCall} {start now : SharedMemory} {alive : Int → Bool} {op : Int} {e : Errno} :
    (holding c start alive).next (.inside now) (.semop op) (.error e) =
      if e = EINTR then .inside now else .over (atomic (.ok ()) alive start c).1 := rfl

variable {c : SharedCall} {start mem : SharedMemory} {alive : Int → Bool} {α : Type}

theorem wp_inside {body : Shm α} {Q : α → SharedMemory → Prop} (h : wp (accessing alive) body Q mem) :
    wp (holding c start alive) (body.embed Call.access)
      (fun a g => ∃ now, g = .inside now ∧ Q a now) (.inside mem) := by
  induction body generalizing mem with
  | ret a => exact ⟨mem, rfl, h⟩
  | call a k ih =>
    refine ⟨trivial, ?_⟩
    intro r expected
    exact ih r (h.2 r expected)
  | loop s body k ihBody ih =>
    obtain ⟨J, first, round⟩ := h
    refine ⟨fun s g => ∃ now, g = .inside now ∧ J s now, ⟨mem, rfl, first⟩, ?_⟩
    intro s g inv
    obtain ⟨now, rfl, here⟩ := inv
    apply Prog.wp_mono (ihBody s (round s now here))
    intro r g kept
    obtain ⟨now, rfl, kept⟩ := kept
    cases r with
    | inl s => exact ⟨now, rfl, kept⟩
    | inr b => exact ih b kept

theorem wp_lock {Q : SemResult → Stage c → Prop} (taken : Q (.ok ()) (.inside start))
    (failed : ∀ e, Q (.error e) (.over (atomic (.error e) alive start c).1)) :
    wp (holding c start alive) semLock Q .waiting := by
  unfold semLock semop
  apply Prog.wp_iterate fun _ g => g = .waiting
  · rfl
  intro _ g inv
  obtain rfl := inv
  apply Prog.wp_call rfl
  intro r _
  cases r with
  | error e =>
    rw [next_refused]
    apply Prog.wp_ite.mpr
    refine ⟨fun interrupted => ?_, fun other => ?_⟩
    · rw [if_pos interrupted]
      rfl
    · rw [if_neg other]
      exact failed e
  | ok _ => exact taken

theorem wp_unlock {Q : SemResult → Stage c → Prop} (done : mem = (atomic (.ok ()) alive start c).2)
    (hQ : ∀ r, Q r (.over (atomic (.ok ()) alive start c).1)) :
    wp (holding c start alive) semUnlock Q (.inside mem) := by
  unfold semUnlock semop
  apply Prog.wp_iterate fun _ g => g = .inside mem
  · rfl
  intro _ g inv
  obtain rfl := inv
  have may : (holding c start alive).allowed (.inside mem) (.semop 1) := ⟨rfl, done⟩
  apply Prog.wp_call may
  intro r _
  cases r with
  | error e =>
    rw [next_kept]
    apply Prog.wp_ite.mpr
    refine ⟨fun interrupted => ?_, fun other => ?_⟩
    · rw [if_pos interrupted]
      rfl
    · rw [if_neg other]
      exact hQ _
  | ok _ => exact hQ _

theorem wp_section {p : Sem c.Reply} (h : Section c p) (start : SharedMemory) (alive : Int → Bool) :
    wp (holding c start alive) p (fun r g => g = .over r) .waiting := by
  obtain ⟨failed, body, rfl, refuses, meets⟩ := h
  apply Prog.wp_bind.mpr
  apply wp_lock
  · apply Prog.wp_bind.mpr
    apply Prog.wp_mono (wp_inside (meets alive start))
    intro r g met
    obtain ⟨now, rfl, done⟩ := met
    apply Prog.wp_bind.mpr
    apply wp_unlock
    · rw [done]
    · intro _
      rw [done]
      rfl
  · intro e
    rw [refuses]
    rfl

theorem shared_section (c : SharedCall) : Section c (shared c) := by
  cases c with
  | sessionAdd user pid => exact sessionAdd_section user pid
  | sessionFind user => exact sessionFind_section user
  | sessionsCollectStale => exact sessionsCollectStale_section
  | requestAdd srcUser destUser absPath => exact requestAdd_section srcUser destUser absPath
  | requestTake id destUser newStatus => exact requestTake_section id destUser newStatus
  | requestSet id st => exact requestSet_section id st
  | requestsSetFailed user => exact requestsSetFailed_section user
  | requestsForDest user max => exact requestsForDest_section user max

end calls

/-- What a process has found in the segment, and what it has made of it. -/
structure Held where
  start : SharedMemory
  now : SharedMemory
  alive : Int → Bool

/-- The processes of the two machines: a call on the tables counts as made when it gives the semaphore
back, or could not have it. -/
inductive Follows : Sem Unit → Sys Unit → Option Held → Prop
  | between (p : Sys Unit) : Follows (p.lower carryOut) p none
  | waiting {c : SharedCall} (k : c.Reply → Sys Unit) {rest : Sem c.Reply} :
      (∀ start alive, wp (holding c start alive) rest (fun r g => g = .over r) .waiting) →
      Follows (rest >>= fun r => (k r).lower carryOut) (.call (.shared c) k) none
  | inside {c : SharedCall} (k : c.Reply → Sys Unit) {rest : Sem c.Reply} (held : Held) :
      wp (holding c held.start held.alive) rest (fun r g => g = .over r) (.inside held.now) →
      Follows (rest >>= fun r => (k r).lower carryOut) (.call (.shared c) k) (some held)
  | leaving {c : SharedCall} (k : c.Reply → Sys Unit) {rest : Sem c.Reply} {r : c.Reply}
      {start : SharedMemory} {alive : Int → Bool} :
      wp (holding c start alive) rest (fun r g => g = .over r) (.over r) →
      Follows (rest >>= fun r => (k r).lower carryOut) (k r) none

section steps

variable {α β σ : Type} {low : Sem Unit} {high : Sys Unit} {held : Option Held} {s : σ}
  {body : σ → Sem (σ ⊕ β)} {k : β → Sem Unit}

theorem loop_of_bind {rest : Sem α} {f : α → Sem Unit} (h : rest >>= f = .loop s body k) :
    (∃ a, rest = .ret a ∧ f a = .loop s body k) ∨
      ∃ k', rest = .loop s body k' ∧ k = fun b => k' b >>= f := by
  cases rest with
  | ret a => exact .inl ⟨a, rfl, h⟩
  | call q k' => cases h
  | loop s' body' k' =>
    cases h
    exact .inr ⟨k', rfl, rfl⟩

theorem unrolls_between {p : Sys Unit} (h : p.lower carryOut = .loop s body k) :
    (∃ (σ' β' : Type) (s' : σ') (body' : σ' → Sys (σ' ⊕ β')) (k' : β' → Sys Unit),
      p = .loop s' body' k' ∧ Follows (Prog.unroll s body k) (Prog.unroll s' body' k') none) ∨
    Follows (Prog.unroll s body k) p none := by
  cases p with
  | ret a => cases h
  | loop s' body' k' =>
    cases h
    refine .inl ⟨_, _, _, _, _, rfl, ?_⟩
    rw [← Prog.lower_unroll]
    exact .between _
  | call c k0 =>
    cases c with
    | shared c =>
      have waits : ∀ start alive, wp (holding c start alive) (carryOut (.shared c))
          (fun r g => g = .over r) .waiting := wp_section (shared_section c)
      rcases loop_of_bind h with ⟨a, ended, -⟩ | ⟨k', loops, rfl⟩
      · rw [ended] at waits
        cases waits setupShmem fun _ => true
      · rw [loops] at waits
        refine .inr ?_
        rw [← Prog.unroll_andThen]
        exact .waiting k0 fun start alive => Prog.wp_unroll (waits start alive)
    | _ => cases h

theorem Follows.unrolls (h : Follows (.loop s body k) high held) :
    (∃ (σ' β' : Type) (s' : σ') (body' : σ' → Sys (σ' ⊕ β')) (k' : β' → Sys Unit),
      high = .loop s' body' k' ∧ Follows (Prog.unroll s body k) (Prog.unroll s' body' k') held) ∨
    Follows (Prog.unroll s body k) high held := by
  generalize same : Prog.loop s body k = low at h
  cases h with
  | between p => exact unrolls_between same.symm
  | waiting k0 waits =>
    rcases loop_of_bind same.symm with ⟨a, rfl, -⟩ | ⟨k', rfl, rfl⟩
    · cases waits setupShmem fun _ => true
    · refine .inr ?_
      rw [← Prog.unroll_andThen]
      exact .waiting k0 fun start alive => Prog.wp_unroll (waits start alive)
  | inside k0 held holds =>
    rcases loop_of_bind same.symm with ⟨a, rfl, -⟩ | ⟨k', rfl, rfl⟩
    · cases holds
    · refine .inr ?_
      rw [← Prog.unroll_andThen]
      exact .inside k0 held (Prog.wp_unroll holds)
  | leaving k0 leaves =>
    rcases loop_of_bind same.symm with ⟨a, rfl, loops⟩ | ⟨k', rfl, rfl⟩
    · cases leaves
      exact unrolls_between loops
    · refine .inr ?_
      rw [← Prog.unroll_andThen]
      exact .leaving k0 (Prog.wp_unroll leaves)

theorem call_of_bind {q : Call} {k : q.Reply → Sem Unit} {rest : Sem α} {f : α → Sem Unit}
    (h : rest >>= f = .call q k) :
    (∃ a, rest = .ret a ∧ f a = .call q k) ∨
      ∃ k', rest = .call q k' ∧ k = fun r => k' r >>= f := by
  cases rest with
  | ret a => exact .inl ⟨a, rfl, h⟩
  | call q' k' =>
    cases h
    exact .inr ⟨k', rfl, rfl⟩
  | loop s body k' => cases h

inductive Next : (q : Call) → (q.Reply → Sem Unit) → Sys Unit → Option Held → Prop
  | plain {c : Csap.Call} (k : c.Reply → Sys Unit) (other : ∀ c', c ≠ .shared c') :
      Next (.sys c) (fun r => (k r).lower carryOut) (.call c k) none
  | waiting {c : SharedCall} (k : c.Reply → Sys Unit) {q : Call} (rest : q.Reply → Sem c.Reply) :
      (∀ start alive, wp (holding c start alive) (.call q rest) (fun r g => g = .over r) .waiting) →
      Next q (fun r => rest r >>= fun r => (k r).lower carryOut) (.call (.shared c) k) none
  | inside {c : SharedCall} (k : c.Reply → Sys Unit) (held : Held) {q : Call} (rest : q.Reply → Sem c.Reply) :
      wp (holding c held.start held.alive) (.call q rest) (fun r g => g = .over r) (.inside held.now) →
      Next q (fun r => rest r >>= fun r => (k r).lower carryOut) (.call (.shared c) k) (some held)

theorem calls_between {p : Sys Unit} {q : Call} {k : q.Reply → Sem Unit}
    (h : p.lower carryOut = .call q k) : Next q k p none := by
  cases p with
  | ret a => cases h
  | loop s' body' k' => cases h
  | call c k0 =>
    cases c with
    | shared c =>
      have waits : ∀ start alive, wp (holding c start alive) (carryOut (.shared c))
          (fun r g => g = .over r) .waiting := wp_section (shared_section c)
      rcases call_of_bind h with ⟨a, ended, -⟩ | ⟨k', calls, rfl⟩
      · rw [ended] at waits
        cases waits setupShmem fun _ => true
      · rw [calls] at waits
        exact .waiting k0 k' waits
    | _ =>
      cases h
      exact .plain k0 (by simp)

theorem Follows.calls {q : Call} {k : q.Reply → Sem Unit} (h : Follows (.call q k) high held) :
    Next q k high held := by
  generalize same : Prog.call q k = low at h
  cases h with
  | between p => exact calls_between same.symm
  | waiting k0 waits =>
    rcases call_of_bind same.symm with ⟨a, rfl, -⟩ | ⟨k', rfl, rfl⟩
    · cases waits setupShmem fun _ => true
    · exact .waiting k0 k' waits
  | inside k0 held holds =>
    rcases call_of_bind same.symm with ⟨a, rfl, -⟩ | ⟨k', rfl, rfl⟩
    · cases holds
    · exact .inside k0 held k' holds
  | leaving k0 leaves =>
    rcases call_of_bind same.symm with ⟨a, rfl, calls⟩ | ⟨k', rfl, rfl⟩
    · cases leaves
      exact calls_between calls
    · cases leaves.1

end steps

/-- The process that holds the semaphore has found the tables as they are on the other machine. -/
structure Holds (held : Held) (s : State) (t : Sessions.State) : Prop where
  taken : s.value = 0
  start : held.start = t.mem
  now : held.now = s.mem
  alive : held.alive = s.alive
  ended : ∀ pid, held.alive pid = false → s.gone pid = true

/-- The segment is as the tables of the other machine, but for what the process has changed that holds
the semaphore. -/
structure Agree (holder : Option (Int × Held)) (s : State) (t : Sessions.State) : Prop where
  free : holder = none → s.mem = t.mem
  holds : ∀ pid held, holder = some (pid, held) → Holds held s t
  most : s.value ≤ 1
  gone : ∀ pid, t.gone pid = true → s.gone pid = true

def stageOf (holder : Option (Int × Held)) (pid : Int) : Option Held :=
  holder.bind fun h => if h.1 = pid then some h.2 else none

section agreement

variable {holder : Option (Int × Held)} {s : State} {t t' : Sessions.State} {pid other : Int} {held : Held}

theorem stageOf_some (h : stageOf holder pid = some held) : holder = some (pid, held) := by
  obtain ⟨⟨holding, found⟩, rfl, here⟩ := Option.bind_eq_some_iff.mp h
  dsimp only at here
  split_ifs at here with same
  rw [same, Option.some.inj here]

theorem stageOf_self : stageOf (some (pid, held)) pid = some held := if_pos rfl

theorem stageOf_other (apart : other ≠ pid) : stageOf (some (pid, held)) other = none :=
  if_neg (Ne.symm apart)

theorem Agree.nobody (agree : Agree holder s t) (value : s.value = 1) : holder = none := by
  cases holding : holder with
  | none => rfl
  | some found =>
    have taken := (agree.holds found.1 found.2 holding).taken
    rw [value] at taken
    cases taken

theorem Agree.acquire (agree : Agree holder s t) (value : s.value = 1) (alive : Int → Bool) :
    Agree (some (pid, ⟨t.mem, t.mem, alive⟩))
      { s with
        value := 0
        alive
        gone := fun other => s.gone other || !alive other } t where
  free none := by cases none
  holds other held here := by
    cases here
    refine ⟨rfl, rfl, (agree.free (agree.nobody value)).symm, rfl, ?_⟩
    intro other ended
    have dead : alive other = false := ended
    change (s.gone other || !alive other) = true
    rw [dead, Bool.not_false, Bool.or_true]
  most := Nat.zero_le _
  gone other gone := by
    change (s.gone other || !alive other) = true
    rw [agree.gone other gone, Bool.true_or]

theorem Agree.touch (agree : Agree (some (pid, held)) s t) (a : Access) :
    Agree (some (pid, { held with now := (exec held.alive held.now a).2 }))
      { s with mem := (exec s.alive s.mem a).2 } t where
  free none := by cases none
  holds other held' here := by
    cases here
    have holds := agree.holds pid held rfl
    refine ⟨holds.taken, holds.start, ?_, holds.alive, holds.ended⟩
    change (exec held.alive held.now a).2 = _
    rw [holds.alive, holds.now]
  most := agree.most
  gone := agree.gone

theorem Agree.release (agree : Agree (some (pid, held)) s t) {value : Nat} (most : value ≤ 1)
    (done : t'.mem = held.now)
    (gone : ∀ other, t'.gone other = true → t.gone other = true ∨ held.alive other = false) :
    Agree none { s with value } t' where
  free _ := by
    rw [done]
    exact (agree.holds pid held rfl).now.symm
  holds other held' none := by cases none
  most := most
  gone other here := by
    rcases gone other here with before | ended
    · exact agree.gone other before
    · exact (agree.holds pid held rfl).ended other ended

theorem Agree.refuse (agree : Agree holder s t) (same : t'.mem = t.mem)
    (gone : ∀ other, t'.gone other = true → t.gone other = true) : Agree holder s t' where
  free none := by rw [same, agree.free none]
  holds other held here := by
    have holds := agree.holds other held here
    exact ⟨holds.taken, by rw [same, holds.start], holds.now, holds.alive, holds.ended⟩
  most := agree.most
  gone other here := agree.gone other (gone other here)

end agreement

theorem execShared_eq (pid : Int) (choice : Sessions.Choice) (t : Sessions.State) (c : SharedCall) :
    (Sessions.execShared pid choice t c).1 = (atomic choice.sem choice.alive t.mem c).1 ∧
      (Sessions.execShared pid choice t c).2.mem = (atomic choice.sem choice.alive t.mem c).2 ∧
      ∀ other, (Sessions.execShared pid choice t c).2.gone other = true →
        t.gone other = true ∨ choice.alive other = false := by
  cases c with
  | sessionsCollectStale =>
    refine ⟨rfl, rfl, ?_⟩
    intro other gone
    rcases Bool.or_eq_true_iff.mp gone with before | ended
    · exact .inl before
    · exact .inr (by simpa using ended)
  | _ => exact ⟨rfl, rfl, fun _ gone => .inl gone⟩

theorem atomic_refused (e : Errno) (alive : Int → Bool) (mem : SharedMemory) (c : SharedCall) :
    (atomic (.error e) alive mem c).2 = mem := by
  cases c <;> rfl

/-- What can be seen of a process from outside: its other calls, with their replies. -/
def seen : Interleaving.Event Call.Reply Int State Sessions.Choice → Option Sessions.Action
  | ⟨⟨pid, .sys c, r⟩, _, _, _⟩ => some ⟨pid, c, r⟩
  | _ => none

def seenAtOnce : Sessions.Event → Option Sessions.Action
  | ⟨⟨_, .shared _, _⟩, _, _, _⟩ => none
  | e => some e.act

/-- One machine makes the same calls as the other, except for those on the tables. -/
structure Tracks (c : Config) (c' : Sessions.Config) : Prop where
  procs : ∃ holder, Agree holder c.state c'.state ∧
    ∀ pid, Follows (c.procs pid) (c'.procs pid) (stageOf holder pid)
  seen : c.log.filterMap seen = c'.log.filterMap seenAtOnce

section simulation

variable {c c₁ : Config} {c' : Sessions.Config} {pid : Int} {choice : Sessions.Choice}
  {holder : Option (Int × Held)}

theorem follows_become {holder' : Option (Int × Held)} {p : Sem Unit} {p' : Sys Unit}
    (follows : ∀ other, Follows (c.procs other) (c'.procs other) (stageOf holder other))
    (here : Follows p p' (stageOf holder' pid))
    (others : ∀ other, other ≠ pid → stageOf holder' other = stageOf holder other) (other : Int) :
    Follows (c.become pid p other) (c'.become pid p' other) (stageOf holder' other) := by
  by_cases same : other = pid
  · subst same
    rw [Config.become_self, Config.become_self]
    exact here
  · rw [Config.become_of_ne _ _ same, Config.become_of_ne _ _ same, others other same]
    exact follows other

theorem become_same (c' : Sessions.Config) (pid : Int) : c'.become pid (c'.procs pid) = c'.procs := by
  funext other
  by_cases same : other = pid
  · subst same
    rw [Config.become_self]
  · rw [Config.become_of_ne _ _ same]

theorem tracks_loop {σ β : Type} {s : σ} {body : σ → Sem (σ ⊕ β)} {k : β → Sem Unit}
    (choice : Sessions.Choice) (tracks : Tracks c c') (current : c.procs pid = .loop s body k) :
    ∃ c₁', Reaches Sessions.machine c' c₁' ∧
      Tracks { c with procs := c.become pid (Prog.unroll s body k) } c₁' := by
  obtain ⟨⟨holder, agree, follows⟩, seen⟩ := tracks
  have here := follows pid
  rw [current] at here
  rcases here.unrolls with ⟨σ', β', s', body', k', loops, after⟩ | after
  · refine ⟨{ c' with procs := c'.become pid (Prog.unroll s' body' k') }, ?_, ?_⟩
    · apply Reaches.refl.step pid choice
      unfold step
      rw [loops]
    · exact ⟨⟨holder, agree, follows_become follows after fun _ _ => rfl⟩, seen⟩
  · refine ⟨c', .refl, ?_⟩
    refine ⟨⟨holder, agree, ?_⟩, seen⟩
    have kept := follows_become follows after fun _ _ => rfl
    rw [become_same] at kept
    exact kept

section machine

variable {s s' : State} {t : Sessions.State}

theorem machine_runs {q : Call} {r : q.Reply} (done : machine pid q choice s = some (r, s')) :
    s.gone pid = false := by
  cases gone : s.gone pid with
  | false => rfl
  | true =>
    unfold machine at done
    rw [if_pos gone] at done
    cases done

theorem machine_sys {c : Csap.Call} {r : c.Reply} (other : ∀ c', c ≠ .shared c')
    (done : machine pid (.sys c) choice s = some (r, s')) (runs : ¬ t.gone pid = true) :
    s' = s ∧ Sessions.machine pid c choice t = some (r, t) := by
  have here := machine_runs done
  unfold machine at done
  rw [if_neg (by simp [here])] at done
  unfold Sessions.machine
  rw [if_neg runs]
  cases c with
  | shared c => exact absurd rfl (other c)
  | _ =>
    cases done
    exact ⟨rfl, rfl⟩

theorem machine_access {a : Access} {r : a.Reply} (done : machine pid (.access a) choice s = some (r, s')) :
    r = (exec s.alive s.mem a).1 ∧ s' = { s with mem := (exec s.alive s.mem a).2 } := by
  have here := machine_runs done
  unfold machine at done
  rw [if_neg (by simp [here])] at done
  cases done
  exact ⟨rfl, rfl⟩

theorem machine_lock {r : SemResult} (done : machine pid (.semop (-1)) choice s = some (r, s')) :
    (∃ e, r = .error e ∧ s' = s) ∨ r = .ok () ∧ 0 < s.value ∧ s' = { s with
      value := s.value - 1
      alive := choice.alive
      gone := fun other => s.gone other || !choice.alive other } := by
  have here := machine_runs done
  unfold machine at done
  rw [if_neg (by simp [here])] at done
  cases sem : choice.sem with
  | error e =>
    simp only [sem] at done
    cases done
    exact .inl ⟨e, rfl, rfl⟩
  | ok _ =>
    simp only [sem] at done
    rw [if_neg (by decide)] at done
    split_ifs at done with none
    cases done
    exact .inr ⟨rfl, Nat.pos_of_ne_zero fun zero => none (by rw [zero]; decide), rfl⟩

theorem machine_unlock {r : SemResult} (done : machine pid (.semop 1) choice s = some (r, s')) :
    (∃ e, r = .error e ∧ s' = s) ∨ r = .ok () ∧ s' = { s with value := s.value + 1 } := by
  have here := machine_runs done
  unfold machine at done
  rw [if_neg (by simp [here])] at done
  cases sem : choice.sem with
  | error e =>
    simp only [sem] at done
    cases done
    exact .inl ⟨e, rfl, rfl⟩
  | ok _ =>
    simp only [sem] at done
    cases done
    exact .inr ⟨rfl, rfl⟩

end machine

section steps

variable {holder' : Option (Int × Held)} {s' : State} {p : Sem Unit} {sc : SharedCall}
  {k' : sc.Reply → Sys Unit} {e : Interleaving.Event Call.Reply Int State Sessions.Choice}

theorem tracks_stay (follows : ∀ other, Follows (c.procs other) (c'.procs other) (stageOf holder other))
    (logs : c.log.filterMap seen = c'.log.filterMap seenAtOnce) (hidden : seen e = none)
    (agree : Agree holder' s' c'.state) (after : Follows p (c'.procs pid) (stageOf holder' pid))
    (others : ∀ other, other ≠ pid → stageOf holder' other = stageOf holder other) :
    Tracks { state := s', procs := c.become pid p, log := c.log ++ [e] } c' := by
  refine ⟨⟨holder', agree, ?_⟩, ?_⟩
  · have kept := follows_become follows after others
    rw [become_same] at kept
    exact kept
  · rw [List.filterMap_append, logs]
    simp [hidden]

/-- What the schedule has to settle for a call that is made at once. -/
def outcome (choice : Sessions.Choice) (sem : SemResult) (alive : Int → Bool) : Sessions.Choice :=
  { choice with sem, alive }

theorem tracks_call (choice : Sessions.Choice)
    (follows : ∀ other, Follows (c.procs other) (c'.procs other) (stageOf holder other))
    (logs : c.log.filterMap seen = c'.log.filterMap seenAtOnce) (hidden : seen e = none)
    (calls : c'.procs pid = .call (.shared sc) k') (runs : ¬ c'.state.gone pid = true)
    (agree : Agree holder' s' (Sessions.execShared pid choice c'.state sc).2)
    (after : Follows p (k' (Sessions.execShared pid choice c'.state sc).1) (stageOf holder' pid))
    (others : ∀ other, other ≠ pid → stageOf holder' other = stageOf holder other) :
    ∃ c₁', Reaches Sessions.machine c' c₁' ∧
      Tracks { state := s', procs := c.become pid p, log := c.log ++ [e] } c₁' := by
  have made : Sessions.machine pid (.shared sc) choice c'.state =
      some (Sessions.execShared pid choice c'.state sc) := if_neg runs
  have next : step Sessions.machine pid choice c' = some
      { state := (Sessions.execShared pid choice c'.state sc).2
        procs := c'.become pid (k' (Sessions.execShared pid choice c'.state sc).1)
        log := c'.log ++ [⟨⟨pid, .shared sc, (Sessions.execShared pid choice c'.state sc).1⟩, choice,
          c'.state, (Sessions.execShared pid choice c'.state sc).2⟩] } := by
    unfold step
    simp only [calls, made]
  refine ⟨_, Reaches.refl.step pid choice next, ⟨holder', agree, follows_become follows after others⟩, ?_⟩
  rw [List.filterMap_append, List.filterMap_append, logs]
  simp [hidden, seenAtOnce]

theorem seenAtOnce_plain {q : Csap.Call} {r : q.Reply} {t t' : Sessions.State}
    (other : ∀ q', q ≠ .shared q') : seenAtOnce ⟨⟨pid, q, r⟩, choice, t, t'⟩ = some ⟨pid, q, r⟩ := by
  cases q with
  | shared q => exact absurd rfl (other q)
  | _ => rfl

theorem runs_of_agree {q : Call} {r : q.Reply} (agree : Agree holder c.state c'.state)
    (done : machine pid q choice c.state = some (r, s')) : ¬ c'.state.gone pid = true := by
  intro gone
  have here := machine_runs done
  rw [agree.gone pid gone] at here
  cases here

theorem tracks_plain {q : Csap.Call} {r : q.Reply} {k : q.Reply → Sys Unit}
    (agree : Agree holder c.state c'.state)
    (follows : ∀ other, Follows (c.procs other) (c'.procs other) (stageOf holder other))
    (logs : c.log.filterMap seen = c'.log.filterMap seenAtOnce)
    (calls : c'.procs pid = .call q k) (idle : stageOf holder pid = none)
    (other : ∀ q', q ≠ .shared q') (done : machine pid (.sys q) choice c.state = some (r, s')) :
    ∃ c₁', Reaches Sessions.machine c' c₁' ∧ Tracks
      { state := s'
        procs := c.become pid ((k r).lower carryOut)
        log := c.log ++ [⟨⟨pid, .sys q, r⟩, choice, c.state, s'⟩] } c₁' := by
  obtain ⟨rfl, made⟩ := machine_sys other done (runs_of_agree agree done)
  have next : step Sessions.machine pid choice c' = some
      { state := c'.state
        procs := c'.become pid (k r)
        log := c'.log ++ [⟨⟨pid, q, r⟩, choice, c'.state, c'.state⟩] } := by
    unfold step
    simp only [calls, made]
  refine ⟨_, Reaches.refl.step pid choice next, ⟨holder, agree, follows_become follows ?_ fun _ _ => rfl⟩, ?_⟩
  · rw [idle]
    exact .between _
  · rw [List.filterMap_append, List.filterMap_append, logs]
    simp [seen, seenAtOnce_plain other]

theorem tracks_waiting {q : Call} {r : q.Reply} {rest : q.Reply → Sem sc.Reply}
    (agree : Agree holder c.state c'.state)
    (follows : ∀ other, Follows (c.procs other) (c'.procs other) (stageOf holder other))
    (logs : c.log.filterMap seen = c'.log.filterMap seenAtOnce)
    (calls : c'.procs pid = .call (.shared sc) k') (idle : stageOf holder pid = none)
    (waits : ∀ start alive, wp (holding sc start alive) (.call q rest) (fun r g => g = .over r) .waiting)
    (done : machine pid q choice c.state = some (r, s')) :
    ∃ c₁', Reaches Sessions.machine c' c₁' ∧ Tracks
      { state := s'
        procs := c.become pid (rest r >>= fun r => (k' r).lower carryOut)
        log := c.log ++ [⟨⟨pid, q, r⟩, choice, c.state, s'⟩] } c₁' := by
  have runs := runs_of_agree agree done
  have may := (waits setupShmem fun _ => true).1
  cases q with
  | sys q => cases may
  | access a => cases may
  | semop op =>
  obtain rfl : op = -1 := may
  have locks : ∀ start alive, wp (holding sc start alive) (rest r) (fun r g => g = .over r)
      ((holding sc start alive).next .waiting (.semop (-1)) r) :=
    fun start alive => (waits start alive).2 r trivial
  rcases machine_lock done with ⟨e, rfl, rfl⟩ | ⟨rfl, positive, rfl⟩
  · by_cases interrupted : e = EINTR
    · have again : ∀ start alive, wp (holding sc start alive) (rest (.error e))
          (fun r g => g = .over r) .waiting := by
        intro start alive
        have next := locks start alive
        rwa [next_refused, if_pos interrupted] at next
      refine ⟨c', .refl, ?_⟩
      apply tracks_stay follows logs rfl agree
      · rw [idle, calls]
        exact .waiting k' again
      · intro _ _
        rfl
    · have failed := locks c'.state.mem fun _ => true
      rw [next_refused, if_neg interrupted] at failed
      obtain ⟨reply, mem, gone⟩ := execShared_eq pid (outcome choice (.error e) fun _ => true) c'.state sc
      apply tracks_call (outcome choice (.error e) fun _ => true) follows logs rfl calls runs
      · apply agree.refuse
        · rw [mem]
          exact atomic_refused _ _ _ _
        · intro other ended
          rcases gone other ended with before | never
          · exact before
          · cases never
      · rw [idle, reply]
        exact .leaving k' failed
      · intro _ _
        rfl
  · have value : c.state.value = 1 := le_antisymm agree.most positive
    obtain rfl := agree.nobody value
    have found := locks c'.state.mem choice.alive
    refine ⟨c', .refl, ?_⟩
    rw [value]
    apply tracks_stay follows logs rfl (agree.acquire value choice.alive)
    · rw [stageOf_self, calls]
      exact .inside k' ⟨c'.state.mem, c'.state.mem, choice.alive⟩ found
    · intro other apart
      exact stageOf_other apart

theorem tracks_inside {q : Call} {r : q.Reply} {rest : q.Reply → Sem sc.Reply} {held : Held}
    (agree : Agree (some (pid, held)) c.state c'.state)
    (follows : ∀ other, Follows (c.procs other) (c'.procs other) (stageOf (some (pid, held)) other))
    (logs : c.log.filterMap seen = c'.log.filterMap seenAtOnce)
    (calls : c'.procs pid = .call (.shared sc) k')
    (holds : wp (holding sc held.start held.alive) (.call q rest) (fun r g => g = .over r)
      (.inside held.now)) (done : machine pid q choice c.state = some (r, s')) :
    ∃ c₁', Reaches Sessions.machine c' c₁' ∧ Tracks
      { state := s'
        procs := c.become pid (rest r >>= fun r => (k' r).lower carryOut)
        log := c.log ++ [⟨⟨pid, q, r⟩, choice, c.state, s'⟩] } c₁' := by
  have runs := runs_of_agree agree done
  have segment := agree.holds pid held rfl
  have others : ∀ {held' : Held} other, other ≠ pid → stageOf (some (pid, held')) other =
      stageOf (some (pid, held)) other := by
    intro held' other apart
    rw [stageOf_other apart, stageOf_other apart]
  cases q with
  | sys q => cases holds.1
  | access a =>
    obtain ⟨read, rfl⟩ := machine_access done
    rw [← segment.alive, ← segment.now] at read
    have after := holds.2 r read
    refine ⟨c', .refl, ?_⟩
    apply tracks_stay follows logs rfl (agree.touch a)
    · rw [stageOf_self, calls]
      exact .inside k' { held with now := (exec held.alive held.now a).2 } after
    · exact others
  | semop op =>
    obtain ⟨rfl, complete⟩ : op = 1 ∧ held.now = (atomic (.ok ()) held.alive held.start sc).2 := holds.1
    have unlocks := holds.2 r trivial
    obtain ⟨reply, mem, gone⟩ := execShared_eq pid (outcome choice (.ok ()) held.alive) c'.state sc
    have whole : (Sessions.execShared pid (outcome choice (.ok ()) held.alive) c'.state sc).2.mem =
        held.now := by
      rw [mem, complete, segment.start]
      rfl
    have finish : ∀ value, value ≤ 1 → s' = { c.state with value } →
        wp (holding sc held.start held.alive) (rest r) (fun r g => g = .over r)
          (.over (atomic (.ok ()) held.alive held.start sc).1) →
        ∃ c₁', Reaches Sessions.machine c' c₁' ∧ Tracks
          { state := s'
            procs := c.become pid (rest r >>= fun r => (k' r).lower carryOut)
            log := c.log ++ [⟨⟨pid, .semop 1, r⟩, choice, c.state, s'⟩] } c₁' := by
      rintro value most rfl leaves
      apply tracks_call (outcome choice (.ok ()) held.alive) follows logs rfl calls runs
        (agree.release most whole gone)
      · rw [reply]
        rw [segment.start] at leaves
        exact .leaving k' leaves
      · intro other apart
        exact (stageOf_other apart).symm
    rcases machine_unlock done with ⟨e, rfl, rfl⟩ | ⟨rfl, rfl⟩
    · rw [next_kept] at unlocks
      by_cases interrupted : e = EINTR
      · rw [if_pos interrupted] at unlocks
        refine ⟨c', .refl, ?_⟩
        apply tracks_stay follows logs rfl agree
        · rw [stageOf_self, calls]
          exact .inside k' held unlocks
        · exact others
      · rw [if_neg interrupted] at unlocks
        exact finish c.state.value agree.most rfl unlocks
    · refine finish (c.state.value + 1) ?_ rfl unlocks
      rw [segment.taken]

end steps

/-- Every step of the machine on which the functions go access by access. -/
theorem simulates : Simulates Sessions.machine machine Tracks := by
  intro pid choice low low' high tracks next
  rcases step_cases next with ⟨σ, β, s, body, k, current, rfl⟩ | ⟨q, k, r, s', current, done, rfl⟩
  · exact tracks_loop choice tracks current
  obtain ⟨⟨holder, agree, follows⟩, logs⟩ := tracks
  have here := follows pid
  rw [current] at here
  have call := here.calls
  generalize calls : high.procs pid = p at call
  generalize staged : stageOf holder pid = stage at call
  cases call with
  | plain k' other => exact tracks_plain agree follows logs calls staged other done
  | waiting k' rest waits => exact tracks_waiting agree follows logs calls staged waits done
  | inside k' held rest holds =>
    obtain rfl := stageOf_some staged
    exact tracks_inside agree follows logs calls holds done

end simulation

theorem start_tracks (server : Server) (mainPid : Int) (clientSocket : Int → Int) :
    Tracks (start server mainPid clientSocket) (Sessions.start server mainPid clientSocket) := by
  refine ⟨⟨none, ?_, fun pid => .between _⟩, rfl⟩
  refine ⟨fun _ => rfl, ?_, le_refl _, ?_⟩
  · intro _ _ none
    cases none
  · intro _ gone
    cases gone

/-- Whatever the processes of the server do to the segment access by access, and however they are
interleaved, they make the same calls with the same replies as on tables that answer each call at once;
and whenever the semaphore is free, the segment holds these tables. -/
theorem tables_answer_at_once {server : Server} {mainPid : Int} {clientSocket : Int → Int} {c : Config}
    (reached : Reaches machine (start server mainPid clientSocket) c) :
    ∃ c', Reaches Sessions.machine (Sessions.start server mainPid clientSocket) c' ∧
      c.log.filterMap seen = c'.log.filterMap seenAtOnce ∧
      (c.state.value = 1 → c.state.mem = c'.state.mem) := by
  obtain ⟨c', reached', tracks⟩ := simulates.reaches (start_tracks server mainPid clientSocket) reached
  obtain ⟨holder, agree, -⟩ := tracks.procs
  refine ⟨c', reached', tracks.seen, ?_⟩
  intro value
  exact agree.free (agree.nobody value)

def loggingIn (user : String) : Sessions.Choice :=
  Sessions.calm (cstr user) (Sessions.line .login ("login " ++ user))

/-- While Bob's session enters itself in the table, Alice's session and the server wait for the
semaphore. -/
def loginsAtOnce : List (Int × Sessions.Choice × Nat) :=
  [(2, loggingIn "bob", 25), (3, loggingIn "alice", 21), (1, loggingIn "bob", 2),
    (2, loggingIn "bob", 4), (1, loggingIn "bob", 10), (3, loggingIn "alice", 11)]

theorem tables_answer_at_once_logins : ∃ c c',
    Reaches machine (start Sessions.calmServer 1 fun _ => 3) c ∧
      Reaches Sessions.machine (Sessions.start Sessions.calmServer 1 fun _ => 3) c' ∧
      c.log.filterMap seen = c'.log.filterMap seenAtOnce ∧ c.state.mem = c'.state.mem ∧
      c'.state.mem.sessionTable.live.map (·.pid) = [2, 3] := by
  have ran : (run machine loginsAtOnce (start Sessions.calmServer 1 fun _ => 3)).any (fun c => decide
      (c.state.value = 1 ∧ c.state.mem.sessionTable.live.map (·.pid) = [2, 3])) = true := by
    decide +kernel
  obtain ⟨c, reached, free, both⟩ := exists_of_run _ ran
  obtain ⟨c', reached', sees, same⟩ := tables_answer_at_once reached
  refine ⟨c, c', reached, reached', sees, same free, ?_⟩
  rw [← same free]
  exact both

end Csap.Semaphore
