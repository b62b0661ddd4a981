import Csap.Prog

/-! Processes that share a machine. Each runs a program; a step lets one of them
make its next call, or go round a loop, and the log records every call with its
reply and the states around it. When the programs keep to a typestate, the log is
a `Trace`: what holds in every run is shown by induction on it. -/

namespace Interleaving

/-- One atomic call of a process: `none` while it would block. The choice is what
the program cannot predict of the reply. -/
abbrev Machine {Call : Type} (Reply : Call → Type) (Pid State Choice : Type) :=
  Pid → (c : Call) → Choice → State → Option (Reply c × State)

structure Action {Call : Type} (Reply : Call → Type) (Pid : Type) where
  pid : Pid
  call : Call
  reply : Reply call

structure Event {Call : Type} (Reply : Call → Type) (Pid State Choice : Type) where
  act : Action Reply Pid
  choice : Choice
  before : State
  after : State

structure Config {Call : Type} (Reply : Call → Type) (Pid State Choice : Type) where
  state : State
  procs : Pid → Prog Reply Unit
  log : List (Event Reply Pid State Choice)

variable {Call : Type} {Reply : Call → Type} {Pid State Choice Ghost : Type} [DecidableEq Pid]

def Config.become (c : Config Reply Pid State Choice) (pid : Pid) (p : Prog Reply Unit) :
    Pid → Prog Reply Unit :=
  fun other => if other = pid then p else c.procs other

@[simp] theorem Config.become_self (c : Config Reply Pid State Choice) (pid : Pid)
    (p : Prog Reply Unit) : c.become pid p pid = p :=
  if_pos rfl

theorem Config.become_of_ne (c : Config Reply Pid State Choice) {pid other : Pid}
    (p : Prog Reply Unit) (h : other ≠ pid) : c.become pid p other = c.procs other :=
  if_neg h

section runs

variable (M : Machine Reply Pid State Choice)

/-- The next step of process `pid`; `none` if it has returned or its call blocks. -/
def step (pid : Pid) (choice : Choice) (c : Config Reply Pid State Choice) :
    Option (Config Reply Pid State Choice) :=
  match c.procs pid with
  | .ret _ => none
  | .loop s body k => some { c with procs := c.become pid (Prog.unroll s body k) }
  | .call q k =>
    match M pid q choice c.state with
    | none => none
    | some (r, state) => some
        { state
          procs := c.become pid (k r)
          log := c.log ++ [⟨⟨pid, q, r⟩, choice, c.state, state⟩] }

inductive Reaches (start : Config Reply Pid State Choice) :
    Config Reply Pid State Choice → Prop
  | refl : Reaches start start
  | step {c c' : Config Reply Pid State Choice} (pid : Pid) (choice : Choice) :
      Reaches start c → step M pid choice c = some c' → Reaches start c'

/-- Let `pid` take `n` steps. -/
def runFor (pid : Pid) (choice : Choice) :
    Nat → Config Reply Pid State Choice → Option (Config Reply Pid State Choice)
  | 0, c => some c
  | n + 1, c => (step M pid choice c).bind (runFor pid choice n)

/-- Run a schedule: who moves, with which choice, for how many steps. -/
def run : List (Pid × Choice × Nat) → Config Reply Pid State Choice →
    Option (Config Reply Pid State Choice)
  | [], c => some c
  | (pid, choice, n) :: rest, c => (runFor M pid choice n c).bind (run rest)

variable {M} {c c' : Config Reply Pid State Choice} {pid : Pid} {choice : Choice}

theorem step_cases (h : step M pid choice c = some c') :
    (∃ (σ β : Type) (s : σ) (body : σ → Prog Reply (σ ⊕ β)) (k : β → Prog Reply Unit),
      c.procs pid = .loop s body k ∧
        c' = { c with procs := c.become pid (Prog.unroll s body k) }) ∨
    ∃ q k r state, c.procs pid = .call q k ∧ M pid q choice c.state = some (r, state) ∧
      c' =
        { state
          procs := c.become pid (k r)
          log := c.log ++ [⟨⟨pid, q, r⟩, choice, c.state, state⟩] } := by
  unfold step at h
  split at h
  · cases h
  · rename_i σ β s body k current
    cases h
    exact .inl ⟨σ, β, s, body, k, current, rfl⟩
  · rename_i q k current
    split at h
    · cases h
    · rename_i r state done
      cases h
      exact .inr ⟨q, k, r, state, current, done, rfl⟩

theorem log_step (h : step M pid choice c = some c') :
    c'.log = c.log ∨ ∃ e, c'.log = c.log ++ [e] := by
  rcases step_cases h with ⟨σ, β, s, body, k, -, rfl⟩ | ⟨q, k, r, state, -, -, rfl⟩
  · exact .inl rfl
  · exact .inr ⟨_, rfl⟩

theorem Reaches.trans {a b : Config Reply Pid State Choice}
    (h : Reaches M a b) (h' : Reaches M b c) : Reaches M a c := by
  induction h' with
  | refl => exact h
  | step pid choice _ next ih => exact ih.step pid choice next

theorem reaches_runFor {n : Nat} (h : runFor M pid choice n c = some c') : Reaches M c c' := by
  induction n generalizing c with
  | zero =>
    cases h
    exact .refl
  | succ n ih =>
    obtain ⟨next, first, rest⟩ := Option.bind_eq_some_iff.mp h
    exact (Reaches.refl.step pid choice first).trans (ih rest)

theorem reaches_run {schedule : List (Pid × Choice × Nat)} (h : run M schedule c = some c') :
    Reaches M c c' := by
  induction schedule generalizing c with
  | nil =>
    cases h
    exact .refl
  | cons turn rest ih =>
    obtain ⟨next, first, last⟩ := Option.bind_eq_some_iff.mp h
    exact (reaches_runFor first).trans (ih last)

theorem exists_of_run {schedule : List (Pid × Choice × Nat)}
    (P : Config Reply Pid State Choice → Prop) [DecidablePred P]
    (h : (run M schedule c).any (fun c => decide (P c)) = true) :
    ∃ c', Reaches M c c' ∧ P c' := by
  obtain ⟨c', ran, holds⟩ := (Option.any_eq_true ..).mp h
  exact ⟨c', reaches_run ran, of_decide_eq_true holds⟩

theorem exists_event_of_run {schedule : List (Pid × Choice × Nat)} (n : Nat)
    (P : List (Event Reply Pid State Choice) → Event Reply Pid State Choice → Prop)
    [∀ before e, Decidable (P before e)]
    (h : ((run M schedule c).bind fun c => c.log[n]?.map fun e => decide (P (c.log.take n) e)) =
      some true) :
    ∃ c' before e after, Reaches M c c' ∧ c'.log = before ++ e :: after ∧ P before e := by
  obtain ⟨c', ran, found⟩ := Option.bind_eq_some_iff.mp h
  obtain ⟨e, here, holds⟩ := Option.map_eq_some_iff.mp found
  refine ⟨c', c'.log.take n, e, c'.log.drop (n + 1), reaches_run ran, ?_, of_decide_eq_true holds⟩
  obtain ⟨bound, rfl⟩ := List.getElem?_eq_some_iff.mp here
  rw [List.getElem_cons_drop, List.take_append_drop]

end runs

section history

variable {ε : Type}

/-- Every entry of the log is related to what came before it. -/
def Every (P : List ε → ε → Prop) (log : List ε) : Prop :=
  ∀ before e after, log = before ++ e :: after → P before e

variable {P : List ε → ε → Prop} {log : List ε} {e : ε}

theorem every_nil : Every P [] := by
  intro before e after h
  simp at h

theorem append_singleton_split {before after : List ε} {e' : ε}
    (h : log ++ [e] = before ++ e' :: after) :
    (before = log ∧ e' = e ∧ after = []) ∨
      ∃ rest, after = rest ++ [e] ∧ log = before ++ e' :: rest := by
  rcases List.eq_nil_or_concat after with rfl | ⟨rest, last, rfl⟩
  · obtain ⟨rfl, same⟩ := List.append_inj' h rfl
    cases same
    exact .inl ⟨rfl, rfl, rfl⟩
  · rw [List.concat_eq_append, ← List.cons_append, ← List.append_assoc] at h
    obtain ⟨rfl, same⟩ := List.append_inj' h rfl
    cases same
    exact .inr ⟨rest, List.concat_eq_append, rfl⟩

theorem split_cases {before after before' after' : List ε} {e' : ε}
    (h : before ++ e :: after = before' ++ e' :: after') :
    (before = before' ∧ e = e' ∧ after = after') ∨
      (∃ mid, before' = before ++ e :: mid ∧ after = mid ++ e' :: after') ∨
      ∃ mid, before = before' ++ e' :: mid ∧ after' = mid ++ e :: after := by
  rcases List.append_eq_append_iff.mp h with ⟨mid, rfl, rest⟩ | ⟨mid, rfl, rest⟩
  · cases mid with
    | nil =>
      cases rest
      exact .inl ⟨by simp, rfl, rfl⟩
    | cons x mid =>
      cases rest
      exact .inr (.inl ⟨mid, rfl, rfl⟩)
  · cases mid with
    | nil =>
      cases rest
      exact .inl ⟨by simp, rfl, rfl⟩
    | cons x mid =>
      cases rest
      exact .inr (.inr ⟨mid, rfl, rfl⟩)

theorem every_append : Every P (log ++ [e]) ↔ Every P log ∧ P log e := by
  constructor
  · intro h
    refine ⟨fun before e' after split => ?_, h log e [] rfl⟩
    exact h before e' (after ++ [e]) (by simp [split])
  · rintro ⟨old, new⟩ before e' after split
    rcases append_singleton_split split with ⟨rfl, rfl, -⟩ | ⟨rest, -, split⟩
    · exact new
    · exact old before e' rest split

/-- Check every entry of `rest` against what came before it. -/
def everyFrom (p : List ε → ε → Bool) (before : List ε) : List ε → Bool
  | [] => true
  | e :: rest => p before e && everyFrom p (before ++ [e]) rest

theorem every_of_everyFrom {p : List ε → ε → Bool} (sound : ∀ before e, p before e = true → P before e)
    (h : everyFrom p [] log = true) : Every P log := by
  have tail : ∀ rest before, everyFrom p before rest = true →
      ∀ middle e after, rest = middle ++ e :: after → P (before ++ middle) e := by
    intro rest
    induction rest with
    | nil =>
      intro before _ middle e after split
      simp at split
    | cons x rest ih =>
      intro before checked middle e after split
      obtain ⟨first, others⟩ := Bool.and_eq_true_iff.mp checked
      cases middle with
      | nil =>
        cases split
        rw [List.append_nil]
        exact sound _ _ first
      | cons y middle =>
        cases split
        have later := ih (before ++ [x]) others middle e after rfl
        rwa [List.append_assoc] at later
  intro before e after split
  exact tail log [] h before e after split

end history

section typestate

variable (T : Typestate Reply Ghost) (init : Pid → Ghost)

/-- The ghost state of a process, replayed from its calls in the log. -/
def ghostOf (pid : Pid) (log : List (Event Reply Pid State Choice)) : Ghost :=
  log.foldl (fun g e => if e.act.pid = pid then T.next g e.act.call e.act.reply else g) (init pid)

@[simp] theorem ghostOf_nil (pid : Pid) :
    ghostOf T init pid ([] : List (Event Reply Pid State Choice)) = init pid :=
  rfl

theorem ghostOf_append (pid : Pid) (log : List (Event Reply Pid State Choice))
    (e : Event Reply Pid State Choice) :
    ghostOf T init pid (log ++ [e]) =
      if e.act.pid = pid then T.next (ghostOf T init pid log) e.act.call e.act.reply
      else ghostOf T init pid log := by
  simp [ghostOf]

/-- Every program keeps to the typestate from the ghost state its calls have led to, and returns only
where `ends` holds of it. -/
def Concludes (ends : Pid → Ghost → Prop) (c : Config Reply Pid State Choice) : Prop :=
  ∀ pid, (c.procs pid).wp T (fun _ g => ends pid g) (ghostOf T init pid c.log)

abbrev Disciplined (c : Config Reply Pid State Choice) : Prop :=
  Concludes T init (fun _ _ => True) c

/-- A history from state `s` in which every call was allowed to its process, every reply was
one the process expects, and the machine produced both. -/
inductive Trace (M : Machine Reply Pid State Choice) (s : State) :
    List (Event Reply Pid State Choice) → State → Prop
  | nil : Trace M s [] s
  | snoc {log : List (Event Reply Pid State Choice)} {t t' : State} {pid : Pid} {q : Call}
      {choice : Choice} {r : Reply q} : Trace M s log t →
      T.allowed (ghostOf T init pid log) q → T.expects (ghostOf T init pid log) q r →
      M pid q choice t = some (r, t') →
      Trace M s (log ++ [⟨⟨pid, q, r⟩, choice, t, t'⟩]) t'

variable {T init} {M : Machine Reply Pid State Choice} {c c' start : Config Reply Pid State Choice}
  {ends : Pid → Ghost → Prop}

/-- The machine gives allowed calls the replies that the programs expect. -/
def Meets (M : Machine Reply Pid State Choice) (T : Typestate Reply Ghost) (init : Pid → Ghost)
    (s : State) : Prop :=
  ∀ {log : List (Event Reply Pid State Choice)} {t t' : State} {pid : Pid} {q : Call}
    {choice : Choice} {r : Reply q}, Trace T init M s log t →
    T.allowed (ghostOf T init pid log) q → M pid q choice t = some (r, t') →
    T.expects (ghostOf T init pid log) q r

theorem Concludes.step {s : State} {pid : Pid} {choice : Choice} (concludes : Concludes T init ends c)
    (trace : Trace T init M s c.log c.state) (h : step M pid choice c = some c')
    (expected : ∀ q r t', T.allowed (ghostOf T init pid c.log) q →
      M pid q choice c.state = some (r, t') → c'.log = c.log ++ [⟨⟨pid, q, r⟩, choice, c.state, t'⟩] →
      T.expects (ghostOf T init pid c.log) q r) :
    Concludes T init ends c' ∧ Trace T init M s c'.log c'.state := by
  have keeps := concludes pid
  rcases step_cases h with ⟨σ, β, s, body, k, current, rfl⟩ | ⟨q, k, r, state, current, done, rfl⟩
  · refine ⟨fun other => ?_, trace⟩
    by_cases same : other = pid
    · subst same
      rw [current] at keeps
      simp only [Config.become_self]
      exact Prog.wp_unroll keeps
    · simp only [Config.become_of_ne _ _ same]
      exact concludes other
  · rw [current] at keeps
    have replied := expected q r state keeps.1 done rfl
    refine ⟨fun other => ?_, trace.snoc keeps.1 replied done⟩
    by_cases same : other = pid
    · subst same
      simp only [Config.become_self, ghostOf_append, if_true]
      exact keeps.2 r replied
    · simp only [Config.become_of_ne _ _ same, ghostOf_append, if_neg (Ne.symm same)]
      exact concludes other

/-- Programs that keep to the typestate at the start keep to it all along a run, whose log is
then a trace. -/
theorem Concludes.reaches (meets : Meets M T init start.state)
    (concludes : Concludes T init ends start) (fresh : start.log = []) (h : Reaches M start c) :
    Concludes T init ends c ∧ Trace T init M start.state c.log c.state := by
  induction h with
  | refl =>
    refine ⟨concludes, ?_⟩
    rw [fresh]
    exact .nil
  | step pid choice _ next ih =>
    exact ih.1.step ih.2 next fun q r t' allowed done _ => meets ih.2 allowed done

theorem Concludes.reaches_expected (concludes : Concludes T init ends start) (fresh : start.log = [])
    (h : Reaches M start c) (expected : Every (fun before e =>
      T.expects (ghostOf T init e.act.pid before) e.act.call e.act.reply) c.log) :
    Concludes T init ends c ∧ Trace T init M start.state c.log c.state := by
  induction h with
  | refl =>
    refine ⟨concludes, ?_⟩
    rw [fresh]
    exact .nil
  | @step c c' pid choice _ next ih =>
    have earlier : Every (fun before e =>
        T.expects (ghostOf T init e.act.pid before) e.act.call e.act.reply) c.log := by
      rcases log_step next with same | ⟨e, longer⟩
      · rwa [same] at expected
      · rw [longer] at expected
        exact (every_append.mp expected).1
    obtain ⟨keeps, trace⟩ := ih earlier
    refine keeps.step trace next fun q r t' _ _ longer => ?_
    rw [longer] at expected
    exact (every_append.mp expected).2

theorem Concludes.disciplined (concludes : Concludes T init ends c) : Disciplined T init c :=
  fun pid => Prog.wp_mono (concludes pid) fun _ _ _ => trivial

theorem Concludes.ended {pid : Pid} (concludes : Concludes T init ends c) (ended : c.procs pid = .ret ()) :
    ends pid (ghostOf T init pid c.log) := by
  have keeps := concludes pid
  rw [ended] at keeps
  exact keeps

variable {s t : State} {log : List (Event Reply Pid State Choice)}

theorem Trace.every (h : Trace T init M s log t) : Every (fun before e =>
    Trace T init M s before e.before ∧
    T.allowed (ghostOf T init e.act.pid before) e.act.call ∧
    T.expects (ghostOf T init e.act.pid before) e.act.call e.act.reply ∧
    M e.act.pid e.act.call e.choice e.before = some (e.act.reply, e.after)) log := by
  induction h with
  | nil => exact every_nil
  | snoc old allowed expected done ih => exact every_append.mpr ⟨ih, old, allowed, expected, done⟩

end typestate

end Interleaving
