import Csap.Interleaving

/-! What one process does in a run of many: its own calls, as the run of a program, with whatever the
others do in between. -/

namespace Prog

variable {Call : Type} {Reply : Call → Type} {Ghost α : Type}

/-- The program may make these calls, one after the other and answered so, and return. -/
inductive Follows {α : Type} : Prog Reply α → List (Σ c, Reply c) → α → Prop
  | ret (a : α) : Follows (.ret a) [] a
  | call {c : Call} {k : Reply c → Prog Reply α} {r : Reply c} {rest : List (Σ c, Reply c)} {a : α} :
      Follows (k r) rest a → Follows (.call c k) (⟨c, r⟩ :: rest) a
  | loop {σ β : Type} {s : σ} {body : σ → Prog Reply (σ ⊕ β)} {k : β → Prog Reply α}
      {calls : List (Σ c, Reply c)} {a : α} :
      Follows (unroll s body k) calls a → Follows (.loop s body k) calls a

def follow [DecidableEq Call] {α : Type} :
    Nat → Prog Reply α → List (Σ c, Reply c) → Option α
  | 0, _, _ => none
  | _ + 1, ret a, [] => some a
  | _ + 1, ret _, _ :: _ => none
  | _ + 1, call _ _, [] => none
  | n + 1, call c k, x :: rest => if h : x.1 = c then follow n (k (h ▸ x.2)) rest else none
  | n + 1, loop s body k, calls => follow n (unroll s body k) calls

section follows

variable {T : Typestate Reply Ghost} {p : Prog Reply α} {Q : α → Ghost → Prop} {g : Ghost} {a : α}
  {x : Σ c, Reply c} {calls : List (Σ c, Reply c)}

theorem follows_of_follow [DecidableEq Call] {n : Nat} (h : follow n p calls = some a) :
    p.Follows calls a := by
  induction n generalizing p calls with
  | zero => cases h
  | succ n ih =>
    cases p with
    | ret b =>
      cases calls with
      | nil =>
        cases h
        exact .ret _
      | cons x rest => cases h
    | call c k =>
      cases calls with
      | nil => cases h
      | cons x rest =>
        simp only [follow] at h
        split at h
        · rename_i same
          obtain ⟨c', r⟩ := x
          cases same
          exact .call (ih h)
        · cases h
    | loop s body k => exact .loop (ih h)

theorem Follows.returns (h : p.Follows [] a) (judged : wp T p Q g) : Q a g := by
  generalize none : ([] : List (Σ c, Reply c)) = calls at h
  induction h with
  | ret a => exact judged
  | call _ _ => cases none
  | loop _ ih => exact ih (wp_unroll judged) none

theorem Follows.makes (h : p.Follows (x :: calls) a) (judged : wp T p Q g) : T.allowed g x.1 ∧
    (T.expects g x.1 x.2 → ∃ rest : Prog Reply α, rest.Follows calls a ∧
      wp T rest Q (T.next g x.1 x.2)) := by
  generalize more : x :: calls = all at h
  induction h with
  | ret a => cases more
  | call next _ =>
    cases more
    exact ⟨judged.1, fun expected => ⟨_, next, judged.2 _ expected⟩⟩
  | loop _ ih => exact ih (wp_unroll judged) more

end follows

end Prog

namespace Interleaving

variable {Call : Type} {Reply : Call → Type} {Pid State Choice Ghost α : Type} [DecidableEq Pid]

def callsOf (pid : Pid) (log : List (Event Reply Pid State Choice)) : List (Σ c, Reply c) :=
  log.filterMap fun e => if e.act.pid = pid then some ⟨e.act.call, e.act.reply⟩ else none

theorem callsOf_own {pid : Pid} {e : Event Reply Pid State Choice}
    {log : List (Event Reply Pid State Choice)} (own : e.act.pid = pid) :
    callsOf pid (e :: log) = ⟨e.act.call, e.act.reply⟩ :: callsOf pid log := by
  unfold callsOf
  rw [List.filterMap_cons, if_pos own]

theorem callsOf_other {pid : Pid} {e : Event Reply Pid State Choice}
    {log : List (Event Reply Pid State Choice)} (other : e.act.pid ≠ pid) :
    callsOf pid (e :: log) = callsOf pid log := by
  unfold callsOf
  rw [List.filterMap_cons, if_neg other]

/-- Where a process has run a program, and `J` holds at the start and is kept by each of its own
calls and by whatever the others do, the program's postcondition and `J` hold at the end. -/
theorem follow {T : Typestate Reply Ghost} {p : Prog Reply α} {Q : α → Ghost → Prop} {g : Ghost}
    {a : α} {pid : Pid} {log : List (Event Reply Pid State Choice)}
    (J : List (Event Reply Pid State Choice) → Ghost → Prop)
    (follows : p.Follows (callsOf pid log) a) (judged : p.wp T Q g) (start : J [] g)
    (own : ∀ before e after g, log = before ++ e :: after → e.act.pid = pid → J before g →
      T.allowed g e.act.call → T.expects g e.act.call e.act.reply ∧
        J (before ++ [e]) (T.next g e.act.call e.act.reply))
    (others : ∀ before e after g, log = before ++ e :: after → e.act.pid ≠ pid → J before g →
      J (before ++ [e]) g) : ∃ g', Q a g' ∧ J log g' := by
  have tail : ∀ rest before (p : Prog Reply α) g, log = before ++ rest → p.Follows (callsOf pid rest) a →
      p.wp T Q g → J before g → ∃ g', Q a g' ∧ J log g' := by
    intro rest
    induction rest with
    | nil =>
      intro before p g split follows judged holds
      rw [List.append_nil] at split
      exact ⟨g, follows.returns judged, split ▸ holds⟩
    | cons e rest ih =>
      intro before p g split follows judged holds
      have longer : log = (before ++ [e]) ++ rest := by rw [split, List.append_assoc]; rfl
      by_cases mine : e.act.pid = pid
      · rw [callsOf_own mine] at follows
        obtain ⟨may, next⟩ := follows.makes judged
        obtain ⟨expected, kept⟩ := own before e rest g split mine holds may
        obtain ⟨p', follows', judged'⟩ := next expected
        exact ih (before ++ [e]) p' _ longer follows' judged' kept
      · rw [callsOf_other mine] at follows
        exact ih (before ++ [e]) p g longer follows judged (others before e rest g split mine holds)
  exact tail log [] p g rfl follows judged start

theorem Trace.ends_after {T : Typestate Reply Ghost} {init : Pid → Ghost}
    {M : Machine Reply Pid State Choice} {s t : State} {log : List (Event Reply Pid State Choice)}
    {e : Event Reply Pid State Choice} (trace : Trace T init M s (log ++ [e]) t) : t = e.after := by
  generalize longer : log ++ [e] = whole at trace
  cases trace with
  | nil => exact absurd longer (List.append_ne_nil_of_right_ne_nil log (List.cons_ne_nil e []))
  | snoc _ _ _ _ =>
    obtain ⟨-, same⟩ := List.append_inj' longer rfl
    cases same
    rfl

end Interleaving
