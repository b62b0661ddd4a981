import Csap.Prog

/-! A program run to its end against an environment that answers its calls. The
log of a run says which calls were made and what came back. `Ensures` states what
holds whenever a program returns, and is computed along the program. -/

namespace Prog

/-- How a call is answered: `none` while it would block. The choice is what the program cannot
predict of the reply. -/
abbrev Handler {Call : Type} (Reply : Call → Type) (State Choice : Type) :=
  (c : Call) → Choice → State → Option (Reply c × State)

structure Happened {Call : Type} (Reply : Call → Type) (State Choice : Type) where
  call : Call
  reply : Reply call
  choice : Choice
  before : State
  after : State

variable {Call : Type} {Reply : Call → Type} {State Choice α β σ : Type}

abbrev History {Call : Type} (Reply : Call → Type) (State Choice : Type) :=
  List (Happened Reply State Choice)

/-- The program, started in the first state, makes the calls of the log and returns. -/
inductive Returns {α : Type} (H : Handler Reply State Choice) :
    Prog Reply α → State → History Reply State Choice → α → State → Prop
  | ret (a : α) (s : State) : Returns H (.ret a) s [] a s
  | call {c : Call} {k : Reply c → Prog Reply α} {s t u : State} {choice : Choice} {r : Reply c}
      {log : History Reply State Choice} {a : α} : H c choice s = some (r, t) →
      Returns H (k r) t log a u → Returns H (.call c k) s (⟨c, r, choice, s, t⟩ :: log) a u
  | loop {σ β : Type} {init : σ} {body : σ → Prog Reply (σ ⊕ β)} {k : β → Prog Reply α}
      {s t : State} {log : History Reply State Choice} {a : α} :
      Returns H (unroll init body k) s log a t → Returns H (.loop init body k) s log a t

variable {H : Handler Reply State Choice} {s t : State} {log : History Reply State Choice}

theorem bind_assoc (p : Prog Reply α) (f : α → Prog Reply β) (g : β → Prog Reply σ) :
    (p.bind f).bind g = p.bind fun a => (f a).bind g := by
  induction p with
  | ret a => rfl
  | call c k ih => simp only [Prog.bind, ih]
  | loop init body k _ ih => simp only [Prog.bind, ih]

theorem unroll_bind {ι : Type} (init : σ) (body : σ → Prog Reply (σ ⊕ ι)) (k : ι → Prog Reply α)
    (f : α → Prog Reply β) : (unroll init body k).bind f = unroll init body fun b => (k b).bind f := by
  change ((body init).bind _).bind f = (body init).bind _
  rw [bind_assoc]
  congr 1
  funext r
  cases r <;> rfl

theorem returns_pure {a b : α} :
    Returns H (pure a) s log b t ↔ log = [] ∧ b = a ∧ t = s := by
  constructor
  · rintro (_ | _)
    exact ⟨rfl, rfl, rfl⟩
  · rintro ⟨rfl, rfl, rfl⟩
    exact .ret _ _

theorem Returns.bind {p : Prog Reply α} {f : α → Prog Reply β} {a : α} {b : β} {u : State}
    {rest : History Reply State Choice} (first : Returns H p s log a t)
    (next : Returns H (f a) t rest b u) : Returns H (p >>= f) s (log ++ rest) b u := by
  change Returns H (p.bind f) s (log ++ rest) b u
  induction first with
  | ret a s => exact next
  | call done _ ih => exact .call done (ih next)
  | @loop _ _ init body k _ _ _ _ _ ih =>
    have whole := ih next
    rw [unroll_bind] at whole
    exact .loop whole

theorem returns_bind {p : Prog Reply α} {f : α → Prog Reply β} {b : β} {u : State} :
    Returns H (p >>= f) s log b u ↔ ∃ a t before after, log = before ++ after ∧
      Returns H p s before a t ∧ Returns H (f a) t after b u := by
  constructor
  · intro whole
    change Returns H (p.bind f) s log b u at whole
    generalize eq : p.bind f = q at whole
    induction whole generalizing p with
    | ret b s =>
      cases p with
      | ret a =>
        have eq : f a = ret b := eq
        exact ⟨a, s, [], [], rfl, .ret a s, eq ▸ .ret b s⟩
      | call c k => cases eq
      | loop init body k => cases eq
    | @call c k s t u choice r log b done rest ih =>
      cases p with
      | ret a =>
        have eq : f a = call c k := eq
        exact ⟨a, s, [], _, rfl, .ret a s, eq ▸ .call done rest⟩
      | call c' k' =>
        cases eq
        obtain ⟨a, t', before, after, rfl, first, next⟩ := ih rfl
        exact ⟨a, t', _, after, rfl, .call done first, next⟩
      | loop init body k => cases eq
    | @loop σ' β' init body k s t log b rest ih =>
      cases p with
      | ret a =>
        have eq : f a = loop init body k := eq
        exact ⟨a, s, [], _, rfl, .ret a s, eq ▸ .loop rest⟩
      | call c' k' => cases eq
      | loop init' body' k' =>
        cases eq
        obtain ⟨a, t', before, after, rfl, first, next⟩ := ih (unroll_bind init body k' f)
        exact ⟨a, t', before, after, rfl, .loop first, next⟩
  · rintro ⟨a, t, before, after, rfl, first, next⟩
    exact first.bind next

theorem returns_perform {c : Call} {r : Reply c} :
    Returns H (perform c) s log r t ↔
      ∃ choice, H c choice s = some (r, t) ∧ log = [⟨c, r, choice, s, t⟩] := by
  constructor
  · intro run
    cases run with
    | call done rest =>
      cases rest
      exact ⟨_, done, rfl⟩
  · rintro ⟨choice, done, rfl⟩
    exact .call done (.ret r t)

/-- The replies determine what a program does: two runs that see the same replies for as long as
both last are the same run. -/
theorem Returns.deterministic {p : Prog Reply α} {a a' : α} {s' t' : State}
    {log' rest rest' : History Reply State Choice} (first : Returns H p s log a t)
    (second : Returns H p s' log' a' t') (same : log ++ rest = log' ++ rest') :
    log = log' ∧ a = a' := by
  induction first generalizing s' log' with
  | ret a s =>
    cases second
    exact ⟨rfl, rfl⟩
  | call done _ ih =>
    cases second with
    | call done' second' =>
      obtain ⟨here, tail⟩ := List.cons.inj same
      cases here
      obtain ⟨rfl, rfl⟩ := ih second' tail
      exact ⟨rfl, rfl⟩
  | loop _ ih =>
    cases second with
    | loop second' => exact ih second' same

/-- Whenever the program returns, having made the calls of `log` before, `Q` holds. -/
def Ensures (H : Handler Reply State Choice) (p : Prog Reply α)
    (Q : α → History Reply State Choice → State → Prop) (log : History Reply State Choice)
    (s : State) : Prop :=
  ∀ rest a t, Returns H p s rest a t → Q a (log ++ rest) t

section rules

variable {Q : α → History Reply State Choice → State → Prop}

@[simp] theorem ensures_pure {a : α} : Ensures H (pure a) Q log s ↔ Q a log s := by
  constructor
  · intro h
    simpa using h [] a s (.ret a s)
  · rintro h _ _ _ (_ | _)
    simpa using h

@[simp] theorem ensures_perform {c : Call} {Q : Reply c → History Reply State Choice → State → Prop} :
    Ensures H (perform c) Q log s ↔ ∀ choice r t, H c choice s = some (r, t) →
      Q r (log ++ [⟨c, r, choice, s, t⟩]) t := by
  constructor
  · intro h choice r t done
    exact h _ r t (returns_perform.mpr ⟨choice, done, rfl⟩)
  · intro h rest r t run
    obtain ⟨choice, done, rfl⟩ := returns_perform.mp run
    exact h choice r t done

@[simp] theorem ensures_bind {p : Prog Reply β} {f : β → Prog Reply α} :
    Ensures H (p >>= f) Q log s ↔ Ensures H p (fun b => Ensures H (f b) Q) log s := by
  constructor
  · intro h before b t first after a u next
    rw [List.append_assoc]
    exact h _ a u (first.bind next)
  · intro h rest a u whole
    obtain ⟨b, t, before, after, rfl, first, next⟩ := returns_bind.mp whole
    rw [← List.append_assoc]
    exact h before b t first after a u next

theorem ensures_ite {c : Prop} [Decidable c] {p q : Prog Reply α} :
    Ensures H (if c then p else q) Q log s ↔
      (c → Ensures H p Q log s) ∧ (¬ c → Ensures H q Q log s) := by
  split <;> simp [*]

theorem Ensures.mono {p : Prog Reply α} {R : α → History Reply State Choice → State → Prop}
    (h : Ensures H p Q log s) (imp : ∀ a log t, Q a log t → R a log t) :
    Ensures H p R log s :=
  fun rest a t run => imp a _ t (h rest a t run)

/-- The loop rule: what every round keeps, and what follows at the exit. -/
theorem ensures_iterate {init : σ} {body : σ → Prog Reply (σ ⊕ α)}
    (J : σ → History Reply State Choice → State → Prop) (start : J init log s)
    (round : ∀ x log s, J x log s → Ensures H (body x) (fun
      | .inl x => J x
      | .inr a => Q a) log s) : Ensures H (iterate init body) Q log s := by
  have go : ∀ {q : Prog Reply α} {s t : State} {rest : History Reply State Choice} {a : α},
      Returns H q s rest a t → ∀ (p : Prog Reply (σ ⊕ α)) (log : History Reply State Choice),
      q = p.bind (fun
        | .inl x => .loop x body .ret
        | .inr a => .ret a) →
      Ensures H p (fun
        | .inl x => J x
        | .inr a => Q a) log s → Q a (log ++ rest) t := by
    intro q s t rest a run
    induction run with
    | ret a s =>
      intro p log eq h
      cases p with
      | ret r =>
        cases r with
        | inl x => cases eq
        | inr b =>
          cases eq
          exact h [] _ s (.ret _ s)
      | call c k => cases eq
      | loop init body k => cases eq
    | @call c k s t u choice r rest a done _ ih =>
      intro p log eq h
      cases p with
      | ret r => cases r <;> cases eq
      | call c' k' =>
        cases eq
        have tail := ih (k' r) (log ++ [⟨c, r, choice, s, t⟩]) rfl fun later b v next => by
          rw [List.append_assoc]
          exact h _ b v (.call done next)
        rwa [List.append_assoc] at tail
      | loop init body k => cases eq
    | @loop σ' β' init' body' k s t rest a _ ih =>
      intro p log eq h
      cases p with
      | ret r =>
        cases r with
        | inl x =>
          cases eq
          have kept : J x log s := by
            have here := h [] _ s (.ret _ s)
            rwa [List.append_nil] at here
          exact ih (body x) log rfl (round x log s kept)
        | inr b => cases eq
      | call c k => cases eq
      | loop init'' body'' k'' =>
        cases eq
        exact ih (unroll init' body' k'') log (unroll_bind init' body' k'' _).symm
          fun later b v next => h later b v (.loop next)
  intro rest a t run
  exact go run (.ret (.inl init)) log rfl (ensures_pure.mpr start)

theorem Calls.ensures {P : Call → Prop} {p : Prog Reply α} (h : p.Calls P)
    (R : State → State → Prop) (refl : ∀ s, R s s) (trans : ∀ s t u, R s t → R t u → R s u)
    (keeps : ∀ c choice s r t, P c → H c choice s = some (r, t) → R s t)
    (hQ : ∀ rest a t, (∀ e ∈ rest, P e.call) → R s t → Q a (log ++ rest) t) :
    Ensures H p Q log s := by
  have kept : ∀ {p : Prog Reply α} {s t : State} {rest : History Reply State Choice} {a : α},
      Returns H p s rest a t → p.Calls P → (∀ e ∈ rest, P e.call) ∧ R s t := by
    intro p s t rest a run
    induction run with
    | ret a s => exact fun _ => ⟨by simp, refl s⟩
    | call done _ ih =>
      intro calls
      obtain ⟨all, rel⟩ := ih (calls.2 _)
      exact ⟨List.forall_mem_cons.mpr ⟨calls.1, all⟩, trans _ _ _ (keeps _ _ _ _ _ calls.1 done) rel⟩
    | @loop σ' β' init body k s t rest a _ ih =>
      intro calls
      refine ih ((calls.1 init).bind fun r => ?_)
      cases r with
      | inl x => exact calls
      | inr b => exact calls.2 b
  intro rest a t run
  obtain ⟨all, rel⟩ := kept run h
  exact hQ rest a t all rel

end rules

/-- The program returns, in a state in which `Q` holds. -/
def Achieves (H : Handler Reply State Choice) (p : Prog Reply α) (Q : α → State → Prop)
    (s : State) : Prop :=
  ∃ log a t, Returns H p s log a t ∧ Q a t

section progress

variable {Q : α → State → Prop}

theorem achieves_pure {a : α} (h : Q a s) : Achieves H (pure a) Q s :=
  ⟨[], a, s, .ret a s, h⟩

theorem achieves_perform {c : Call} {Q : Reply c → State → Prop} {choice : Choice} {r : Reply c}
    (done : H c choice s = some (r, t)) (h : Q r t) : Achieves H (perform c) Q s :=
  ⟨_, r, t, returns_perform.mpr ⟨choice, done, rfl⟩, h⟩

theorem Achieves.bind {p : Prog Reply β} {f : β → Prog Reply α}
    (h : Achieves H p (fun b t => Achieves H (f b) Q t) s) : Achieves H (p >>= f) Q s := by
  obtain ⟨before, b, t, first, after, a, u, next, hQ⟩ := h
  exact ⟨before ++ after, a, u, first.bind next, hQ⟩

theorem Achieves.mono {p : Prog Reply α} {R : α → State → Prop} (h : Achieves H p Q s)
    (imp : ∀ a t, Q a t → R a t) : Achieves H p R s := by
  obtain ⟨log, a, t, ran, hQ⟩ := h
  exact ⟨log, a, t, ran, imp a t hQ⟩

theorem achieves_iterate {init : σ} {body : σ → Prog Reply (σ ⊕ α)}
    (h : Achieves H (body init) (fun
      | .inl x => Achieves H (iterate x body) Q
      | .inr a => Q a) s) : Achieves H (iterate init body) Q s := by
  have whole : Achieves H (unroll init body .ret) Q s := by
    refine Achieves.bind (h.mono ?_)
    rintro (x | a) t next
    · exact next
    · exact achieves_pure next
  obtain ⟨log, a, t, ran, hQ⟩ := whole
  exact ⟨log, a, t, .loop ran, hQ⟩

theorem achieves_loop {body : σ → Prog Reply (σ ⊕ α)} (inv : Nat → σ → State → Prop)
    (round : ∀ n x s, inv n x s → Achieves H (body x) (fun
      | .inl y => fun t => ∃ m < n, inv m y t
      | .inr a => Q a) s) {n : Nat} {x : σ} (h : inv n x s) : Achieves H (iterate x body) Q s := by
  induction n using Nat.strongRecOn generalizing x s with
  | ind n ih =>
    refine achieves_iterate ((round n x s h).mono ?_)
    rintro (y | a) t next
    · obtain ⟨m, less, inv⟩ := next
      exact ih m less inv
    · exact next

theorem achieves_call {H : Handler Reply State Unit} {c : Call} {Q : Reply c → State → Prop}
    {r : Reply c} (done : H c () s = some (r, t)) (h : Q r t) : Achieves H (perform c) Q s :=
  achieves_perform done h

theorem Returns.unique {H : Handler Reply State Unit} {p : Prog Reply α} {a a' : α} {t' : State}
    {log log' : History Reply State Unit} (first : Returns H p s log a t)
    (second : Returns H p s log' a' t') : log = log' ∧ a = a' ∧ t = t' := by
  induction first generalizing log' with
  | ret a s =>
    cases second
    exact ⟨rfl, rfl, rfl⟩
  | call done _ ih =>
    cases second with
    | call done' second' =>
      cases done.symm.trans done'
      obtain ⟨rfl, rfl, rfl⟩ := ih second'
      exact ⟨rfl, rfl, rfl⟩
  | loop _ ih =>
    cases second with
    | loop second' => exact ih second'

theorem Achieves.ensures {H : Handler Reply State Unit} {p : Prog Reply α}
    {log : History Reply State Unit} (h : Achieves H p Q s) : Ensures H p (fun a _ t => Q a t) log s := by
  intro rest a t ran
  obtain ⟨log', a', t', ran', hQ⟩ := h
  obtain ⟨-, rfl, rfl⟩ := ran.unique ran'
  exact hQ

end progress

/-- Other programs may act before a call, within `rely`: the choice says what they leave. -/
def disturbed (rely : State → State → Prop) [DecidableRel rely] (H : Handler Reply State Choice) :
    Handler Reply State (State × Choice) :=
  fun c choice s => if rely s choice.1 then H c choice.2 choice.1 else none

section execution

/-- Run the program with the given choices, for at most `fuel` calls and rounds. -/
def execute (H : Handler Reply State Choice) (pick : Call → State → Choice) :
    (fuel : Nat) → Prog Reply α → State → Option (History Reply State Choice × α × State)
  | _, .ret a, s => some ([], a, s)
  | 0, _, _ => none
  | fuel + 1, .call c k, s =>
    match H c (pick c s) s with
    | none => none
    | some (r, t) =>
      match execute H pick fuel (k r) t with
      | none => none
      | some (log, a, u) => some (⟨c, r, pick c s, s, t⟩ :: log, a, u)
  | fuel + 1, .loop init body k, s => execute H pick fuel (unroll init body k) s

theorem returns_of_execute {pick : Call → State → Choice} {fuel : Nat} {p : Prog Reply α} {a : α}
    (h : execute H pick fuel p s = some (log, a, t)) : Returns H p s log a t := by
  induction fuel generalizing p s log with
  | zero =>
    cases p with
    | ret b =>
      cases h
      exact .ret _ _
    | call c k => cases h
    | loop init body k => cases h
  | succ fuel ih =>
    cases p with
    | ret b =>
      cases h
      exact .ret _ _
    | call c k =>
      simp only [execute] at h
      split at h
      · cases h
      · rename_i r u done
        split at h
        · cases h
        · rename_i rest b v ran
          cases h
          exact .call done (ih ran)
    | loop init body k => exact .loop (ih h)

theorem exists_of_execute {pick : Call → State → Choice} (fuel : Nat) {p : Prog Reply α}
    (P : History Reply State Choice → α → State → Prop) [∀ log a t, Decidable (P log a t)]
    (h : (execute H pick fuel p s).any (fun r => decide (P r.1 r.2.1 r.2.2)) = true) :
    ∃ log a t, Returns H p s log a t ∧ P log a t := by
  obtain ⟨⟨log, a, t⟩, ran, holds⟩ := (Option.any_eq_true ..).mp h
  exact ⟨log, a, t, returns_of_execute ran, of_decide_eq_true holds⟩

theorem Returns.ends {T : Typestate Reply State} {p : Prog Reply α} {a : α}
    (ran : Returns H p s log a t)
    (sound : ∀ c choice s r t, H c choice s = some (r, t) → T.expects s c r ∧ t = T.next s c r) :
    Ends T p s a t := by
  induction ran with
  | ret a s => exact .ret a s
  | call done _ ih =>
    obtain ⟨expected, rfl⟩ := sound _ _ _ _ _ done
    exact .call expected ih
  | loop _ ih => exact .loop ih

end execution

section ends

variable {Ghost : Type} {T : Typestate Reply Ghost} {g h g' : Ghost}

theorem Ends.bind {p : Prog Reply α} {f : α → Prog Reply β} {a : α} {b : β}
    (first : Ends T p g a h) (next : Ends T (f a) h b g') : Ends T (p >>= f) g b g' := by
  change Ends T (p.bind f) g b g'
  induction first with
  | ret a g => exact next
  | call expected _ ih => exact .call expected (ih next)
  | @loop _ _ init body k _ _ _ _ ih =>
    have whole := ih next
    rw [unroll_bind] at whole
    exact .loop whole

/-- A program in sequence with another returns by way of the first. -/
theorem Ends.split {p : Prog Reply α} {f : α → Prog Reply β} {b : β}
    (whole : Ends T (p >>= f) g b g') : ∃ a h, Ends T p g a h ∧ Ends T (f a) h b g' := by
  change Ends T (p.bind f) g b g' at whole
  generalize eq : p.bind f = q at whole
  induction whole generalizing p with
  | ret b g =>
    cases p with
    | ret a =>
      have eq : f a = Prog.ret b := eq
      exact ⟨a, g, .ret a g, eq ▸ .ret b g⟩
    | call c k => cases eq
    | loop init body k => cases eq
  | @call c k g g' r b expected rest ih =>
    cases p with
    | ret a =>
      have eq : f a = Prog.call c k := eq
      exact ⟨a, g, .ret a g, eq ▸ .call expected rest⟩
    | call c' k' =>
      cases eq
      obtain ⟨a, h, first, next⟩ := ih rfl
      exact ⟨a, h, .call expected first, next⟩
    | loop init body k => cases eq
  | @loop σ' β' init body k g g' b rest ih =>
    cases p with
    | ret a =>
      have eq : f a = Prog.loop init body k := eq
      exact ⟨a, g, .ret a g, eq ▸ .loop rest⟩
    | call c' k' => cases eq
    | loop init' body' k' =>
      cases eq
      obtain ⟨a, h, first, next⟩ := ih (unroll_bind init body k' f)
      exact ⟨a, h, .loop first, next⟩

theorem embed_bind {Call' : Type} {inj : Call' → Call} (p : Prog (fun c => Reply (inj c)) α)
    (f : α → Prog (fun c => Reply (inj c)) β) :
    (p.bind f).embed inj = (p.embed inj).bind fun a => (f a).embed inj := by
  induction p with
  | ret a => rfl
  | call c k ih => simp only [Prog.bind, embed, ih]
  | loop s body k _ ih => simp only [Prog.bind, embed, ih]

theorem Ends.embed {Call' : Type} {inj : Call' → Call} {p : Prog (fun c => Reply (inj c)) α} {a : α}
    (ends : Ends (T.along inj) p g a g') : Ends T (p.embed inj) g a g' := by
  induction ends with
  | ret a g => exact .ret a g
  | call expected _ ih => exact .call expected ih
  | @loop _ _ init body k _ _ _ _ ih =>
    have whole : (unroll init body k).embed inj =
        unroll init (fun s => (body s).embed inj) fun b => (k b).embed inj := by
      change ((body init).bind _).embed inj = ((body init).embed inj).bind _
      rw [embed_bind]
      congr 1
      funext r
      cases r <;> rfl
    rw [whole] at ih
    exact .loop ih

theorem Ends.exit {body : σ → Prog Reply (σ ⊕ β)} {s : σ} {b : β}
    (round : Ends T (body s) g (.inr b) g') : Ends T (iterate s body) g b g' :=
  .loop (round.bind (.ret b g'))

theorem Ends.again {body : σ → Prog Reply (σ ⊕ β)} {s s' : σ} {b : β}
    (round : Ends T (body s) g (.inl s') h) (rest : Ends T (iterate s' body) h b g') :
    Ends T (iterate s body) g b g' :=
  .loop (round.bind rest)

end ends

end Prog
