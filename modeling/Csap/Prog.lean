import Mathlib.Logic.Function.Basic

/-! Programs that run against an interface of calls. A program is a tree: it
returns, makes a call and goes on with the reply, or repeats a body until that
answers `Sum.inr`. A `Typestate` says in which order a program may make its
calls, and `wp` is the condition under which a program keeps to it. -/

inductive Prog {Call : Type} (Reply : Call → Type) : Type → Type 1
  | ret {α : Type} (a : α) : Prog Reply α
  | call {α : Type} (c : Call) (k : Reply c → Prog Reply α) : Prog Reply α
  | loop {σ β α : Type} (s : σ) (body : σ → Prog Reply (σ ⊕ β)) (k : β → Prog Reply α) :
      Prog Reply α

namespace Prog

variable {Call : Type} {Reply : Call → Type} {α β σ : Type}

protected def bind {α β : Type} : Prog Reply α → (α → Prog Reply β) → Prog Reply β
  | ret a, f => f a
  | call c k, f => call c fun r => (k r).bind f
  | loop s body k, f => loop s body fun b => (k b).bind f

instance : Monad (Prog Reply) where
  pure := ret
  bind := Prog.bind

def perform (c : Call) : Prog Reply (Reply c) := call c ret

/-- Repeat `body` from `s` until it answers `Sum.inr`. -/
def iterate (s : σ) (body : σ → Prog Reply (σ ⊕ β)) : Prog Reply β := loop s body ret

def when (c : Prop) [Decidable c] (p : Prog Reply Unit) : Prog Reply Unit :=
  if c then p else pure ()

/-- One round of a loop, then the loop again or what follows it. -/
def unroll (s : σ) (body : σ → Prog Reply (σ ⊕ β)) (k : β → Prog Reply α) : Prog Reply α :=
  body s >>= fun
    | .inl s => loop s body k
    | .inr b => k b

/-- A program over some of the calls, as a program over all of them. -/
def embed {Call' : Type} {Reply : Call → Type} (inj : Call' → Call) {α : Type} :
    Prog (fun c => Reply (inj c)) α → Prog Reply α
  | ret a => ret a
  | call c k => call (inj c) fun r => (k r).embed inj
  | loop s body k => loop s (fun s => (body s).embed inj) fun b => (k b).embed inj

/-- Every call of the program, whatever the replies, satisfies `P`. -/
def Calls {α : Type} (P : Call → Prop) : Prog Reply α → Prop
  | ret _ => True
  | call c k => P c ∧ ∀ r, (k r).Calls P
  | loop _ body k => (∀ s, (body s).Calls P) ∧ ∀ b, (k b).Calls P

end Prog

/-- What a client of the interface knows between two calls, which calls it may
make then, and which replies it can expect. -/
structure Typestate {Call : Type} (Reply : Call → Type) (Ghost : Type) where
  allowed : Ghost → Call → Prop
  expects : Ghost → (c : Call) → Reply c → Prop
  next : Ghost → (c : Call) → Reply c → Ghost

def Typestate.along {Call Call' : Type} {Reply : Call → Type} {Ghost : Type}
    (T : Typestate Reply Ghost) (inj : Call' → Call) :
    Typestate (fun c => Reply (inj c)) Ghost where
  allowed g c := T.allowed g (inj c)
  expects g c := T.expects g (inj c)
  next g c := T.next g (inj c)

/-- The typestate that also asks for `J` before every call. -/
def Typestate.keeping {Call : Type} {Reply : Call → Type} {Ghost : Type}
    (T : Typestate Reply Ghost) (J : Ghost → Prop) : Typestate Reply Ghost where
  allowed g c := T.allowed g c ∧ J g
  expects := T.expects
  next := T.next

/-- The typestate in an environment that promises more. -/
def Typestate.assuming {Call : Type} {Reply : Call → Type} {Ghost : Type}
    (T : Typestate Reply Ghost) (promised : Ghost → (c : Call) → Reply c → Prop) :
    Typestate Reply Ghost where
  allowed := T.allowed
  expects g c r := T.expects g c r ∧ promised g c r
  next := T.next

def Typestate.lenient {Call : Type} {Reply : Call → Type} {Ghost : Type}
    (T : Typestate Reply Ghost) : Typestate Reply Ghost where
  allowed _ _ := True
  expects := T.expects
  next := T.next

/-- The typestate with an observer, who takes notes of the calls and the replies. -/
def Typestate.watching {Call : Type} {Reply : Call → Type} {Ghost Notes : Type}
    (T : Typestate Reply Ghost) (see : Notes → (c : Call) → Reply c → Notes) :
    Typestate Reply (Ghost × Notes) where
  allowed g := T.allowed g.1
  expects g := T.expects g.1
  next g c r := (T.next g.1 c r, see g.2 c r)

namespace Prog

variable {Call : Type} {Reply : Call → Type} {Ghost α β σ : Type}

/-- From ghost state `g` the program makes allowed calls only, and establishes
`Q` if it returns. A loop is judged by an invariant of its rounds. -/
def wp (T : Typestate Reply Ghost) {α : Type} :
    Prog Reply α → (α → Ghost → Prop) → Ghost → Prop
  | ret a, Q, g => Q a g
  | call c k, Q, g => T.allowed g c ∧ ∀ r, T.expects g c r → wp T (k r) Q (T.next g c r)
  | @loop _ _ σ _ _ s body k, Q, g => ∃ J : σ → Ghost → Prop, J s g ∧
      ∀ s g, J s g → wp T (body s) (fun
        | .inl s, g => J s g
        | .inr b, g => wp T (k b) Q g) g

section rules

variable {T : Typestate Reply Ghost} {g : Ghost}

@[simp] theorem wp_pure {a : α} {Q : α → Ghost → Prop} :
    wp T (pure a) Q g ↔ Q a g :=
  Iff.rfl

@[simp] theorem wp_perform {c : Call} {Q : Reply c → Ghost → Prop} :
    wp T (perform c) Q g ↔ T.allowed g c ∧ ∀ r, T.expects g c r → Q r (T.next g c r) :=
  Iff.rfl

@[simp] theorem wp_bind {p : Prog Reply α} {f : α → Prog Reply β} {Q : β → Ghost → Prop} :
    wp T (p >>= f) Q g ↔ wp T p (fun a g => wp T (f a) Q g) g := by
  change wp T (p.bind f) Q g ↔ _
  induction p generalizing g with
  | ret a => rfl
  | call c k ih => simp only [Prog.bind, wp, ih]
  | loop s body k _ ih =>
    simp only [Prog.bind, wp, ih]

theorem wp_call {c : Call} {k : Reply c → Prog Reply α} {Q : α → Ghost → Prop}
    (may : T.allowed g c) (h : ∀ r, T.expects g c r → wp T (k r) Q (T.next g c r)) :
    wp T (perform c >>= k) Q g :=
  ⟨may, h⟩

theorem wp_mono {p : Prog Reply α} {Q R : α → Ghost → Prop} (h : wp T p Q g)
    (imp : ∀ a g, Q a g → R a g) : wp T p R g := by
  induction p generalizing g with
  | ret a => exact imp a g h
  | call c k ih => exact ⟨h.1, fun r expected => ih r (h.2 r expected) imp⟩
  | loop s body k ihBody ih =>
    obtain ⟨J, start, round⟩ := h
    refine ⟨J, start, fun s g hJ => ihBody s (round s g hJ) ?_⟩
    rintro (s | b) g hQ
    · exact hQ
    · exact ih b hQ imp

/-- The loop rule: an invariant of every round that gives the postcondition at the exit. -/
theorem wp_iterate {s : σ} {body : σ → Prog Reply (σ ⊕ β)} {Q : β → Ghost → Prop}
    (J : σ → Ghost → Prop) (start : J s g)
    (round : ∀ s g, J s g → wp T (body s) (fun
      | .inl s, g => J s g
      | .inr b, g => Q b g) g) : wp T (iterate s body) Q g := by
  refine ⟨J, start, fun s g hJ => wp_mono (round s g hJ) ?_⟩
  rintro (s | b) g hQ <;> exact hQ

@[simp] theorem wp_ite {c : Prop} [Decidable c] {p q : Prog Reply α}
    {Q : α → Ghost → Prop} :
    wp T (if c then p else q) Q g ↔ (c → wp T p Q g) ∧ (¬ c → wp T q Q g) := by
  split <;> simp [*]

@[simp] theorem wp_when {c : Prop} [Decidable c] {p : Prog Reply Unit}
    {Q : Unit → Ghost → Prop} :
    wp T (when c p) Q g ↔ (c → wp T p Q g) ∧ (¬ c → Q () g) := by
  simp [when]

theorem wp_embed {Call' : Type} {inj : Call' → Call} {p : Prog (fun c => Reply (inj c)) α}
    {Q : α → Ghost → Prop} : wp T (p.embed inj) Q g ↔ wp (T.along inj) p Q g := by
  induction p generalizing g with
  | ret a => rfl
  | call c k ih =>
    refine and_congr Iff.rfl (forall_congr' fun r => forall_congr' fun _ => ?_)
    exact ih r
  | loop s body k ihBody ih =>
    refine exists_congr fun J => and_congr Iff.rfl ?_
    refine forall_congr' fun s => forall_congr' fun g => forall_congr' fun _ => ?_
    rw [ihBody]
    have exits : ∀ (r : _ ⊕ _) (g : Ghost), (match r, g with
        | .inl s, g => J s g
        | .inr b, g => wp T ((k b).embed inj) Q g) ↔ (match r, g with
        | .inl s, g => J s g
        | .inr b, g => wp (T.along inj) (k b) Q g) := by
      rintro (s | b) g
      · exact Iff.rfl
      · exact ih b
    exact ⟨fun h => wp_mono h fun r g => (exits r g).mp, fun h => wp_mono h fun r g => (exits r g).mpr⟩

theorem wp_lenient {p : Prog Reply α} {Q : α → Ghost → Prop} (h : wp T p Q g) :
    wp T.lenient p Q g := by
  induction p generalizing g with
  | ret a => exact h
  | call c k ih => exact ⟨trivial, fun r expected => ih r (h.2 r expected)⟩
  | loop s body k ihBody ih =>
    obtain ⟨J, start, round⟩ := h
    refine ⟨J, start, fun s g here => wp_mono (ihBody s (round s g here)) ?_⟩
    intro r g kept
    cases r with
    | inl s => exact kept
    | inr b => exact ih b kept

theorem wp_unroll {s : σ} {body : σ → Prog Reply (σ ⊕ β)} {k : β → Prog Reply α}
    {Q : α → Ghost → Prop} (h : wp T (loop s body k) Q g) : wp T (unroll s body k) Q g := by
  obtain ⟨J, start, round⟩ := h
  refine wp_bind.mpr (wp_mono (round s g start) ?_)
  rintro (s | b) g hQ
  · exact ⟨J, hQ, round⟩
  · exact hQ

theorem wp_through {Ghost' : Type} {T' : Typestate Reply Ghost'} (into : Ghost → Ghost')
    (allowed : ∀ g c, T.allowed g c → T'.allowed (into g) c)
    (expects : ∀ g c r, T.allowed g c → T'.expects (into g) c r → T.expects g c r)
    (next : ∀ g c r, T.allowed g c → T'.next (into g) c r = into (T.next g c r)) {p : Prog Reply α}
    {Q : α → Ghost → Prop} (h : wp T p Q g) : wp T' p (fun a g' => ∃ g, g' = into g ∧ Q a g) (into g) := by
  induction p generalizing g with
  | ret a => exact ⟨g, rfl, h⟩
  | call c k ih =>
    refine ⟨allowed g c h.1, fun r expected => ?_⟩
    rw [next g c r h.1]
    exact ih r (h.2 r (expects g c r h.1 expected))
  | loop s body k ihBody ih =>
    obtain ⟨J, start, round⟩ := h
    refine ⟨fun s g' => ∃ g, g' = into g ∧ J s g, ⟨g, rfl, start⟩, ?_⟩
    rintro s _ ⟨g, rfl, here⟩
    apply wp_mono (ihBody s (round s g here))
    rintro r _ ⟨g, rfl, kept⟩
    cases r with
    | inl s => exact ⟨g, rfl, kept⟩
    | inr b => exact ih b kept

end rules

section calls

variable {P : Call → Prop}

theorem Calls.pure (a : α) : (pure a : Prog Reply α).Calls P := trivial

theorem Calls.perform {c : Call} (h : P c) : (perform c : Prog Reply _).Calls P :=
  ⟨h, fun _ => trivial⟩

theorem Calls.bind {p : Prog Reply α} {f : α → Prog Reply β} (hp : p.Calls P)
    (hf : ∀ a, (f a).Calls P) : (p >>= f).Calls P := by
  change (p.bind f).Calls P
  induction p with
  | ret a => exact hf a
  | call c k ih => exact ⟨hp.1, fun r => ih r (hp.2 r) hf⟩
  | loop s body k _ ih => exact ⟨hp.1, fun b => ih b (hp.2 b) hf⟩

theorem Calls.iterate {s : σ} {body : σ → Prog Reply (σ ⊕ β)} (h : ∀ s, (body s).Calls P) :
    (iterate s body).Calls P :=
  ⟨h, fun _ => trivial⟩

theorem Calls.when {c : Prop} [Decidable c] {p : Prog Reply Unit} (h : p.Calls P) :
    (when c p).Calls P := by
  unfold Prog.when
  split
  · exact h
  · trivial

theorem Calls.embed {Call' : Type} {inj : Call' → Call} {p : Prog (fun c => Reply (inj c)) α}
    (h : p.Calls fun c => P (inj c)) : (p.embed inj).Calls P := by
  induction p with
  | ret a => exact True.intro
  | call c k ih => exact ⟨h.1, fun r => ih r (h.2 r)⟩
  | loop s body k ihBody ih => exact ⟨fun s => ihBody s (h.1 s), fun b => ih b (h.2 b)⟩

theorem Calls.trivial (p : Prog Reply α) : p.Calls fun _ => True := by
  induction p with
  | ret a => exact True.intro
  | call c k ih => exact ⟨True.intro, ih⟩
  | loop s body k ihBody ih => exact ⟨ihBody, ih⟩

theorem Calls.mono {P P' : Call → Prop} {p : Prog Reply α} (h : p.Calls P)
    (imp : ∀ c, P c → P' c) : p.Calls P' := by
  induction p with
  | ret a => trivial
  | call c k ih => exact ⟨imp c h.1, fun r => ih r (h.2 r)⟩
  | loop s body k ihBody ih => exact ⟨fun s => ihBody s (h.1 s), fun b => ih b (h.2 b)⟩

/-- What the calls of a program preserve holds throughout, and where it ends. -/
theorem Calls.wp_preserving {T : Typestate Reply Ghost} {p : Prog Reply α} {g : Ghost}
    {Q : α → Ghost → Prop} (J : Ghost → Prop) (h : p.Calls P)
    (step : ∀ g c, P c → J g → T.allowed g c ∧ ∀ r, J (T.next g c r)) (start : J g)
    (hQ : ∀ a g, J g → Q a g) : Prog.wp T p Q g := by
  induction p generalizing g with
  | ret a => exact hQ a g start
  | call c k ih =>
    obtain ⟨may, kept⟩ := step g c h.1 start
    exact ⟨may, fun r _ => ih r (h.2 r) (kept r) hQ⟩
  | loop s body k ihBody ih =>
    refine ⟨fun _ => J, start, fun s g here => ihBody s (h.1 s) here ?_⟩
    rintro (s | b) g here
    · exact here
    · exact ih b (h.2 b) here hQ

theorem Calls.wp {T : Typestate Reply Ghost} {p : Prog Reply α} {g : Ghost}
    {Q : α → Ghost → Prop} (h : p.Calls P)
    (neutral : ∀ c, P c → T.allowed g c ∧ ∀ r, T.next g c r = g) (hQ : ∀ a, Q a g) :
    wp T p Q g := by
  refine h.wp_preserving (· = g) ?_ rfl ?_
  · rintro _ c mine rfl
    exact neutral c mine
  · rintro a _ rfl
    exact hQ a

theorem Calls.wp_free {T : Typestate Reply Ghost} {p : Prog Reply α} {g : Ghost}
    {Q : α → Ghost → Prop} (h : p.Calls P) (may : ∀ g c, P c → T.allowed g c)
    (hQ : ∀ a g, Q a g) : Prog.wp T p Q g :=
  h.wp_preserving (fun _ => True) (fun g c mine _ => ⟨may g c mine, fun _ => True.intro⟩) True.intro
    fun a g _ => hQ a g

end calls

section keeping

theorem wp_keeping {T : Typestate Reply Ghost} {p : Prog Reply α} {g : Ghost}
    {Q : α → Ghost → Prop} (J : Ghost → Prop) (start : J g)
    (step : ∀ g c r, J g → T.allowed g c → T.expects g c r → J (T.next g c r))
    (h : wp T p Q g) : wp (T.keeping J) p (fun a g => Q a g ∧ J g) g := by
  induction p generalizing g with
  | ret a => exact ⟨h, start⟩
  | call c k ih =>
    refine ⟨⟨h.1, start⟩, fun r expected => ?_⟩
    exact ih r (step g c r start h.1 expected) (h.2 r expected)
  | loop s body k ihBody ih =>
    obtain ⟨I, init, round⟩ := h
    refine ⟨fun s g => I s g ∧ J g, ⟨init, start⟩, fun s g hI => ?_⟩
    refine wp_mono (ihBody s hI.2 (round s g hI.1)) ?_
    rintro (s | b) g ⟨hQ, hJ⟩
    · exact ⟨hQ, hJ⟩
    · exact ih b hJ hQ

end keeping

section reached

/-- The program may return, by replies that can be expected. -/
inductive Ends {α : Type} (T : Typestate Reply Ghost) : Prog Reply α → Ghost → α → Ghost → Prop
  | ret (a : α) (g : Ghost) : Ends T (.ret a) g a g
  | call {c : Call} {k : Reply c → Prog Reply α} {g g' : Ghost} {r : Reply c} {a : α} :
      T.expects g c r → Ends T (k r) (T.next g c r) a g' → Ends T (.call c k) g a g'
  | loop {σ β : Type} {init : σ} {body : σ → Prog Reply (σ ⊕ β)} {k : β → Prog Reply α}
      {g g' : Ghost} {a : α} :
      Ends T (unroll init body k) g a g' → Ends T (.loop init body k) g a g'

/-- The program may get to the call, by replies that can be expected. -/
inductive Makes {α : Type} (T : Typestate Reply Ghost) : Prog Reply α → Ghost → Call → Ghost → Prop
  | here (c : Call) (k : Reply c → Prog Reply α) (g : Ghost) : Makes T (.call c k) g c g
  | later {c c' : Call} {k : Reply c → Prog Reply α} {g g' : Ghost} {r : Reply c} :
      T.expects g c r → Makes T (k r) (T.next g c r) c' g' → Makes T (.call c k) g c' g'
  | loop {σ β : Type} {init : σ} {body : σ → Prog Reply (σ ⊕ β)} {k : β → Prog Reply α}
      {g g' : Ghost} {c : Call} :
      Makes T (unroll init body k) g c g' → Makes T (.loop init body k) g c g'

/-- The loop may get to another round, and its state is the second one then. -/
inductive Rounds (T : Typestate Reply Ghost) (body : σ → Prog Reply (σ ⊕ β)) (x : σ) (g : Ghost) :
    σ → Ghost → Prop
  | start : Rounds T body x g x g
  | round {y z : σ} {h h' : Ghost} : Rounds T body x g y h → Ends T (body y) h (.inl z) h' →
      Rounds T body x g z h'

variable {T : Typestate Reply Ghost} {g g' : Ghost}

theorem Ends.of_wp {p : Prog Reply α} {a : α} {Q : α → Ghost → Prop} (ends : Ends T p g a g')
    (h : wp T p Q g) : Q a g' := by
  induction ends with
  | ret a g => exact h
  | call expected _ ih => exact ih (h.2 _ expected)
  | loop _ ih => exact ih (wp_unroll h)

theorem Makes.of_wp {p : Prog Reply α} {c : Call} {Q : α → Ghost → Prop} (makes : Makes T p g c g')
    (h : wp T p Q g) : T.allowed g' c := by
  induction makes with
  | here c k g => exact h.1
  | later expected _ ih => exact ih (h.2 _ expected)
  | loop _ ih => exact ih (wp_unroll h)

theorem Ends.judge {p : Prog Reply α} {a : α} (ends : Ends T p g a g')
    (allowed : Ghost → Call → Prop) : Ends { T with allowed } p g a g' := by
  induction ends with
  | ret a g => exact .ret a g
  | call expected _ ih => exact .call expected ih
  | loop _ ih => exact .loop ih

theorem Makes.judge {p : Prog Reply α} {c : Call} (makes : Makes T p g c g')
    (allowed : Ghost → Call → Prop) : Makes { T with allowed } p g c g' := by
  induction makes with
  | here c k g => exact .here c k g
  | later expected _ ih => exact .later expected ih
  | loop _ ih => exact .loop ih

/-- Run the program with these replies, as long as they can be expected. -/
def play {α : Type} (T : Typestate Reply Ghost) [∀ g c r, Decidable (T.expects g c r)]
    (pick : Ghost → (c : Call) → Reply c) : Nat → Prog Reply α → Ghost → Option (α × Ghost)
  | 0, _, _ => none
  | _ + 1, ret a, g => some (a, g)
  | n + 1, call c k, g =>
    if T.expects g c (pick g c) then play T pick n (k (pick g c)) (T.next g c (pick g c)) else none
  | n + 1, loop s body k, g => play T pick n (unroll s body k) g

theorem ends_of_play [∀ g c r, Decidable (T.expects g c r)] {pick : Ghost → (c : Call) → Reply c}
    {n : Nat} {p : Prog Reply α} {a : α} (h : play T pick n p g = some (a, g')) : Ends T p g a g' := by
  induction n generalizing p g with
  | zero => cases h
  | succ n ih =>
    cases p with
    | ret b =>
      cases h
      exact .ret _ _
    | call c k =>
      simp only [play] at h
      split at h
      · rename_i expected
        exact .call expected (ih h)
      · cases h
    | loop s body k => exact .loop (ih h)

theorem exists_of_play [∀ g c r, Decidable (T.expects g c r)] {pick : Ghost → (c : Call) → Reply c}
    (n : Nat) {p : Prog Reply α} (P : α → Ghost → Prop) [∀ a g, Decidable (P a g)]
    (h : (play T pick n p g).any (fun r => decide (P r.1 r.2)) = true) :
    ∃ a g', Ends T p g a g' ∧ P a g' := by
  obtain ⟨⟨a, g'⟩, ran, holds⟩ := (Option.any_eq_true ..).mp h
  exact ⟨a, g', ends_of_play ran, of_decide_eq_true holds⟩

/-- Run the program with these replies until it is about to make a call of interest. -/
def reach {α : Type} (T : Typestate Reply Ghost) [∀ g c r, Decidable (T.expects g c r)]
    (pick : Ghost → (c : Call) → Reply c) (stop : Call → Ghost → Bool) :
    Nat → Prog Reply α → Ghost → Option (Call × Ghost)
  | 0, _, _ | _ + 1, ret _, _ => none
  | n + 1, call c k, g =>
    if stop c g then some (c, g)
    else if T.expects g c (pick g c) then
      reach T pick stop n (k (pick g c)) (T.next g c (pick g c))
    else none
  | n + 1, loop s body k, g => reach T pick stop n (unroll s body k) g

theorem exists_of_reach [∀ g c r, Decidable (T.expects g c r)] (pick : Ghost → (c : Call) → Reply c)
    {stop : Call → Ghost → Bool} (n : Nat) {p : Prog Reply α}
    (h : (reach T pick stop n p g).isSome = true) : ∃ c g', Makes T p g c g' ∧ stop c g' = true := by
  induction n generalizing p g with
  | zero => cases h
  | succ n ih =>
    cases p with
    | ret b => cases h
    | call c k =>
      simp only [reach] at h
      split at h
      · rename_i here
        exact ⟨c, g, .here c k g, here⟩
      · split at h
        · rename_i expected
          obtain ⟨c', g', makes, there⟩ := ih h
          exact ⟨c', g', .later expected makes, there⟩
        · cases h
    | loop s body k =>
      obtain ⟨c', g', makes, there⟩ := ih h
      exact ⟨c', g', .loop makes, there⟩

end reached

end Prog
