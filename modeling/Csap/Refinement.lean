import Csap.Interleaving
import Csap.Runs

/-! Calls that are carried out by programs over the calls of a lower layer, and machines whose steps
another machine can follow. -/

namespace Prog

variable {Call Call' : Type} {Reply : Call → Type} {Reply' : Call' → Type} {α β γ σ : Type}

theorem unroll_andThen (s : σ) (body : σ → Prog Reply (σ ⊕ β)) (k : β → Prog Reply α)
    (f : α → Prog Reply γ) : unroll s body k >>= f = unroll s body fun b => k b >>= f :=
  unroll_bind s body k f

/-- The program with every call carried out by its implementation. -/
def lower (impl : (c : Call) → Prog Reply' (Reply c)) {α : Type} : Prog Reply α → Prog Reply' α
  | ret a => ret a
  | call c k => impl c >>= fun r => (k r).lower impl
  | loop s body k => loop s (fun s => (body s).lower impl) fun b => (k b).lower impl

variable {impl : (c : Call) → Prog Reply' (Reply c)}

theorem lower_bind (p : Prog Reply α) (f : α → Prog Reply β) :
    (p >>= f).lower impl = p.lower impl >>= fun a => (f a).lower impl := by
  induction p with
  | ret a => rfl
  | call c k ih =>
    have each : (fun r => (k r >>= f).lower impl) =
        fun r => (k r).lower impl >>= fun a => (f a).lower impl := funext fun r => ih r f
    change (impl c).bind (fun r => (k r >>= f).lower impl) = ((impl c).bind _).bind _
    rw [each, bind_assoc]
    rfl
  | loop s body k _ ih =>
    exact congrArg (loop s fun s => (body s).lower impl) (funext fun b => ih b f)

theorem lower_unroll (s : σ) (body : σ → Prog Reply (σ ⊕ β)) (k : β → Prog Reply α) :
    (unroll s body k).lower impl =
      unroll s (fun s => (body s).lower impl) fun b => (k b).lower impl := by
  unfold unroll
  rw [lower_bind]
  congr 1
  funext r
  cases r with
  | inl s => rfl
  | inr b => rfl

/-- What every implementation preserves, the program preserves. -/
theorem wp_lower {Ghost : Type} {T : Typestate Reply' Ghost} {J : Ghost → Prop} {g : Ghost}
    (keeps : ∀ c g, J g → wp T (impl c) (fun _ => J) g) {p : Prog Reply α} (here : J g) :
    wp T (p.lower impl) (fun _ => J) g := by
  induction p generalizing g with
  | ret a => exact here
  | call c k ih => exact wp_bind.mpr (wp_mono (keeps c g here) fun r _ kept => ih r kept)
  | loop s body k ihBody ih =>
    refine ⟨fun _ => J, here, ?_⟩
    intro s g here
    apply wp_mono (ihBody s here)
    rintro (s | b) g kept
    · exact kept
    · exact ih b kept

theorem embed_unroll {inj : Call' → Call} (s : σ) (body : σ → Prog (fun c => Reply (inj c)) (σ ⊕ β))
    (k : β → Prog (fun c => Reply (inj c)) α) : (unroll s body k).embed inj =
      unroll s (fun s => (body s).embed inj) fun b => (k b).embed inj := by
  change ((body s).bind _).embed inj = ((body s).embed inj).bind _
  rw [embed_bind]
  congr 1
  funext r
  cases r with
  | inl s => rfl
  | inr b => rfl

end Prog

namespace Interleaving

variable {Call Call' : Type} {Reply : Call → Type} {Reply' : Call' → Type}
  {Pid State State' Choice Choice' : Type} [DecidableEq Pid]
  {M : Machine Reply Pid State Choice} {M' : Machine Reply' Pid State' Choice'}
  {R : Config Reply' Pid State' Choice' → Config Reply Pid State Choice → Prop}
  {start c : Config Reply' Pid State' Choice'} {start' : Config Reply Pid State Choice}

/-- A machine whose every step another one can follow, by any number of its own. -/
def Simulates (M : Machine Reply Pid State Choice) (M' : Machine Reply' Pid State' Choice')
    (R : Config Reply' Pid State' Choice' → Config Reply Pid State Choice → Prop) : Prop :=
  ∀ {pid choice low low' high}, R low high → step M' pid choice low = some low' →
    ∃ high', Reaches M high high' ∧ R low' high'

theorem Simulates.reaches (simulates : Simulates M M' R) (related : R start start')
    (reached : Reaches M' start c) : ∃ c', Reaches M start' c' ∧ R c c' := by
  induction reached with
  | refl => exact ⟨start', .refl, related⟩
  | step pid choice _ next ih =>
    obtain ⟨high, before, here⟩ := ih
    obtain ⟨high', after, there⟩ := simulates here next
    exact ⟨high', before.trans after, there⟩

end Interleaving
