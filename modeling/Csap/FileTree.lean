import Mathlib.Data.List.Basic
import Mathlib.Data.List.Infix
import Mathlib.Logic.Function.Basic
import Mathlib.Tactic.SplitIfs

/-! Trees of directories, files and links, and the walk that resolves a path. A
place is the list of names that lead to it from the root, the last one first; the
object at a place names its file by a number, so that two places may share one. -/

namespace FileTree

inductive Step (Name : Type)
  | here
  | up
  | down (n : Name)
deriving DecidableEq, Repr

structure Route (Name : Type) where
  absolute : Bool
  steps : List (Step Name)
deriving DecidableEq, Repr

abbrev Place (Name : Type) := List Name

/-- A `special` object is a FIFO, a socket or a device. -/
inductive Object (Name : Type)
  | directory
  | file (ino : Nat)
  | link (target : Route Name)
  | special
deriving DecidableEq, Repr

/-- The root is a directory, and so is whatever something lies in. `places` has every place that
is taken, and may have more. -/
structure Hierarchy (Name : Type) where
  get : Place Name → Option (Object Name)
  places : List (Place Name)
  root : get [] = some .directory
  rooted : ∀ {n p o}, get (n :: p) = some o → get p = some .directory
  covers : ∀ {p o}, get p = some o → p ∈ places

inductive Trouble
  | missing
  | notDirectory
  | loop
deriving DecidableEq, Repr

def straight {Name : Type} (p : Place Name) : List (Step Name) := p.reverse.map .down

namespace Hierarchy

variable {Name : Type} (t : Hierarchy Name)

def Links (p : Place Name) : Prop := ∃ target, t.get p = some (.link target)

variable {t} in
theorem parent_directory {p : Place Name} {o : Object Name} (h : t.get p = some o) :
    t.get p.tail = some .directory := by
  cases p with
  | nil => exact t.root
  | cons n p => exact t.rooted h

section walk

variable [DecidableEq Name]

/-- Take the steps one after the other. The last name need not exist, and a link in its place is
followed only on demand; any other link is, by `onLink`. -/
def walkWith (follow : Bool) (onLink : Place Name → List (Step Name) → Except Trouble (Place Name)) :
    Place Name → List (Step Name) → Except Trouble (Place Name)
  | p, [] => .ok p
  | p, step :: rest =>
    if t.get p = some .directory then
      match step with
      | .here => walkWith follow onLink p rest
      | .up => walkWith follow onLink p.tail rest
      | .down n =>
        match t.get (n :: p) with
        | none => if rest.isEmpty then .ok (n :: p) else .error .missing
        | some (.link target) =>
          if rest.isEmpty ∧ follow = false then .ok (n :: p)
          else onLink (if target.absolute then [] else p) (target.steps ++ rest)
        | some _ => walkWith follow onLink (n :: p) rest
    else .error .notDirectory

/-- The walk gives up after a number of links. -/
def walk (follow : Bool) : (links : Nat) → Place Name → List (Step Name) →
    Except Trouble (Place Name)
  | 0 => t.walkWith follow fun _ _ => .error .loop
  | links + 1 => t.walkWith follow (walk follow links)

variable {t} {follow : Bool} {p q : Place Name} {steps : List (Step Name)}

/-- The rule for what every step of a walk from an existing place keeps. -/
theorem walk_induction (P : Place Name → Prop)
    (stop : ∀ p o, t.get p = some o → (follow = true → ¬ t.Links p) → P p)
    (fresh : ∀ n p, t.get p = some .directory → t.get (n :: p) = none → P (n :: p))
    {links : Nat} (found : t.get p ≠ none) (plain : follow = true → ¬ t.Links p)
    (walked : t.walk follow links p steps = .ok q) : P q := by
  have directory : ∀ {p}, t.get p = some .directory → t.get p ≠ none ∧ ¬ t.Links p := by
    intro p h
    rw [Links, h]
    simp
  have level : ∀ {onLink : Place Name → List (Step Name) → Except Trouble (Place Name)},
      (∀ p steps, t.get p = some .directory → onLink p steps = .ok q → P q) →
      ∀ steps p, t.get p ≠ none → (follow = true → ¬ t.Links p) →
        t.walkWith follow onLink p steps = .ok q → P q := by
    intro onLink further steps
    induction steps with
    | nil =>
      intro p found plain walked
      cases walked
      obtain ⟨o, found⟩ := Option.ne_none_iff_exists'.mp found
      exact stop _ o found plain
    | cons step rest ih =>
      intro p found plain walked
      unfold walkWith at walked
      by_cases inside : t.get p = some .directory
      · rw [if_pos inside] at walked
        cases step with
        | here => exact ih p found plain walked
        | up =>
          have above := directory (parent_directory inside)
          exact ih p.tail above.1 (fun _ => above.2) walked
        | down n =>
          dsimp only at walked
          split at walked
          · rename_i absent
            split at walked
            · cases walked
              exact fresh n p inside absent
            · cases walked
          · rename_i target link
            split at walked
            · rename_i last
              cases walked
              refine stop _ _ link fun following => ?_
              rw [last.2] at following
              cases following
            · refine further _ _ ?_ walked
              split
              · exact t.root
              · exact inside
          · rename_i o other object
            refine ih (n :: p) (by rw [object]; simp) (fun _ => ?_) walked
            rintro ⟨target, link⟩
            rw [object] at link
            exact other target (Option.some.inj link)
      · rw [if_neg inside] at walked
        cases walked
  induction links generalizing p steps with
  | zero => exact level (fun _ _ _ h => by cases h) steps p found plain walked
  | succ links ih =>
    refine level (fun p steps inside further => ?_) steps p found plain walked
    exact ih (directory inside).1 (fun _ => (directory inside).2) further

theorem walk_plain {links : Nat} (inside : t.get p = some .directory)
    (walked : t.walk true links p steps = .ok q) : ¬ t.Links q := by
  refine walk_induction (fun q => ¬ t.Links q) (fun _ _ _ plain => plain rfl)
    (fun _ _ _ absent => ?_) ?_ (fun _ => ?_) walked
  · rw [Links, absent]
    simp
  · rw [inside]
    simp
  · rw [Links, inside]
    simp

omit [DecidableEq Name] in
theorem ancestor {a : List Name} {o : Object Name} (found : t.get (a ++ p) = some o)
    (proper : a ≠ []) : t.get p = some .directory := by
  induction a generalizing o with
  | nil => exact absurd rfl proper
  | cons n a ih =>
    have above := t.rooted found
    cases a with
    | nil => exact above
    | cons m a => exact ih above (List.cons_ne_nil m a)

section parts

variable {d : Place Name} {first : List (Step Name)}

def onLink (t : Hierarchy Name) (follow : Bool) : (links : Nat) → Place Name → List (Step Name) →
    Except Trouble (Place Name)
  | 0 => fun _ _ => .error .loop
  | links + 1 => t.walk follow links

theorem walk_eq (links : Nat) : t.walk follow links = t.walkWith follow (t.onLink follow links) := by
  cases links <;> rfl

section steps

variable {links : Nat}

theorem walk_here (inside : t.get p = some .directory) :
    t.walk follow links p (.here :: steps) = t.walk follow links p steps := by
  rw [walk_eq, walkWith, if_pos inside]

theorem walk_up (inside : t.get p = some .directory) :
    t.walk follow links p (.up :: steps) = t.walk follow links p.tail steps := by
  rw [walk_eq, walkWith, if_pos inside]

theorem walk_down (inside : t.get p = some .directory) (n : Name) :
    t.walk follow links p (.down n :: steps) =
      match t.get (n :: p) with
      | none => if steps.isEmpty then .ok (n :: p) else .error .missing
      | some (.link target) =>
        if steps.isEmpty ∧ follow = false then .ok (n :: p)
        else t.onLink follow links (if target.absolute then [] else p) (target.steps ++ steps)
      | some _ => t.walk follow links (n :: p) steps := by
  rw [walk_eq, walkWith, if_pos inside]

theorem walk_outside (outside : t.get p ≠ some .directory) (step : Step Name) :
    t.walk follow links p (step :: steps) = .error .notDirectory := by
  rw [walk_eq]
  cases step <;> rw [walkWith, if_neg outside]

end steps

theorem walk_from {links : Nat} (inside : t.get q = some .directory) :
    t.walk follow links [] (straight q ++ steps) = t.walk follow links q steps := by
  induction q generalizing steps with
  | nil => rfl
  | cons n d ih =>
    have split : straight (n :: d) ++ steps = straight d ++ .down n :: steps := by simp [straight]
    have above := t.rooted inside
    rw [split, ih above, walk_down above, inside]

theorem walk_straight {links : Nat} (inside : t.get q.tail = some .directory)
    (plain : follow = true → ¬ t.Links q) : t.walk follow links [] (straight q) = .ok q := by
  cases q with
  | nil =>
    rw [walk_eq]
    rfl
  | cons n d =>
    have split : straight (n :: d) = straight d ++ [.down n] := by simp [straight]
    have inside : t.get d = some .directory := inside
    rw [split, walk_from inside, walk_down inside]
    split
    · rfl
    · rename_i target link
      cases follow with
      | true => exact absurd ⟨target, link⟩ (plain rfl)
      | false => rfl
    · rw [walk_eq]
      rfl

theorem walk_congr {t' : Hierarchy Name} (same : t'.get = t.get) {links : Nat} :
    t'.walk follow links p steps = t.walk follow links p steps := by
  have level : ∀ {few few' : Place Name → List (Step Name) → Except Trouble (Place Name)},
      (∀ p steps, few' p steps = few p steps) → ∀ steps p,
      t'.walkWith follow few' p steps = t.walkWith follow few p steps := by
    intro few few' agree steps
    induction steps with
    | nil => exact fun p => rfl
    | cons step rest ih =>
      intro p
      cases step <;> simp only [walkWith, same, ih, agree]
  induction links generalizing p steps with
  | zero => exact level (fun _ _ => rfl) steps p
  | succ links ih => exact level (fun p steps => ih) steps p

theorem walk_mono {links more : Nat} (le : links ≤ more)
    (ended : t.walk follow links p steps ≠ .error .loop) :
    t.walk follow more p steps = t.walk follow links p steps := by
  have level : ∀ {few many : Place Name → List (Step Name) → Except Trouble (Place Name)},
      (∀ p steps, few p steps ≠ .error .loop → many p steps = few p steps) → ∀ steps p,
      t.walkWith follow few p steps ≠ .error .loop →
        t.walkWith follow many p steps = t.walkWith follow few p steps := by
    intro few many agree steps
    induction steps with
    | nil => exact fun p _ => rfl
    | cons step rest ih =>
      intro p ended
      by_cases inside : t.get p = some .directory
      · cases step with
        | here =>
          simp only [walkWith, if_pos inside] at ended ⊢
          exact ih p ended
        | up =>
          simp only [walkWith, if_pos inside] at ended ⊢
          exact ih p.tail ended
        | down n =>
          simp only [walkWith, if_pos inside] at ended ⊢
          split at ended
          · rfl
          · split at ended
            · rename_i last
              rw [if_pos last, if_pos last]
            · rename_i last
              rw [if_neg last, if_neg last]
              exact agree _ _ ended
          · exact ih _ ended
      · cases step <;> simp only [walkWith, if_neg inside]
  induction links generalizing more p steps with
  | zero =>
    rw [walk_eq] at ended ⊢
    rw [walk_eq]
    exact level (fun _ _ h => absurd rfl h) steps p ended
  | succ links ih =>
    obtain ⟨more, rfl⟩ := Nat.exists_eq_add_of_le' (Nat.one_le_of_lt le)
    exact level (fun p steps ended => ih (Nat.le_of_succ_le_succ le) ended) steps p ended

/-- What is at one place, if it is no directory and no link, does not matter to where a walk leads. -/
theorem walk_agree {t' : Hierarchy Name} {x : Place Name} (same : ∀ p, p ≠ x → t'.get p = t.get p)
    (old : t.get x ≠ some .directory) (unlinked : ¬ t.Links x) (new : ¬ t'.Links x) {links : Nat}
    (walked : t.walk follow links p steps = .ok q) : t'.walk follow links p steps = .ok q := by
  -- past `x` the old walk could not have gone on
  have ends : ∀ {links rest}, t.walk follow links x rest = .ok q → q = x ∧ rest = [] := by
    intro links rest walked
    cases rest with
    | nil =>
      rw [walk_eq] at walked
      cases walked
      exact ⟨rfl, rfl⟩
    | cons step rest =>
      rw [walk_outside old] at walked
      cases walked
  have arrive : ∀ links n p, n :: p = x → t'.get p = some .directory →
      t'.walk follow links p [.down n] = .ok x := by
    intro links n p here inside
    rw [walk_down inside, here]
    split
    · rfl
    · rename_i target link
      exact absurd ⟨target, link⟩ new
    · rw [walk_eq]
      rfl
  induction links using Nat.strongRecOn generalizing p steps with
  | ind links ihLinks =>
    induction steps generalizing p with
    | nil =>
      rw [walk_eq] at walked ⊢
      exact walked
    | cons step rest ih =>
      by_cases inside : t.get p = some .directory
      · have apart : p ≠ x := by
          rintro rfl
          exact old inside
        have inside' : t'.get p = some .directory := (same p apart).trans inside
        cases step with
        | here =>
          rw [walk_here inside] at walked
          rw [walk_here inside']
          exact ih walked
        | up =>
          rw [walk_up inside] at walked
          rw [walk_up inside']
          exact ih walked
        | down n =>
          rw [walk_down inside] at walked
          by_cases here : n :: p = x
          · have stop : q = x ∧ rest = [] := by
              rw [here] at walked
              split at walked
              · split at walked
                · rename_i last
                  cases walked
                  exact ⟨rfl, List.isEmpty_iff.mp last⟩
                · cases walked
              · rename_i target link
                exact absurd ⟨target, link⟩ unlinked
              · exact ends walked
            rw [stop.1, stop.2]
            exact arrive links n p here inside'
          · rw [walk_down inside', same _ here]
            split at walked
            · exact walked
            · rename_i target link
              by_cases last : rest.isEmpty = true ∧ follow = false
              · rw [if_pos last] at walked ⊢
                exact walked
              · rw [if_neg last] at walked ⊢
                cases links with
                | zero => cases walked
                | succ links => exact ihLinks links (Nat.lt_succ_self links) walked
            · exact ih walked
      · rw [walk_outside inside] at walked
        cases walked

theorem walk_follow {links : Nat} (walked : t.walk false links p steps = .ok q)
    (unlinked : ¬ t.Links q) : t.walk true links p steps = .ok q := by
  induction links using Nat.strongRecOn generalizing p steps with
  | ind links ihLinks =>
    induction steps generalizing p with
    | nil =>
      rw [walk_eq] at walked ⊢
      exact walked
    | cons step rest ih =>
      by_cases inside : t.get p = some .directory
      · cases step with
        | here =>
          rw [walk_here inside] at walked ⊢
          exact ih walked
        | up =>
          rw [walk_up inside] at walked ⊢
          exact ih walked
        | down n =>
          rw [walk_down inside] at walked ⊢
          split at walked
          · exact walked
          · rename_i target link
            split at walked
            · cases walked
              exact absurd ⟨target, link⟩ unlinked
            · rw [if_neg (by simp)]
              cases links with
              | zero => cases walked
              | succ links => exact ihLinks links (Nat.lt_succ_self links) walked
          · exact ih walked
      · rw [walk_outside inside] at walked
        cases walked

theorem walk_append {links : Nat} (walked : t.walk true links p first = .ok d)
    (found : t.get d ≠ none) : ∃ fewer ≤ links, ∀ follow rest, rest ≠ [] →
      t.walk follow links p (first ++ rest) = t.walk follow fewer d rest := by
  induction links using Nat.strongRecOn generalizing p first with
  | ind links ihLinks =>
    induction first generalizing p with
    | nil =>
      rw [walk_eq] at walked
      cases walked
      exact ⟨links, le_rfl, fun follow rest _ => rfl⟩
    | cons step first ih =>
      by_cases inside : t.get p = some .directory
      · cases step with
        | here =>
          rw [walk_here inside] at walked
          obtain ⟨fewer, le, same⟩ := ih walked
          refine ⟨fewer, le, fun follow rest some => ?_⟩
          rw [← same follow rest some, List.cons_append, walk_here inside]
        | up =>
          rw [walk_up inside] at walked
          obtain ⟨fewer, le, same⟩ := ih walked
          refine ⟨fewer, le, fun follow rest some => ?_⟩
          rw [← same follow rest some, List.cons_append, walk_up inside]
        | down n =>
          rw [walk_down inside] at walked
          split at walked
          · rename_i absent
            split at walked
            · cases walked
              exact absurd absent found
            · cases walked
          · rename_i target link
            rw [if_neg (by simp)] at walked
            cases links with
            | zero => cases walked
            | succ links =>
              obtain ⟨fewer, le, same⟩ := ihLinks links (Nat.lt_succ_self links) walked
              refine ⟨fewer, le.trans (Nat.le_succ links), fun follow rest some => ?_⟩
              have more : ¬ ((first ++ rest).isEmpty = true ∧ follow = false) := by simp [some]
              rw [← same follow rest some, List.cons_append, walk_down inside, link]
              simp only [if_neg more, List.append_assoc]
              rfl
          · rename_i o other object
            obtain ⟨fewer, le, same⟩ := ih walked
            refine ⟨fewer, le, fun follow rest some => ?_⟩
            rw [← same follow rest some, List.cons_append, walk_down inside, object]
            split <;> simp_all
      · rw [walk_outside inside] at walked
        cases walked

theorem walk_prefix {links : Nat} {rest : List (Step Name)}
    (walked : t.walk follow links p (first ++ rest) = .ok q) (some : rest ≠ []) :
    ∃ d, t.walk true links p first = .ok d ∧ t.get d = .some .directory := by
  induction links using Nat.strongRecOn generalizing p first with
  | ind links ihLinks =>
    induction first generalizing p with
    | nil =>
      obtain ⟨step, rest, rfl⟩ := List.exists_cons_of_ne_nil some
      refine ⟨p, by rw [walk_eq]; rfl, ?_⟩
      by_contra outside
      rw [List.nil_append, walk_outside outside] at walked
      cases walked
    | cons step first ih =>
      rw [List.cons_append] at walked
      by_cases inside : t.get p = .some .directory
      · cases step with
        | here =>
          rw [walk_here inside] at walked ⊢
          exact ih walked
        | up =>
          rw [walk_up inside] at walked ⊢
          exact ih walked
        | down n =>
          rw [walk_down inside] at walked ⊢
          split at walked
          · rw [if_neg (by simp [some])] at walked
            cases walked
          · rename_i target link
            rw [if_neg (by simp [some])] at walked
            simp only [Bool.true_eq_false, and_false, if_false]
            cases links with
            | zero => cases walked
            | succ links =>
              rw [← List.append_assoc] at walked
              exact ihLinks links (Nat.lt_succ_self links) walked
          · exact ih walked
      · rw [walk_outside inside] at walked
        cases walked

end parts

end walk

section update

variable [DecidableEq Name] {t : Hierarchy Name} {p q new old : Place Name} {n : Name} {o : Object Name}

def Leaf (t : Hierarchy Name) (p : Place Name) : Prop :=
  ∀ q ∈ t.places, q ≠ [] → q.tail = p → t.get q = none

instance (t : Hierarchy Name) (p : Place Name) : Decidable (t.Leaf p) :=
  inferInstanceAs (Decidable (∀ q ∈ t.places, q ≠ [] → q.tail = p → t.get q = none))

omit [DecidableEq Name] in
theorem Leaf.get_eq (leaf : t.Leaf p) (n : Name) : t.get (n :: p) = none := by
  by_contra found
  obtain ⟨o, found⟩ := Option.ne_none_iff_exists'.mp found
  rw [leaf _ (t.covers found) (List.cons_ne_nil n p) rfl] at found
  cases found

omit [DecidableEq Name] in
theorem Leaf.get_append {a : List Name} (leaf : t.Leaf p) (proper : a ≠ []) :
    t.get (a ++ p) = none := by
  by_contra found
  obtain ⟨n, b, rfl⟩ : ∃ n b, a = b ++ [n] :=
    ⟨_, _, (List.dropLast_append_getLast proper).symm⟩
  obtain ⟨o, found⟩ := Option.ne_none_iff_exists'.mp found
  rw [List.append_assoc, List.singleton_append] at found
  by_cases direct : b = []
  · rw [direct, List.nil_append, leaf.get_eq] at found
    cases found
  · have above := ancestor found direct
    rw [leaf.get_eq] at above
    cases above

/-- Put an object under a name in a directory, but not in the place of a directory. -/
def put (t : Hierarchy Name) (n : Name) (p : Place Name) (o : Object Name)
    (inside : t.get p = some .directory) (free : t.get (n :: p) ≠ some .directory) : Hierarchy Name where
  get := Function.update t.get (n :: p) (some o)
  places := (n :: p) :: t.places
  root := by
    rw [Function.update_of_ne (List.cons_ne_nil n p).symm]
    exact t.root
  rooted {m q o'} found := by
    by_cases there : m :: q = n :: p
    · cases there
      rw [Function.update_of_ne (List.cons_ne_self n p).symm]
      exact inside
    · rw [Function.update_of_ne there] at found
      have above := t.rooted found
      rw [Function.update_of_ne]
      · exact above
      · rintro rfl
        exact free above
  covers {q o'} found := by
    by_cases there : q = n :: p
    · exact List.mem_cons.mpr (.inl there)
    · rw [Function.update_of_ne there] at found
      exact List.mem_cons_of_mem _ (t.covers found)

@[simp] theorem get_put (inside : t.get p = some .directory)
    (free : t.get (n :: p) ≠ some .directory) :
    (t.put n p o inside free).get = Function.update t.get (n :: p) (some o) :=
  rfl

def remove (t : Hierarchy Name) (p : Place Name) (proper : p ≠ []) : Hierarchy Name where
  get q := if p <:+ q then none else t.get q
  places := t.places
  root := by
    rw [if_neg fun lies => proper (List.suffix_nil.mp lies)]
    exact t.root
  rooted {m q o} found := by
    split at found
    · cases found
    · rename_i stays
      rw [if_neg fun lies => stays (lies.trans (List.suffix_cons m q))]
      exact t.rooted found
  covers {q o} found := by
    split at found
    · cases found
    · exact t.covers found

@[simp] theorem get_remove (proper : p ≠ []) :
    (t.remove p proper).get = fun q => if p <:+ q then none else t.get q :=
  rfl

/-- What leads on from the first place to the second, if it lies there. -/
def below (p q : Place Name) : Option (List Name) :=
  if p <:+ q then some (q.take (q.length - p.length)) else none

theorem below_eq_some {rest : List Name} : below p q = some rest ↔ q = rest ++ p := by
  unfold below
  constructor
  · intro h
    split at h
    · rename_i lies
      obtain ⟨rest', rfl⟩ := lies
      cases h
      simp
    · cases h
  · rintro rfl
    simp

/-- Where a place has got to when what is at `old` was moved to `new`. -/
def moved (old new q : Place Name) : Place Name :=
  match below old q with
  | some rest => rest ++ new
  | none => q

theorem below_eq_none : below p q = none ↔ ¬ p <:+ q := by
  unfold below
  split <;> simp [*]

def move (t : Hierarchy Name) (old new : Place Name) (proper : old ≠ []) (named : new ≠ [])
    (inside : t.get new.tail = some .directory) (apart : ¬ old <:+ new.tail) : Hierarchy Name where
  get q :=
    match below new q with
    | some rest => t.get (rest ++ old)
    | none => if old <:+ q then none else t.get q
  places := t.places ++ t.places.map (moved old new)
  covers {q o} found := by
    cases here : below new q with
    | some rest =>
      rw [here] at found
      rw [below_eq_some] at here
      have came : moved old new (rest ++ old) = q := by
        have lies : below old (rest ++ old) = some rest := below_eq_some.mpr rfl
        rw [moved, lies, here]
      exact List.mem_append_right _ (List.mem_map.mpr ⟨_, t.covers found, came⟩)
    | none =>
      rw [here] at found
      dsimp only at found
      split at found
      · cases found
      · exact List.mem_append_left _ (t.covers found)
  root := by
    have outside : below new ([] : Place Name) = none := by simp [below_eq_none, named]
    rw [outside]
    simp [proper, t.root]
  rooted {m q o} found := by
    -- what lies under the new place has come from the old one
    cases here : below new (m :: q) with
    | some rest =>
      rw [here] at found
      rw [below_eq_some] at here
      cases rest with
      | nil =>
        have above : q = new.tail := by rw [← List.nil_append new, ← here, List.tail_cons]
        have outside : below new q = none := by
          rw [below_eq_none, above]
          intro lies
          have shorter := lies.length_le
          have longer := List.length_pos_iff.mpr named
          rw [List.length_tail] at shorter
          omega
        rw [outside, above]
        simp only [if_neg apart]
        exact inside
      | cons k rest =>
        obtain ⟨rfl, above⟩ := List.cons.inj here
        have within : below new q = some rest := below_eq_some.mpr above
        rw [within]
        exact t.rooted found
    | none =>
      rw [here] at found
      dsimp only at found
      split at found
      · cases found
      · rename_i stays
        rw [below_eq_none] at here
        have outside : below new q = none := below_eq_none.mpr fun lies =>
          here (lies.trans (List.suffix_cons m q))
        have stays : ¬ old <:+ q := fun lies => stays (lies.trans (List.suffix_cons m q))
        rw [outside]
        simp only [if_neg stays]
        exact t.rooted found

end update

def bare {Name : Type} : Hierarchy Name where
  get p := if p = [] then some .directory else none
  places := [[]]
  root := rfl
  rooted {n p o} found := by
    rw [if_neg (List.cons_ne_nil n p)] at found
    cases found
  covers {p o} found := by
    split at found
    · rename_i root
      exact List.mem_singleton.mpr root
    · cases found

end Hierarchy

end FileTree
