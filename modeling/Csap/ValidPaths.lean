import Csap.PathNames
import Csap.Runs

/-! `validate_path` on a tree of directories and links: it accepts just what lies in the root, and
names below the root that are not taken. -/

namespace Csap

open FileTree Prog

/-- What `realpath` answers by: the tree, the working directory, and what it refuses for reasons of
its own (permissions, limits). -/
structure Names where
  tree : Hierarchy FileName
  cwd : Option (Place FileName)
  refused : CStr → Option Errno
  refused_ne : ∀ path, refused path ≠ some ENOENT

def troubleErrno : Trouble → Errno
  | .missing => ENOENT
  | .notDirectory => ENOTDIR
  | .loop => ELOOP

namespace Names

variable (n : Names)

def realpath (path : CStr) : SysResult CStr :=
  match n.refused path with
  | some e => .error e
  | none =>
    match resolve n.tree n.cwd true path with
    | .error trouble => .error (troubleErrno trouble)
    | .ok q =>
      if n.tree.get q = none then .error ENOENT
      else if PATH_MAX ≤ (render q).length then .error ENAMETOOLONG
      else .ok (render q)

def answers : Handler Call.Reply Unit Unit := fun c _ u =>
  match c with
  | .file (.realpath path) => some (n.realpath path, u)
  | .alloc _ => some (true, u)
  | _ => none

/-- The path is that of an object in the root, or a new name's in a directory there. -/
def Within (r : Place FileName) (path : CStr) : Prop :=
  (∃ q, n.realpath path = .ok (render q) ∧ r <:+ q) ∨
  (n.realpath path = .error ENOENT ∧ ∃ d, n.realpath (dirname path) = .ok (render d) ∧ r <:+ d ∧
    (entry d (basename path)).length < PATH_MAX)

/-- The canonical path, or the parent's with a last name. -/
def Canonical (path out : CStr) : Prop :=
  (n.realpath path = .ok out ∧ ∃ q, out = render q ∧ n.tree.get q ≠ none) ∨
  (n.realpath path = .error ENOENT ∧ ∃ d, n.realpath (dirname path) = .ok (render d) ∧
    out = entry d (basename path) ∧ basename path ≠ cstr "..")

/-- A path that continues the root's without a slash. -/
def Sibling (r : Place FileName) (path : CStr) : Prop :=
  ∃ c rest, c ≠ 47 ∧ (n.Canonical path (spell r ++ c :: rest) ∨
    n.realpath path = .error ENOENT ∧ n.realpath (dirname path) = .ok (spell r ++ c :: rest))

section realpath

variable {n} {path v : CStr}

theorem realpath_ok (found : n.realpath path = .ok v) : ∃ q, v = render q ∧
    n.tree.get q ≠ none ∧ resolve n.tree n.cwd true path = .ok q ∧ v.length < PATH_MAX := by
  unfold realpath at found
  split at found
  · cases found
  · split at found
    · cases found
    · rename_i q led
      split_ifs at found with absent long
      cases found
      exact ⟨q, rfl, absent, led, not_le.mp long⟩

theorem realpath_missing (missing : n.realpath path = .error ENOENT) :
    resolve n.tree n.cwd true path = .error .missing ∨
      ∃ q, resolve n.tree n.cwd true path = .ok q ∧ n.tree.get q = none := by
  unfold realpath at missing
  split at missing
  · rename_i e refused
    cases missing
    exact absurd refused (n.refused_ne path)
  · split at missing
    · rename_i trouble led
      cases trouble with
      | missing => exact .inl led
      | notDirectory => cases missing
      | loop => cases missing
    · rename_i q led
      split_ifs at missing with absent
      · exact .inr ⟨q, led, absent⟩
      · cases missing

theorem basename_ne_dots {d : Place FileName} (missing : n.realpath path = .error ENOENT)
    (led : n.realpath (dirname path) = .ok (render d)) : basename path ≠ cstr ".." := by
  intro dots
  have some : stripSlashes path ≠ [] := by
    intro empty
    unfold basename at dots
    split_ifs at dots
    · cases dots
    · cases dots
  obtain ⟨d', -, found, led, -⟩ := realpath_ok led
  rcases resolve_dots some dots led found with outside | ⟨q, there, directory⟩
  · rcases realpath_missing missing with trouble | ⟨q, there, -⟩
    · rw [outside] at trouble
      cases trouble
    · rw [outside] at there
      cases there
  · rcases realpath_missing missing with trouble | ⟨q', there', absent⟩
    · rw [there] at trouble
      cases trouble
    · rw [there] at there'
      cases there'
      rw [directory] at absent
      cases absent

end realpath

end Names

/-- What the source returns, and what its buffer holds then. -/
def returned : SysResult Unit × CStr → Int × CStr
  | (.ok (), validatedPath) => (0, validatedPath)
  | (.error e, validatedPath) => (e.neg, validatedPath)

structure Verdict (n : Names) (r : Place FileName) (path : CStr) (result : Int × CStr) : Prop where
  accepts : result.1 = 0 ↔ n.Within r path
  output : result.1 = 0 → n.Canonical path result.2
  refusal : result.1 ≠ 0 → result.1 < 0 ∧ result.2 = []
  sibling : n.Sibling r path → result.1 ≠ 0

section verdict

variable {n : Names} {r q d : Place FileName} {path : CStr}

theorem verdict_refused {e : Errno} (outside : ¬ n.Within r path) :
    Verdict n r path (returned (.error e, [])) where
  accepts := ⟨fun zero => absurd zero e.neg_lt_zero.ne, fun within => absurd within outside⟩
  output zero := absurd zero e.neg_lt_zero.ne
  refusal _ := ⟨e.neg_lt_zero, rfl⟩
  sibling _ := e.neg_lt_zero.ne

theorem render_inside (same : render q = render d) : r <:+ q ↔ r <:+ d := by
  rw [← insideRoot_iff, ← insideRoot_iff, same]

theorem render_no_sibling {c : UInt8} {rest : CStr} (inside : r <:+ d) (other : c ≠ 47) :
    render d ≠ spell r ++ c :: rest := by
  intro same
  have whole := insideRoot_iff.mpr inside
  rw [same] at whole
  simp [insideRoot, other] at whole

theorem entry_no_sibling {s rest : CStr} {c : UInt8} (inside : r <:+ d) (other : c ≠ 47) :
    entry d s ≠ spell r ++ c :: rest := by
  obtain ⟨a, rfl⟩ := inside
  intro same
  rw [entry, spell_append, List.append_assoc] at same
  have next := List.append_cancel_left same
  cases a with
  | nil =>
    cases next
    exact other rfl
  | cons m a =>
    have first : (spell (m :: a) ++ 47 :: s).head? = some 47 := by
      rw [List.head?_append, head_spell (List.cons_ne_nil m a)]
      rfl
    rw [next] at first
    exact other (Option.some.inj first)

theorem verdict_existing (there : n.realpath path = .ok (render q)) (inside : r <:+ q) :
    Verdict n r path (returned (.ok (), render q)) where
  accepts := ⟨fun _ => .inl ⟨q, there, inside⟩, fun _ => rfl⟩
  output _ := by
    obtain ⟨q', same, found, -⟩ := Names.realpath_ok there
    exact .inl ⟨there, q', same, found⟩
  refusal failed := absurd rfl failed
  sibling := by
    rintro ⟨c, rest, other, (⟨same, -⟩ | ⟨missing, -⟩) | ⟨missing, -⟩⟩
    · rw [there] at same
      exact absurd (Except.ok.inj same) (render_no_sibling inside other)
    · rw [there] at missing
      cases missing
    · rw [there] at missing
      cases missing

theorem verdict_fresh (missing : n.realpath path = .error ENOENT)
    (led : n.realpath (dirname path) = .ok (render d)) (inside : r <:+ d)
    (fits : (entry d (basename path)).length < PATH_MAX) :
    Verdict n r path (returned (.ok (), entry d (basename path))) where
  accepts := ⟨fun _ => .inr ⟨missing, d, led, inside, fits⟩, fun _ => rfl⟩
  output _ := .inr ⟨missing, d, led, rfl, Names.basename_ne_dots missing led⟩
  refusal failed := absurd rfl failed
  sibling := by
    rintro ⟨c, rest, other, (⟨there, -⟩ | ⟨-, d', led', same, -⟩) | ⟨-, led'⟩⟩
    · rw [missing] at there
      cases there
    · rw [led] at led'
      have inside' := (render_inside (Except.ok.inj led')).mp inside
      exact absurd same.symm (entry_no_sibling inside' other)
    · rw [led] at led'
      exact absurd (Except.ok.inj led') (render_no_sibling inside other)

end verdict

section validate

variable {n : Names} {root path : CStr} {r : Place FileName}

theorem joined_eq (d : Place FileName) (s : CStr) :
    render d ++ (if render d = cstr "/" then [] else cstr "/") ++ s = entry d s := by
  cases d with
  | nil => rfl
  | cons m d =>
    have more : render (m :: d) ≠ cstr "/" := by
      intro same
      have names := tokens_render (m :: d)
      rw [same] at names
      have empty : tokens 47 [] (cstr "/") = [] := rfl
      rw [empty] at names
      simp at names
    rw [if_neg more, render, if_neg (List.cons_ne_nil m d), entry, List.append_assoc]
    rfl

/-- For a canonical root, with slashes after it or not, `validate_path` accepts just the paths of what
lies in it and of new names in its directories. -/
theorem validatePath_verdict (n : Names) {root path : CStr} {r : Place FileName}
    (canonical : stripSlashes root = spell r) (short : root.length < PATH_MAX) :
    Achieves n.answers (validatePath path root) (fun result _ => Verdict n r path (returned result))
      () := by
  have nroot : stripSlashes (snprintf PATH_MAX root) = spell r := by
    rw [snprintf_eq_self short, canonical]
  unfold validatePath
  refine Achieves.bind (achieves_call rfl ?_)
  rw [nroot]
  cases there : n.realpath path with
  | ok v =>
    obtain ⟨q, rfl, -⟩ := Names.realpath_ok there
    dsimp only
    split
    · rename_i inside
      exact achieves_pure (verdict_existing there (insideRoot_iff.mp inside))
    · rename_i outside
      refine achieves_pure (verdict_refused ?_)
      rintro (⟨q', same, inside⟩ | ⟨missing, -⟩)
      · rw [there] at same
        exact outside (insideRoot_iff.mpr ((render_inside (Except.ok.inj same)).mpr inside))
      · rw [there] at missing
        cases missing
  | error e =>
    have absent : ∀ q, n.realpath path ≠ .ok (render q) := by
      intro q same
      rw [there] at same
      cases same
    dsimp only
    split
    · rename_i other
      refine achieves_pure (verdict_refused ?_)
      rintro (⟨q, same, -⟩ | ⟨missing, -⟩)
      · exact absent q same
      · rw [there] at missing
        cases missing
        exact other rfl
    · rename_i same
      have missing : n.realpath path = .error ENOENT := by rw [there, not_ne_iff.mp same]
      refine Achieves.bind (achieves_call rfl (Achieves.bind (achieves_call rfl ?_)))
      rw [if_neg (by simp)]
      refine Achieves.bind (achieves_call rfl ?_)
      cases parent : n.realpath (dirname path) with
      | error e' =>
        refine achieves_pure (verdict_refused ?_)
        rintro (⟨q, same, -⟩ | ⟨-, d, led, -⟩)
        · exact absent q same
        · rw [parent] at led
          cases led
      | ok v =>
        obtain ⟨d, rfl, -⟩ := Names.realpath_ok parent
        dsimp only
        have only : n.Within r path → r <:+ d ∧ (entry d (basename path)).length < PATH_MAX := by
          rintro (⟨q, same, -⟩ | ⟨-, d', led, inside, fits⟩)
          · exact absurd same (absent q)
          · rw [parent] at led
            rw [← joined_eq] at fits ⊢
            rw [Except.ok.inj led]
            exact ⟨(render_inside (Except.ok.inj led)).mpr inside, fits⟩
        rw [joined_eq]
        split
        · rename_i outside
          refine achieves_pure (verdict_refused fun within => ?_)
          rw [insideRoot_iff.mpr (only within).1] at outside
          cases outside
        · rename_i inside
          have inside : r <:+ d := insideRoot_iff.mp (by simpa using inside)
          split
          · rename_i long
            exact achieves_pure (verdict_refused fun within => not_lt.mpr long (only within).2)
          · rename_i fits
            exact achieves_pure (verdict_fresh missing parent inside (not_le.mp fits))

end validate

section sample

def homes : Hierarchy FileName :=
  (Hierarchy.bare.put srv [] .directory rfl (by decide)).put alice [srv] .directory rfl (by decide)

def homeNames : Names where
  tree := homes
  cwd := some [alice, srv]
  refused := fun _ => none
  refused_ne := fun _ same => by cases same

theorem validatePath_verdict_home : Achieves homeNames.answers
    (validatePath (cstr "../alice/note") (cstr "/srv/alice/"))
    (fun result _ => Verdict homeNames [alice, srv] (cstr "../alice/note") (returned result)) () :=
  validatePath_verdict homeNames (by decide) (by decide)

/-- A root that is not spelled the canonical way refuses what lies in it. -/
theorem doubled_slash_refused : ¬ ∀ (n : Names) {root path : CStr} {r : Place FileName},
    root.head? = some 47 → n.tree.walk true 0 [] (route root).steps = .ok r →
    n.tree.get r = some .directory → root.length < PATH_MAX → Achieves n.answers
      (validatePath path root) (fun result _ => Verdict n r path (returned result)) () := by
  intro all
  have there : homeNames.realpath (cstr "/srv/alice") = .ok (render [alice, srv]) := by
    decide +kernel
  obtain ⟨log, a, u, ran, verdict⟩ := @all homeNames (cstr "/srv//alice") (cstr "/srv/alice")
    [alice, srv] rfl (by decide +kernel) (by decide +kernel) (by decide)
  have refused : Achieves homeNames.answers (validatePath (cstr "/srv/alice") (cstr "/srv//alice"))
      (fun result _ => result = (.error EPERM, [])) () := by
    refine Achieves.bind (achieves_call rfl ?_)
    rw [there]
    exact achieves_pure rfl
  obtain ⟨log', a', u', ran', rfl⟩ := refused
  obtain ⟨-, rfl, -⟩ := ran.unique ran'
  have zero := verdict.accepts.mpr (.inl ⟨_, there, List.suffix_rfl⟩)
  cases zero

end sample

end Csap
