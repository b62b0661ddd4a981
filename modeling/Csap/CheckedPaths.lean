import Csap.Disk
import Csap.Server
import Csap.ValidPaths

/-! What `validate_path` accepts on a file system whose calls may fail. -/

namespace Csap

open FileTree Prog

/-- A path is accepted for where it leads, or for a new name in the directory it would lie in. -/
inductive Checked (w : World) (path root : CStr) : CStr → Prop
  | existing {q : Place FileName} {o : Object FileName} : w.look true path = some (q, o) →
      insideRoot (stripSlashes (snprintf PATH_MAX root)) (render q) = true →
      (render q).length < PATH_MAX → Checked w path root (render q)
  | missing {d : Place FileName} {o : Object FileName} : w.Missing path →
      w.look true (dirname path) = some (d, o) →
      insideRoot (stripSlashes (snprintf PATH_MAX root)) (render d) = true →
      (entry d (basename path)).length < PATH_MAX → Checked w path root (entry d (basename path))

section names

variable {w : World} {path root v s : CStr} {follow : Bool} {d q : Place FileName}
  {o : Object FileName}

theorem Checked.length (h : Checked w path root v) : v.length < PATH_MAX := by
  cases h with
  | existing found inside short => exact short
  | missing absent led inside short => exact short

theorem Checked.absolute (h : Checked w path root v) : v.head? = some 47 := by
  cases h with
  | existing found inside short => exact head_render _
  | missing absent led inside short => exact head_entry _ _

theorem World.Missing.look_entry (absent : w.Missing path)
    (dir : w.look true (dirname path) = some (d, o)) (some_ : path ≠ []) :
    w.look true (entry d (basename path)) = none := by
  obtain ⟨led', there'⟩ := World.look_eq_some.mp dir
  have above := Hierarchy.parent_directory there'
  cases found : w.look true (entry d (basename path)) with
  | none => rfl
  | some place =>
    exfalso
    obtain ⟨led, there⟩ := World.look_eq_some.mp found
    unfold World.Missing World.resolve at absent
    by_cases slashes : stripSlashes path = []
    · rw [resolve_slashes some_ slashes] at absent
      dsimp only at absent
      rw [w.tree.root] at absent
      cases absent
    · obtain ⟨base, trailing, parts⟩ := splits slashes
      have inside := entry_inside above (resolve_plain led') parts.plain parts.some led
      rcases resolve_of_entry slashes led' inside led (by rw [there]; exact Option.some_ne_none _)
        with leads | leads | leads
      · rw [leads] at absent
        dsimp only at absent
        rw [there] at absent
        cases absent
      · rw [leads] at absent
        cases absent
      · rw [leads] at absent
        cases absent

theorem Checked.spelled (h : Checked w path root v) (found : w.look true v = some (q, o)) :
    v = render q ∨ path = [] ∧ v = entry q (cstr ".") ∧ o = .directory := by
  obtain ⟨led, there⟩ := World.look_eq_some.mp found
  cases h with
  | existing before inside short =>
    obtain ⟨led', there'⟩ := World.look_eq_some.mp before
    rw [World.resolve, resolve_canonical (Hierarchy.parent_directory there')
      fun _ => resolve_plain led'] at led
    cases led
    exact .inl rfl
  | missing absent dir inside short =>
    by_cases empty : path = []
    · subst empty
      obtain ⟨led', there'⟩ := World.look_eq_some.mp dir
      have above := Hierarchy.parent_directory there'
      have inside := entry_inside above (resolve_plain led') (by decide) (by decide) led
      have step : stepOf (basename []) = .here := rfl
      rw [World.resolve, resolve_entry inside (by decide) (by decide), step, Hierarchy.walk_here inside,
        Hierarchy.walk_eq] at led
      cases led
      rw [inside] at there
      cases there
      exact .inr ⟨rfl, rfl, rfl⟩
    · rw [absent.look_entry dir empty] at found
      cases found

theorem Checked.rendered (h : Checked w path root v) (found : w.look true v = some (q, o))
    (some_ : path ≠ []) : v = render q :=
  (h.spelled found).resolve_right fun empty => some_ empty.1

theorem Checked.look_eq (h : Checked w path root v) (found : w.look true v = some (q, o)) :
    w.look false v = some (q, o) := by
  obtain ⟨-, there⟩ := World.look_eq_some.mp found
  refine World.look_eq_some.mpr ⟨?_, there⟩
  rcases h.spelled found with rfl | ⟨-, rfl, rfl⟩
  · exact resolve_canonical (Hierarchy.parent_directory there) (by simp)
  · have step : stepOf (cstr ".") = .here := rfl
    rw [World.resolve, resolve_entry there (by decide) (by decide), step, Hierarchy.walk_here there,
      Hierarchy.walk_eq]
    rfl

theorem Checked.basename_short (h : Checked w path root v) (found : w.look true v = some (q, o)) :
    (basename v).length ≤ NAME_MAX := by
  obtain ⟨-, there⟩ := World.look_eq_some.mp found
  rcases h.spelled found with rfl | ⟨-, rfl, rfl⟩
  · cases q with
    | nil => decide
    | cons n d =>
      rw [render_cons, basename_entry n.2.2.1 n.2.1]
      exact w.short there
  · rw [basename_entry (by decide) (by decide)]
    decide

end names

section rules

variable {α Notes : Type} {promised : World → (c : Call) → c.Reply → Prop}
  {see : Notes → (c : Call) → c.Reply → Notes} {w : World} {notes : Notes} {path root : CStr}
  {Q : α → World × Notes → Prop}

/-- The calls of `validate_path`. -/
@[reducible] def Checks : Call → Prop
  | .alloc _ | .file (.realpath _) => True
  | _ => False

theorem wp_realpath {k : SysResult CStr → Sys α}
    (quiet : ∀ n c r, Checks c → see n c r = n)
    (failed : ∀ e, (e = ENOENT → w.Missing path) →
      wp ((posix.assuming promised).watching see) (k (.error e)) Q (w, notes))
    (found : ∀ q o, w.look true path = some (q, o) → (render q).length < PATH_MAX →
      wp ((posix.assuming promised).watching see) (k (.ok (render q))) Q (w, notes)) :
    wp ((posix.assuming promised).watching see) (fileCall (.realpath path) >>= k) Q (w, notes) := by
  refine wp_file ?_
  rintro (e | out) answered -
  · rw [quiet _ _ _ trivial]
    exact failed e answered
  · rw [quiet _ _ _ trivial]
    obtain ⟨_, here, rfl, short⟩ := answered
    obtain ⟨⟨q, o⟩, look, rfl⟩ := Option.map_eq_some_iff.mp here
    exact found q o look short

theorem wp_validatePath {k : SysResult Unit × CStr → Sys α}
    (quiet : ∀ n c r, Checks c → see n c r = n)
    (refused : ∀ e, wp ((posix.assuming promised).watching see) (k (.error e, [])) Q (w, notes))
    (accepted : ∀ v, Checked w path root v →
      wp ((posix.assuming promised).watching see) (k (.ok (), v)) Q (w, notes)) :
    wp ((posix.assuming promised).watching see) (validatePath path root >>= k) Q (w, notes) := by
  refine wp_bind.mpr (wp_realpath quiet (fun e missing => ?_) fun q o found short => ?_)
  · dsimp only
    rw [wp_ite]
    refine ⟨fun _ => refused _, fun absent => ?_⟩
    refine wp_other (by simp) fun _ _ => wp_other (by simp) fun _ _ => ?_
    rw [quiet _ _ _ trivial, quiet _ _ _ trivial, wp_ite]
    refine ⟨fun _ => refused _, fun _ => ?_⟩
    refine wp_realpath quiet (fun _ _ => refused _) fun d o dir _ => ?_
    dsimp only
    rw [joined_eq, wp_ite]
    refine ⟨fun _ => refused _, fun inside => ?_⟩
    rw [wp_ite]
    refine ⟨fun _ => refused _, fun fits => accepted _ ?_⟩
    exact .missing (missing (not_ne_iff.mp absent)) dir (by simpa using inside) (not_le.mp fits)
  · rw [wp_ite]
    exact ⟨fun inside => accepted _ (.existing found inside short), fun _ => refused _⟩

end rules

end Csap
