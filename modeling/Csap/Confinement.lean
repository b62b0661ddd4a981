import Csap.CheckedPaths
import Csap.Moves
import Csap.LocalCalls
import Csap.TemporaryFiles

/-! What a call reaches in the file system, and what it is to reach nothing outside a user's home. -/

namespace Csap

open FileTree Prog

theorem route_entry' {d : Place FileName} {s : CStr} (plain : 47 ∉ s) :
    route (entry d s) = { absolute := true, steps := straight d ++ [stepOf s] } := by
  by_cases some : s = []
  · have parts : entry d [] = spell d ++ 47 :: [] := rfl
    have last : (entry d []).getLast? = Option.some 47 := by
      rw [parts, List.getLast?_append_of_ne_nil _ (List.cons_ne_nil _ _)]
      rfl
    have names : tokens 47 [] (entry d []) = d.reverse.map Subtype.val := by
      rw [parts, tokens_append, tokens_spell]
      exact List.append_nil _
    have here : stepOf [] = .here := rfl
    rw [some, route, head_entry, names, map_stepOf, if_pos last, here]
    rfl
  · exact route_entry plain some

/-- What the call makes, changes, removes, renames or enters if it is answered so. A file that is
opened for writing counts as changed; the FIFO of a session that is notified does not. -/
def World.Reaches (w : World) (x : Place FileName) : (c : FileCall) → c.Reply → Prop
  | .openPath path flags _, .ok _ =>
    flags.access ≠ .rdonly ∧ flags ≠ notifyFlags ∧ w.opens path flags = some x
  | .mkstemp _, (.ok _, name) => w.free false name = some x
  | .rename old new, .ok () => ∃ p q, w.renames old new = some (p, q) ∧ (x = p ∨ x = q)
  | .unlink path, .ok () => w.unlinks path = some x
  | .rmdir path, .ok () => w.rmdirs path = some x
  | .mkdir path _, .ok () | .mkfifo path _, .ok () => w.free false path = some x
  | .chmod path _, .ok () | .chown path _ _, .ok () | .chdir path, .ok () =>
    (w.look true path).map Prod.fst = some x
  | _, _ => False

def World.ReadsFrom (w : World) (x : Place FileName) : (c : FileCall) → c.Reply → Prop
  | .openPath path flags _, .ok _ => flags.access = .rdonly ∧ w.opens path flags = some x
  | _, _ => False

def World.ListsFrom (w : World) (x : Place FileName) : (c : FileCall) → c.Reply → Prop
  | .opendir path, .ok _ => (w.look true path).map Prod.fst = some x
  | _, _ => False

/-- Calls after which what was in the working directory may be elsewhere. -/
def Moves : FileCall → Prop
  | .rename _ _ | .chdir _ => True
  | _ => False

/-- `create_user` makes directories outside, but it enters none. -/
structure World.Confined (w : World) (home root : Place FileName) (command : Option Command)
    (c : FileCall) (r : c.Reply) : Prop where
  reached : command ≠ some .createUser ∨ Moves c → ∀ x, w.Reaches x c r → home <:+ x
  read : command = some .read ∨ command = some .downloadBegin → ∀ x, w.ReadsFrom x c r → home <:+ x
  listed : ∀ x, w.ListsFrom x c r → root <:+ x

/-- The working directory lies in the home directory, or has been removed. -/
def World.Within (w : World) (home : Place FileName) : Prop :=
  ∀ d ∈ w.cwd, home <:+ d ∧ w.tree.get d = some .directory

section within

variable {w : World} {home q : Place FileName}

theorem World.Within.congr {w' : World} (h : w.Within home) (cwd : w'.cwd = w.cwd)
    (kept : ∀ d, w.tree.get d = some .directory → w'.tree.get d = some .directory) :
    w'.Within home := by
  intro d here
  rw [cwd] at here
  exact ⟨(h d here).1, kept d (h d here).2⟩

theorem Volume.add_directory {v : Volume} {q d : Place FileName} {kind : FileKind} {mode : Nat}
    (room : v.Room q) (inside : v.tree.get d = some .directory) :
    (v.add q kind mode).tree.get d = some .directory := by
  rw [Volume.get_add room, Function.update_of_ne]
  · exact inside
  · rintro rfl
    rw [room.absent] at inside
    cases inside

theorem World.remove_within (h : w.Within home) (q : Option (Place FileName)) :
    (w.remove q).Within home := by
  cases q with
  | none => exact h
  | some q =>
    intro d here
    obtain ⟨here, apart⟩ := Option.mem_filter_iff.mp here
    obtain ⟨inside, directory⟩ := h d here
    refine ⟨inside, ?_⟩
    change (w.drop q).tree.get d = _
    unfold Volume.drop
    split
    · rename_i proper
      rw [Hierarchy.get_remove]
      dsimp only
      rw [if_neg (by simpa using apart)]
      exact directory
    · exact directory

theorem Volume.get_relocate {v : Volume} {old new x : Place FileName} (room : v.Movable old new) :
    (v.relocate old new).tree.get x =
      match Hierarchy.below new x with
      | some rest => v.tree.get (rest ++ old)
      | none => if old <:+ x then none else v.tree.get x := by
  rw [relocate, dif_pos room]
  cases here : Hierarchy.below new x <;> simp only [Hierarchy.move, here]

theorem World.rename_within {p : Place FileName} (h : w.Within home) (inside : home <:+ q)
    (may : (∃ o ∈ w.tree.get p, w.Same p q o) ∨ w.Movable p q) : (w.rename p q).Within home := by
  unfold World.rename
  split
  · exact h
  · rename_i distinct
    have movable := may.resolve_left distinct
    intro d here
    change d ∈ (w.cwd.filter fun d => p <:+ d ∨ ¬ q <:+ d).map (Hierarchy.moved p q) at here
    obtain ⟨d0, stays, rfl⟩ := Option.mem_map.mp here
    obtain ⟨before, apart⟩ := Option.mem_filter_iff.mp stays
    obtain ⟨inside0, directory⟩ := h d0 before
    change home <:+ Hierarchy.moved p q d0 ∧ (w.relocate p q).tree.get _ = _
    rw [Volume.get_relocate movable, Hierarchy.moved]
    cases lies : Hierarchy.below p d0 with
    | some rest =>
      rw [Hierarchy.below_eq_some] at lies
      dsimp only
      rw [Hierarchy.below_eq_some.mpr rfl]
      refine ⟨inside.trans (List.suffix_append rest q), ?_⟩
      dsimp only
      rw [← lies]
      exact directory
    | none =>
      have outside := Hierarchy.below_eq_none.mp lies
      have beside : Hierarchy.below q d0 = none := by
        rw [Hierarchy.below_eq_none]
        simpa [outside] using apart
      dsimp only
      rw [beside]
      dsimp only
      rw [if_neg outside]
      exact ⟨inside0, directory⟩

theorem World.add_within {kind : FileKind} {mode : Nat} (h : w.Within home) (room : w.Room q) :
    (w.withVolume (w.add q kind mode)).Within home :=
  h.congr rfl fun _ => Volume.add_directory room

theorem World.make_within {path : CStr} {kind : FileKind} {mode : Nat} (h : w.Within home) :
    (w.make path kind mode).Within home := by
  unfold World.make
  split
  · rename_i q free
    exact World.add_within h (World.free_eq_some.mp free).2
  · exact h

theorem World.changeFile_tree {fd : Int} {change : Opened → File → File} :
    (w.changeFile fd change).tree = w.tree ∧ (w.changeFile fd change).cwd = w.cwd := by
  unfold World.changeFile
  split <;> exact ⟨rfl, rfl⟩

theorem World.open_tree (w : World) (path : CStr) (flags : OpenFlags) (mode : Nat) (fd : Int) :
    (w.after (.openPath path flags mode) (.ok fd)).cwd = w.cwd ∧
      ((w.after (.openPath path flags mode) (.ok fd)).tree = w.tree ∨
        ∃ q, flags.creat = true ∧ w.opens path flags = some q ∧ w.Room q ∧
          (w.after (.openPath path flags mode) (.ok fd)).tree = (w.add q .regular mode).tree) := by
  cases opens : w.opens path flags with
  | none =>
    have same : w.after (.openPath path flags mode) (.ok fd) = w := by simp [World.after, opens]
    rw [same]
    exact ⟨rfl, .inl rfl⟩
  | some q =>
    by_cases absent : w.tree.get q = none
    · rw [World.after_open_new opens absent]
      obtain ⟨-, ⟨-, creat, room⟩ | ⟨o, found, -⟩⟩ := World.opens_cases opens
      · exact ⟨rfl, .inr ⟨q, creat, rfl, room, rfl⟩⟩
      · rw [absent] at found
        cases found
    · simp only [World.after, opens, if_neg absent]
      split
      · exact ⟨World.changeFile_tree.2, .inl World.changeFile_tree.1⟩
      · exact ⟨rfl, .inl rfl⟩

theorem World.changeFile_within {fd : Int} {f : Opened → File → File} (h : w.Within home) :
    (w.changeFile fd f).Within home :=
  h.congr World.changeFile_tree.2 fun d directory => by rw [World.changeFile_tree.1]; exact directory

theorem World.open_within {path : CStr} {flags : OpenFlags} {mode : Nat} {fd : Int}
    (h : w.Within home) : (w.after (.openPath path flags mode) (.ok fd)).Within home := by
  obtain ⟨cwd, same | ⟨q, -, -, room, same⟩⟩ := World.open_tree w path flags mode fd
  · exact h.congr cwd fun d directory => by rw [same]; exact directory
  · exact h.congr cwd fun d directory => by rw [same]; exact Volume.add_directory room directory

theorem World.mkstemp_within {template name : CStr} {fd : Int} (h : w.Within home) :
    (w.after (.mkstemp template) (.ok fd, name)).Within home := by
  simp only [World.after]
  split
  · rename_i q free
    exact World.add_within h (World.free_eq_some.mp free).2
  · exact h

theorem World.renamed_within {old new : CStr} (h : w.Within home)
    (answered : w.Answers (.rename old new) (.ok ()))
    (reached : ∀ x, w.Reaches x (.rename old new) (.ok ()) → home <:+ x) :
    (w.after (.rename old new) (.ok ())).Within home := by
  cases renames : w.renames old new with
  | none => exact absurd renames answered
  | some places =>
    obtain ⟨p, q⟩ := places
    have left : w.after (.rename old new) (.ok ()) = w.rename p q := by
      simp only [World.after, renames]
    rw [left]
    obtain ⟨o, found, -, may⟩ := World.renames_cases renames
    obtain ⟨-, there⟩ := World.look_eq_some.mp found
    exact World.rename_within h (reached q ⟨p, q, renames, .inr rfl⟩)
      (may.imp (fun same => ⟨o, there, same⟩) fun moves => moves.1)

theorem World.chmod_within {path : CStr} {mode : Nat} (h : w.Within home) :
    (w.after (.chmod path mode) (.ok ())).Within home := by
  simp only [World.after]
  split
  · rename_i q o look
    refine h.congr rfl fun d directory => ?_
    change (w.setMode q mode).tree.get d = _
    unfold Volume.setMode
    split <;> exact directory
  · exact h

theorem World.chdir_within {path : CStr} (answered : w.Answers (.chdir path) (.ok ()))
    (reached : ∀ x, w.Reaches x (.chdir path) (.ok ()) → home <:+ x) :
    (w.after (.chdir path) (.ok ())).Within home := by
  obtain ⟨⟨q, o⟩, look, rfl⟩ := Option.map_eq_some_iff.mp answered
  have left : w.after (.chdir path) (.ok ()) = { w with cwd := some q } := by
    simp only [World.after, look]
  rw [left]
  intro d here
  cases here
  exact ⟨reached q (by simp [World.Reaches, look]), (World.look_eq_some.mp look).2⟩

/-- Whatever reaches nothing outside leaves the working directory inside. -/
theorem World.Within.after {c : FileCall} {r : c.Reply} (h : w.Within home) (answered : w.Answers c r)
    (reached : Moves c → ∀ x, w.Reaches x c r → home <:+ x) : (w.after c r).Within home := by
  by_cases looks : World.Looks c
  · obtain ⟨volume, cwd⟩ := World.after_looks looks r
    exact h.congr cwd fun d directory => by rw [volume]; exact directory
  cases c with
  | openPath path flags mode =>
    cases r with
    | error e => exact h
    | ok fd => exact World.open_within h
  | mkstemp template =>
    obtain ⟨e | fd, name⟩ := r
    · exact h
    · exact World.mkstemp_within h
  | write fd data =>
    cases r with
    | error e => exact h
    | ok written => exact World.changeFile_within h
  | fchmod fd mode =>
    cases r with
    | error e => exact h
    | ok done => exact World.changeFile_within h
  | rename old new =>
    cases r with
    | error e => exact h
    | ok done => exact World.renamed_within h answered (reached trivial)
  | unlink path =>
    cases r with
    | error e => exact h
    | ok done => exact World.remove_within h _
  | rmdir path =>
    cases r with
    | error e => exact h
    | ok done => exact World.remove_within h _
  | mkdir path mode =>
    cases r with
    | error e => exact h
    | ok done => exact World.make_within h
  | mkfifo path mode =>
    cases r with
    | error e => exact h
    | ok done => exact World.make_within h
  | chmod path mode =>
    cases r with
    | error e => exact h
    | ok done => exact World.chmod_within h
  | chdir path =>
    cases r with
    | error e => exact h
    | ok done => exact World.chdir_within answered (reached trivial)
  | _ => exact absurd trivial looks

end within

structure Unmoved (w w' : World) : Prop where
  tree : w'.tree = w.tree
  cwd : w'.cwd = w.cwd

@[reducible] def Still : Call → Prop
  | .file (.openPath _ flags _) => flags = notifyFlags
  | .file (.mkstemp _) | .file (.rename _ _) | .file (.unlink _) | .file (.rmdir _)
  | .file (.mkdir _ _) | .file (.mkfifo _ _) | .file (.chmod _ _) | .file (.chown _ _ _)
  | .file (.chdir _) | .file (.opendir _) => False
  | _ => True

instance still_judged : Judged Still where
  admits
    | .openPath flags => flags = notifyFlags
    | .mkstemp | .rename | .unlink | .rmdir | .mkdir | .mkfifo | .chmod | .chown | .chdir
    | .opendir => false
    | _ => true
  sound := by
    rintro (c | c | c | c | c | c) <;> cases c <;> simp

section still

variable {w w' w'' : World} {home root : Place FileName} {command : Option Command}

theorem Unmoved.refl (w : World) : Unmoved w w := ⟨rfl, rfl⟩

theorem Unmoved.trans (h : Unmoved w w') (h' : Unmoved w' w'') : Unmoved w w'' :=
  ⟨h'.tree.trans h.tree, h'.cwd.trans h.cwd⟩

theorem Unmoved.resolve (h : Unmoved w w') (follow : Bool) (path : CStr) :
    w'.resolve follow path = w.resolve follow path := by
  rw [World.resolve, World.resolve, h.tree, h.cwd]

theorem Unmoved.look (h : Unmoved w w') (follow : Bool) (path : CStr) :
    w'.look follow path = w.look follow path := by
  rw [World.look, World.look, h.resolve, h.tree]

theorem World.Within.unmoved (within : w.Within home) (h : Unmoved w w') : w'.Within home :=
  within.congr h.cwd fun d directory => by rw [h.tree]; exact directory

theorem Unmoved.checked {path allowed v : CStr} (h : Unmoved w w') (checked : Checked w path allowed v) :
    Checked w' path allowed v := by
  cases checked with
  | existing found inside short => exact .existing ((h.look ..).trans found) inside short
  | missing absent led inside short =>
    refine .missing ?_ ((h.look ..).trans led) inside short
    unfold World.Missing at absent ⊢
    rw [h.resolve, h.tree]
    exact absent

theorem still_after {c : FileCall} (still : Still (.file c)) (r : c.Reply) : Unmoved w (w.after c r) := by
  by_cases looks : World.Looks c
  · obtain ⟨volume, cwd⟩ := World.after_looks looks r
    exact ⟨by rw [volume], cwd⟩
  cases c with
  | openPath path flags mode =>
    cases r with
    | error e => exact .refl w
    | ok fd =>
      have notify : flags = notifyFlags := still
      obtain ⟨cwd, same | ⟨q, creat, -⟩⟩ := World.open_tree w path flags mode fd
      · exact ⟨same, cwd⟩
      · rw [notify] at creat
        cases creat
  | write fd data =>
    cases r with
    | error e => exact .refl w
    | ok written => exact ⟨World.changeFile_tree.1, World.changeFile_tree.2⟩
  | fchmod fd mode =>
    cases r with
    | error e => exact .refl w
    | ok done => exact ⟨World.changeFile_tree.1, World.changeFile_tree.2⟩
  | _ => first | exact absurd still id | exact absurd trivial looks

theorem still_confined {c : FileCall} (still : Still (.file c)) (r : c.Reply) :
    w.Confined home root command c r := by
  cases c with
  | openPath path flags mode =>
    cases r with
    | error e => exact ⟨fun _ _ => False.elim, fun _ _ => False.elim, fun _ => False.elim⟩
    | ok fd =>
      have notify : flags = notifyFlags := still
      refine ⟨fun _ x reached => absurd notify reached.2.1, fun _ x read => ?_, fun _ => False.elim⟩
      have access : flags.access = .rdonly := read.1
      rw [notify] at access
      cases access
  | _ =>
    first
    | exact absurd still id
    | exact ⟨fun _ _ => False.elim, fun _ _ => False.elim, fun _ => False.elim⟩

end still

def Keeps (home root : Place FileName) (command : Option Command) (w : World) : (c : Call) → c.Reply → Prop
  | .file c, r => w.Confined home root command c r
  | _, _ => True

/-- The buffer that `getcwd` is given has `PATH_MAX` bytes. -/
def inBuffer : (c : Call) → c.Reply → Bool
  | .file .getcwd, .ok out => out.length < PATH_MAX
  | _, _ => true

def serving : Typestate Call.Reply World := posix.assuming fun _ c r => inBuffer c r = true

def confining (home root : Place FileName) (command : Option Command) : Typestate Call.Reply World :=
  { serving with allowed := fun w c => ∀ r, serving.expects w c r → Keeps home root command w c r }

section rules

variable {α : Type} {w : World} {home root : Place FileName} {command : Option Command}
  {Q : α → World → Prop}

theorem still_keeps {c : Call} (still : Still c) (r : c.Reply) : Keeps home root command w c r := by
  cases c with
  | file c => exact still_confined still r
  | _ => trivial

theorem still_next {c : Call} (still : Still c) (r : c.Reply) : Unmoved w (serving.next w c r) := by
  cases c with
  | file c => exact still_after still r
  | _ => exact .refl w

theorem wp_still {p : Sys α} (still : p.Calls Still) (hQ : ∀ a w', Unmoved w w' → Q a w') :
    wp (confining home root command) p Q w := by
  refine still.wp_preserving (Unmoved w) (fun w' c still same => ⟨fun r _ => ?_, fun r => ?_⟩) (.refl w) hQ
  · exact still_keeps still r
  · exact same.trans (still_next still r)

theorem wp_reaching {c : FileCall} {k : c.Reply → Sys α}
    (confined : ∀ r, w.Answers c r → w.Confined home root command c r)
    (h : ∀ r, w.Answers c r → wp (confining home root command) (k r) Q (w.after c r)) :
    wp (confining home root command) (fileCall c >>= k) Q w :=
  wp_call (fun r expected => confined r expected.1) fun r expected => h r expected.1

end rules

def NamedIn (d : Place FileName) (path : CStr) : Prop :=
  ∃ s, path = entry d s ∧ 47 ∉ s ∧ s ≠ cstr ".."

section names

variable {t : Hierarchy FileName} {cwd : Option (Place FileName)} {follow : Bool}
  {w : World} {path allowed v : CStr} {d q top : Place FileName} {o : Object FileName}

theorem resolve_entry' {s : CStr} (inside : t.get d = some .directory) (plain : 47 ∉ s) :
    resolve t cwd follow (entry d s) = t.walk follow MAXSYMLINKS d [stepOf s] := by
  have some : entry d s ≠ [] := by
    intro empty
    have head := head_entry d s
    rw [empty] at head
    cases head
  rw [resolve, if_neg some, route_entry' plain]
  exact Hierarchy.walk_from inside

theorem NamedIn.leads (named : NamedIn d path) (inside : t.get d = some .directory)
    (led : resolve t cwd false path = .ok q) : q = d ∨ ∃ n, q = n :: d := by
  obtain ⟨s, rfl, plain, other⟩ := named
  rw [resolve_entry' inside plain] at led
  unfold stepOf at led
  split at led
  · rename_i proper
    rw [Hierarchy.walk_down inside] at led
    refine .inr ⟨⟨s, proper⟩, ?_⟩
    split at led
    · cases led
      rfl
    · cases led
      rfl
    · rw [Hierarchy.walk_eq] at led
      cases led
      rfl
  · rw [Hierarchy.walk_here inside, Hierarchy.walk_eq] at led
    cases led
    exact .inl rfl

theorem World.Missing.basename (absent : w.Missing path)
    (dir : w.look true (dirname path) = some (d, o)) :
    47 ∉ basename path ∧ basename path ≠ cstr ".." := by
  unfold World.Missing World.resolve at absent
  by_cases empty : path = []
  · rw [empty]
    decide
  by_cases slashes : stripSlashes path = []
  · rw [resolve_slashes empty slashes] at absent
    dsimp only at absent
    rw [w.tree.root] at absent
    cases absent
  · obtain ⟨base, trailing, parts⟩ := splits slashes
    refine ⟨parts.plain, fun dots => ?_⟩
    obtain ⟨led, there⟩ := World.look_eq_some.mp dir
    rcases resolve_dots slashes dots led (by rw [there]; exact Option.some_ne_none o)
      with leads | ⟨q, leads, directory⟩
    · rw [leads] at absent
      cases absent
    · rw [leads] at absent
      dsimp only at absent
      rw [directory] at absent
      cases absent

/-- An accepted path leads to what lies in the root it was accepted for. -/
theorem Checked.inside (h : Checked w path allowed v)
    (canonical : stripSlashes (snprintf PATH_MAX allowed) = spell top)
    (led : w.resolve false v = .ok q) : top <:+ q := by
  cases h with
  | existing found inside short =>
    obtain ⟨-, there⟩ := World.look_eq_some.mp found
    rw [World.resolve, resolve_canonical (Hierarchy.parent_directory there) (by simp)] at led
    cases led
    rw [canonical] at inside
    exact insideRoot_iff.mp inside
  | missing absent dir inside short =>
    rename_i d o
    obtain ⟨plain, other⟩ := absent.basename dir
    obtain ⟨led', there⟩ := World.look_eq_some.mp dir
    rw [canonical] at inside
    have lies := insideRoot_iff.mp inside
    have named : basename path ≠ [] := by
      by_cases slashes : stripSlashes path = []
      · unfold basename
        split_ifs <;> decide
      · obtain ⟨base, trailing, parts⟩ := splits slashes
        exact parts.some
    have directory := entry_inside (Hierarchy.parent_directory there) (resolve_plain led') plain named led
    rcases NamedIn.leads ⟨_, rfl, plain, other⟩ directory led with rfl | ⟨n, rfl⟩
    · exact lies
    · exact lies.trans (List.suffix_cons n d)

theorem Checked.found_inside (h : Checked w path allowed v)
    (canonical : stripSlashes (snprintf PATH_MAX allowed) = spell top)
    (found : w.look true v = some (q, o)) : top <:+ q :=
  h.inside canonical (World.look_eq_some.mp (h.look_eq found)).1

end names

section checking

variable {α Ghost : Type} {T : Typestate Call.Reply Ghost} {g : Ghost} {w : World}
  {path root : CStr} {Q : α → Ghost → Prop}

/-- The calls of `validate_path` are made and answered on this file system, and nobody minds. -/
def Obeys (T : Typestate Call.Reply Ghost) (g : Ghost) (w : World) : Prop :=
  ∀ c, Checks c → T.allowed g c ∧ ∀ r, T.expects g c r → posix.expects w c r ∧ T.next g c r = g

theorem Obeys.wp_realpath {k : SysResult CStr → Sys α} (obeys : Obeys T g w)
    (failed : ∀ e, (e = ENOENT → w.Missing path) → wp T (k (.error e)) Q g)
    (found : ∀ q o, w.look true path = some (q, o) → (render q).length < PATH_MAX →
      wp T (k (.ok (render q))) Q g) : wp T (fileCall (.realpath path) >>= k) Q g := by
  obtain ⟨may, after⟩ := obeys (.file (.realpath path)) trivial
  apply wp_call may
  intro r expected
  obtain ⟨answered, same⟩ := after r expected
  rw [same]
  cases r with
  | error e => exact failed e answered
  | ok out =>
    obtain ⟨_, here, rfl, short⟩ := answered
    obtain ⟨⟨q, o⟩, look, rfl⟩ := Option.map_eq_some_iff.mp here
    exact found q o look short

theorem Obeys.wp_alloc {size : Nat} {k : Bool → Sys α} (obeys : Obeys T g w)
    (h : ∀ r, wp T (k r) Q g) : wp T (alloc size >>= k) Q g := by
  obtain ⟨may, after⟩ := obeys (.alloc size) trivial
  apply wp_call may
  intro r expected
  rw [(after r expected).2]
  exact h r

theorem Obeys.wp_validatePath {k : SysResult Unit × CStr → Sys α} (obeys : Obeys T g w)
    (refused : ∀ e, wp T (k (.error e, [])) Q g)
    (accepted : ∀ v, Checked w path root v → wp T (k (.ok (), v)) Q g) :
    wp T (validatePath path root >>= k) Q g := by
  apply wp_bind.mpr
  apply obeys.wp_realpath
  · intro e missing
    dsimp only
    rw [wp_ite]
    refine ⟨fun _ => refused _, fun absent => ?_⟩
    refine obeys.wp_alloc fun _ => obeys.wp_alloc fun _ => ?_
    rw [wp_ite]
    refine ⟨fun _ => refused _, fun _ => ?_⟩
    refine obeys.wp_realpath (fun _ _ => refused _) fun d o dir _ => ?_
    dsimp only
    rw [joined_eq, wp_ite]
    refine ⟨fun _ => refused _, fun inside => ?_⟩
    rw [wp_ite]
    refine ⟨fun _ => refused _, fun fits => accepted _ ?_⟩
    exact .missing (missing (not_ne_iff.mp absent)) dir (by simpa using inside) (not_le.mp fits)
  · intro q o found short
    rw [wp_ite]
    exact ⟨fun inside => accepted _ (.existing found inside short), fun _ => refused _⟩

end checking

theorem World.rmdirs_look {w : World} {path : CStr} {x : Place FileName} (h : w.rmdirs path = some x) :
    ∃ o, w.look false path = some (x, o) := by
  unfold rmdirs at h
  split at h
  · rename_i q o found
    split_ifs at h
    cases h
    exact ⟨o, found⟩
  · cases h

end Csap
