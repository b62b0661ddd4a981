import Csap.ConfinedCommands

/-! What is received reaches nothing outside the home directory, unless it is to replace that directory. -/

namespace Csap

open FileTree Prog

/-- A path in a directory that leads inside for as long as that is one. -/
structure Tame (d home : Place FileName) (path : CStr) : Prop where
  named : NamedIn d path
  inside : ∀ {t : Hierarchy FileName} {cwd q}, t.get d = some .directory →
    resolve t cwd false path = .ok q → home <:+ q

section tame

variable {w : World} {d q home : Place FileName} {path allowed v s : CStr} {o : Object FileName}

theorem tame_below (named : NamedIn d path) (inside : home <:+ d) : Tame d home path where
  named := named
  inside directory led := by
    rcases named.leads directory led with rfl | ⟨n, rfl⟩
    · exact inside
    · exact inside.trans (List.suffix_cons n d)

theorem World.Missing.directory (absent : w.Missing path)
    (dir : w.look true (dirname path) = some (d, o)) : w.tree.get d = some .directory := by
  obtain ⟨led, there⟩ := World.look_eq_some.mp dir
  by_contra outside
  unfold World.Missing World.resolve at absent
  by_cases empty : path = []
  · rw [empty] at led
    obtain ⟨p, inside, walked⟩ := resolve_walks led
    have steps : (route (dirname [])).steps = [.here] := rfl
    rw [steps, Hierarchy.walk_here inside, Hierarchy.walk_eq] at walked
    cases walked
    exact outside inside
  by_cases slashes : stripSlashes path = []
  · rw [resolve_slashes empty slashes] at absent
    dsimp only at absent
    rw [w.tree.root] at absent
    cases absent
  · obtain ⟨fewer, -, trailing, -, same⟩ := resolve_of_dirname slashes led
      (by rw [there]; exact Option.some_ne_none o)
    rw [same true, Hierarchy.walk_outside outside] at absent
    cases absent

theorem Checked.tame (h : Checked w path allowed v)
    (canonical : stripSlashes (snprintf PATH_MAX allowed) = spell home) (proper : home ≠ []) :
    ∃ d s, v = entry d s ∧ 47 ∉ s ∧ w.tree.get d = some .directory ∧ Tame d home v ∧
      (home <:+ d ∨ ∃ o, w.look true path = some (home, o)) := by
  cases h with
  | existing found inside short =>
    rename_i q o
    rw [canonical] at inside
    have lies := insideRoot_iff.mp inside
    obtain ⟨-, there⟩ := World.look_eq_some.mp found
    cases q with
    | nil => exact absurd (List.suffix_nil.mp lies) proper
    | cons n d =>
      have directory := w.tree.rooted there
      refine ⟨d, n.1, render_cons n d, n.2.2.1, directory, ⟨⟨n.1, render_cons n d, n.2.2.1, n.2.2.2.2⟩, ?_⟩, ?_⟩
      · intro t cwd q directory led
        rw [resolve_canonical directory (by simp)] at led
        cases led
        exact lies
      · rcases List.suffix_cons_iff.mp lies with rfl | lies
        · exact .inr ⟨o, found⟩
        · exact .inl lies
  | missing absent dir inside short =>
    rename_i d o
    rw [canonical] at inside
    have lies := insideRoot_iff.mp inside
    obtain ⟨plain, other⟩ := absent.basename dir
    exact ⟨d, _, rfl, plain, absent.directory dir, tame_below ⟨_, rfl, plain, other⟩ lies, .inl lies⟩

theorem tempTemplate_entry (plain : 47 ∉ s) (short : (entry d s).length < PATH_MAX) :
    ∃ k, tempTemplate (entry d s) = entry d ((cstr ".tempXXXXXX").take k) := by
  refine ⟨PATH_MAX - 1 - (spell d ++ [47]).length, ?_⟩
  have whole : (entry d s).rdropWhile (· ≠ 47) ++ cstr ".tempXXXXXX" =
      (spell d ++ [47]) ++ cstr ".tempXXXXXX" := by
    rw [entry, rdropWhile_cons _ plain]
  rw [tempTemplate, whole, snprintf, List.take_append, List.take_of_length_le]
  · rw [entry, List.append_assoc]
    rfl
  · rw [entry, List.length_append, List.length_cons] at short
    rw [List.length_append, List.length_singleton]
    omega

theorem named_template (k : Nat) : NamedIn d (entry d ((cstr ".tempXXXXXX").take k)) := by
  refine ⟨_, rfl, fun slash => ?_, fun dots => ?_⟩
  · have slash := List.mem_of_mem_take slash
    revert slash
    decide
  · have second : ((cstr ".tempXXXXXX").take k)[1]? = some 46 := by
      rw [dots]
      rfl
    rw [List.getElem?_take] at second
    split at second
    · revert second
      decide
    · cases second

theorem Fills.named_in {t name : CStr} (plain : 47 ∉ t) (fills : Fills (entry d t) name) :
    NamedIn d name := by
  obtain ⟨ends, length, front, rest⟩ := fills
  have size : (entry d t).length = (spell d).length + 1 + t.length := by
    rw [entry, List.length_append, List.length_cons]
    omega
  have long : 6 ≤ t.length := by
    by_contra few
    have slash : 47 ∈ (entry d t).drop ((entry d t).length - 6) := by
      rw [entry, List.drop_append_of_le_length (by rw [← entry, size]; omega)]
      simp
    rw [ends] at slash
    revert slash
    decide
  have front' : (entry d t).take ((entry d t).length - 6) = spell d ++ 47 :: t.take (t.length - 6) := by
    rw [size, entry, List.take_append, List.take_of_length_le (by omega)]
    have more : (spell d).length + 1 + t.length - 6 - (spell d).length = t.length - 6 + 1 := by omega
    rw [more, List.take_succ_cons]
  have parts := List.take_append_drop ((entry d t).length - 6) name
  have filled : (name.drop ((entry d t).length - 6)).length = 6 := by
    rw [List.length_drop, length, size]
    omega
  rw [front, front', List.append_assoc, List.cons_append] at parts
  refine ⟨_, parts.symm, fun slash => ?_, fun dots => ?_⟩
  · rcases List.mem_append.mp slash with slash | slash
    · exact plain (List.mem_of_mem_take slash)
    · have alnum := List.all_eq_true.mp rest 47 slash
      revert alnum
      decide
  · have two := congrArg List.length dots
    rw [List.length_append, filled] at two
    have dots : (cstr "..").length = 2 := rfl
    omega

theorem Tame.leads (tame : Tame d home path) (directory : w.tree.get d = some .directory) :
    w.Leads home path := fun _ led => tame.inside directory led

end tame

namespace Confine

/-- Calls that make, replace and remove names in a directory, or leave the tree alone. -/
@[reducible] def Stages (d home : Place FileName) : Call → Prop
  | .file (.openPath path flags _) => flags = notifyFlags ∨ Tame d home path ∧ flags = receiveOpenFlags
  | .file (.rename old new) => Tame d home old ∧ Tame d home new
  | .file (.unlink path) => Tame d home path
  | c => Still c

section staging

variable {α : Type} {w : World} {d home root : Place FileName} {command : Option Command}
  {Q : α → World → Prop}

theorem rename_directory {old new : CStr} {p q : Place FileName} (source : NamedIn d old)
    (target : NamedIn d new) (directory : w.tree.get d = some .directory)
    (renames : w.renames old new = some (p, q)) : (w.rename p q).tree.get d = some .directory := by
  obtain ⟨o, found, led, may⟩ := World.renames_cases renames
  obtain ⟨led', there⟩ := World.look_eq_some.mp found
  unfold World.rename
  split
  · exact directory
  · rename_i distinct
    obtain ⟨movable, yields⟩ := may.resolve_left fun same => distinct ⟨o, there, same⟩
    change (w.relocate p q).tree.get d = _
    have from_child : ∃ n, p = n :: d := by
      refine (source.leads directory led').resolve_left ?_
      rintro rfl
      rcases target.leads directory led with rfl | ⟨n, rfl⟩
      · exact distinct ⟨o, there, .inl rfl⟩
      · exact movable.apart List.suffix_rfl
    obtain ⟨m, rfl⟩ := from_child
    have to_child : ∃ n, q = n :: d := by
      refine (target.leads directory led).resolve_left ?_
      rintro rfl
      unfold World.Yields at yields
      rw [directory] at yields
      have gone := yields.2.get_eq m
      rw [there] at gone
      cases gone
    obtain ⟨n, rfl⟩ := to_child
    have outside : ∀ k, ¬ (k :: d) <:+ d := by
      intro k lies
      have longer := lies.length_le
      rw [List.length_cons] at longer
      omega
    rw [Volume.get_relocate movable, Hierarchy.below_eq_none.mpr (outside n)]
    dsimp only
    rw [if_neg (outside m)]
    exact directory

theorem remove_directory {path : CStr} (directory : w.tree.get d = some .directory) :
    (w.remove (w.unlinks path)).tree.get d = some .directory := by
  cases unlinks : w.unlinks path with
  | none => exact directory
  | some q =>
    obtain ⟨o, found, other⟩ := World.unlinks_eq_some.mp unlinks
    obtain ⟨-, there⟩ := World.look_eq_some.mp found
    change (w.drop q).tree.get d = _
    have proper : q ≠ [] := by
      rintro rfl
      rw [w.tree.root] at there
      cases there
      exact other rfl
    have plain : w.tree.get q ≠ some .directory := by
      rw [there]
      exact fun same => other (Option.some.inj same)
    rw [Volume.get_drop proper plain, if_neg]
    · exact directory
    · rintro rfl
      exact plain directory

@[reducible] def Spares : Call → Prop
  | .file (.rename _ _) | .file (.rmdir _) => False
  | _ => True

theorem spares_after {c : FileCall} (spares : Spares (.file c))
    (directory : w.tree.get d = some .directory) (r : c.Reply) :
    (w.after c r).tree.get d = some .directory := by
  by_cases looks : World.Looks c
  · rw [(World.after_looks looks r).1]
    exact directory
  have made : ∀ {path : CStr} {kind : FileKind} {mode : Nat},
      (w.make path kind mode).tree.get d = some .directory := by
    intro path kind mode
    unfold World.make
    split
    · rename_i q free
      exact Volume.add_directory (World.free_eq_some.mp free).2 directory
    · exact directory
  have changed : ∀ {fd : Int} {change : Opened → File → File},
      (w.changeFile fd change).tree.get d = some .directory := by
    intro fd change
    rw [World.changeFile_tree.1]
    exact directory
  cases c with
  | openPath path flags mode =>
    cases r with
    | error e => exact directory
    | ok fd =>
      obtain ⟨-, same | ⟨q, -, -, room, same⟩⟩ := World.open_tree w path flags mode fd
      · rw [same]
        exact directory
      · rw [same]
        exact Volume.add_directory room directory
  | mkstemp template =>
    obtain ⟨e | fd, name⟩ := r
    · exact directory
    · simp only [World.after]
      split
      · rename_i q free
        exact Volume.add_directory (World.free_eq_some.mp free).2 directory
      · exact directory
  | write fd data =>
    cases r with
    | error e => exact directory
    | ok written => exact changed
  | fchmod fd mode =>
    cases r with
    | error e => exact directory
    | ok done => exact changed
  | unlink path =>
    cases r with
    | error e => exact directory
    | ok done => exact remove_directory directory
  | mkdir path mode =>
    cases r with
    | error e => exact directory
    | ok done => exact made
  | mkfifo path mode =>
    cases r with
    | error e => exact directory
    | ok done => exact made
  | chmod path mode =>
    cases r with
    | error e => exact directory
    | ok done =>
      simp only [World.after]
      split
      · unfold Volume.setMode
        split <;> exact directory
      · exact directory
  | chdir path =>
    cases r with
    | error e => exact directory
    | ok done =>
      simp only [World.after]
      split <;> exact directory
  | rename old new => exact absurd spares id
  | rmdir path => exact absurd spares id
  | _ => exact absurd trivial looks

theorem stages_confined {c : FileCall} (stages : Stages d home (.file c))
    (directory : w.tree.get d = some .directory) (r : c.Reply) : w.Confined home root command c r := by
  cases c with
  | openPath path flags mode =>
    rcases stages with notify | ⟨tame, rfl⟩
    · exact still_confined notify r
    have inside : ∀ x, w.opens path receiveOpenFlags = some x → home <:+ x := fun x opens =>
      tame.leads directory x (World.opens_cases opens).1
    cases r with
    | error e => exact ⟨fun _ _ => False.elim, fun _ _ => False.elim, fun _ => False.elim⟩
    | ok fd => exact ⟨fun _ x reached => inside x reached.2.2, fun _ x read => inside x read.2,
        fun _ => False.elim⟩
  | rename old new => exact confined_rename (stages.1.leads directory) (stages.2.leads directory) r
  | unlink path => exact confined_unlink (Tame.leads stages directory) r
  | _ => exact still_confined stages r

theorem stages_after {c : FileCall} (stages : Stages d home (.file c))
    (directory : w.tree.get d = some .directory) (r : c.Reply) :
    (w.after c r).tree.get d = some .directory := by
  cases c with
  | rename old new =>
    cases r with
    | error e => exact directory
    | ok done =>
      cases renames : w.renames old new with
      | none =>
        have left : w.after (.rename old new) (.ok ()) = w := by simp only [World.after, renames]
        rw [left]
        exact directory
      | some places =>
        obtain ⟨p, q⟩ := places
        have left : w.after (.rename old new) (.ok ()) = w.rename p q := by simp only [World.after, renames]
        rw [left]
        exact rename_directory stages.1.named stages.2.named directory renames
  | rmdir path => exact absurd stages id
  | _ => exact spares_after trivial directory r

theorem wp_stages {p : Sys α} (stages : p.Calls (Stages d home))
    (directory : w.tree.get d = some .directory)
    (hQ : ∀ a w', w'.tree.get d = some .directory → Q a w') :
    wp (confining home root command) p Q w := by
  refine stages.wp_preserving (fun w => w.tree.get d = some .directory) (fun w c stages directory => ?_)
    directory hQ
  cases c with
  | file c =>
    exact ⟨fun r _ => stages_confined stages directory r, fun r => stages_after stages directory r⟩
  | _ => exact ⟨fun _ _ => trivial, fun _ => directory⟩

theorem stages_of_still (c : Call) (still : Still c) : Stages d home c := by
  cases c with
  | file c =>
    cases c with
    | openPath path flags mode => exact .inl still
    | _ => first | exact still | exact absurd still id
  | _ => trivial

instance stages_judged : Judged (Stages d home) where
  admits := Judged.admits Still
  sound c admitted := stages_of_still c (Judged.sound c admitted)

theorem receiveCleanup_stages {target : Target} {fd lockFd : Int} {tempPath : CStr} {existed : Bool}
    {result : SysResult Nat} (path : Tame d home target.path)
    (temp : tempPath = [] ∨ Tame d home tempPath) :
    (receiveCleanup target fd lockFd tempPath existed result).Calls (Stages d home) := by
  have close : ∀ fd, (fileCall (.close fd)).Calls (Stages d home) := fun fd => Calls.perform trivial
  refine Calls.bind (Calls.when (Calls.bind (close _) fun _ => Calls.pure _)) fun _ => ?_
  refine Calls.bind (Calls.when (Calls.bind (Calls.perform trivial) fun _ =>
    Calls.bind (close _) fun _ => Calls.pure _)) fun _ => ?_
  refine Calls.bind ?_ fun _ => Calls.when (Calls.bind (Calls.perform path) fun _ => Calls.pure _)
  rcases temp with rfl | temp
  · exact Calls.pure _
  · exact Calls.when (Calls.bind (Calls.perform temp) fun _ => Calls.pure _)

theorem wp_openTempForUpload {s : CStr} {k : SysResult Int × CStr → Sys α} (plain : 47 ∉ s)
    (short : (entry d s).length < PATH_MAX) (inside : home <:+ d)
    (directory : w.tree.get d = some .directory)
    (h : ∀ r name w', name = [] ∨ Tame d home name → w'.tree.get d = some .directory →
      wp (confining home root command) (k (r, name)) Q w') :
    wp (confining home root command) (openTempForUpload (entry d s) >>= k) Q w := by
  apply wp_bind.mpr
  unfold openTempForUpload
  rw [wp_ite]
  refine ⟨fun _ => h _ _ _ (.inl rfl) directory, fun _ => ?_⟩
  refine wp_bind.mpr (wp_still (calls_within rfl) fun allocated w1 same => ?_)
  have directory1 : w1.tree.get d = some .directory := by
    rw [same.tree]
    exact directory
  rw [wp_ite]
  refine ⟨fun _ => h _ _ _ (.inl rfl) directory1, fun _ => ?_⟩
  rw [wp_ite]
  refine ⟨fun _ => h _ _ _ (.inl rfl) directory1, fun _ => ?_⟩
  obtain ⟨n, template⟩ := tempTemplate_entry plain short
  change wp _ (fileCall (.mkstemp (tempTemplate (entry d s)))) _ w1
  rw [template]
  have slashless : 47 ∉ (cstr ".tempXXXXXX").take n := by
    intro slash
    have slash := List.mem_of_mem_take slash
    revert slash
    decide
  have tame : ∀ name, name = entry d ((cstr ".tempXXXXXX").take n) ∨
      Fills (entry d ((cstr ".tempXXXXXX").take n)) name → Tame d home name := by
    intro name made
    rcases made with rfl | fills
    · exact tame_below (named_template n) inside
    · exact tame_below (fills.named_in slashless) inside
  refine ⟨fun r expected => ?_, fun r expected => ?_⟩
  · have answered := expected.1
    obtain ⟨e | fd, name⟩ := r
    · exact ⟨fun _ _ => False.elim, fun _ _ => False.elim, fun _ => False.elim⟩
    · refine ⟨fun _ x reached => ?_, fun _ _ => False.elim, fun _ => False.elim⟩
      exact (tame name (.inr answered.2.1)).leads directory1 x (World.free_eq_some.mp reached).1
  · have answered := expected.1
    obtain ⟨e | fd, name⟩ := r
    · exact h _ _ _ (.inr (tame name answered)) directory1
    · obtain ⟨q, free⟩ := Option.ne_none_iff_exists'.mp answered.2.2
      obtain ⟨-, room⟩ := World.free_eq_some.mp free
      have left : w1.after (.mkstemp (entry d ((cstr ".tempXXXXXX").take n))) (.ok fd, name) =
          (w1.withVolume (w1.add q .regular 0o600)).install fd q .rdwr := by
        simp only [World.after, free]
      have judged := h (.ok fd) name (w1.after (.mkstemp (entry d ((cstr ".tempXXXXXX").take n))) (.ok fd, name))
        (.inr (tame name (.inr answered.2.1))) (by rw [left]; exact Volume.add_directory room directory1)
      exact judged

theorem wp_openTarget {texts : Texts} {target : Target} {existed : Bool} {s : CStr}
    {k : Except (Errno × CStr) Receiving → Sys α} (path : target.path = entry d s) (plain : 47 ∉ s)
    (short : target.path.length < PATH_MAX) (tame : Tame d home target.path)
    (inside : target.offset < 0 → home <:+ d) (directory : w.tree.get d = some .directory)
    (refused : ∀ e w', w'.tree.get d = some .directory →
      wp (confining home root command) (k (.error e)) Q w')
    (opened : ∀ into w', into.tempPath = [] ∨ Tame d home into.tempPath →
      w'.tree.get d = some .directory → wp (confining home root command) (k (.ok into)) Q w') :
    wp (confining home root command) (openTarget texts target existed >>= k) Q w := by
  have opens : (fileCall (.openPath target.path receiveOpenFlags 0o700)).Calls (Stages d home) :=
    Calls.perform (.inr ⟨tame, rfl⟩)
  apply wp_bind.mpr
  unfold openTarget
  rw [wp_ite]
  constructor
  · intro _
    refine wp_bind.mpr (wp_stages opens directory fun r w1 directory => ?_)
    cases r with
    | error e =>
      refine wp_bind.mpr (wp_stages (receiveCleanup_stages tame (.inl rfl)) directory
        fun _ w2 directory => ?_)
      exact refused _ w2 directory
    | ok fd => exact opened _ w1 (.inl rfl) directory
  · intro whole
    rw [path] at short ⊢
    refine wp_openTempForUpload plain short (inside (not_le.mp whole)) directory
      fun r name w1 temp directory => ?_
    cases r with
    | error e =>
      refine wp_bind.mpr (wp_stages (receiveCleanup_stages tame temp) directory
        fun _ w2 directory => ?_)
      exact refused _ w2 directory
    | ok fd =>
      rw [path] at opens
      refine wp_bind.mpr (wp_stages opens directory fun r w2 directory => ?_)
      cases r with
      | error e =>
        refine wp_bind.mpr (wp_stages (receiveCleanup_stages tame temp) directory
          fun _ w3 directory => ?_)
        exact refused _ w3 directory
      | ok lockFd => exact opened _ w2 temp directory

theorem replaceTarget_stages {texts : Texts} {target : Target} {into : Receiving} {destMode : Nat}
    {existed : Bool} (path : Tame d home target.path) (temp : Tame d home into.tempPath) :
    (replaceTarget texts target into destMode existed).Calls (Stages d home) := by
  unfold replaceTarget
  repeat' with_reducible first
    | exact Calls.pure _
    | exact receiveCleanup_stages path (.inr temp)
    | exact Calls.perform trivial
    | exact Calls.perform ⟨temp, path⟩
    | refine Calls.bind ?_ fun _ => ?_
    | split

theorem wp_receiveIntoFile {texts : Texts} {target : Target} {s : CStr}
    (path : target.path = entry d s) (plain : 47 ∉ s) (short : target.path.length < PATH_MAX)
    (tame : Tame d home target.path) (inside : target.offset < 0 → home <:+ d)
    (directory : w.tree.get d = some .directory) :
    wp (confining home root command) (receiveIntoFile texts target) (fun _ _ => True) w := by
  refine wp_bind.mpr (wp_still (calls_within rfl) fun destStat w1 same => ?_)
  have directory : w1.tree.get d = some .directory := by
    rw [same.tree]
    exact directory
  refine wp_openTarget path plain short tame inside directory (fun _ _ _ => trivial)
    fun into w2 temp directory => ?_
  refine wp_stages ?_ directory fun _ _ _ => trivial
  repeat' with_reducible first
    | exact calls_within rfl
    | exact receiveCleanup_stages tame temp
    | exact receiveCleanup_stages tame (.inl rfl)
    | exact replaceTarget_stages tame (temp.resolve_left ‹_›)
    | refine Calls.bind ?_ fun _ => ?_
    | split

end staging

/-- A new file that is to take the place of the home directory would be made beside it. -/
def wholeTarget (packet : Network.Packet) : Option CStr :=
  match Command.ofCode packet.command, (payloadText packet.payload).map parseLine with
  | some .uploadBegin, some (.ok command) => some command.buf2
  | some .write, some (.ok command) => if command.offset < 0 then some command.buf else none
  | _, _ => none

def Homeward (session : Session) (w : World) (packet : Network.Packet) : Prop :=
  session.homePath ≠ cstr "/" ∧ ∃ path ∈ wholeTarget packet, ∃ q o, w.look true path = some (q, o) ∧
    render q = session.homePath

section receiving

variable {w : World} {home root : Place FileName} {command : Option Command} {session : Session}
  {payload : Option CStr} {server : Server}

theorem confined_all {c : FileCall} (above : root <:+ home) (top : home = []) (r : c.Reply) :
    w.Confined home root command c r := by
  have bottom : root = [] := List.suffix_nil.mp (top ▸ above)
  rw [top, bottom]
  exact ⟨fun _ _ _ => List.nil_suffix, fun _ _ _ => List.nil_suffix, fun _ _ => List.nil_suffix⟩

theorem wp_receiveTarget {path : CStr} {target : Target} (above : root <:+ home)
    (canonical : stripSlashes (snprintf PATH_MAX session.homePath) = spell home)
    (checked : Checked w path session.homePath target.path)
    (elsewhere : target.offset < 0 → home ≠ [] → ∀ o, w.look true path ≠ some (home, o)) :
    wp (confining home root command) (receiveTarget server target) (fun _ _ => True) w := by
  by_cases top : home = []
  · refine (Calls.trivial _).wp_free (fun w c _ r _ => ?_) fun _ _ => trivial
    cases c with
    | file c => exact confined_all above top r
    | _ => exact trivial
  · obtain ⟨d, s, same, plain, directory, tame, lies⟩ := checked.tame canonical top
    have inside : target.offset < 0 → home <:+ d := fun whole => lies.resolve_right fun found => by
      obtain ⟨o, found⟩ := found
      exact elsewhere whole top o found
    refine wp_bind.mpr (wp_mono (wp_receiveIntoFile same plain checked.length tame inside directory)
      fun r w' _ => ?_)
    obtain ⟨e | n, msg⟩ := r
    · exact wp_done (calls_within rfl)
    · exact wp_done (calls_within rfl)

theorem wp_dispatchUpload (above : root <:+ home)
    (canonical : stripSlashes (snprintf PATH_MAX session.homePath) = spell home)
    (elsewhere : ∀ command, payload.map parseLine = some (.ok command) → home ≠ [] →
      ∀ o, w.look true command.buf2 ≠ some (home, o)) :
    wp (confining home root command) (dispatchUpload server session payload) (fun _ _ => True) w := by
  refine wp_parsed fun parsed w1 same read => ?_
  cases parsed with
  | none => exact trivial
  | some uploadCommand =>
  refine wp_cmdResolve (fun _ _ => trivial) fun fullPath checked => ?_
  refine wp_receiveTarget above canonical checked fun _ proper o => ?_
  rw [same.look]
  exact elsewhere uploadCommand (read uploadCommand rfl) proper o

theorem wp_dispatchWrite (above : root <:+ home)
    (canonical : stripSlashes (snprintf PATH_MAX session.homePath) = spell home)
    (elsewhere : ∀ command, payload.map parseLine = some (.ok command) → command.offset < 0 →
      home ≠ [] → ∀ o, w.look true command.buf ≠ some (home, o)) :
    wp (confining home root command) (dispatchWrite server session payload) (fun _ _ => True) w := by
  refine wp_parsed fun parsed w1 same read => ?_
  cases parsed with
  | none => exact trivial
  | some writeCommand =>
  refine wp_cmdResolve (fun _ _ => trivial) fun fullPath checked => ?_
  refine wp_receiveTarget above canonical checked fun whole proper o => ?_
  rw [same.look]
  exact elsewhere writeCommand (read writeCommand rfl) whole proper o

end receiving

section dispatch

variable {w : World} {home root : Place FileName} {session : Session} {server : Server}
  {packet : Network.Packet}

structure Settled (root home : Place FileName) (session : Session) : Prop where
  loggedIn : session.loggedIn = true
  homePath : session.homePath = render home
  short : (render home).length < PATH_MAX
  rootPath : stripSlashes (snprintf PATH_MAX session.rootPath) = spell root
  above : root <:+ home

theorem Settled.canonical (h : Settled root home session) :
    stripSlashes (snprintf PATH_MAX session.homePath) = spell home := by
  rw [h.homePath, snprintf_eq_self h.short, stripSlashes_render]

theorem Settled.elsewhere (h : Settled root home session) (other : ¬Homeward session w packet)
    {path : CStr} (target : wholeTarget packet = some path) (proper : home ≠ [])
    (o : Object FileName) : w.look true path ≠ some (home, o) := by
  intro found
  apply other
  refine ⟨?_, path, target, home, o, found, h.homePath.symm⟩
  intro same
  have bare : spell home = [] := by
    rw [← stripSlashes_render, ← h.homePath, same]
    rfl
  have head := head_spell proper
  rw [bare] at head
  cases head

theorem wp_dispatchLoggedIn (h : Settled root home session) (within : w.Within home)
    (other : ¬Homeward session w packet) :
    wp (confining home root (Command.ofCode packet.command))
      (dispatchLoggedIn server session (Command.ofCode packet.command) (payloadText packet.payload))
      (fun _ _ => True) w := by
  generalize same : Command.ofCode packet.command = command
  unfold dispatchLoggedIn
  split
  · exact wp_dispatchAccept h.canonical
  · exact wp_done (calls_within rfl)
  · exact wp_done (calls_within rfl)
  · exact wp_dispatchCreate h.canonical
  · exact wp_dispatchChmod h.canonical
  · exact wp_dispatchMove h.canonical
  · exact wp_dispatchCd h.canonical
  · exact wp_dispatchDownload h.canonical
  · exact wp_dispatchRead h.canonical
  · apply wp_dispatchUpload h.above h.canonical
    intro command parsed
    apply h.elsewhere other
    rw [wholeTarget, same, parsed]
  · apply wp_dispatchWrite h.above h.canonical
    intro command parsed whole
    apply h.elsewhere other
    rw [wholeTarget, same, parsed]
    exact if_pos whole
  · exact wp_dispatchDelete h.canonical
  · exact wp_dispatchList h.rootPath h.above within
  · exact wp_done (calls_within rfl)

theorem wp_dispatch (h : Settled root home session) (within : w.Within home)
    (other : ¬Homeward session w packet) :
    wp (confining home root (Command.ofCode packet.command)) (dispatch server session packet)
      (fun after _ => after = session) w := by
  unfold dispatch
  dsimp only
  apply wp_ite.mpr
  constructor
  · intro _
    unfold dispatchLogin
    apply wp_cmdParse
    intro parsed w' _
    cases parsed with
    | none => exact rfl
    | some loginCommand =>
      apply wp_ite.mpr
      refine ⟨fun _ => ?_, fun out => absurd h.loggedIn out⟩
      apply wp_bind.mpr
      exact wp_still (calls_within rfl) fun _ _ _ => rfl
  intro _
  apply wp_ite.mpr
  constructor
  · intro creates
    rw [creates]
    apply wp_bind.mpr
    exact wp_mono wp_dispatchCreateUser fun _ _ _ => rfl
  intro _
  apply wp_ite.mpr
  constructor
  · intro out
    rw [h.loggedIn] at out
    cases out
  · intro _
    apply wp_bind.mpr
    exact wp_mono (wp_dispatchLoggedIn h within other) fun _ _ _ => rfl

end dispatch

end Confine

end Csap
