import Csap.Confinement

/-! The commands that work on their path themselves reach nothing outside the home directory. -/

namespace Csap

open FileTree Prog

namespace Confine

variable {α : Type} {w : World} {home root : Place FileName} {command : Option Command}
  {Q : α → World → Prop}

theorem obeys (w : World) : Obeys (confining home root command) w w := by
  intro c checks
  cases c with
  | file c =>
    cases c with
    | realpath path => exact ⟨fun r _ => still_keeps trivial r, fun r expected => ⟨expected.1, rfl⟩⟩
    | _ => exact absurd checks id
  | alloc size => exact ⟨fun _ _ => trivial, fun _ expected => ⟨expected.1, rfl⟩⟩
  | _ => exact absurd checks id

theorem wp_cmdResolve {path allowed : CStr} {k : Option CStr → Sys α}
    (refused : ∀ w', Unmoved w w' → wp (confining home root command) (k none) Q w')
    (accepted : ∀ v, Checked w path allowed v → wp (confining home root command) (k (some v)) Q w) :
    wp (confining home root command) (cmdResolve path allowed >>= k) Q w := by
  apply wp_bind.mpr
  refine (obeys w).wp_validatePath (fun e => ?_) fun v checked => accepted v checked
  exact wp_bind.mpr (wp_still (calls_within rfl) fun _ w' same => refused w' same)

theorem wp_cmdParse {payload : Option CStr} {k : Option Cmd → Sys α}
    (h : ∀ parsed w', Unmoved w w' → wp (confining home root command) (k parsed) Q w') :
    wp (confining home root command) (cmdParse payload >>= k) Q w :=
  wp_bind.mpr (wp_still (calls_within rfl) h)

theorem wp_parsed {payload : Option CStr} {k : Option Cmd → Sys α}
    (h : ∀ parsed w', Unmoved w w' →
      (∀ read, parsed = some read → payload.map parseLine = some (.ok read)) →
      wp (confining home root command) (k parsed) Q w') :
    wp (confining home root command) (cmdParse payload >>= k) Q w := by
  have refused : ∀ {w' : World} {e : Errno} {msg : CStr}, Unmoved w w' →
      wp (confining home root command) (failWith e msg)
        (fun _ w' => wp (confining home root command) (k none) Q w') w' := by
    intro w' e msg same
    refine wp_still (calls_within rfl) ?_
    intro _ w2 same2
    apply h none w2 (same.trans same2)
    intro read impossible
    cases impossible
  apply wp_bind.mpr
  unfold cmdParse
  apply wp_bind.mpr
  unfold parseCommand
  cases payload with
  | none => exact wp_bind.mpr (refused (.refl w))
  | some line =>
    apply wp_bind.mpr
    refine wp_still (calls_within rfl) ?_
    intro copied w1 same
    apply wp_ite.mpr
    constructor
    · intro _
      cases read : parseLine line with
      | error msg => exact wp_bind.mpr (refused same)
      | ok out =>
        apply h (some out) w1 same
        intro out' here
        cases here
        rw [Option.map_some, read]
    · intro _
      exact wp_bind.mpr (refused same)

theorem wp_done {p : Sys Unit} (still : p.Calls Still) :
    wp (confining home root command) p (fun _ _ => True) w :=
  wp_still still fun _ _ _ => trivial

variable {session : Session} {payload : Option CStr}

def ActsOn (v : CStr) : FileCall → Prop
  | .mkdir path _ | .chmod path _ | .chdir path | .rmdir path | .unlink path => path = v
  | .openPath path flags _ => path = v ∧
      (flags.creat = true ∧ flags.excl = true ∨ flags.creat = false ∧ World.openFollows flags = true)
  | _ => False

section acts

variable {path v : CStr} {c : FileCall}

theorem opens_inside {x : Place FileName} {flags : OpenFlags} (checked : Checked w path session.homePath v)
    (canonical : stripSlashes (snprintf PATH_MAX session.homePath) = spell home)
    (how : flags.creat = true ∧ flags.excl = true ∨
      flags.creat = false ∧ World.openFollows flags = true)
    (opens : w.opens v flags = some x) : home <:+ x := by
  rcases how with ⟨creat, excl⟩ | ⟨creat, follows⟩
  · exact checked.inside canonical (World.opens_excl creat excl opens).1
  · obtain ⟨o, found⟩ := World.opens_existing creat opens
    rw [follows] at found
    exact checked.found_inside canonical found

theorem confined_acts (checked : Checked w path session.homePath v)
    (canonical : stripSlashes (snprintf PATH_MAX session.homePath) = spell home)
    (acts : ActsOn v c) (r : c.Reply) : w.Confined home root command c r := by
  have looks : ∀ x, (w.look true v).map Prod.fst = some x → home <:+ x := by
    intro x found
    obtain ⟨⟨_, o⟩, look, rfl⟩ := Option.map_eq_some_iff.mp found
    exact checked.found_inside canonical look
  have leaves : ∀ x o, w.look false v = some (x, o) → home <:+ x := fun x o found =>
    checked.inside canonical (World.look_eq_some.mp found).1
  have failed : ∀ {c : FileCall} {r : c.Reply}, (∀ x, ¬ w.Reaches x c r) → (∀ x, ¬ w.ReadsFrom x c r) →
      (∀ x, ¬ w.ListsFrom x c r) → w.Confined home root command c r := fun reached read listed =>
    ⟨fun _ x here => absurd here (reached x), fun _ x here => absurd here (read x),
      fun x here => absurd here (listed x)⟩
  cases c with
  | openPath named flags mode =>
    obtain ⟨rfl, how⟩ := acts
    cases r with
    | error e => exact failed (fun _ => id) (fun _ => id) fun _ => id
    | ok fd =>
      exact ⟨fun _ x reached => opens_inside checked canonical how reached.2.2,
        fun _ x read => opens_inside checked canonical how read.2, fun _ => False.elim⟩
  | mkdir named mode =>
    cases acts
    cases r with
    | error e => exact failed (fun _ => id) (fun _ => id) fun _ => id
    | ok done =>
      refine ⟨fun _ x reached => ?_, fun _ _ => False.elim, fun _ => False.elim⟩
      exact checked.inside canonical (World.free_eq_some.mp reached).1
  | chmod named mode =>
    cases acts
    cases r with
    | error e => exact failed (fun _ => id) (fun _ => id) fun _ => id
    | ok done => exact ⟨fun _ => looks, fun _ _ => False.elim, fun _ => False.elim⟩
  | chdir named =>
    cases acts
    cases r with
    | error e => exact failed (fun _ => id) (fun _ => id) fun _ => id
    | ok done => exact ⟨fun _ => looks, fun _ _ => False.elim, fun _ => False.elim⟩
  | unlink named =>
    cases acts
    cases r with
    | error e => exact failed (fun _ => id) (fun _ => id) fun _ => id
    | ok done =>
      refine ⟨fun _ x reached => ?_, fun _ _ => False.elim, fun _ => False.elim⟩
      obtain ⟨o, found, -⟩ := World.unlinks_eq_some.mp reached
      exact leaves x o found
  | rmdir named =>
    cases acts
    cases r with
    | error e => exact failed (fun _ => id) (fun _ => id) fun _ => id
    | ok done =>
      refine ⟨fun _ x reached => ?_, fun _ _ => False.elim, fun _ => False.elim⟩
      obtain ⟨o, found⟩ := World.rmdirs_look reached
      exact leaves x o found
  | _ => exact absurd acts id

end acts

section commands

variable (canonical : stripSlashes (snprintf PATH_MAX session.homePath) = spell home)

include canonical

theorem wp_acts {path v : CStr} {c : FileCall} {k : c.Reply → Sys α}
    (checked : Checked w path session.homePath v) (acts : ActsOn v c)
    (h : ∀ r, w.Answers c r → wp (confining home root command) (k r) Q (w.after c r)) :
    wp (confining home root command) (fileCall c >>= k) Q w :=
  wp_call (fun r _ => confined_acts checked canonical acts r) fun r expected => h r expected.1

theorem wp_acted {path v : CStr} {c : FileCall} (checked : Checked w path session.homePath v)
    (acts : ActsOn v c) : wp (confining home root command) (fileCall c) (fun _ _ => True) w :=
  ⟨fun r _ => confined_acts checked canonical acts r, fun _ _ => trivial⟩

theorem wp_opens {path v : CStr} {flags : OpenFlags} {mode : Nat} {k : SysResult Int → Sys α}
    (checked : Checked w path session.homePath v) (creat : flags.creat = false)
    (kept : flags.trunc = false) (follows : World.openFollows flags = true)
    (h : ∀ r w', Unmoved w w' → wp (confining home root command) (k r) Q w') :
    wp (confining home root command) (fileCall (.openPath v flags mode) >>= k) Q w := by
  refine wp_acts canonical checked ⟨rfl, .inr ⟨creat, follows⟩⟩ fun r answered => h r _ ?_
  cases r with
  | error e => exact .refl w
  | ok fd =>
    have alike : Alike w (w.after (.openPath v flags mode) (.ok fd)) := .open creat kept answered.2
    exact ⟨by rw [alike.volume], alike.cwd⟩

theorem wp_createCmd {path v : CStr} {perms : Nat} {isDir : Bool}
    (checked : Checked w path session.homePath v) :
    wp (confining home root command) (createCmd v perms isDir) (fun _ _ => True) w := by
  unfold createCmd
  rw [wp_ite]
  constructor
  · intro _
    exact wp_acted canonical checked rfl
  · intro _
    refine wp_acts canonical checked ⟨rfl, .inl ⟨rfl, rfl⟩⟩ fun r _ => ?_
    cases r with
    | error e => exact trivial
    | ok fd =>
      exact wp_still (calls_within rfl) fun _ _ _ => trivial

theorem wp_dispatchCreate : wp (confining home root command) (dispatchCreate session payload)
    (fun _ _ => True) w := by
  refine wp_cmdParse fun parsed w same => ?_
  cases parsed with
  | none => exact trivial
  | some createCommand =>
  refine wp_cmdResolve (fun _ _ => trivial) fun fullPath checked => ?_
  refine wp_bind.mpr (wp_still (calls_within rfl) fun perms w' same => ?_)
  cases perms with
  | none => exact trivial
  | some perms =>
  refine wp_bind.mpr (wp_mono (wp_createCmd canonical (same.checked checked)) fun r w' _ => ?_)
  cases r with
  | error e => exact wp_done (calls_within rfl)
  | ok done => exact wp_done (calls_within rfl)

theorem wp_dispatchChmod : wp (confining home root command) (dispatchChmod session payload)
    (fun _ _ => True) w := by
  refine wp_cmdParse fun parsed w same => ?_
  cases parsed with
  | none => exact trivial
  | some chmodCommand =>
  refine wp_cmdResolve (fun _ _ => trivial) fun fullPath checked => ?_
  refine wp_bind.mpr (wp_still (calls_within rfl) fun perms w' same => ?_)
  cases perms with
  | none => exact trivial
  | some perms =>
  refine wp_acts canonical (same.checked checked) rfl fun r _ => ?_
  cases r with
  | error e => exact wp_done (calls_within rfl)
  | ok done => exact wp_done (calls_within rfl)

theorem wp_dispatchCd : wp (confining home root command) (dispatchCd session payload)
    (fun _ _ => True) w := by
  refine wp_cmdParse fun parsed w same => ?_
  cases parsed with
  | none => exact trivial
  | some cdCommand =>
  refine wp_cmdResolve (fun _ _ => trivial) fun fullPath checked => ?_
  refine wp_acts canonical checked rfl fun r _ => ?_
  cases r with
  | error e => exact wp_done (calls_within rfl)
  | ok done => exact wp_done (calls_within rfl)

theorem wp_sendFile {texts : Texts} {path v : CStr} {offset : Int} {dataCode endCode : UInt8}
    (checked : Checked w path session.homePath v) :
    wp (confining home root command) (sendFile texts v offset dataCode endCode) (fun _ _ => True) w := by
  refine wp_opens canonical checked rfl rfl rfl fun r w' same => ?_
  cases r with
  | error e => exact trivial
  | ok fd =>
    refine wp_still ?_ fun _ _ _ => trivial
    unfold sendFileUnlock
    repeat' with_reducible first
      | exact calls_within rfl
      | refine Calls.bind ?_ fun _ => ?_
      | split

theorem wp_dispatchDownload {server : Server} : wp (confining home root command)
    (dispatchDownload server session payload) (fun _ _ => True) w := by
  refine wp_cmdParse fun parsed w same => ?_
  cases parsed with
  | none => exact trivial
  | some downloadCommand =>
  refine wp_cmdResolve (fun _ _ => trivial) fun fullPath checked => ?_
  refine wp_bind.mpr (wp_mono (wp_sendFile canonical checked) fun r w' _ => ?_)
  obtain ⟨e | n, msg⟩ := r
  · exact wp_done (calls_within rfl)
  · exact trivial

theorem wp_dispatchRead {server : Server} : wp (confining home root command)
    (dispatchRead server session payload) (fun _ _ => True) w := by
  refine wp_cmdParse fun parsed w same => ?_
  cases parsed with
  | none => exact trivial
  | some readCommand =>
  refine wp_cmdResolve (fun _ _ => trivial) fun fullPath checked => ?_
  refine wp_bind.mpr (wp_mono (wp_sendFile canonical checked) fun r w' _ => ?_)
  obtain ⟨e | n, msg⟩ := r
  · exact wp_done (calls_within rfl)
  · exact trivial

theorem wp_lockDeleted {path v : CStr} {pathStat : Stat} {k : Option Int → Sys α}
    (checked : Checked w path session.homePath v)
    (h : ∀ fd w', Unmoved w w' → wp (confining home root command) (k fd) Q w') :
    wp (confining home root command) (lockDeleted pathStat v >>= k) Q w := by
  apply wp_bind.mpr
  unfold lockDeleted
  rw [wp_ite]
  refine ⟨fun _ => h _ w (.refl w), fun _ => ?_⟩
  refine wp_opens canonical checked rfl rfl rfl fun r w1 same1 => ?_
  cases r with
  | error e =>
    exact wp_still (calls_within rfl) fun fd w2 same2 => h fd w2 (same1.trans same2)
  | ok fd =>
    refine wp_still (Calls.bind (calls_within rfl) fun locked => ?_) fun fd w2 same2 =>
      h fd w2 (same1.trans same2)
    cases locked with
    | error e => exact calls_within rfl
    | ok _ => exact calls_within rfl

theorem wp_deleteCmd {path v : CStr} (checked : Checked w path session.homePath v) :
    wp (confining home root command) (deleteCmd v) (fun _ _ => True) w := by
  refine wp_bind.mpr (wp_still (calls_within rfl) fun r w' same => ?_)
  cases r with
  | error e => exact trivial
  | ok st =>
    rw [wp_ite]
    exact ⟨fun _ => wp_acted canonical (same.checked checked) rfl,
      fun _ => wp_acted canonical (same.checked checked) rfl⟩

theorem wp_dispatchDelete : wp (confining home root command) (dispatchDelete session payload)
    (fun _ _ => True) w := by
  refine wp_cmdParse fun parsed w same => ?_
  cases parsed with
  | none => exact trivial
  | some deleteCommand =>
  refine wp_cmdResolve (fun _ _ => trivial) fun fullPath checked => ?_
  refine wp_bind.mpr (wp_still (calls_within rfl) fun r w1 same1 => ?_)
  cases r with
  | error e => exact wp_done (calls_within rfl)
  | ok pathStat =>
  refine wp_lockDeleted canonical (same1.checked checked) fun fd w2 same2 => ?_
  cases fd with
  | none => exact trivial
  | some fd =>
  refine wp_bind.mpr (wp_mono (wp_deleteCmd canonical ((same1.trans same2).checked checked))
    fun r w3 _ => ?_)
  cases r with
  | error e => exact wp_done (calls_within rfl)
  | ok done => exact wp_done (calls_within rfl)

end commands

end Confine

section joins

variable {t : Hierarchy FileName} {cwd : Option (Place FileName)} {v s : CStr} {q : Place FileName}

theorem route_join (plain : 47 ∉ s ∨ s = cstr "/") :
    ∃ step, (route (v ++ cstr "/" ++ s)).steps = (tokens 47 [] v).map stepOf ++ [step] := by
  have parts : v ++ cstr "/" ++ s = v ++ 47 :: s := by
    rw [List.append_assoc]
    rfl
  have steps : (route (v ++ 47 :: s)).steps = (tokens 47 [] v).map stepOf ++
      ((tokens 47 [] s).map stepOf ++ if (v ++ 47 :: s).getLast? = some 47 then [.here] else []) := by
    rw [route, tokens_append, List.map_append, List.append_assoc]
  have last : (v ++ 47 :: s).getLast? = (47 :: s).getLast? :=
    List.getLast?_append_of_ne_nil _ (List.cons_ne_nil _ _)
  rw [parts, steps, last]
  rcases plain with plain | rfl
  · by_cases empty : s = []
    · rw [empty]
      exact ⟨.here, rfl⟩
    · refine ⟨stepOf s, ?_⟩
      have other : (47 :: s).getLast? ≠ some 47 := by
        rw [List.getLast?_cons_of_ne_nil empty]
        exact fun same => plain (List.mem_of_getLast? same)
      rw [tokens_name plain empty, if_neg other]
      rfl
  · exact ⟨.here, rfl⟩

theorem resolve_join (absolute : v.head? = some 47) (plain : 47 ∉ s ∨ s = cstr "/")
    (led : resolve t cwd false (v ++ cstr "/" ++ s) = .ok q) (absent : t.get q = none) :
    ∃ d n, resolve t cwd true v = .ok d ∧ t.get d = some .directory ∧ q = n :: d := by
  obtain ⟨step, steps⟩ := route_join (v := v) plain
  have named : v ≠ [] := by
    rintro rfl
    cases absolute
  have whole : v ++ cstr "/" ++ s ≠ [] := by simp [named]
  have start : (route (v ++ cstr "/" ++ s)).absolute = true := by
    refine decide_eq_true ?_
    rw [List.append_assoc, List.head?_append, absolute]
    rfl
  rw [resolve, if_neg whole, if_pos start, steps] at led
  dsimp only at led
  obtain ⟨d, walked, inside⟩ := Hierarchy.walk_prefix led (List.cons_ne_nil _ _)
  have there : t.get d ≠ none := by
    rw [inside]
    exact Option.some_ne_none _
  obtain ⟨fewer, -, further⟩ := Hierarchy.walk_append walked there
  have leads : resolve t cwd true v = .ok d := by
    have start : (route v).absolute = true := decide_eq_true absolute
    rw [resolve, if_neg named, if_pos start]
    unfold route
    dsimp only
    split
    · rw [further true [.here] (List.cons_ne_nil _ _), Hierarchy.walk_here inside, Hierarchy.walk_eq]
      rfl
    · rw [List.append_nil]
      exact walked
  rw [further false [step] (List.cons_ne_nil _ _)] at led
  cases step with
  | here =>
    rw [Hierarchy.walk_here inside, Hierarchy.walk_eq] at led
    cases led
    exact absurd absent there
  | up =>
    rw [Hierarchy.walk_up inside, Hierarchy.walk_eq] at led
    cases led
    rw [Hierarchy.parent_directory inside] at absent
    cases absent
  | down n =>
    refine ⟨d, n, leads, inside, ?_⟩
    rw [Hierarchy.walk_down inside] at led
    split at led
    · cases led
      rfl
    · cases led
      rfl
    · rw [Hierarchy.walk_eq] at led
      cases led
      rfl

theorem basename_plain (path : CStr) : 47 ∉ basename path ∨ basename path = cstr "/" := by
  by_cases empty : path = []
  · rw [empty]
    exact .inl (by decide)
  by_cases slashes : stripSlashes path = []
  · exact .inr (by rw [basename, if_neg empty, if_pos slashes])
  · obtain ⟨base, trailing, parts⟩ := splits slashes
    exact .inl parts.plain

theorem plain_take (plain : 47 ∉ s ∨ s = cstr "/") (k : Nat) : 47 ∉ s.take k ∨ s.take k = cstr "/" := by
  rcases plain with plain | rfl
  · exact .inl fun slash => plain (List.mem_of_mem_take slash)
  · cases k with
    | zero => exact .inl (by simp)
    | succ k => exact .inr (List.take_of_length_le (Nat.le_add_left 1 k))

theorem snprintf_join (fits : v.length < PATH_MAX) (s : CStr) :
    ∃ k, snprintf (PATH_MAX + NAME_MAX + 2) (v ++ cstr "/" ++ s) = v ++ cstr "/" ++ s.take k := by
  have slash : (cstr "/").length = 1 := rfl
  refine ⟨PATH_MAX + NAME_MAX + 1 - (v ++ cstr "/").length, ?_⟩
  have size : PATH_MAX + NAME_MAX + 2 - 1 = PATH_MAX + NAME_MAX + 1 := rfl
  rw [snprintf, size, List.take_append, List.take_of_length_le]
  rw [List.length_append]
  omega

end joins

/-- The path itself, if it leads anywhere, is that of a place inside. -/
def World.Leads (w : World) (home : Place FileName) (path : CStr) : Prop :=
  ∀ q, w.resolve false path = .ok q → home <:+ q

section leads

variable {w w' : World} {home q : Place FileName} {path : CStr} {mode : Nat}

theorem Unmoved.leads (h : Unmoved w w') (leads : w.Leads home path) : w'.Leads home path := by
  intro q led
  rw [h.resolve] at led
  exact leads q led

theorem World.Leads.add (leads : w.Leads home path) (room : w.Room q) :
    (w.withVolume (w.add q .regular mode)).Leads home path := by
  intro x led
  exact leads x (World.resolve_of_add room (by simp [Volume.created]) led)

theorem World.leads_add (led : w.resolve false path = .ok q) (room : w.Room q) (inside : home <:+ q) :
    (w.withVolume (w.add q .regular mode)).Leads home path := by
  intro x led'
  rw [World.resolve_add room led] at led'
  cases led'
  exact inside

end leads

namespace Confine

section move

variable {α : Type} {w : World} {home root : Place FileName} {command : Option Command}
  {Q : α → World → Prop} {session : Session} {payload : Option CStr}

theorem confined_unlink {path : CStr} (leads : w.Leads home path) (r : SysResult Unit) :
    w.Confined home root command (.unlink path) r := by
  cases r with
  | error e => exact ⟨fun _ _ => False.elim, fun _ _ => False.elim, fun _ => False.elim⟩
  | ok done =>
    refine ⟨fun _ x reached => ?_, fun _ _ => False.elim, fun _ => False.elim⟩
    obtain ⟨o, found, -⟩ := World.unlinks_eq_some.mp reached
    exact leads x (World.look_eq_some.mp found).1

theorem confined_rename {old new : CStr} (source : w.Leads home old) (dest : w.Leads home new)
    (r : SysResult Unit) : w.Confined home root command (.rename old new) r := by
  cases r with
  | error e => exact ⟨fun _ _ => False.elim, fun _ _ => False.elim, fun _ => False.elim⟩
  | ok done =>
    refine ⟨fun _ x reached => ?_, fun _ _ => False.elim, fun _ => False.elim⟩
    obtain ⟨p, q, renames, here⟩ := reached
    obtain ⟨o, found, led, -⟩ := World.renames_cases renames
    rcases here with rfl | rfl
    · exact source x (World.look_eq_some.mp found).1
    · exact dest x led

theorem wp_renameLocked {srcFd destFd : Int} {src dest : CStr} (source : w.Leads home src)
    (target : w.Leads home dest) : wp (confining home root command)
      (Move.renameLocked srcFd destFd src dest) (fun _ _ => True) w := by
  refine wp_reaching (fun r _ => confined_rename source target r) fun r _ => ?_
  cases r with
  | error e =>
    exact wp_done (calls_within rfl)
  | ok done =>
    exact wp_done (calls_within rfl)

variable (canonical : stripSlashes (snprintf PATH_MAX session.homePath) = spell home)

include canonical

theorem leads_of_checked {path v : CStr} (checked : Checked w path session.homePath v) :
    w.Leads home v := fun _ led => checked.inside canonical led

theorem joined_inside {path v s : CStr} {q : Place FileName} (checked : Checked w path session.homePath v)
    (plain : 47 ∉ s ∨ s = cstr "/") (led : w.resolve false (v ++ cstr "/" ++ s) = .ok q)
    (room : w.Room q) : home <:+ q := by
  obtain ⟨d, n, leads, inside, rfl⟩ := resolve_join checked.absolute plain led room.absent
  have above := checked.found_inside canonical (World.look_eq_some.mpr ⟨leads, inside⟩)
  exact above.trans (List.suffix_cons n d)

theorem wp_creates {path v s : CStr} {flags : OpenFlags} {mode : Nat} {k : SysResult Int → Sys α}
    (checked : Checked w path session.homePath v) (plain : 47 ∉ s ∨ s = cstr "/")
    (creat : flags.creat = true) (excl : flags.excl = true)
    (failed : ∀ e, wp (confining home root command) (k (.error e)) Q w)
    (made : ∀ fd w', w'.Leads home (v ++ cstr "/" ++ s) →
      (∀ path, w.Leads home path → w'.Leads home path) →
      wp (confining home root command) (k (.ok fd)) Q w') :
    wp (confining home root command) (fileCall (.openPath (v ++ cstr "/" ++ s) flags mode) >>= k) Q w := by
  have inside : ∀ x, w.opens (v ++ cstr "/" ++ s) flags = some x → home <:+ x := by
    intro x opens
    obtain ⟨led, room⟩ := World.opens_excl creat excl opens
    exact joined_inside canonical checked plain led room
  refine wp_reaching (fun r _ => ?_) fun r answered => ?_
  · cases r with
    | error e => exact ⟨fun _ _ => False.elim, fun _ _ => False.elim, fun _ => False.elim⟩
    | ok fd => exact ⟨fun _ x reached => inside x reached.2.2, fun _ x read => inside x read.2,
        fun _ => False.elim⟩
  · cases r with
    | error e => exact failed e
    | ok fd =>
      obtain ⟨q, opens⟩ := Option.ne_none_iff_exists'.mp answered.2
      obtain ⟨led, room⟩ := World.opens_excl creat excl opens
      rw [World.after_open_new opens room.absent]
      exact made fd _ (World.leads_add led room (inside q opens)) fun path leads => leads.add room

theorem wp_openMoveDest {path path' fullSrcPath fullDestPath : CStr} {srcStat : Stat}
    {k : Except (Errno × CStr) (Int × CStr) → Sys α}
    (source : Checked w path session.homePath fullSrcPath)
    (target : Checked w path' session.homePath fullDestPath)
    (refused : ∀ e reason w', wp (confining home root command) (k (.error (e, reason))) Q w')
    (opened : ∀ fd dest w', w'.Leads home fullSrcPath → w'.Leads home dest →
      wp (confining home root command) (k (.ok (fd, dest))) Q w') :
    wp (confining home root command) (openMoveDest srcStat fullSrcPath fullDestPath >>= k) Q w := by
  have whole : snprintf (PATH_MAX + NAME_MAX + 2) fullDestPath = fullDestPath :=
    snprintf_eq_self (by have := target.length; omega)
  have named : ∀ {w'}, Unmoved w w' → w'.Leads home fullSrcPath ∧ w'.Leads home fullDestPath :=
    fun same => ⟨same.leads (leads_of_checked canonical source),
      same.leads (leads_of_checked canonical target)⟩
  apply wp_bind.mpr
  unfold openMoveDest
  rw [whole]
  refine wp_bind.mpr (wp_still (calls_within rfl) fun r w1 same => ?_)
  cases r with
  | error e => exact opened _ _ _ (named same).1 (named same).2
  | ok destStat =>
  dsimp only
  rw [wp_ite]
  refine ⟨fun _ => ?_, fun _ => ?_⟩
  · refine wp_opens canonical (same.checked target) rfl rfl rfl fun r w2 same2 => ?_
    cases r with
    | error e => exact refused _ _ _
    | ok fd => exact opened _ _ _ (named (same.trans same2)).1 (named (same.trans same2)).2
  rw [wp_ite]
  refine ⟨fun _ => ?_, fun _ => opened _ _ _ (named same).1 (named same).2⟩
  obtain ⟨k, joined⟩ := snprintf_join target.length (basename (snprintf PATH_MAX fullSrcPath))
  rw [joined]
  have plain := plain_take (basename_plain (snprintf PATH_MAX fullSrcPath)) k
  refine wp_creates canonical (same.checked target) plain rfl rfl (fun e => refused _ _ _) ?_
  intro fd w2 leads kept
  exact opened _ _ _ (kept _ (named same).1) leads

theorem wp_lockMoveSource {path v : CStr} {srcStat : Stat} {k : Option Int → Sys α}
    (checked : Checked w path session.homePath v)
    (h : ∀ fd w', Unmoved w w' → wp (confining home root command) (k fd) Q w') :
    wp (confining home root command) (lockMoveSource srcStat v >>= k) Q w := by
  apply wp_bind.mpr
  unfold lockMoveSource
  rw [wp_ite]
  refine ⟨fun _ => h _ w (.refl w), fun _ => ?_⟩
  refine wp_opens canonical checked rfl rfl rfl fun r w1 same1 => ?_
  cases r with
  | error e =>
    exact wp_still (calls_within rfl) fun fd w2 same2 => h fd w2 (same1.trans same2)
  | ok fd =>
    refine wp_still (Calls.bind (calls_within rfl) fun locked => ?_) fun fd w2 same2 =>
      h fd w2 (same1.trans same2)
    cases locked with
    | error e => exact calls_within rfl
    | ok _ => exact calls_within rfl

theorem wp_dispatchMove : wp (confining home root command) (dispatchMove session payload)
    (fun _ _ => True) w := by
  refine wp_cmdParse fun parsed w same => ?_
  cases parsed with
  | none => exact trivial
  | some moveCommand =>
  refine wp_cmdResolve (fun _ _ => trivial) fun fullSrcPath source => ?_
  refine wp_cmdResolve (fun _ _ => trivial) fun fullDestPath target => ?_
  refine wp_bind.mpr (wp_still (calls_within rfl) fun r w1 same1 => ?_)
  cases r with
  | error e => exact wp_done (calls_within rfl)
  | ok srcStat =>
  refine wp_lockMoveSource canonical (same1.checked source) fun srcFd w2 same2 => ?_
  cases srcFd with
  | none => exact trivial
  | some srcFd =>
  have same := same1.trans same2
  refine wp_openMoveDest canonical (same.checked source) (same.checked target) ?_ ?_
  · intro e reason w3
    exact wp_done (calls_within rfl)
  intro destFd destPathFinal w3 leadsSrc leadsDest
  dsimp only
  rw [wp_ite]
  refine ⟨fun _ => ?_, fun _ => wp_renameLocked leadsSrc leadsDest⟩
  refine wp_bind.mpr (wp_still (calls_within rfl) fun locked w4 same4 => ?_)
  cases locked with
  | error e =>
    exact wp_done (calls_within rfl)
  | ok done => exact wp_renameLocked (same4.leads leadsSrc) (same4.leads leadsDest)

end move

section listing

variable {α : Type} {w : World} {home root : Place FileName} {command : Option Command}
  {Q : α → World → Prop} {session : Session} {payload : Option CStr}

theorem confined_opendir {path : CStr}
    (inside : ∀ q o, w.look true path = some (q, o) → root <:+ q) (r : SysResult Int) :
    w.Confined home root command (.opendir path) r := by
  cases r with
  | error e => exact ⟨fun _ _ => False.elim, fun _ _ => False.elim, fun _ => False.elim⟩
  | ok dir =>
    refine ⟨fun _ _ => False.elim, fun _ _ => False.elim, fun x listed => ?_⟩
    obtain ⟨⟨_, o⟩, look, rfl⟩ := Option.map_eq_some_iff.mp listed
    exact inside _ o look

theorem wp_list {texts : Texts} {path : CStr}
    (inside : ∀ q o, w.look true path = some (q, o) → root <:+ q) :
    wp (confining home root command) (list texts path) (fun _ _ => True) w := by
  refine wp_bind.mpr (wp_still (calls_within rfl) fun r w1 same1 => ?_)
  obtain ⟨e | done, sb⟩ := r
  · exact trivial
  refine wp_bind.mpr (wp_still (calls_within rfl) fun r w2 same2 => ?_)
  cases r with
  | error e => exact trivial
  | ok fileStat =>
  dsimp only
  rw [wp_ite]
  constructor
  · intro _
    refine wp_reaching (fun r _ => confined_opendir (fun q o look => ?_) r) fun r _ => ?_
    · rw [(same1.trans same2).look] at look
      exact inside q o look
    cases r with
    | error e => exact trivial
    | ok dir =>
      exact wp_still (calls_within rfl) fun _ _ _ => trivial
  · intro _
    exact wp_still (calls_within rfl) fun _ _ _ => trivial

theorem wp_listPath {buf : CStr} {k : Option CStr → Sys α}
    (canonical : stripSlashes (snprintf PATH_MAX session.rootPath) = spell root)
    (above : root <:+ home) (within : w.Within home)
    (refused : ∀ w', wp (confining home root command) (k none) Q w')
    (opened : ∀ path, (∀ q o, w.look true path = some (q, o) → root <:+ q) →
      wp (confining home root command) (k (some path)) Q w) :
    wp (confining home root command) (listPath session buf >>= k) Q w := by
  apply wp_bind.mpr
  unfold listPath
  rw [wp_ite]
  constructor
  · intro _
    apply wp_call fun r _ => still_keeps trivial r
    intro r answered
    cases r with
    | error e =>
      exact wp_bind.mpr (wp_still (calls_within rfl) fun _ w' _ => refused w')
    | ok cwd =>
      obtain ⟨⟨d, here, rfl⟩, short⟩ := answered
      have short : (render d).length < PATH_MAX := of_decide_eq_true short
      obtain ⟨inside, directory⟩ := within d here
      refine opened _ fun q o look => ?_
      rw [snprintf_eq_self short] at look
      obtain ⟨led, -⟩ := World.look_eq_some.mp look
      rw [World.resolve, resolve_canonical (Hierarchy.parent_directory directory)] at led
      · cases led
        exact above.trans inside
      · intro _ link
        obtain ⟨target, link⟩ := link
        rw [directory] at link
        cases link
  · intro _
    have resolved : wp (confining home root command) (cmdResolve buf session.rootPath >>= k) Q w :=
      wp_cmdResolve (fun w' _ => refused w') fun v checked =>
        opened v fun q o look => checked.found_inside canonical look
    exact wp_bind.mp resolved

theorem wp_dispatchList {server : Server}
    (canonical : stripSlashes (snprintf PATH_MAX session.rootPath) = spell root)
    (above : root <:+ home) (within : w.Within home) : wp (confining home root command)
      (dispatchList server session payload) (fun _ _ => True) w := by
  refine wp_cmdParse fun parsed w1 same => ?_
  cases parsed with
  | none => exact trivial
  | some listCommand =>
  have within : w1.Within home := within.unmoved same
  refine wp_listPath canonical above within (fun _ => trivial) fun path inside => ?_
  refine wp_bind.mpr (wp_mono (wp_list inside) fun r w2 _ => ?_)
  obtain ⟨e | done, sb⟩ := r
  · exact wp_done (calls_within rfl)
  refine wp_done ?_
  repeat' with_reducible first
    | exact calls_within rfl
    | refine Calls.bind ?_ fun _ => ?_
    | split
    | dsimp only

end listing

section accounts

variable {w : World} {home root : Place FileName} {session : Session} {payload : Option CStr}

@[reducible] def Builds : Call → Prop
  | .file (.rename _ _) | .file (.chdir _) | .file (.opendir _) => False
  | _ => True

instance builds_judged : Judged Builds :=
  .avoiding [.rename, .chdir, .opendir] <| by
    rintro (c | c | c | c | c | c) <;> cases c <;> simp

theorem builds_confined {c : FileCall} (builds : Builds (.file c)) (r : c.Reply) :
    w.Confined home root (some .createUser) c r := by
  refine ⟨fun here => ?_, fun here => ?_, fun x listed => ?_⟩
  · rcases here with other | moves
    · exact absurd rfl other
    · cases c <;> first | exact absurd moves id | exact absurd builds id
  · rcases here with here | here <;> cases here
  · cases c with
    | opendir path => exact absurd builds id
    | _ => exact absurd listed id

theorem wp_dispatchCreateUser {server : Server} : wp (confining home root (some .createUser))
    (dispatchCreateUser server session payload) (fun _ _ => True) w := by
  have calls : (dispatchCreateUser server session payload).Calls Builds := calls_within rfl
  refine calls.wp_free (fun w c builds r _ => ?_)
    fun _ _ => trivial
  cases c with
  | file c => exact builds_confined builds r
  | _ => exact trivial

end accounts

section acceptance

variable {α : Type} {w : World} {home root : Place FileName} {Q : α → World → Prop}
  {session : Session} {payload : Option CStr}

theorem wp_openSource {path : CStr} {k : SysResult Int → Sys α}
    (h : ∀ r w', Unmoved w w' → wp (confining home root (some .accept)) (k r) Q w') :
    wp (confining home root (some .accept))
      (fileCall (.openPath path { access := .rdonly, nofollow := true } 0) >>= k) Q w := by
  refine wp_reaching (fun r _ => ?_) fun r answered => h r _ ?_
  · cases r with
    | error e => exact ⟨fun _ _ => False.elim, fun _ _ => False.elim, fun _ => False.elim⟩
    | ok fd =>
      refine ⟨fun _ x reached => absurd rfl reached.1, fun reads => ?_, fun _ => False.elim⟩
      rcases reads with reads | reads <;> cases reads
  · cases r with
    | error e => exact .refl w
    | ok fd =>
      have alike : Alike w (w.after (.openPath path { access := .rdonly, nofollow := true } 0) (.ok fd)) :=
        .open rfl rfl answered.2
      exact ⟨by rw [alike.volume], alike.cwd⟩

variable (canonical : stripSlashes (snprintf PATH_MAX session.homePath) = spell home)

include canonical

theorem wp_executeTransferCopy {path v s srcPath : CStr} (checked : Checked w path session.homePath v)
    (plain : 47 ∉ s ∨ s = cstr "/") : wp (confining home root (some .accept))
      (executeTransferCopy srcPath (v ++ cstr "/" ++ s)) (fun _ _ => True) w := by
  refine wp_bind.mpr (wp_still (calls_within rfl) fun _ w1 same1 => ?_)
  refine wp_bind.mpr (wp_still (calls_within rfl) fun euid w2 same2 => ?_)
  refine wp_bind.mpr (wp_still (calls_within rfl) fun raised w3 same3 => ?_)
  cases raised with
  | error e => exact trivial
  | ok done =>
  refine wp_openSource fun opened w4 same4 => ?_
  refine wp_bind.mpr (wp_still (calls_within rfl) fun lowered w5 same5 => ?_)
  have same := ((((same1.trans same2).trans same3).trans same4).trans same5)
  cases lowered with
  | error e =>
    cases opened with
    | error e' => exact trivial
    | ok srcFd => exact wp_still (calls_within rfl) fun _ _ _ => trivial
  | ok done =>
  cases opened with
  | error e => exact trivial
  | ok srcFd =>
  refine wp_bind.mpr (wp_still (calls_within rfl) fun told w6 same6 => ?_)
  cases told with
  | error e => exact wp_still (calls_within rfl) fun _ _ _ => trivial
  | ok srcStat =>
  dsimp only
  rw [wp_ite]
  refine ⟨fun _ => wp_still (calls_within rfl) fun _ _ _ => trivial, fun _ => ?_⟩
  refine wp_creates canonical ((same.trans same6).checked checked) plain rfl rfl
    (fun e => wp_still (calls_within rfl) fun _ _ _ => trivial) fun destFd w7 leads _ => ?_
  refine wp_bind.mpr (wp_still (calls_within rfl) fun shared w8 same8 => ?_)
  cases shared with
  | error e => exact wp_still (calls_within rfl) fun _ _ _ => trivial
  | ok done =>
  refine wp_bind.mpr (wp_still (calls_within rfl) fun locked w9 same9 => ?_)
  cases locked with
  | error e => exact wp_still (calls_within rfl) fun _ _ _ => trivial
  | ok done =>
  refine wp_bind.mpr (wp_still (calls_within rfl) fun copied w10 same10 => ?_)
  refine wp_bind.mpr (wp_still (calls_within rfl) fun _ w11 same11 => ?_)
  refine wp_bind.mpr (wp_still (calls_within rfl) fun _ w12 same12 => ?_)
  refine wp_bind.mpr (wp_still (calls_within rfl) fun _ w13 same13 => ?_)
  refine wp_bind.mpr (wp_still (calls_within rfl) fun _ w14 same14 => ?_)
  cases copied with
  | ok done => exact trivial
  | error e =>
    have still := (same8.trans same9).trans (same10.trans (same11.trans (same12.trans
      (same13.trans same14))))
    exact wp_reaching (fun r _ => confined_unlink (still.leads leads) r) fun _ _ => trivial

theorem wp_dispatchAccept : wp (confining home root (some .accept)) (dispatchAccept session payload)
    (fun _ _ => True) w := by
  refine wp_cmdParse fun parsed w1 same => ?_
  cases parsed with
  | none => exact trivial
  | some acceptCommand =>
  dsimp only
  rw [wp_ite]
  refine ⟨fun _ => wp_done (calls_within rfl), fun _ => ?_⟩
  refine wp_cmdResolve (fun _ _ => trivial) fun fullDestPath checked => ?_
  refine wp_bind.mpr (wp_still (calls_within rfl) fun taken w2 same2 => ?_)
  cases taken with
  | none => exact trivial
  | some taken =>
  obtain ⟨requestCopy, sourceUserPid, sourceUserOnline⟩ := taken
  dsimp only
  unfold acceptCopy
  dsimp only
  obtain ⟨k, joined⟩ := snprintf_join checked.length
    ((pathBasename (NAME_MAX + 1) requestCopy.filePathAbsolute).take NAME_MAX)
  have plain := plain_take (plain_take (plain_take
    (basename_plain (snprintf PATH_MAX requestCopy.filePathAbsolute)) (NAME_MAX + 1 - 1)) NAME_MAX) k
  rw [joined]
  refine wp_bind.mpr (wp_mono (wp_executeTransferCopy canonical (same2.checked checked) plain)
    fun copied w3 _ => ?_)
  exact wp_done (calls_within rfl)

end acceptance

end Confine

end Csap
