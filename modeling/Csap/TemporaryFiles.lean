import Csap.Disk
import Csap.Transfer

/-! The temporary file of a whole write: it is created beside the target, the target is opened for
its lock, and the one takes the place of the other. -/

namespace Csap

open FileTree Prog

def keptMode : Option Seen → Nat
  | some seen => seen.file.mode &&& 0o777
  | none => 0o700

structure Replaced (w w' : World) (q : Place FileName) (data : CStr) : Prop where
  now : ∃ ino, w'.seen q = some ⟨.file ino, ⟨data, keptMode (w.seen q)⟩⟩
  others : ∀ x, x ≠ q → w'.seen x = w.seen x

theorem Replaced.of_volume {w w' w'' : World} {q : Place FileName} {data : CStr}
    (h : Replaced w w' q data) (same : w''.toVolume = w'.toVolume) : Replaced w w'' q data := by
  obtain ⟨now, others⟩ := h
  rw [← same] at now others
  exact ⟨now, others⟩

/-- The temporary file is there, and the target, which is what it was or new. -/
structure Staged (w : World) (path name : CStr) (fd : Int) (q tq : Place FileName) (base : World) :
    Prop where
  room : w.Room tq
  led : w.resolve false path = .ok q
  stays : base.resolve false path = .ok q
  temp : base.resolve false name = .ok tq
  cwd : base.cwd = w.cwd
  seen : ∀ x, base.seen x =
    if x = tq then some ⟨.file w.fresh, ⟨[], 0o600⟩⟩
    else if x = q ∧ w.seen q = none then some ⟨.file (w.fresh + 1), ⟨[], 0o700⟩⟩
    else w.seen x
  opened : base.fds fd = some ⟨some w.fresh, 0, .rdwr⟩
  plain : base.tree.get q ≠ some .directory
  unlinked : ¬ w.tree.Links q

section staging

variable {w base : World} {path name : CStr} {fd lockFd : Int} {q tq x : Place FileName}

theorem staged_of_opens (led : w.resolve false name = .ok tq) (room : w.Room tq)
    (unused : ((w.withVolume (w.add tq .regular 0o600)).install fd tq .rdwr).Unused lockFd)
    (opens : ((w.withVolume (w.add tq .regular 0o600)).install fd tq .rdwr).opens path
      receiveOpenFlags = some q) :
    Staged w path name fd q tq
      (((w.withVolume (w.add tq .regular 0o600)).install fd tq .rdwr).after
        (.openPath path receiveOpenFlags 0o700) (.ok lockFd)) := by
  set w1 := (w.withVolume (w.add tq .regular 0o600)).install fd tq .rdwr with staged
  have apart : fd ≠ lockFd := by
    rintro rfl
    have taken := unused.2
    rw [staged, World.install_fds, Function.update_self] at taken
    cases taken
  have temp0 : (w.withVolume (w.add tq .regular 0o600)).resolve false name = .ok tq :=
    World.resolve_add room led
  have temp1 : w1.resolve false name = .ok tq := temp0
  have get1 : w1.tree.get = Function.update w.tree.get tq (some (.file w.fresh)) :=
    Volume.get_add room
  have others : ∀ x, x ≠ tq → w1.tree.get x = w.tree.get x := by
    intro x other
    rw [get1, Function.update_of_ne other]
  have seen1 : ∀ x, w1.seen x = if x = tq then some ⟨.file w.fresh, ⟨[], 0o600⟩⟩ else w.seen x :=
    fun x => Volume.seen_add room
  have opened1 : w1.fds fd = some ⟨some w.fresh, 0, .rdwr⟩ := by
    have there : (w.withVolume (w.add tq .regular 0o600)).tree.get tq = some (.file w.fresh) := by
      rw [World.withVolume_toVolume, Volume.get_add room, Function.update_self]
      rfl
    rw [staged, World.install_fds, Function.update_self, World.inoAt_file there]
  obtain ⟨led1, found⟩ := World.opens_cases opens
  have before1 : (w.withVolume (w.add tq .regular 0o600)).resolve false path = .ok q := led1
  have led0 : w.resolve false path = .ok q :=
    World.resolve_of_add room (by simp [Volume.created]) before1
  rcases found with ⟨absent, -, room1⟩ | ⟨o, found, -, plain, unlinked⟩
  · have other : q ≠ tq := by
      rintro rfl
      rw [get1, Function.update_self] at absent
      cases absent
    have none : w.tree.get q = none := by rw [← others q other, absent]
    rw [World.after_open_new opens absent]
    have led2 : (w1.withVolume (w1.add q .regular 0o700)).resolve false path = .ok q :=
      World.resolve_add room1 led1
    have temp2 : (w1.withVolume (w1.add q .regular 0o700)).resolve false name = .ok tq :=
      World.resolve_add room1 temp1
    refine ⟨room, led0, led2, temp2, rfl, ?_, ?_, ?_, ?_⟩
    · intro x
      have fresh1 : w1.fresh = w.fresh + 1 := Volume.add_fresh room
      have seen2 : ((w1.withVolume (w1.add q .regular 0o700)).install lockFd q
          receiveOpenFlags.access).seen x = _ := Volume.seen_add room1
      rw [seen2, seen1, Volume.created, fresh1]
      by_cases here : x = q
      · rw [if_pos here, here, if_neg other, if_pos ⟨rfl, Volume.seen_eq_none.mpr none⟩]
      · rw [if_neg here]
        by_cases there : x = tq
        · rw [if_pos there, if_pos there]
        · rw [if_neg there, if_neg there, if_neg fun h => here h.1]
    · rw [World.install_fds, Function.update_of_ne apart, World.withVolume_fds, opened1]
    · have there : ((w1.withVolume (w1.add q .regular 0o700)).install lockFd q
          receiveOpenFlags.access).tree.get q = some (w1.created .regular) := by
        rw [World.install_toVolume, World.withVolume_toVolume, Volume.get_add room1,
          Function.update_self]
      rw [there]
      simp [Volume.created]
    · rintro ⟨target, link⟩
      rw [none] at link
      cases link
  · rw [World.after_open_existing opens (by rw [found]; exact Option.some_ne_none o) rfl]
    refine ⟨room, led0, led1, temp1, rfl, ?_, ?_, ?_, ?_⟩
    · intro x
      have seen2 : (w1.install lockFd q receiveOpenFlags.access).seen x = w1.seen x := rfl
      rw [seen2, seen1]
      by_cases there : x = tq
      · rw [if_pos there, if_pos there]
      · rw [if_neg there, if_neg there, if_neg]
        rintro ⟨rfl, none⟩
        rw [Volume.seen_eq_none, ← others x there, found] at none
        cases none
    · rw [World.install_fds, Function.update_of_ne apart, opened1]
    · rw [World.install_toVolume, found]
      rintro ⟨⟩
      cases (plain rfl).1
    · rintro ⟨target, link⟩
      by_cases same : q = tq
      · rw [same, room.absent] at link
        cases link
      · rw [← others q same, found] at link
        exact unlinked target (Option.some.inj link)

section staged

variable (h : Staged w path name fd q tq base)
include h

theorem Staged.temporary : base.tree.get tq = some (.file w.fresh) ∧ base.files w.fresh = ⟨[], 0o600⟩ := by
  have seen := h.seen tq
  rw [if_pos rfl] at seen
  exact Volume.seen_eq_some.mp seen

theorem Staged.alone (there : base.tree.get x = some (.file w.fresh)) : x = tq := by
  by_contra other
  have seen := h.seen x
  rw [if_neg other, Volume.seen_file there] at seen
  split at seen
  · simp at seen
  · exact lt_irrefl _ (w.used (Volume.seen_eq_some.mp seen.symm).1)

theorem Staged.seen_setFile (file : File) : (base.setFile w.fresh file).seen x =
    if x = tq then some ⟨.file w.fresh, file⟩ else base.seen x := by
  rw [Volume.seen_setFile]
  by_cases here : x = tq
  · rw [if_pos here, here, if_pos h.temporary.1]
  · rw [if_neg here, if_neg fun there => here (h.alone there)]

theorem Staged.replaced {w4 : World} {data : CStr}
    (volume : w4.toVolume = base.setFile w.fresh ⟨data, keptMode (w.seen q)⟩)
    (cwd : w4.cwd = base.cwd) (answered : w4.renames name path ≠ none) :
    Replaced w (w4.after (.rename name path) (.ok ())) q data := by
  obtain ⟨⟨p', q'⟩, renames⟩ := Option.ne_none_iff_exists'.mp answered
  have renamed : w4.after (.rename name path) (.ok ()) = w4.rename p' q' := by
    rw [World.after, renames]
  rw [renamed]
  have tree : w4.tree = base.tree := by rw [volume, Volume.setFile_tree]
  have leads : ∀ follow path, w4.resolve follow path = base.resolve follow path := by
    intro follow path
    rw [World.resolve, World.resolve, tree, cwd]
  obtain ⟨o, found, led, may⟩ := World.renames_cases renames
  obtain ⟨led', there⟩ := World.look_eq_some.mp found
  rw [leads, h.temp] at led'
  cases led'
  rw [leads, h.stays] at led
  cases led
  rw [tree, h.temporary.1] at there
  cases there
  have seen4 : ∀ x, w4.seen x =
      if x = tq then some ⟨.file w.fresh, ⟨data, keptMode (w.seen q)⟩⟩ else base.seen x := by
    intro x
    rw [volume, h.seen_setFile]
  have old : ∀ x, x ≠ q → x ≠ tq → w4.seen x = w.seen x := by
    intro x apart other
    rw [seen4, if_neg other, h.seen, if_neg other, if_neg fun same => apart same.1]
  by_cases same : q = tq
  · -- the target's name is the temporary file's: a rename to itself
    subst same
    have left : w4.rename q q = w4 := by
      rw [World.rename, if_pos ⟨_, by rw [tree, h.temporary.1]; rfl, .inl rfl⟩]
    rw [left]
    refine ⟨⟨w.fresh, by rw [seen4, if_pos rfl]⟩, fun x apart => old x apart apart⟩
  · have distinct : ∀ o ∈ w4.tree.get tq, ¬ w4.Same tq q o := by
      rintro o here (rfl | ⟨there, -⟩)
      · exact same rfl
      · rw [tree, h.temporary.1] at here
        cases here
        rw [tree] at there
        exact same (h.alone there)
    have movable := (may.resolve_left (distinct _ (by rw [tree, h.temporary.1]; rfl))).1
    have moved : ∀ x, (w4.rename tq q).seen x =
        if x = q then w4.seen tq else if x = tq then none else w4.seen x := by
      intro x
      have apart : ¬ ∃ o ∈ w4.tree.get tq, w4.Same tq q o := by
        rintro ⟨o, here, both⟩
        exact distinct o here both
      rw [World.rename, if_neg apart]
      exact Volume.seen_relocate movable (by rw [tree, h.temporary.1]; simp) (.inl (by rw [tree]; exact h.plain))
    refine ⟨⟨w.fresh, by rw [moved, if_pos rfl, seen4, if_pos rfl]⟩, fun x apart => ?_⟩
    rw [moved, if_neg apart]
    by_cases there : x = tq
    · rw [if_pos there, there, eq_comm, Volume.seen_eq_none]
      exact h.room.absent
    · rw [if_neg there, old x apart there]

end staged

end staging

section removal

variable {w w' : World} {path name : CStr} {q x : Place FileName} {o : Object FileName}

theorem World.unlinks_eq_some : w.unlinks path = some q ↔
    ∃ o, w.look false path = some (q, o) ∧ o ≠ .directory := by
  unfold unlinks
  split
  · rename_i q' o found
    split
    · rename_i directory
      rw [found]
      constructor
      · intro none
        cases none
      · rintro ⟨o', same, other⟩
        cases same
        exact absurd directory other
    · rename_i other
      rw [found]
      constructor
      · rintro ⟨⟩
        exact ⟨o, rfl, other⟩
      · rintro ⟨o', ⟨⟩, -⟩
        rfl
  · rename_i none
    rw [none]
    simp

/-- What an `unlink` leaves that can remove what there is. -/
def World.unlinked (w : World) (path : CStr) : World := w.remove (w.unlinks path)

theorem World.unlinked_seen :
    (w.unlinked path).seen x = if w.unlinks path = some x then none else w.seen x := by
  unfold unlinked
  cases found : w.unlinks path with
  | none =>
    rw [if_neg (Option.some_ne_none x).symm]
    rfl
  | some q =>
    obtain ⟨o, look, other⟩ := unlinks_eq_some.mp found
    obtain ⟨-, there⟩ := look_eq_some.mp look
    have proper : q ≠ [] := by
      rintro rfl
      rw [w.tree.root] at there
      cases there
      exact other rfl
    have plain : w.tree.get q ≠ some .directory := by
      rw [there]
      exact fun same => other (Option.some.inj same)
    change (w.drop q).seen x = _
    rw [Volume.seen_drop proper (.inl plain)]
    by_cases here : x = q
    · rw [if_pos here, here, if_pos rfl]
    · rw [if_neg here, if_neg fun same => here (Option.some.inj same).symm]

theorem Volume.get_of_seen {v v' : Volume} (same : ∀ x, v'.seen x = v.seen x) :
    v'.tree.get = v.tree.get := by
  have objects : ∀ (v : Volume) x, v.tree.get x = (v.seen x).map Seen.object := by
    intro v x
    rw [Volume.seen, Option.map_map]
    exact (Option.map_id' ..).symm
  funext x
  rw [objects, objects, same]

theorem World.unlinks_congr (absolute : path.head? = some 47) (same : ∀ x, w'.seen x = w.seen x) :
    w'.unlinks path = w.unlinks path := by
  have get := Volume.get_of_seen same
  have led : w'.resolve false path = w.resolve false path := resolve_absolute absolute get
  unfold unlinks look
  rw [led, get]

theorem World.unlinked_resolve {ino : Nat} (absolute : path.head? = some 47)
    (found : w.look false name = some (x, .file ino)) (led : w.resolve false path = .ok q) :
    (w.unlinked name).resolve false path = .ok q := by
  obtain ⟨-, there⟩ := look_eq_some.mp found
  have gone : w.unlinked name = w.remove (some x) := by
    rw [unlinked, unlinks_eq_some.mpr ⟨_, found, by simp⟩]
  have proper : x ≠ [] := by
    rintro rfl
    rw [w.tree.root] at there
    cases there
  have plain : w.tree.get x ≠ some .directory := by
    rw [there]
    simp
  have unlinked : ¬ w.tree.Links x := by
    rintro ⟨target, link⟩
    rw [there] at link
    cases link
  have dropped := resolve_drop proper plain unlinked led
  rw [gone, ← dropped]
  exact resolve_absolute absolute rfl

end removal

section opening

variable {α Notes : Type} {promised : World → (c : Call) → c.Reply → Prop}
  {see : Notes → (c : Call) → c.Reply → Notes} {w : World} {notes : Notes} {path : CStr}
  {Q : α → World × Notes → Prop}

theorem wp_sendOk {payload : CStr} {k : Int → Sys α}
    (quiet : ∀ notes c p r, see notes (.socket (.sendPacket c p)) r = notes)
    (h : ∀ r, wp ((posix.assuming promised).watching see) (k r) Q (w, notes)) :
    wp ((posix.assuming promised).watching see) (sendOk payload >>= k) Q (w, notes) := by
  refine wp_bind.mpr ?_
  unfold sendOk sendPacket
  rw [wp_ite]
  refine ⟨fun _ => h _, fun _ => wp_perform.mpr ⟨trivial, fun r _ => ?_⟩⟩
  have told := h r
  rw [← quiet notes RSP_OK payload r] at told
  exact told

def tempTemplate (destPath : CStr) : CStr :=
  snprintf PATH_MAX (destPath.rdropWhile (· ≠ 47) ++ cstr ".tempXXXXXX")

theorem wp_openTempForUpload {k : SysResult Int × CStr → Sys α} (quiet : ∀ notes n r, see notes (.alloc n) r = notes)
    (refused : ∀ e, wp ((posix.assuming promised).watching see) (k (.error e, [])) Q (w, notes))
    (failed : ∀ e name, name = tempTemplate path ∨ Fills (tempTemplate path) name →
      wp ((posix.assuming promised).watching see) (k (.error e, name)) Q
        (w, see notes (.file (.mkstemp (tempTemplate path))) (.error e, name)))
    (made : ∀ fd name tq, Fills (tempTemplate path) name → w.resolve false name = .ok tq → w.Room tq →
      wp ((posix.assuming promised).watching see) (k (.ok fd, name)) Q
        ((w.withVolume (w.add tq .regular 0o600)).install fd tq .rdwr,
          see notes (.file (.mkstemp (tempTemplate path))) (.ok fd, name))) :
    wp ((posix.assuming promised).watching see) (openTempForUpload path >>= k) Q (w, notes) := by
  refine wp_bind.mpr ?_
  unfold openTempForUpload
  rw [wp_ite]
  refine ⟨fun _ => refused _, fun _ => ?_⟩
  refine wp_other (by simp) fun allocated _ => ?_
  rw [quiet, wp_ite]
  refine ⟨fun _ => refused _, fun _ => ?_⟩
  rw [wp_ite]
  refine ⟨fun _ => refused _, fun _ => ?_⟩
  refine wp_perform.mpr ⟨trivial, ?_⟩
  rintro ⟨e | fd, name⟩ ⟨answered, -⟩
  · exact failed e name answered
  · obtain ⟨-, fills, free⟩ := answered
    obtain ⟨tq, free⟩ := Option.ne_none_iff_exists'.mp free
    obtain ⟨led, room⟩ := World.free_eq_some.mp free
    have left : w.after (.mkstemp (tempTemplate path)) (.ok fd, name) =
        (w.withVolume (w.add tq .regular 0o600)).install fd tq .rdwr := by
      simp only [World.after, free]
    have judged := made fd name tq fills led room
    rw [← left] at judged
    exact judged

end opening


end Csap
