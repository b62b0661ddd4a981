import Csap.Disk
import Csap.LocalCalls

/-! The copy of an accepted transfer request, on a file system whose calls may fail. -/

namespace Csap

open FileTree Prog

namespace Copy

def Removes (w : World) : (c : Call) → c.Reply → Prop
  | .file (.unlink path), r => w.unlinks path ≠ none → r = .ok ()
  | .file (.close _), r => r = .ok ()
  | _, _ => True

instance (w : World) (c : Call) (r : c.Reply) : Decidable (Removes w c r) := by
  unfold Removes
  split <;> infer_instance

def lockRefused (refused : Bool) : (c : Call) → c.Reply → Bool
  | .file (.setlk _ type _ _), .error _ => refused || type ≠ .unlck
  | _, _ => refused

/-- The copy on the file system, and whether a lock has been refused. -/
def copying : Typestate Call.Reply (World × Bool) := (posix.assuming Removes).watching lockRefused

instance (g : World × Bool) (c : Call) (r : c.Reply) : Decidable (copying.expects g c r) :=
  inferInstanceAs (Decidable (((posix.assuming Removes).watching lockRefused).expects g c r))

end Copy

def World.bytes (w : World) (path : CStr) : Option CStr :=
  match w.look false path with
  | some (_, .file ino) => some (w.files ino).content
  | _ => none

/-- The destination did not exist before, and now holds the bytes of the source. -/
def Copied (w w' : World) (srcPath destPath : CStr) : Prop :=
  w.look false destPath = none ∧ w.bytes srcPath ≠ none ∧ w'.bytes destPath = w.bytes srcPath

/-- The copy is made, or nothing is changed; and what was there stays as it was. -/
structure AllOrNothing (w w' : World) (srcPath destPath : CStr) (r : SysResult Unit) : Prop where
  copied : r = .ok () ↔ Copied w w' srcPath destPath
  unchanged : r ≠ .ok () → ∀ x, w'.seen x = w.seen x
  kept : ∀ x, w.seen x ≠ none → w'.seen x = w.seen x

namespace Copy

variable {w0 w : World} {srcPath destPath : CStr} {q : Place FileName} {copied rest : CStr}
  {srcFd destFd : Int} {ino pos : Nat}

structure Placed (w0 : World) (destPath : CStr) (q : Place FileName) (copied : CStr) (w : World) :
    Prop where
  led : w0.resolve false destPath = .ok q
  room : w0.Room q
  volume : w.toVolume = (w0.add q .regular 0o600).setFile w0.fresh ⟨copied, 0o600⟩
  cwd : w.cwd = w0.cwd

theorem Placed.resolve (h : Placed w0 destPath q copied w) : w.resolve false destPath = .ok q := by
  have same : (w0.withVolume (w0.add q .regular 0o600)).resolve false destPath = .ok q :=
    World.resolve_add h.room h.led
  unfold World.resolve at same ⊢
  rw [h.volume, h.cwd]
  exact same

theorem Placed.seen (h : Placed w0 destPath q copied w) (x : Place FileName) :
    w.seen x = if x = q then some ⟨.file w0.fresh, ⟨copied, 0o600⟩⟩ else w0.seen x := by
  rw [h.volume, Volume.seen_setFile, Volume.get_add h.room, Volume.seen_add h.room]
  by_cases here : x = q
  · have file : some (w0.created .regular) = some (.file w0.fresh) := rfl
    rw [here, Function.update_self, if_pos file, if_pos rfl]
  · rw [Function.update_of_ne here, if_neg here, if_neg here]
    split
    · rename_i found
      exact absurd (w0.used found) (lt_irrefl _)
    · rfl

theorem Placed.get (h : Placed w0 destPath q copied w) : w.tree.get q = some (.file w0.fresh) := by
  rw [h.volume, Volume.setFile_tree, Volume.get_add h.room, Function.update_self]
  rfl

theorem Placed.keeps (h : Placed w0 destPath q copied w) {w' : World}
    (volume : w'.toVolume = w.toVolume) (cwd : w'.cwd = w.cwd) : Placed w0 destPath q copied w' :=
  ⟨h.led, h.room, volume.trans h.volume, cwd.trans h.cwd⟩

/-- Both files are open, and the source has been read up to a position. -/
structure Copying (w0 : World) (destPath : CStr) (q : Place FileName) (srcFd destFd : Int)
    (ino pos : Nat) (copied : CStr) (w : World) : Prop
    extends Placed w0 destPath q copied w where
  older : ino < w0.fresh
  srcOpen : w.fds srcFd = some ⟨some ino, pos, .rdonly⟩
  destOpen : w.fds destFd = some ⟨some w0.fresh, copied.length, .wronly⟩
  apart : srcFd ≠ destFd

theorem Copying.content (h : Copying w0 destPath q srcFd destFd ino pos copied w) :
    w.files ino = w0.files ino := by
  rw [h.volume, Volume.setFile_files_of_ne h.older.ne, Volume.add_files h.older.ne]

theorem Copying.read (h : Copying w0 destPath q srcFd destFd ino pos copied w) (count : Nat)
    (data : CStr) : Copying w0 destPath q srcFd destFd ino (pos + data.length) copied
      (w.after (.read srcFd count) (.ok data)) := by
  rw [World.after_read h.srcOpen]
  refine ⟨h.toPlaced.keeps rfl rfl, h.older, ?_, ?_, h.apart⟩
  · simp
  · simpa [Function.update_of_ne h.apart.symm] using h.destOpen

theorem Copying.write (h : Copying w0 destPath q srcFd destFd ino pos copied w) (data : CStr)
    {written : Nat} (le : written ≤ data.length) :
    Copying w0 destPath q srcFd destFd ino pos (copied ++ data.take written)
      (w.after (.write destFd data) (.ok written)) := by
  have file : w.files w0.fresh = ⟨copied, 0o600⟩ := by rw [h.volume, Volume.setFile_self]
  rw [World.after_write h.destOpen, file]
  dsimp only
  rw [overwrite_end]
  refine ⟨⟨h.led, h.room, ?_, h.cwd⟩, h.older, ?_, ?_, h.apart⟩
  · rw [World.setFd_toVolume, World.withVolume_toVolume, h.volume, Volume.setFile_setFile]
  · simpa [Function.update_of_ne h.apart] using h.srcOpen
  · simp [Nat.min_eq_left le]

/-- What is left of the bytes read is on its way to the destination. -/
def Between (w0 : World) (destPath : CStr) (q : Place FileName) (srcFd destFd : Int) (ino : Nat)
    (rest : CStr) (g : World × Bool) : Prop :=
  g.2 = false ∧ ∃ pos copied, Copying w0 destPath q srcFd destFd ino pos copied g.1 ∧
    pos ≤ (w0.files ino).content.length ∧ copied ++ rest = (w0.files ino).content.take pos

def Left (w0 : World) (destPath : CStr) (q : Place FileName) (ino : Nat) (r : SysResult Unit)
    (g : World × Bool) : Prop :=
  g.2 = false ∧ ∃ copied, Placed w0 destPath q copied g.1 ∧
    (r = .ok () → copied = (w0.files ino).content)

theorem wp_writeAll {g : World × Bool} (h : Between w0 destPath q srcFd destFd ino rest g) :
    wp copying (writeAll destFd rest) (fun r g =>
      match r with
      | .ok () => Between w0 destPath q srcFd destFd ino [] g
      | .error e => Left w0 destPath q ino (.error e) g) g := by
  refine wp_iterate (Between w0 destPath q srcFd destFd ino) h ?_
  rintro remaining ⟨w, refused⟩ ⟨rfl, pos, copied, h, bound, split⟩
  rw [wp_ite]
  constructor
  · rintro rfl
    exact ⟨rfl, pos, copied, h, bound, split⟩
  · intro _
    refine wp_call trivial ?_
    rintro (e | written) ⟨answered, -⟩
    · rw [wp_ite]
      refine ⟨fun _ => ⟨rfl, pos, copied, h, bound, split⟩, fun _ => ?_⟩
      exact ⟨rfl, copied, h.toPlaced, fun done => by cases done⟩
    · refine ⟨rfl, pos, _, h.write remaining answered.2, bound, ?_⟩
      rw [List.append_assoc, List.take_append_drop]
      exact split

theorem wp_copyLoop {g : World × Bool} (h : Between w0 destPath q srcFd destFd ino [] g) :
    wp copying (copyLoop srcFd destFd) (Left w0 destPath q ino) g := by
  refine wp_iterate (fun _ => Between w0 destPath q srcFd destFd ino []) h ?_
  rintro _ ⟨w, refused⟩ ⟨rfl, pos, copied, h, bound, split⟩
  refine wp_call trivial ?_
  rintro (e | buffer) ⟨answered, -⟩
  · rw [wp_ite]
    refine ⟨fun _ => ⟨rfl, pos, copied, h, bound, split⟩, fun _ => ?_⟩
    exact ⟨rfl, copied, h.toPlaced, fun done => by cases done⟩
  · obtain ⟨-, -, reads⟩ := (World.holds_iff h.srcOpen).mp answered
    obtain ⟨next, stops⟩ := reads ino rfl
    rw [h.content] at next stops
    dsimp only at next stops
    rw [wp_ite]
    constructor
    · rintro rfl
      refine ⟨rfl, copied, (h.read 4096 []).toPlaced, fun _ => ?_⟩
      have whole := (stops rfl).resolve_right (by decide)
      rw [List.append_nil, List.take_of_length_le whole] at split
      exact split
    · intro more
      have taken : buffer = ((w0.files ino).content.drop pos).take buffer.length :=
        List.prefix_iff_eq_take.mp next
      have fits := next.length_le
      rw [List.length_drop] at fits
      refine wp_bind.mpr (wp_mono (wp_writeAll ⟨rfl, _, copied, h.read 4096 buffer, by omega, ?_⟩) ?_)
      · rw [List.append_nil] at split
        rw [split, List.take_add, ← taken]
      · rintro (e | _) g left
        · exact left
        · exact left

/-- How the copy ends: as it should, or, after a lock was refused, with an empty file in the
destination's place. -/
def Ended (w0 : World) (srcPath destPath : CStr) (r : SysResult Unit) (g : World × Bool) : Prop :=
  g.2 = false ∧ AllOrNothing w0 g.1 srcPath destPath r ∨
  g.2 = true ∧ ∃ e q, r = .error e ∧ Placed w0 destPath q [] g.1

theorem bytes_of_keeps (volume : w.toVolume = w0.toVolume) (cwd : w.cwd = w0.cwd) (path : CStr) :
    w.bytes path = w0.bytes path := by
  unfold World.bytes World.look World.resolve
  rw [volume, cwd]

theorem ended_untouched {e : Errno} (volume : w.toVolume = w0.toVolume) (cwd : w.cwd = w0.cwd) :
    Ended w0 srcPath destPath (.error e) (w, false) := by
  refine .inl ⟨rfl, ⟨⟨fun done => (by cases done), ?_⟩, fun _ x => ?_, fun x _ => ?_⟩⟩
  rotate_left
  · rw [volume]
  · rw [volume]
  rintro ⟨absent, held, same⟩
  rw [← same, bytes_of_keeps volume cwd, World.bytes, absent] at held
  exact absurd rfl held

theorem Placed.absent (h : Placed w0 destPath q copied w) : w0.look false destPath = none := by
  unfold World.look
  rw [h.led]
  simp [h.room.absent]

theorem Placed.kept (h : Placed w0 destPath q copied w) (x : Place FileName) (there : w0.seen x ≠ none) :
    w.seen x = w0.seen x := by
  rw [h.seen, if_neg]
  rintro rfl
  exact there (Volume.seen_eq_none.mpr h.room.absent)

theorem Placed.ended {p : Place FileName} (h : Placed w0 destPath q (w0.files ino).content w)
    (source : w0.look false srcPath = some (p, .file ino)) :
    Ended w0 srcPath destPath (.ok ()) (w, false) := by
  have held : w0.bytes srcPath = some (w0.files ino).content := by rw [World.bytes, source]
  have now : w.bytes destPath = some (w0.files ino).content := by
    rw [World.bytes, World.look_eq_some.mpr ⟨h.resolve, h.get⟩, h.volume]
    simp
  refine .inl ⟨rfl, ⟨fun _ => ⟨h.absent, ?_, ?_⟩, fun _ => rfl⟩, fun failed => absurd rfl failed, h.kept⟩
  · rw [held]
    exact Option.some_ne_none _
  · rw [held]
    exact now

theorem Placed.unlinks (h : Placed w0 destPath q copied w) : w.unlinks destPath = some q := by
  have here : w.look false destPath = some (q, .file w0.fresh) :=
    World.look_eq_some.mpr ⟨h.resolve, h.get⟩
  rw [World.unlinks, here]
  rfl

theorem Placed.undone {e : Errno} (h : Placed w0 destPath q copied w) :
    Ended w0 srcPath destPath (.error e) (w.after (.unlink destPath) (.ok ()), false) := by
  have left : w.after (.unlink destPath) (.ok ()) = w.remove (some q) := by
    rw [World.after, h.unlinks]
  have plain : w.tree.get q ≠ some .directory := by
    rw [h.get]
    simp
  have unlinked : ¬ w.tree.Links q := by
    rintro ⟨target, link⟩
    rw [h.get] at link
    cases link
  have proper := h.room.proper
  have volume : (w.remove (some q)).toVolume = w.drop q := rfl
  have restored : ∀ x, (w.remove (some q)).seen x = w0.seen x := by
    intro x
    rw [volume, Volume.seen_drop proper (.inl plain), h.seen]
    split
    · rename_i here
      rw [here]
      exact (Volume.seen_eq_none.mpr h.room.absent).symm
    · rfl
  have gone : (w.remove (some q)).bytes destPath = none := by
    unfold World.bytes World.look
    rcases World.resolve_remove proper plain unlinked h.resolve with led | led
    · rw [led]
      have empty : (w.remove (some q)).tree.get q = none := by
        rw [volume, Volume.get_drop proper plain, if_pos rfl]
      simp [empty]
    · rw [led]
  rw [left]
  refine .inl ⟨rfl, ⟨⟨fun done => (by cases done), ?_⟩, fun _ => restored, fun x _ => restored x⟩⟩
  rintro ⟨-, held, same⟩
  rw [← same, gone] at held
  exact absurd rfl held

section opening

variable {p : Place FileName}

theorem exists_ino {st : Stat} (told : (w0.install srcFd p .rdonly).Answers (.fstat srcFd) (.ok st))
    (regular : st.kind = .regular) : ∃ ino, w0.tree.get p = some (.file ino) := by
  have tells := (World.holds_iff (Function.update_self srcFd _ w0.fds)).mp told
  unfold World.Tells at tells
  dsimp only at tells
  split at tells
  · rename_i ino same
    exact ⟨ino, World.inoAt_eq_some.mp same⟩
  · exact absurd regular tells

theorem Copying.start (there : w0.tree.get p = some (.file ino))
    (led : w0.resolve false destPath = .ok q) (room : w0.Room q)
    (unused : (w0.install srcFd p .rdonly).Unused destFd) :
    Copying w0 destPath q srcFd destFd ino 0 []
      (((w0.install srcFd p .rdonly).withVolume (w0.add q .regular 0o600)).install destFd q .wronly) := by
  have apart : srcFd ≠ destFd := by
    rintro rfl
    have taken := unused.2
    rw [World.install_fds, Function.update_self] at taken
    cases taken
  have created : (w0.add q .regular 0o600).tree.get q = some (.file w0.fresh) := by
    rw [Volume.get_add room, Function.update_self]
    rfl
  refine ⟨⟨led, room, ?_, rfl⟩, w0.used there, ?_, ?_, apart⟩
  · exact (Volume.setFile_eq_self (Volume.add_file room)).symm
  · rw [World.install_fds, Function.update_of_ne apart, World.withVolume_fds, World.install_fds,
      Function.update_self, World.inoAt_file there]
  · rw [World.install_fds, Function.update_self, World.inoAt_file created]
    rfl

end opening

theorem wp_release {α : Type} {fd offset len : Int} {k : SysResult Unit → Sys α}
    {Q : α → World × Bool → Prop} {refused : Bool}
    (h : ∀ w', w'.toVolume = w.toVolume → w'.cwd = w.cwd → ∀ r, wp copying (k r) Q (w', refused)) :
    wp copying (releaseLock fd offset len >>= k) Q (w, refused) := by
  refine wp_file fun r _ _ => ?_
  have unseen : lockRefused refused (.file (.setlk fd .unlck offset len)) r = refused := by
    cases r <;> simp [lockRefused]
  rw [unseen]
  exact h _ rfl rfl r

theorem wp_close {α : Type} {fd : Int} {k : SysResult Unit → Sys α}
    {Q : α → World × Bool → Prop} {refused : Bool}
    (h : ∀ w', w'.toVolume = w.toVolume → w'.cwd = w.cwd → ∀ r, wp copying (k r) Q (w', refused)) :
    wp copying (fileCall (.close fd) >>= k) Q (w, refused) :=
  wp_file fun r _ _ => h (w.after (.close fd) r) rfl rfl r

theorem wp_executeTransferCopy (w0 : World) (srcPath destPath : CStr) :
    wp copying (executeTransferCopy srcPath destPath) (Ended w0 srcPath destPath) (w0, false) := by
  have untouched : ∀ {w : World} {e : Errno}, w.toVolume = w0.toVolume → w.cwd = w0.cwd →
      wp copying (pure (.error e)) (Ended w0 srcPath destPath) (w, false) :=
    ended_untouched
  refine wp_other (by simp) fun _ _ => wp_other (by simp) fun originalEuid _ => wp_other (by simp) ?_
  rintro (e | _) -
  · exact untouched rfl rfl
  refine wp_file ?_
  rintro (e | srcFd) opened -
  · refine wp_other (by simp) ?_
    rintro (e' | _) -
    · exact untouched rfl rfl
    · exact untouched rfl rfl
  obtain ⟨p, source⟩ := Option.ne_none_iff_exists'.mp opened.2
  obtain ⟨o, found⟩ := World.opens_existing rfl source
  obtain ⟨-, there⟩ := World.look_eq_some.mp found
  rw [World.after_open_existing source (by rw [there]; simp) rfl]
  refine wp_other (by simp) ?_
  rintro (e | _) -
  · exact wp_file fun _ _ _ => untouched rfl rfl
  refine wp_file ?_
  rintro (e | srcStat) told -
  · exact wp_file fun _ _ _ => untouched rfl rfl
  rw [wp_ite]
  refine ⟨fun _ => wp_file fun _ _ _ => untouched rfl rfl, fun regular => ?_⟩
  obtain ⟨ino, file⟩ := exists_ino told (not_ne_iff.mp regular)
  rw [file] at there
  cases there
  refine wp_file ?_
  rintro (e | destFd) created -
  · exact wp_file fun _ _ _ => untouched rfl rfl
  obtain ⟨q, dest⟩ := Option.ne_none_iff_exists'.mp created.2
  obtain ⟨led, room⟩ := World.opens_excl rfl rfl dest
  rw [World.after_open_new dest room.absent]
  have start := Copying.start file led room created.1
  -- from here on an error leaves what was created, unless it is removed
  have placed : ∀ {w : World} {e : Errno}, w.toVolume = w0.add q .regular 0o600 → w.cwd = w0.cwd →
      wp copying (pure (.error e)) (Ended w0 srcPath destPath) (w, true) := by
    intro w e volume cwd
    exact .inr ⟨rfl, e, q, rfl, start.toPlaced.keeps volume cwd⟩
  refine wp_file ?_
  rintro (e | _) - -
  · exact wp_close fun _ same dir _ => wp_close fun _ same' dir' _ =>
      placed (same'.trans same) (dir'.trans dir)
  refine wp_file ?_
  rintro (e | _) - -
  · exact wp_release fun _ same dir _ => wp_close fun _ same' dir' _ => wp_close fun _ same'' dir'' _ =>
      placed (same''.trans (same'.trans same)) (dir''.trans (dir'.trans dir))
  refine wp_bind.mpr (wp_mono (wp_copyLoop ⟨rfl, 0, [], start, Nat.zero_le _, rfl⟩) ?_)
  rintro copied ⟨w, refused⟩ ⟨rfl, bytes, left, whole⟩
  refine wp_release fun _ volume1 dir1 _ => wp_release fun _ volume2 dir2 _ =>
    wp_close fun _ volume3 dir3 _ => wp_close fun w' volume4 dir4 _ => ?_
  have ended : Placed w0 destPath q bytes w' := left.keeps
    (volume4.trans (volume3.trans (volume2.trans volume1))) (dir4.trans (dir3.trans (dir2.trans dir1)))
  cases copied with
  | error e =>
    refine wp_file fun r _ removed => ?_
    have done : r = .ok () := removed (by rw [ended.unlinks]; exact Option.some_ne_none _)
    rw [done]
    exact ended.undone
  | ok =>
    rw [whole rfl] at ended
    exact ended.ended found

end Copy

section copy

open Copy

variable {w w' : World} {srcPath destPath : CStr} {r : SysResult Unit} {refused : Bool}

/-- A copy is all or nothing just if no lock is refused in it. -/
theorem copy_all_or_nothing_iff
    (ended : Ends copying (executeTransferCopy srcPath destPath) (w, false) r (w', refused)) :
    AllOrNothing w w' srcPath destPath r ↔ refused = false := by
  rcases ended.of_wp (Copy.wp_executeTransferCopy w srcPath destPath) with ⟨same, whole⟩ | ⟨same, e, q, rfl, left⟩
  · exact ⟨fun _ => same, fun _ => whole⟩
  · refine ⟨fun whole => ?_, fun none => ?_⟩
    · have before := whole.unchanged (by simp) q
      rw [left.seen, if_pos rfl, Volume.seen_eq_none.mpr left.room.absent] at before
      cases before
    · cases same.symm.trans none

/-- Bob accepts Alice's file. -/
theorem copy_all_or_nothing_note : ∃ w', AllOrNothing aliceDisk w' (cstr "/srv/alice/note")
    (cstr "/srv/copy") (.ok ()) ∧ w'.bytes (cstr "/srv/copy") = some (cstr "data") := by
  have copies : (play copying (fun g => g.1.serves) 40
      (executeTransferCopy (cstr "/srv/alice/note") (cstr "/srv/copy")) (aliceDisk, false)).any
      (fun r => decide (r.1 = .ok () ∧ r.2.2 = false ∧
        r.2.1.bytes (cstr "/srv/copy") = some (cstr "data"))) = true := by
    decide +kernel
  obtain ⟨r, ⟨w', refused⟩, ended, rfl, rfl, bytes⟩ := exists_of_play 40
    (fun (r : SysResult Unit) (g : World × Bool) => r = .ok () ∧ g.2 = false ∧
      g.1.bytes (cstr "/srv/copy") = some (cstr "data")) copies
  exact ⟨w', (copy_all_or_nothing_iff ended).mpr rfl, bytes⟩

/-- The calls succeed that can, but another process holds the source locked. -/
def sourceLocked : World × Bool → (c : Call) → c.Reply
  | _, .file (.setlk _ .rdlck _ _) => .error EAGAIN
  | g, c => g.1.serves c

/-- Alice is just writing to the file: the read lock is refused, and an empty file stays behind. -/
theorem empty_copy_left : ¬ ∀ {w w' : World} {srcPath destPath : CStr} {r : SysResult Unit}
    {refused : Bool},
    Ends copying (executeTransferCopy srcPath destPath) (w, false) r (w', refused) →
      AllOrNothing w w' srcPath destPath r := by
  intro all
  let place : Place FileName := [⟨cstr "copy", by decide⟩, srv]
  have fails : (play copying sourceLocked 40
      (executeTransferCopy (cstr "/srv/alice/note") (cstr "/srv/copy")) (aliceDisk, false)).any
      (fun r => decide (r.1 = .error EAGAIN ∧ r.2.1.seen place ≠ aliceDisk.seen place)) = true := by
    decide +kernel
  obtain ⟨r, ⟨w', refused⟩, ended, rfl, left⟩ := exists_of_play 40
    (fun (r : SysResult Unit) (g : World × Bool) => r = .error EAGAIN ∧
      g.1.seen place ≠ aliceDisk.seen place) fails
  exact left ((all ended).unchanged (by simp) place)

end copy

end Csap
