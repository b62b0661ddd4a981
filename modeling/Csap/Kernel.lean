import Csap.Disk
import Csap.Interleaving
import Csap.RecordLocks

/-! The processes of the server share a file system. Each has descriptors and a working directory
of its own; record locks belong to a process and a file, and go with any descriptor of that file. -/

namespace Csap

open FileTree RecordLocks

namespace World

variable {w : World} {c : FileCall} {r : c.Reply} {fd : Int} {ino : Nat}

def opened : (c : FileCall) → c.Reply → Option Int
  | .openPath _ _ _, .ok fd => some fd
  | .mkstemp _, (.ok fd, _) => some fd
  | _, _ => none

theorem changeFile_fds {change : Opened → File → File} : (w.changeFile fd change).fds = w.fds := by
  unfold changeFile
  split <;> rfl

theorem changeFile_fresh {change : Opened → File → File} :
    (w.changeFile fd change).fresh = w.fresh := by
  unfold changeFile
  split <;> rfl

theorem changeFile_files {change : Opened → File → File} (other : w.inoOf fd ≠ some ino) :
    (w.changeFile fd change).files ino = w.files ino := by
  unfold changeFile
  split
  · rename_i here pos access found
    rw [withVolume_toVolume]
    apply Volume.setFile_files_of_ne
    rintro rfl
    exact other (inoOf_eq found)
  · rfl

/-- What a descriptor is open on, if it is open: the number of a file, or something else. -/
def target (w : World) (fd : Int) : Option (Option Nat) := (w.fds fd).map Opened.ino

theorem inoOf_eq_join : w.inoOf fd = (w.target fd).join := by
  unfold inoOf target
  cases w.fds fd <;> rfl

theorem target_eq_none : w.target fd = none ↔ w.fds fd = none := Option.map_eq_none_iff

theorem setFd_target {opened : Option Opened} (x : Int) :
    (w.setFd fd opened).target x = if x = fd then opened.map Opened.ino else w.target x := by
  unfold target
  rw [setFd_fds]
  by_cases here : x = fd
  · rw [here, Function.update_self, if_pos rfl]
  · rw [Function.update_of_ne here, if_neg here]

theorem seek_target {pos : Opened → Nat} (x : Int) : (w.seek fd pos).target x = w.target x := by
  unfold seek
  rw [setFd_target]
  split
  · rename_i here
    rw [here, Option.map_map]
    rfl
  · rfl

theorem changeFile_target {change : Opened → File → File} (x : Int) :
    (w.changeFile fd change).target x = w.target x := by
  rw [target, changeFile_fds, target]

theorem install_target {q : Place FileName} {access : Access} (x : Int) :
    (w.install fd q access).target x = if x = fd then some (w.inoAt q) else w.target x :=
  setFd_target x

theorem remove_target (q : Option (Place FileName)) (x : Int) : (w.remove q).target x = w.target x := by
  cases q <;> rfl

theorem make_target {path : CStr} {kind : FileKind} {mode : Nat} (x : Int) :
    (w.make path kind mode).target x = w.target x := by
  unfold make
  split <;> rfl

theorem target_after (x : Int) (made : opened c r ≠ some x) (kept : c ≠ .close x) :
    (w.after c r).target x = w.target x := by
  cases c with
  | openPath path flags mode =>
    cases r with
    | error e => rfl
    | ok fd =>
      have other : x ≠ fd := fun same => made (congrArg some same.symm)
      simp only [after]
      split
      · rfl
      · split
        · rw [install_target, if_neg other]
          rfl
        · split
          · rw [changeFile_target, install_target, if_neg other]
          · rw [install_target, if_neg other]
  | mkstemp template =>
    obtain ⟨e | fd, name⟩ := r
    · rfl
    · have other : x ≠ fd := fun same => made (congrArg some same.symm)
      simp only [after]
      split
      · rw [install_target, if_neg other]
        rfl
      · rfl
  | close fd =>
    have other : x ≠ fd := by
      rintro rfl
      exact kept rfl
    simp only [after]
    rw [setFd_target, if_neg other]
  | lseek fd offset =>
    cases r with
    | error e => rfl
    | ok pos => exact seek_target x
  | read fd count =>
    cases r with
    | error e => rfl
    | ok data => exact seek_target x
  | write fd data =>
    cases r with
    | error e => rfl
    | ok written =>
      simp only [after]
      rw [seek_target, changeFile_target]
  | fchmod fd mode =>
    cases r with
    | error e => rfl
    | ok done => exact changeFile_target x
  | rename old new =>
    cases r with
    | error e => rfl
    | ok done =>
      simp only [after]
      split
      · unfold rename
        split <;> rfl
      · rfl
  | unlink path =>
    cases r with
    | error e => rfl
    | ok done => exact remove_target _ x
  | rmdir path =>
    cases r with
    | error e => rfl
    | ok done => exact remove_target _ x
  | mkdir path mode =>
    cases r with
    | error e => rfl
    | ok done => exact make_target x
  | mkfifo path mode =>
    cases r with
    | error e => rfl
    | ok done => exact make_target x
  | chmod path mode =>
    cases r with
    | error e => rfl
    | ok done =>
      simp only [after]
      split <;> rfl
  | chdir path =>
    cases r with
    | error e => rfl
    | ok done =>
      simp only [after]
      split <;> rfl
  | _ => rfl

theorem inoOf_after (x : Int) (made : opened c r ≠ some x) (kept : c ≠ .close x) :
    (w.after c r).inoOf x = w.inoOf x := by
  rw [inoOf_eq_join, inoOf_eq_join, target_after x made kept]

theorem fresh_add (q : Place FileName) (kind : FileKind) (mode : Nat) :
    w.fresh ≤ (w.add q kind mode).fresh := by
  by_cases room : w.Room q
  · rw [Volume.add_fresh room]
    exact Nat.le_succ _
  · cases q with
    | nil => exact le_refl _
    | cons n p =>
      have full : ¬ (w.tree.get p = some .directory ∧ w.tree.get (n :: p) = none ∧
          n.1.length ≤ NAME_MAX) := room
      rw [Volume.add, dif_neg full]

theorem fresh_drop (q : Place FileName) : (w.drop q).fresh = w.fresh ∧ (w.drop q).files = w.files := by
  unfold Volume.drop
  split <;> exact ⟨rfl, rfl⟩

theorem fresh_relocate (p q : Place FileName) :
    (w.relocate p q).fresh = w.fresh ∧ (w.relocate p q).files = w.files := by
  unfold Volume.relocate
  split <;> exact ⟨rfl, rfl⟩

theorem rename_files (p q : Place FileName) :
    (w.rename p q).fresh = w.fresh ∧ (w.rename p q).files = w.files := by
  unfold rename
  split
  · exact ⟨rfl, rfl⟩
  · exact fresh_relocate p q

theorem remove_files (q : Option (Place FileName)) :
    (w.remove q).fresh = w.fresh ∧ (w.remove q).files = w.files := by
  cases q with
  | none => exact ⟨rfl, rfl⟩
  | some q => exact fresh_drop q

theorem make_files {path : CStr} {kind : FileKind} {mode : Nat} :
    w.fresh ≤ (w.make path kind mode).fresh ∧
      ∀ ino < w.fresh, (w.make path kind mode).files ino = w.files ino := by
  unfold make
  split
  · exact ⟨fresh_add _ _ _, fun ino old => Volume.add_files old.ne⟩
  · exact ⟨le_refl _, fun _ _ => rfl⟩

theorem setMode_content (ino : Nat) (q : Place FileName) (mode : Nat) :
    (w.setMode q mode).fresh = w.fresh ∧
    ((w.setMode q mode).files ino).content = (w.files ino).content := by
  unfold Volume.setMode
  split
  · rename_i here found
    refine ⟨rfl, ?_⟩
    by_cases same : ino = here
    · rw [same, Volume.setFile_self]
    · rw [Volume.setFile_files_of_ne same]
  · exact ⟨rfl, rfl⟩

theorem fresh_after : w.fresh ≤ (w.after c r).fresh := by
  cases c with
  | openPath path flags mode =>
    cases r with
    | error e => exact le_refl _
    | ok fd =>
      simp only [after]
      split
      · exact le_refl _
      · split
        · exact fresh_add _ _ _
        · split
          · rw [changeFile_fresh]
            exact le_refl _
          · exact le_refl _
  | mkstemp template =>
    obtain ⟨e | fd, name⟩ := r
    · exact le_refl _
    · simp only [after]
      split
      · exact fresh_add _ _ _
      · exact le_refl _
  | lseek fd offset => cases r <;> exact le_refl _
  | read fd count => cases r <;> exact le_refl _
  | write fd data =>
    cases r with
    | error e => exact le_refl _
    | ok written => exact changeFile_fresh.ge
  | fchmod fd mode =>
    cases r with
    | error e => exact le_refl _
    | ok done => exact changeFile_fresh.ge
  | rename old new =>
    cases r with
    | error e => exact le_refl _
    | ok done =>
      simp only [after]
      split
      · exact (rename_files _ _).1.ge
      · exact le_refl _
  | unlink path =>
    cases r with
    | error e => exact le_refl _
    | ok done => exact (remove_files _).1.ge
  | rmdir path =>
    cases r with
    | error e => exact le_refl _
    | ok done => exact (remove_files _).1.ge
  | mkdir path mode =>
    cases r with
    | error e => exact le_refl _
    | ok done => exact make_files.1
  | mkfifo path mode =>
    cases r with
    | error e => exact le_refl _
    | ok done => exact make_files.1
  | chmod path mode =>
    cases r with
    | error e => exact le_refl _
    | ok done =>
      simp only [after]
      split
      · exact (setMode_content 0 _ _).1.ge
      · exact le_refl _
  | chdir path =>
    cases r with
    | error e => exact le_refl _
    | ok done =>
      simp only [after]
      split <;> exact le_refl _
  | _ => exact le_refl _

theorem content_after (old : ino < w.fresh)
    (unwritten : ∀ fd data, c = .write fd data → w.inoOf fd ≠ some ino)
    (kept : ∀ path flags mode, c = .openPath path flags mode → flags.trunc = false) :
    ((w.after c r).files ino).content = (w.files ino).content := by
  cases c with
  | openPath path flags mode =>
    cases r with
    | error e => rfl
    | ok fd =>
      simp only [after, kept path flags mode rfl]
      split
      · rfl
      · split
        · rw [install_toVolume, withVolume_toVolume, Volume.add_files old.ne]
        · rfl
  | mkstemp template =>
    obtain ⟨e | fd, name⟩ := r
    · rfl
    · simp only [after]
      split
      · rw [install_toVolume, withVolume_toVolume, Volume.add_files old.ne]
      · rfl
  | lseek fd offset => cases r <;> rfl
  | read fd count => cases r <;> rfl
  | write fd data =>
    cases r with
    | error e => rfl
    | ok written =>
      have same : (w.changeFile fd fun opened file =>
          { file with content := overwrite file.content opened.pos (data.take written) }).files ino =
            w.files ino :=
        changeFile_files (unwritten fd data rfl)
      exact congrArg File.content same
  | fchmod fd mode =>
    cases r with
    | error e => rfl
    | ok done =>
      simp only [after, changeFile]
      split
      · rename_i here pos access found
        rw [withVolume_toVolume]
        by_cases same : ino = here
        · rw [same, Volume.setFile_self]
        · rw [Volume.setFile_files_of_ne same]
      · rfl
  | rename old' new =>
    cases r with
    | error e => rfl
    | ok done =>
      simp only [after]
      split
      · rw [(rename_files _ _).2]
      · rfl
  | unlink path =>
    cases r with
    | error e => rfl
    | ok done => simp only [after, (remove_files _).2]
  | rmdir path =>
    cases r with
    | error e => rfl
    | ok done => simp only [after, (remove_files _).2]
  | mkdir path mode =>
    cases r with
    | error e => rfl
    | ok done => simp only [after, make_files.2 ino old]
  | mkfifo path mode =>
    cases r with
    | error e => rfl
    | ok done => simp only [after, make_files.2 ino old]
  | chmod path mode =>
    cases r with
    | error e => rfl
    | ok done =>
      simp only [after]
      split
      · exact (setMode_content _ _ _).2
      · rfl
  | chdir path =>
    cases r with
    | error e => rfl
    | ok done =>
      simp only [after]
      split <;> rfl
  | _ => rfl

theorem inoAt_add {q : Place FileName} {mode : Nat} (room : w.Room q) :
    (w.withVolume (w.add q .regular mode)).inoAt q = some w.fresh := by
  rw [inoAt_eq_some, withVolume_toVolume, Volume.get_add room, Function.update_self]
  rfl

theorem target_open {path : CStr} {flags : OpenFlags} {mode : Nat} {q : Place FileName}
    (opens : w.opens path flags = some q) :
    (w.after (.openPath path flags mode) (.ok fd)).target fd =
      some (if w.tree.get q = none then some w.fresh else w.inoAt q) := by
  simp only [after, opens]
  by_cases absent : w.tree.get q = none
  · rw [if_pos absent, if_pos absent, install_target, if_pos rfl]
    obtain ⟨-, ⟨-, -, room⟩ | ⟨o, found, -⟩⟩ := opens_cases opens
    · exact congrArg some (inoAt_add room)
    · rw [absent] at found
      cases found
  · rw [if_neg absent, if_neg absent]
    split
    · rw [changeFile_target, install_target, if_pos rfl]
    · rw [install_target, if_pos rfl]

theorem inoOf_open {path : CStr} {flags : OpenFlags} {mode : Nat} {q : Place FileName}
    (opens : w.opens path flags = some q) :
    (w.after (.openPath path flags mode) (.ok fd)).inoOf fd =
      if w.tree.get q = none then some w.fresh else w.inoAt q := by
  rw [inoOf_eq_join, target_open opens]
  rfl

theorem target_mkstemp {template name : CStr}
    (answered : w.Answers (.mkstemp template) (.ok fd, name)) :
    (w.after (.mkstemp template) (.ok fd, name)).target fd = some (some w.fresh) := by
  obtain ⟨-, -, may⟩ := answered
  obtain ⟨q, free⟩ := Option.ne_none_iff_exists'.mp may
  simp only [after, free]
  rw [install_target, if_pos rfl]
  exact congrArg some (inoAt_add (free_eq_some.mp free).2)

theorem inoOf_mkstemp {template name : CStr}
    (answered : w.Answers (.mkstemp template) (.ok fd, name)) :
    (w.after (.mkstemp template) (.ok fd, name)).inoOf fd = some w.fresh := by
  rw [inoOf_eq_join, target_mkstemp answered]
  rfl

theorem unused_opened (answered : w.Answers c r) (made : opened c r = some fd) : w.fds fd = none := by
  cases c with
  | openPath path flags mode =>
    cases r with
    | error e => cases made
    | ok x =>
      cases made
      exact answered.1.2
  | mkstemp template =>
    obtain ⟨e | x, name⟩ := r
    · cases made
    · cases made
      exact answered.1.2
  | _ => cases made

theorem target_opened (answered : w.Answers c r) (made : opened c r = some fd) :
    (w.after c r).target fd ≠ none := by
  cases c with
  | openPath path flags mode =>
    cases r with
    | error e => cases made
    | ok x =>
      cases made
      obtain ⟨q, opens⟩ := Option.ne_none_iff_exists'.mp answered.2
      rw [target_open opens]
      exact Option.some_ne_none _
  | mkstemp template =>
    obtain ⟨e | x, name⟩ := r
    · cases made
    · cases made
      rw [target_mkstemp answered]
      exact Option.some_ne_none _
  | _ => cases made

theorem target_close {answer : SysResult Unit} : (w.after (.close fd) answer).target fd = none := by
  simp only [after]
  rw [setFd_target, if_pos rfl]
  rfl

theorem inoOf_opened (answered : w.Answers c r) (made : opened c r = some fd)
    (here : (w.after c r).inoOf fd = some ino) : ino < w.fresh ∨ ino = w.fresh ∧
      (w.after c r).fresh = w.fresh + 1 := by
  cases c with
  | openPath path flags mode =>
    cases r with
    | error e => cases made
    | ok x =>
      cases made
      obtain ⟨q, opens⟩ := Option.ne_none_iff_exists'.mp answered.2
      rw [inoOf_open opens] at here
      split_ifs at here with absent
      · cases here
        refine .inr ⟨rfl, ?_⟩
        rw [after_open_new opens absent]
        obtain ⟨-, ⟨-, -, room⟩ | ⟨o, found, -⟩⟩ := opens_cases opens
        · exact Volume.add_fresh room
        · rw [absent] at found
          cases found
      · exact .inl (w.used (inoAt_eq_some.mp here))
  | mkstemp template =>
    obtain ⟨e | x, name⟩ := r
    · cases made
    · cases made
      rw [inoOf_mkstemp answered] at here
      cases here
      obtain ⟨q, free⟩ := Option.ne_none_iff_exists'.mp answered.2.2
      refine .inr ⟨rfl, ?_⟩
      simp only [after, free]
      exact Volume.add_fresh (free_eq_some.mp free).2
  | _ => cases made

end World

namespace Kernel

structure State where
  volume : Volume
  cwd : Int → Option (Place FileName)
  fds : Int → Int → Option Opened
  locks : List (Record Int Nat)

def region (start len : Int) : Region := ⟨start, if len = 0 then none else some (start + len)⟩

namespace State

variable (s : State) (pid : Int)

def view : World := { toVolume := s.volume, cwd := s.cwd pid, fds := s.fds pid }

/-- The number of the file that a descriptor of the process is open on. -/
def inoOf (fd : Int) : Option Nat := (s.view pid).inoOf fd

/-- A lock of a regular file is refused if another process has one it does not go with. -/
def mayLock : (c : FileCall) → c.Reply → Bool
  | .setlk fd .rdlck start len, .ok () =>
    decide (∀ ino ∈ s.inoOf pid fd, Grants s.locks ⟨pid, ino, false, region start len⟩)
  | .setlk fd .wrlck start len, .ok () =>
    decide (∀ ino ∈ s.inoOf pid fd, Grants s.locks ⟨pid, ino, true, region start len⟩)
  | _, _ => true

/-- A process that closes a descriptor loses all its locks on the file. -/
def locking : (c : FileCall) → c.Reply → List (Record Int Nat)
  | .setlk fd .rdlck start len, .ok () =>
    (s.inoOf pid fd).elim s.locks fun ino => acquire s.locks ⟨pid, ino, false, region start len⟩
  | .setlk fd .wrlck start len, .ok () =>
    (s.inoOf pid fd).elim s.locks fun ino => acquire s.locks ⟨pid, ino, true, region start len⟩
  | .setlk fd .unlck start len, .ok () =>
    (s.inoOf pid fd).elim s.locks fun ino => release s.locks pid ino (region start len)
  | .close fd, _ => (s.inoOf pid fd).elim s.locks fun ino => abandon s.locks pid ino
  | _, _ => s.locks

/-- A working directory goes where it is moved, and may be removed, whoever does it. -/
def carried : (c : FileCall) → c.Reply → Int → Option (Place FileName)
  | .rename old new, .ok (), other =>
    ((s.view pid).renames old new).elim (s.cwd other) fun places =>
      ((s.view other).rename places.1 places.2).cwd
  | .rmdir path, .ok (), other => ((s.view other).remove ((s.view pid).rmdirs path)).cwd
  | _, _, other => s.cwd other

/-- May the kernel answer so? Only what it says of files is looked at. -/
def answers : (c : Call) → c.Reply → Bool
  | .file c, r => decide ((s.view pid).Answers c r) && s.mayLock pid c r
  | _, _ => true

def next : (c : Call) → c.Reply → State
  | .file c, r =>
    { volume := ((s.view pid).after c r).toVolume
      cwd := Function.update (s.carried pid c r) pid ((s.view pid).after c r).cwd
      fds := Function.update s.fds pid ((s.view pid).after c r).fds
      locks := s.locking pid c r }
  | _, _ => s

end State

/-- What the kernel chooses to answer, seeing what the process sees. -/
abbrev Choice := World → (c : Call) → c.Reply

def machine : Interleaving.Machine Call.Reply Int State Choice := fun pid c choice s =>
  if s.answers pid c (choice (s.view pid) c) then
    some (choice (s.view pid) c, s.next pid c (choice (s.view pid) c))
  else none

section steps

variable {s s' : State} {pid other : Int} {c : Call} {r : c.Reply} {choice : Choice} {fd : Int}
  {ino : Nat}

theorem machine_eq_some (h : machine pid c choice s = some (r, s')) :
    s.answers pid c r = true ∧ s' = s.next pid c r := by
  unfold machine at h
  split at h
  · rename_i answers
    cases h
    exact ⟨answers, rfl⟩
  · cases h

theorem next_inoOf (apart : other ≠ pid) (fd : Int) :
    (s.next pid c r).inoOf other fd = s.inoOf other fd := by
  cases c with
  | file c =>
    unfold State.inoOf World.inoOf
    change (Function.update s.fds pid _ other fd).bind _ = _
    rw [Function.update_of_ne apart]
    rfl
  | _ => rfl

theorem next_inoOf_self {c : FileCall} {r : c.Reply} (fd : Int) :
    (s.next pid (.file c) r).inoOf pid fd = ((s.view pid).after c r).inoOf fd := by
  unfold State.inoOf World.inoOf
  change (Function.update s.fds pid _ pid fd).bind _ = _
  rw [Function.update_self]

/-- What holds of every state: the locks go together, and files that are open have their numbers. -/
structure Sane (s : State) : Prop where
  sound : Sound s.locks
  used : ∀ pid fd ino, s.inoOf pid fd = some ino → ino < s.volume.fresh

theorem sound_locking {c : FileCall} {r : c.Reply} (sound : Sound s.locks) (may : s.mayLock pid c r = true) :
    Sound (s.locking pid c r) := by
  cases c with
  | setlk fd type start len =>
    cases r with
    | error e => cases type <;> exact sound
    | ok done =>
      cases type with
      | rdlck =>
        cases here : s.inoOf pid fd with
        | none => simpa only [State.locking, here, Option.elim_none] using sound
        | some ino =>
          simp only [State.locking, here, Option.elim_some]
          exact sound_acquire sound (of_decide_eq_true may ino here)
      | wrlck =>
        cases here : s.inoOf pid fd with
        | none => simpa only [State.locking, here, Option.elim_none] using sound
        | some ino =>
          simp only [State.locking, here, Option.elim_some]
          exact sound_acquire sound (of_decide_eq_true may ino here)
      | unlck =>
        cases here : s.inoOf pid fd with
        | none => simpa only [State.locking, here, Option.elim_none] using sound
        | some ino =>
          simp only [State.locking, here, Option.elim_some]
          exact sound_release sound
  | close fd =>
    cases here : s.inoOf pid fd with
    | none => simpa only [State.locking, here, Option.elim_none] using sound
    | some ino =>
      simp only [State.locking, here, Option.elim_some]
      exact sound_abandon sound
  | _ => exact sound

theorem answers_file {c : FileCall} {r : c.Reply} (answered : s.answers pid (.file c) r = true) :
    (s.view pid).Answers c r ∧ s.mayLock pid c r = true := by
  obtain ⟨told, may⟩ := Bool.and_eq_true_iff.mp answered
  exact ⟨of_decide_eq_true told, may⟩

theorem Sane.next (sane : Sane s) (answered : s.answers pid c r = true) : Sane (s.next pid c r) := by
  cases c with
  | file c =>
    obtain ⟨told, may⟩ := answers_file answered
    refine ⟨sound_locking sane.sound may, ?_⟩
    intro other fd ino here
    have grows : s.volume.fresh ≤ (s.next pid (.file c) r).volume.fresh :=
      World.fresh_after (w := s.view pid)
    by_cases apart : other = pid
    · subst apart
      rw [next_inoOf_self] at here
      by_cases made : World.opened c r = some fd
      · rcases World.inoOf_opened told made here with old | ⟨rfl, longer⟩
        · exact lt_of_lt_of_le old grows
        · exact (Nat.lt_succ_self _).trans_eq longer.symm
      · by_cases closed : c = .close fd
        · subst closed
          rw [World.inoOf_eq_join, World.target_close] at here
          cases here
        · rw [World.inoOf_after fd made closed] at here
          exact lt_of_lt_of_le (sane.used other fd ino here) grows
    · rw [next_inoOf apart] at here
      exact lt_of_lt_of_le (sane.used other fd ino here) grows
  | _ => exact sane

/-- The processes begin with nothing open. -/
def boot (volume : Volume) (cwd : Int → Option (Place FileName)) : State where
  volume := volume
  cwd := cwd
  fds := fun _ _ => none
  locks := []

theorem boot_sane (volume : Volume) (cwd : Int → Option (Place FileName)) : Sane (boot volume cwd) := by
  refine ⟨sound_nil, ?_⟩
  intro pid fd ino here
  cases here

end steps

end Kernel

end Csap
