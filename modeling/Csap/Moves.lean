import Csap.CheckedPaths
import Csap.Headers

/-! `move`, on a file system whose calls may fail. -/

namespace Csap

open FileTree Prog

/-- Where a source goes: a file goes into a directory, under its own name. -/
def moveDestination (w : World) (fullSrcPath fullDestPath : CStr) : CStr :=
  if (w.look true fullDestPath).map Prod.snd = some .directory ∧
      ((w.look true fullSrcPath).bind fun found => w.inoAt found.1).isSome then
    fullDestPath ++ cstr "/" ++ basename fullSrcPath
  else fullDestPath

/-- A refused move has changed nothing, and after any other the source is at its destination, with
all that lies in it. -/
structure MovedOrNot (session : Session) (payload : Option CStr) (w w' : World)
    (answer : Option UInt8) : Prop where
  refused : answer = some RSP_ERR → ∀ x, w'.seen x = w.seen x
  moved : answer = some RSP_OK → ∃ command fullSrcPath fullDestPath p q,
    payload.map parseLine = some (.ok command) ∧
    Checked w command.buf session.homePath fullSrcPath ∧
    Checked w command.buf2 session.homePath fullDestPath ∧
    (w.look false fullSrcPath).map Prod.fst = some p ∧
    w.resolve false (moveDestination w fullSrcPath fullDestPath) = .ok q ∧
    ∀ rest, w'.seen (rest ++ q) = w.seen (rest ++ p)

section renames

variable {w : World} {old new : CStr} {p q d : Place FileName}

theorem renamed_seen (renames : w.renames old new = some (p, q)) (rest : List FileName) :
    (w.after (.rename old new) (.ok ())).seen (rest ++ q) = w.seen (rest ++ p) := by
  obtain ⟨o, found, -, may⟩ := World.renames_cases renames
  obtain ⟨-, there⟩ := World.look_eq_some.mp found
  have left : w.after (.rename old new) (.ok ()) = w.rename p q := by rw [World.after, renames]
  rw [left, World.rename]
  split
  · rename_i same
    obtain ⟨o', there', rfl | ⟨here, ino, rfl⟩⟩ := same
    · rfl
    · -- two names of one file, below which nothing lies
      cases rest with
      | nil => rw [List.nil_append, List.nil_append, Volume.seen_file here, Volume.seen_file there']
      | cons n rest =>
        have nothing : ∀ x, w.tree.get x = some (.file ino) → w.seen (n :: rest ++ x) = none := by
          intro x file
          rw [Volume.seen_eq_none]
          by_contra some
          obtain ⟨o, some⟩ := Option.ne_none_iff_exists'.mp some
          rw [Hierarchy.ancestor some (List.cons_ne_nil n rest)] at file
          cases file
        rw [nothing q here, nothing p there']
  · rename_i distinct
    have movable := (may.resolve_left fun same => distinct ⟨o, there, same⟩).1
    change (w.relocate p q).seen (rest ++ q) = _
    rw [Volume.relocate_seen movable, Hierarchy.below_eq_some.mpr rfl]

theorem renames_directory {ino : Nat} (source : w.look false old = some (p, .file ino))
    (dest : w.look false new = some (d, .directory)) : w.renames old new = none := by
  obtain ⟨led, dir⟩ := World.look_eq_some.mp dest
  obtain ⟨-, file⟩ := World.look_eq_some.mp source
  by_contra some
  obtain ⟨⟨p', q⟩, renames⟩ := Option.ne_none_iff_exists'.mp some
  obtain ⟨o, found, led', (rfl | ⟨same, -⟩) | ⟨-, yields⟩⟩ := World.renames_cases renames
  all_goals
    rw [source] at found
    cases found
    rw [led] at led'
    cases led'
  · rw [file] at dir
    cases dir
  · rw [dir] at same
    cases same
  · unfold World.Yields at yields
    rw [dir] at yields
    cases yields.1

end renames

namespace Move

/-- The last answer; whether a file was created in the destination directory, and whether a lock or
the rename was refused after that. -/
structure Notes where
  answer : Option UInt8 := none
  created : Bool := false
  stranded : Bool := false
deriving DecidableEq

def see (notes : Notes) : (c : Call) → c.Reply → Notes
  | .socket (.sendPacket command _), _ => { notes with answer := some command }
  | .file (.openPath _ flags _), .ok _ => { notes with created := notes.created || flags.creat }
  | .file (.setlk _ type _ _), .error _ =>
    { notes with stranded := notes.stranded || (notes.created && type ≠ .unlck) }
  | .file (.rename _ _), .error _ => { notes with stranded := notes.stranded || notes.created }
  | _, _ => notes

/-- There is memory, and an error number is an `int`. -/
def Ordinary (_ : World) : (c : Call) → c.Reply → Prop
  | .alloc _, r => r = true
  | .file (.setlk _ _ _ _), .error e => e.code < 2 ^ 31
  | .file (.rename _ _), .error e => e.code < 2 ^ 31
  | _, _ => True

/-- `Ordinary`, as a test. -/
def ordinary : (c : Call) → c.Reply → Bool
  | .alloc _, r => r
  | .file (.setlk _ _ _ _), .error e => e.code < 2 ^ 31
  | .file (.rename _ _), .error e => e.code < 2 ^ 31
  | _, _ => true

theorem ordinary_iff (w : World) (c : Call) (r : c.Reply) : ordinary c r = true ↔ Ordinary w c r := by
  unfold ordinary Ordinary
  split <;> simp

instance (w : World) (c : Call) (r : c.Reply) : Decidable (Ordinary w c r) :=
  decidable_of_iff (ordinary c r = true) (ordinary_iff w c r)

def moving : Typestate Call.Reply (World × Notes) := (posix.assuming Ordinary).watching see

instance (g : World × Notes) (c : Call) (r : c.Reply) : Decidable (moving.expects g c r) :=
  inferInstanceAs (Decidable (((posix.assuming Ordinary).watching see).expects g c r))

section calls

variable {α : Type} {w : World} {notes : Notes} {Q : α → World × Notes → Prop}

/-- Only the answer has changed, to this one if it is not too long. -/
def Noted (w : World) (notes : Notes) (command : UInt8) (payload : CStr) (g : World × Notes) : Prop :=
  g.1 = w ∧ ∃ answer, g.2 = { notes with answer } ∧ (answer = some command ∨
    ¬ payload.length ≤ Network.MAX_PAYLOAD_SIZE ∧ answer = notes.answer)

theorem wp_sendPacket (command : UInt8) (payload : CStr) :
    wp moving (sendPacket command payload) (fun _ => Noted w notes command payload) (w, notes) := by
  unfold sendPacket
  rw [wp_ite]
  refine ⟨fun long => ⟨rfl, _, rfl, .inr ⟨not_le.mpr long, rfl⟩⟩, fun _ => ?_⟩
  exact wp_perform.mpr ⟨trivial, fun r _ => ⟨rfl, _, rfl, .inl rfl⟩⟩

theorem wp_sendErr (err : Int) (reason : CStr) : wp moving (sendErr err reason)
    (fun _ => Noted w notes RSP_ERR (errPayload err reason)) (w, notes) := by
  refine wp_other (by simp) ?_
  rintro allocated rfl
  exact wp_sendPacket RSP_ERR (errPayload err reason)

theorem wp_failWith (err : Errno) (reason : CStr) : wp moving (failWith err reason)
    (fun _ => Noted w notes RSP_ERR (errPayload err.code reason)) (w, notes) :=
  wp_bind.mpr (wp_sendErr err.code reason)

theorem wp_succeedWith (reason : CStr) : wp moving (succeedWith reason)
    (fun _ => Noted w notes RSP_OK reason) (w, notes) :=
  wp_bind.mpr (wp_sendPacket RSP_OK reason)

theorem wp_unlock (fd : Int) : wp moving (unlockAndClose fd)
    (fun _ g => Alike w g.1 ∧ g.2 = notes) (w, notes) := by
  unfold unlockAndClose
  rw [wp_when]
  refine ⟨fun _ => ?_, fun _ => ⟨.refl w, rfl⟩⟩
  refine wp_file fun r _ _ => ?_
  have quiet : see notes (.file (.setlk fd .unlck 0 0)) r = notes := by
    cases r <;> simp [see]
  rw [quiet]
  exact wp_file fun r _ _ => ⟨⟨rfl, rfl⟩, rfl⟩

/-- Nothing has happened to the files, and nothing good was answered. -/
def Kept (w0 : World) (g : World × Notes) : Prop :=
  Alike w0 g.1 ∧ g.2.stranded = false ∧ g.2.answer ≠ some RSP_OK

variable {w0 : World}

theorem Noted.kept {payload : CStr} {g : World × Notes} (kept : Kept w0 (w, notes))
    (h : Noted w notes RSP_ERR payload g) : Kept w0 g := by
  obtain ⟨alike, fine, answer⟩ := kept
  obtain ⟨w', notes'⟩ := g
  obtain ⟨rfl, answer', rfl, rfl | ⟨-, rfl⟩⟩ := h
  · exact ⟨alike, fine, by simp [RSP_ERR, RSP_OK]⟩
  · exact ⟨alike, fine, answer⟩

theorem wp_cmdParse {payload : Option CStr} {k : Option Cmd → Sys α} (kept : Kept w0 (w, notes))
    (refused : ∀ g, Kept w0 g → wp moving (k none) Q g)
    (parsed : ∀ command, payload.map parseLine = some (.ok command) →
      wp moving (k (some command)) Q (w, notes)) :
    wp moving (cmdParse payload >>= k) Q (w, notes) := by
  refine wp_bind.mpr (wp_bind.mpr ?_)
  unfold parseCommand
  cases payload with
  | none => exact wp_bind.mpr (wp_mono (wp_failWith _ _) fun _ g noted => refused g (noted.kept kept))
  | some line =>
    refine wp_other (by simp) ?_
    rintro copied rfl
    change wp moving (pure (parseLine line)) _ (w, notes)
    cases read : parseLine line with
    | error msg => exact wp_bind.mpr (wp_mono (wp_failWith _ _) fun _ g noted => refused g (noted.kept kept))
    | ok command => exact parsed command (by rw [Option.map_some, read])

theorem wp_cmdResolve {path root : CStr} {k : Option CStr → Sys α} (kept : Kept w0 (w, notes))
    (refused : ∀ g, Kept w0 g → wp moving (k none) Q g)
    (accepted : ∀ v, Checked w path root v → wp moving (k (some v)) Q (w, notes)) :
    wp moving (cmdResolve path root >>= k) Q (w, notes) := by
  refine wp_bind.mpr (wp_validatePath ?_ (fun e => ?_) fun v checked => accepted v checked)
  · intro n c r checks
    cases c with
    | file c =>
      cases c with
      | realpath path => rfl
      | _ => exact absurd checks id
    | alloc size => rfl
    | _ => exact absurd checks id
  · exact wp_bind.mpr (wp_mono (wp_failWith _ _) fun _ g noted => refused g (noted.kept kept))

theorem wp_lockMoveSource {srcStat : Stat} {path : CStr} {k : Option Int → Sys α}
    (kept : Kept w0 (w, notes)) (fresh : notes.created = false)
    (refused : ∀ g, Kept w0 g → wp moving (k none) Q g)
    (locked : ∀ fd w', Alike w w' → wp moving (k (some fd)) Q (w', notes)) :
    wp moving (lockMoveSource srcStat path >>= k) Q (w, notes) := by
  refine wp_bind.mpr ?_
  unfold lockMoveSource
  rw [wp_ite]
  refine ⟨fun _ => locked _ w (.refl w), fun _ => ?_⟩
  refine wp_file ?_
  rintro (e | srcFd) opened -
  · exact wp_bind.mpr (wp_mono (wp_failWith _ _) fun _ g noted => refused g (noted.kept kept))
  have alike : Alike w (w.after (.openPath path { access := .rdwr } 0) (.ok srcFd)) :=
    .open rfl rfl opened.2
  have quiet : see notes (.file (.openPath path { access := .rdwr } 0)) (.ok srcFd) = notes := by
    simp [see]
  rw [quiet]
  refine wp_file ?_
  rintro (e | _) - -
  · have quiet : see notes (.file (.setlk srcFd .wrlck 0 0)) (.error e) = notes := by
      cases notes
      cases fresh
      simp [see]
    rw [quiet]
    refine wp_bind.mpr (wp_mono (wp_failWith _ _) fun _ g noted => wp_file fun r _ _ => ?_)
    have before : Kept w0 (_, notes) := ⟨kept.1.trans (alike.trans ⟨rfl, rfl⟩), kept.2⟩
    obtain ⟨same, fine, answer⟩ := noted.kept before
    exact refused _ ⟨same.trans ⟨rfl, rfl⟩, fine, answer⟩
  · exact locked _ _ (alike.trans ⟨rfl, rfl⟩)

/-- What the destination is opened as: what it names, or a new file in the directory it names. -/
inductive Opened (w : World) (fullSrcPath fullDestPath : CStr) (srcStat : Stat) :
    CStr → World × Notes → Prop
  | named {w' : World} : Alike w w' →
      Opened w fullSrcPath fullDestPath srcStat fullDestPath (w', {})
  | made {d q : Place FileName} {fd : Int} {mode : Nat} : srcStat.kind = .regular →
      w.look true fullDestPath = some (d, .directory) →
      w.resolve false (fullDestPath ++ cstr "/" ++ basename fullSrcPath) = .ok q → w.Room q →
      Opened w fullSrcPath fullDestPath srcStat (fullDestPath ++ cstr "/" ++ basename fullSrcPath)
        ((w.withVolume (w.add q .regular mode)).install fd q .rdwr, { created := true })

theorem wp_openMoveDest {srcStat : Stat} {fullSrcPath fullDestPath : CStr}
    {k : Except (Errno × CStr) (Int × CStr) → Sys α} (fits : fullSrcPath.length < PATH_MAX)
    (fits' : fullDestPath.length < PATH_MAX) (short : (basename fullSrcPath).length ≤ NAME_MAX)
    (refused : ∀ e reason w', Alike w w' → wp moving (k (.error (e, reason))) Q (w', {}))
    (opened : ∀ fd dest g, Opened w fullSrcPath fullDestPath srcStat dest g →
      wp moving (k (.ok (fd, dest))) Q g) :
    wp moving (openMoveDest srcStat fullSrcPath fullDestPath >>= k) Q (w, {}) := by
  have whole : snprintf (PATH_MAX + NAME_MAX + 2) fullDestPath = fullDestPath :=
    snprintf_eq_self (by omega)
  have joined : snprintf (PATH_MAX + NAME_MAX + 2) (fullDestPath ++ cstr "/" ++ basename fullSrcPath) =
      fullDestPath ++ cstr "/" ++ basename fullSrcPath := by
    have slash : (cstr "/").length = 1 := rfl
    refine snprintf_eq_self ?_
    simp only [List.length_append]
    omega
  refine wp_bind.mpr ?_
  unfold openMoveDest
  rw [whole, snprintf_eq_self fits]
  dsimp only
  rw [joined]
  refine wp_file ?_
  rintro (e | destStat) told -
  · exact opened _ _ _ (.named (.refl w))
  change wp moving _ _ (w, {})
  dsimp only
  rw [wp_ite]
  refine ⟨fun _ => wp_file ?_, fun _ => ?_⟩
  · rintro (e | destFd) may -
    · exact refused _ _ w (.refl w)
    · exact opened _ _ _ (.named (.open rfl rfl may.2))
  rw [wp_ite]
  refine ⟨fun ⟨directory, regular⟩ => wp_file ?_, fun _ => opened _ _ _ (.named (.refl w))⟩
  rintro (e | destFd) may -
  · exact refused _ _ w (.refl w)
  obtain ⟨q, opens⟩ := Option.ne_none_iff_exists'.mp may.2
  obtain ⟨led, room⟩ := World.opens_excl rfl rfl opens
  obtain ⟨d, o, dir, describes⟩ := World.stat_found told
  cases World.directory_of_stat describes directory
  rw [World.after_open_new opens room.absent]
  exact opened _ _ _ (.made regular dir led room)

/-- How a move ends: as it should, or, after it was refused, with a file in the destination directory
that was not there. -/
def Ended (session : Session) (payload : Option CStr) (w0 : World) (g : World × Notes) : Prop :=
  g.2.stranded = false ∧ MovedOrNot session payload w0 g.1 g.2.answer ∨
  g.2.stranded = true ∧ g.2.answer = some RSP_ERR ∧ ∃ x, g.1.seen x ≠ w0.seen x

variable {session : Session} {payload : Option CStr}

theorem Kept.ended {g : World × Notes} (kept : Kept w0 g) : Ended session payload w0 g :=
  .inl ⟨kept.2.1, fun _ x => kept.1.seen x, fun good => absurd good kept.2.2⟩

variable {w2 w3 : World} {fullSrcPath fullDestPath dest : CStr} {srcStat : Stat} {notes2 : Notes}
  {g : World × Notes}

theorem Opened.unanswered (opened : Opened w fullSrcPath fullDestPath srcStat dest (w2, notes2)) :
    notes2.answer = none := by
  cases opened <;> rfl

theorem Noted.refused {e : Errno} {reason : CStr} (h : Noted w notes RSP_ERR (errPayload e.code reason) g)
    (small : e.code < 2 ^ 31) (short : reason.length ≤ 1024) :
    g = (w, { notes with answer := some RSP_ERR }) := by
  obtain ⟨w', notes'⟩ := g
  obtain ⟨rfl, answer, rfl, rfl | ⟨long, -⟩⟩ := h
  · rfl
  · exact absurd (errPayload_fits small short) long

theorem Opened.ended_refused (opened : Opened w fullSrcPath fullDestPath srcStat dest (w2, notes2))
    (alike : Alike w0 w) (same : Alike w2 g.1)
    (stranded : g.2.stranded = (notes2.stranded || notes2.created))
    (answer : g.2.answer = some RSP_ERR) : Ended session payload w0 g := by
  cases opened with
  | named alike' =>
    exact Kept.ended ⟨alike.trans (alike'.trans same), stranded, by rw [answer]; simp [RSP_ERR, RSP_OK]⟩
  | made regular dir led room =>
    rename_i d q fd mode
    refine .inr ⟨stranded, answer, q, ?_⟩
    have now : ((w.withVolume (w.add q .regular mode)).install fd q .rdwr).seen q =
        some ⟨w.created .regular, ⟨[], mode⟩⟩ := by
      rw [World.install_toVolume, World.withVolume_toVolume, Volume.seen_add room, if_pos rfl]
    rw [same.seen, now, ← alike.seen, Volume.seen_eq_none.mpr room.absent]
    exact Option.some_ne_none _

theorem room_apart {p q : Place FileName} {ino : Nat} (file : w.tree.get p = some (.file ino))
    (room : w.Room q) (rest : List FileName) : rest ++ p ≠ q := by
  rintro rfl
  cases rest with
  | nil =>
    rw [List.nil_append] at room
    rw [room.absent] at file
    cases file
  | cons n rest =>
    have above : w.tree.get (rest ++ p) = some .directory := room.1
    by_cases direct : rest = []
    · rw [direct, List.nil_append, file] at above
      cases above
    · rw [Hierarchy.ancestor above direct] at file
      cases file

theorem Opened.ended_moved {command : Cmd} {p : Place FileName} {o : Object FileName}
    (opened : Opened w fullSrcPath fullDestPath srcStat dest (w2, notes2)) (alike : Alike w0 w)
    (parsed : payload.map parseLine = some (.ok command))
    (source : Checked w0 command.buf session.homePath fullSrcPath)
    (target : Checked w0 command.buf2 session.homePath fullDestPath)
    (found : w0.look true fullSrcPath = some (p, o))
    (describes : World.Describes srcStat ⟨o, w0.contents p o⟩) (same : Alike w2 w3)
    (may : w3.renames fullSrcPath dest ≠ none)
    (left : Alike (w3.after (.rename fullSrcPath dest) (.ok ())) g.1)
    (stranded : g.2.stranded = notes2.stranded) (answer : g.2.answer ≠ some RSP_ERR) :
    Ended session payload w0 g := by
  obtain ⟨⟨p', q⟩, renames⟩ := Option.ne_none_iff_exists'.mp may
  have moved := renamed_seen renames
  obtain ⟨o', from', to', -⟩ := World.renames_cases renames
  have named := source.look_eq found
  cases opened with
  | named alike' =>
    have whole := alike.trans (alike'.trans same)
    rw [whole.look, named] at from'
    cases from'
    rw [whole.resolve] at to'
    refine .inl ⟨stranded, fun bad => absurd bad answer, fun _ => ?_⟩
    refine ⟨command, fullSrcPath, fullDestPath, p, q, parsed, source, target, by rw [named]; rfl, ?_, ?_⟩
    · rw [moveDestination]
      split
      · rename_i into
        obtain ⟨⟨d, _⟩, dir, rfl⟩ := Option.map_eq_some_iff.mp into.1
        have regular := into.2
        rw [found, Option.bind_some, Option.isSome_iff_exists] at regular
        obtain ⟨ino, file⟩ := regular
        rw [World.inoAt_eq_some, (World.look_eq_some.mp found).2] at file
        cases file
        rw [renames_directory (by rw [whole.look, named]) (by rw [whole.look, target.look_eq dir])] at may
        exact absurd rfl may
      · exact to'
    · intro rest
      rw [left.seen, moved, whole.seen]
  | made regular dir led room =>
    rename_i d q' fd mode
    obtain ⟨ino, rfl⟩ := World.file_of_stat describes regular
    obtain ⟨-, file⟩ := World.look_eq_some.mp found
    have goes : moveDestination w0 fullSrcPath fullDestPath =
        fullDestPath ++ cstr "/" ++ basename fullSrcPath := by
      rw [moveDestination, if_pos]
      rw [← alike.look, dir, found, Option.bind_some, World.inoAt_file file]
      exact ⟨rfl, rfl⟩
    have stays : ∀ path x, w.resolve false path = .ok x → w3.resolve false path = .ok x := by
      intro path x led
      rw [same.resolve]
      exact World.resolve_add room led
    obtain ⟨led', -⟩ := World.look_eq_some.mp from'
    rw [stays _ p (by rw [alike.resolve, (World.look_eq_some.mp named).1])] at led'
    cases led'
    rw [stays _ _ led] at to'
    cases to'
    refine .inl ⟨stranded, fun bad => absurd bad answer, fun _ => ?_⟩
    refine ⟨command, fullSrcPath, fullDestPath, p, q, parsed, source, target, by rw [named]; rfl, ?_, ?_⟩
    · rw [goes, ← alike.resolve, led]
    · intro rest
      have other : rest ++ p ≠ q := room_apart (by rw [alike.volume, file]) room rest
      have now : ((w.withVolume (w.add q .regular mode)).install fd q .rdwr).seen (rest ++ p) =
          w.seen (rest ++ p) := by
        rw [World.install_toVolume, World.withVolume_toVolume, Volume.seen_add room, if_neg other]
      rw [left.seen, moved, same.seen, now, alike.seen]

end calls

section dispatch

variable {session : Session} {payload : Option CStr} {w : World}

/-- What `move` does once it has its locks. -/
def renameLocked (srcFd destFd : Int) (fullSrcPath destPathFinal : CStr) : Sys Unit := do
  match ← moveCmd fullSrcPath destPathFinal with
  | .error e =>
    unlockAndClose srcFd
    unlockAndClose destFd
    failWith e (cstr "Failed to move file/directory")
  | .ok () =>
    succeedWith (cstr "File/Directory moved successfully")
    unlockAndClose srcFd
    unlockAndClose destFd

/-- Whatever was locked, the rename decides. -/
theorem Opened.wp_renameLocked {command : Cmd} {p : Place FileName} {o : Object FileName}
    {w1 w2 w3 : World} {notes2 : Notes} {srcFd destFd : Int} {fullSrcPath fullDestPath dest : CStr}
    {srcStat : Stat}
    (opened : Opened w1 fullSrcPath fullDestPath srcStat dest (w2, notes2)) (alike1 : Alike w w1)
    (parsed : payload.map parseLine = some (.ok command))
    (source : Checked w command.buf session.homePath fullSrcPath)
    (target : Checked w command.buf2 session.homePath fullDestPath)
    (found : w.look true fullSrcPath = some (p, o))
    (describes : World.Describes srcStat ⟨o, w.contents p o⟩) (same : Alike w2 w3) :
    wp moving (renameLocked srcFd destFd fullSrcPath dest) (fun _ => Ended session payload w)
      (w3, notes2) := by
  refine wp_file ?_
  rintro (e | _) may small
  · refine wp_bind.mpr (wp_mono (wp_unlock srcFd) ?_)
    rintro _ ⟨w4, _⟩ ⟨alike4, rfl⟩
    refine wp_bind.mpr (wp_mono (wp_unlock destFd) ?_)
    rintro _ ⟨w5, _⟩ ⟨alike5, rfl⟩
    refine wp_mono (wp_failWith _ _) ?_
    rintro _ g noted
    rw [noted.refused small (by decide)]
    exact opened.ended_refused alike1 (same.trans (alike4.trans alike5)) rfl rfl
  · refine wp_bind.mpr (wp_mono (wp_succeedWith _) ?_)
    rintro _ ⟨w4, notes4⟩ ⟨rfl, answer, rfl, noted⟩
    refine wp_bind.mpr (wp_mono (wp_unlock srcFd) ?_)
    rintro _ ⟨w5, _⟩ ⟨alike5, rfl⟩
    refine wp_mono (wp_unlock destFd) ?_
    rintro _ ⟨w6, _⟩ ⟨alike6, rfl⟩
    refine opened.ended_moved alike1 parsed source target found describes same may
      (alike5.trans alike6) rfl ?_
    rcases noted with rfl | ⟨-, rfl⟩
    · simp [RSP_OK, RSP_ERR]
    · change notes2.answer ≠ _
      rw [opened.unanswered]
      exact (Option.some_ne_none _).symm

theorem wp_dispatchMove : wp moving (dispatchMove session payload)
    (fun _ => Ended session payload w) (w, {}) := by
  have start : Kept w (w, {}) := ⟨.refl w, rfl, by simp⟩
  refine wp_cmdParse start (fun g kept => kept.ended) fun command parsed => ?_
  refine wp_cmdResolve start (fun g kept => kept.ended) fun fullSrcPath source => ?_
  refine wp_cmdResolve start (fun g kept => kept.ended) fun fullDestPath dest => ?_
  refine wp_file ?_
  rintro (e | srcStat) told -
  · exact wp_mono (wp_failWith _ _) fun _ g noted => (noted.kept start).ended
  change wp moving _ _ (w, {})
  obtain ⟨p, o, found, describes⟩ := World.stat_found told
  refine wp_lockMoveSource start rfl (fun g kept => kept.ended) fun srcFd w1 alike1 => ?_
  refine wp_openMoveDest source.length dest.length (source.basename_short found) ?_ ?_
  · intro e reason w2 alike2
    refine wp_bind.mpr (wp_mono (wp_failWith _ _) fun _ g noted => ?_)
    have kept : Kept w g := noted.kept ⟨alike1.trans alike2, rfl, by simp⟩
    obtain ⟨w3, notes⟩ := g
    refine wp_mono (wp_unlock srcFd) ?_
    rintro _ ⟨w4, _⟩ ⟨same, rfl⟩
    exact Kept.ended ⟨kept.1.trans same, kept.2⟩
  rintro destFd destPathFinal ⟨w2, notes2⟩ opened
  dsimp only
  rw [wp_ite]
  refine ⟨fun _ => wp_file ?_, fun _ =>
    opened.wp_renameLocked alike1 parsed source dest found describes (.refl w2)⟩
  rintro (e | _) - small
  · refine wp_bind.mpr (wp_mono (wp_failWith _ _) ?_)
    rintro _ g noted
    rw [noted.refused small (by decide)]
    refine wp_bind.mpr (wp_mono (wp_unlock srcFd) ?_)
    rintro _ ⟨w4, _⟩ ⟨alike4, rfl⟩
    refine wp_file fun r _ _ => ?_
    exact opened.ended_refused alike1 (alike4.trans ⟨rfl, rfl⟩) (by simp [see]) rfl
  · exact opened.wp_renameLocked alike1 parsed source dest found describes ⟨rfl, rfl⟩

end dispatch

end Move

section move

open Move

variable {session : Session} {payload : Option CStr} {w w' : World} {notes : Notes}

/-- A refused move changes nothing, and an answered one moves the source, just if no lock and no rename
is refused after a file was created in the destination directory. -/
theorem moved_or_not_iff (ended : Ends moving (dispatchMove session payload) (w, {}) () (w', notes)) :
    MovedOrNot session payload w w' notes.answer ↔ notes.stranded = false := by
  rcases ended.of_wp wp_dispatchMove with ⟨fine, whole⟩ | ⟨stranded, answer, x, changed⟩
  · exact ⟨fun _ => fine, fun _ => whole⟩
  · refine ⟨fun whole => absurd (whole.refused answer x) changed, fun fine => ?_⟩
    cases stranded.symm.trans fine

def docs : FileName := ⟨cstr "docs", by decide⟩

/-- There is a directory `docs` beside Alice's note. -/
def docsDisk : World := aliceDisk.withVolume (aliceDisk.add [docs, alice, srv] .directory 0o750)

def homeSession : Session where
  loggedIn := true
  user := cstr "alice"
  homePath := cstr "/srv/alice"
  rootPath := cstr "/srv"

/-- Alice moves her note into the directory. -/
theorem moved_or_not_note : ∃ w', MovedOrNot homeSession (some (cstr "move note docs")) docsDisk w'
    (some RSP_OK) ∧ w'.seen [note, docs, alice, srv] = docsDisk.seen [note, alice, srv] := by
  have moves : (play moving (fun g => g.1.serves) 40
      (dispatchMove homeSession (some (cstr "move note docs"))) (docsDisk, {})).any
      (fun r => decide (r.2.2.answer = some RSP_OK ∧ r.2.2.stranded = false ∧
        r.2.1.seen [note, docs, alice, srv] = docsDisk.seen [note, alice, srv])) = true := by
    decide +kernel
  obtain ⟨_, ⟨w', notes⟩, ended, answer, fine, same⟩ := exists_of_play 40
    (fun (_ : Unit) (g : World × Notes) => g.2.answer = some RSP_OK ∧ g.2.stranded = false ∧
      g.1.seen [note, docs, alice, srv] = docsDisk.seen [note, alice, srv]) moves
  refine ⟨w', ?_, same⟩
  rw [← answer]
  exact (moved_or_not_iff ended).mpr fine

def renameRefused : World × Notes → (c : Call) → c.Reply
  | _, .file (.rename _ _) => .error EACCES
  | g, c => g.1.serves c

/-- The rename is refused, and an empty file stays in the directory. -/
theorem placeholder_left : ¬ ∀ {session : Session} {payload : Option CStr} {w w' : World} {notes : Notes},
    Ends moving (dispatchMove session payload) (w, {}) () (w', notes) →
      MovedOrNot session payload w w' notes.answer := by
  intro all
  have fails : (play moving renameRefused 40
      (dispatchMove homeSession (some (cstr "move note docs"))) (docsDisk, {})).any
      (fun r => decide (r.2.2.answer = some RSP_ERR ∧
        r.2.1.seen [note, docs, alice, srv] ≠ docsDisk.seen [note, docs, alice, srv])) = true := by
    decide +kernel
  obtain ⟨_, ⟨w', notes⟩, ended, answer, left⟩ := exists_of_play 40
    (fun (_ : Unit) (g : World × Notes) => g.2.answer = some RSP_ERR ∧
      g.1.seen [note, docs, alice, srv] ≠ docsDisk.seen [note, docs, alice, srv]) fails
  exact left ((all ended).refused answer _)

end move

end Csap
