import Csap.CheckedPaths
import Csap.LocalCalls
import Csap.TemporaryFiles
import Csap.TransferCopy
import Csap.WriteEffects

/-! What a whole write that fails leaves of the file system. -/

namespace Csap

open FileTree Prog

namespace Fail

/-- Has `stat` failed on the target? And what name has a failed `mkstemp` left? -/
structure Notes where
  statFailed : Bool := false
  leftover : CStr := []
deriving DecidableEq

def see (notes : Notes) : (c : Call) → c.Reply → Notes
  | .file (.stat _), .error _ => { notes with statFailed := true }
  | .file (.mkstemp _), (.error _, name) => { notes with leftover := name }
  | _, _ => notes

def failing : Typestate Call.Reply (World × Notes) := (posix.assuming Copy.Removes).watching see

instance (g : World × Notes) (c : Call) (r : c.Reply) : Decidable (failing.expects g c r) :=
  inferInstanceAs (Decidable (((posix.assuming Copy.Removes).watching see).expects g c r))

end Fail

/-- The write takes something for its own that was there before: the target, because `stat` failed on
what could be removed; or what a failed `mkstemp` has left the name of. -/
def Misled (w : World) (path : CStr) (notes : Fail.Notes) : Prop :=
  notes.statFailed = true ∧ w.unlinks path ≠ none ∨ w.unlinks notes.leftover ≠ none

instance (w : World) (path : CStr) (notes : Fail.Notes) : Decidable (Misled w path notes) :=
  inferInstanceAs (Decidable (_ ∨ _))

namespace Fail

variable {w w' w4 : World} {notes : Notes} {path name : CStr} {existed : Bool}

/-- The exits of `receive_into_file` on an error. -/
def cleaned (w : World) (name : CStr) (existed : Bool) (path : CStr) : World :=
  if existed then w.unlinked name else (w.unlinked name).unlinked path

theorem wp_unlink {α : Type} {k : SysResult Unit → Sys α} {Q : α → World × Notes → Prop}
    (h : ∀ r, wp failing (k r) Q (w.unlinked path, notes)) :
    wp failing (fileCall (.unlink path) >>= k) Q (w, notes) := by
  refine wp_file fun r answered removes => ?_
  have left : w.after (.unlink path) r = w.unlinked path := by
    cases r with
    | ok => rfl
    | error e =>
      have nothing : w.unlinks path = none := by
        by_contra some
        cases removes some
      rw [World.unlinked, nothing]
      rfl
  rw [left]
  exact h r

theorem alike_unlinked (alike : Alike w w') : Alike (w.unlinked path) (w'.unlinked path) := by
  have same : w'.unlinks path = w.unlinks path := by rw [World.unlinks, World.unlinks, alike.look]
  unfold World.unlinked
  rw [same]
  cases w.unlinks path with
  | none => exact alike
  | some q =>
    refine ⟨?_, ?_⟩
    · change w'.drop q = w.drop q
      rw [alike.volume]
    · change w'.cwd.filter _ = w.cwd.filter _
      rw [alike.cwd]

theorem wp_close {α : Type} {fd : Int} {k : SysResult Unit → Sys α} {Q : α → World × Notes → Prop}
    (h : ∀ w', Alike w w' → wp failing (k (.ok ())) Q (w', notes)) :
    wp failing (fileCall (.close fd) >>= k) Q (w, notes) := by
  refine wp_file ?_
  rintro _ - rfl
  exact h _ ⟨rfl, rfl⟩

theorem wp_release {α : Type} {fd : Int} {k : SysResult Unit → Sys α} {Q : α → World × Notes → Prop}
    (h : ∀ r w', Alike w w' → wp failing (k r) Q (w', notes)) :
    wp failing (releaseLock fd 0 0 >>= k) Q (w, notes) :=
  wp_file fun r _ _ => h r _ ⟨rfl, rfl⟩

theorem wp_cleanup (target : Target) (fd lockFd : Int) (e : Errno) :
    wp failing (receiveCleanup target fd lockFd name existed (.error e))
      (fun _ g => g.2 = notes ∧ Alike (cleaned w name existed target.path) g.1) (w, notes) := by
  unfold receiveCleanup
  have removes : ∀ w1, Alike w w1 → wp failing (do
      when (name ≠ []) do
        let _ ← fileCall (.unlink name)
      when (!(Except.error e : SysResult Nat).isOk ∧ !existed) do
        let _ ← fileCall (.unlink target.path))
      (fun _ g => g.2 = notes ∧ Alike (cleaned w name existed target.path) g.1) (w1, notes) := by
    intro w1 alike
    have last : ∀ w2, Alike (w.unlinked name) w2 →
        wp failing (when (!(Except.error e : SysResult Nat).isOk ∧ !existed) do
          let _ ← fileCall (.unlink target.path))
        (fun _ g => g.2 = notes ∧ Alike (cleaned w name existed target.path) g.1) (w2, notes) := by
      intro w2 alike2
      rw [wp_when]
      cases existed with
      | true => exact ⟨fun both => absurd both.2 (by simp), fun _ => ⟨rfl, alike2⟩⟩
      | false =>
        refine ⟨fun _ => wp_unlink fun _ => ⟨rfl, alike_unlinked alike2⟩, fun not => ?_⟩
        exact absurd ⟨rfl, rfl⟩ not
    refine wp_bind.mpr ?_
    rw [wp_when]
    refine ⟨fun _ => wp_unlink fun _ => last _ (alike_unlinked alike), fun nameless => ?_⟩
    have empty := not_ne_iff.mp nameless
    subst empty
    exact last w1 alike
  refine wp_bind.mpr ?_
  rw [wp_when]
  have unlocks : ∀ w1, Alike w w1 → wp failing (do
      when (0 ≤ lockFd) do
        let _ ← releaseLock lockFd 0 0
        let _ ← fileCall (.close lockFd)
      when (name ≠ []) do
        let _ ← fileCall (.unlink name)
      when (!(Except.error e : SysResult Nat).isOk ∧ !existed) do
        let _ ← fileCall (.unlink target.path))
      (fun _ g => g.2 = notes ∧ Alike (cleaned w name existed target.path) g.1) (w1, notes) := by
    intro w1 alike
    refine wp_bind.mpr ?_
    rw [wp_when]
    refine ⟨fun _ => ?_, fun _ => removes w1 alike⟩
    exact wp_release fun _ w2 alike2 => wp_close fun w3 alike3 =>
      removes w3 (alike.trans (alike2.trans alike3))
  exact ⟨fun _ => wp_close fun w1 alike => unlocks w1 alike, fun _ => unlocks w (.refl w)⟩

def Undone (w : World) (path : CStr) (g : World × Notes) : Prop :=
  (∀ x, g.1.seen x = w.seen x) ↔ ¬ Misled w path g.2

theorem removed_changes {x : Place FileName} (removed : w.unlinks path = some x) : w.seen x ≠ none := by
  obtain ⟨o, found, -⟩ := World.unlinks_eq_some.mp removed
  rw [Ne, Volume.seen_eq_none, (World.look_eq_some.mp found).2]
  exact Option.some_ne_none o

theorem undone_of_same (absolute : path.head? = some 47) (same : ∀ x, (w4.unlinked name).seen x = w.seen x)
    (flag : notes.statFailed = !existed) (none : w.unlinks notes.leftover = none)
    (ends : Alike (cleaned w4 name existed path) w') : Undone w path (w', notes) := by
  unfold Undone Misled
  rw [none, flag]
  cases existed with
  | true =>
    have kept : ∀ x, w'.seen x = w.seen x := fun x => by rw [ends.seen]; exact same x
    simpa using kept
  | false =>
    have final : ∀ x, w'.seen x = if w.unlinks path = some x then Option.none else w.seen x := by
      intro x
      rw [ends.seen, ← World.unlinks_congr absolute same, ← same x]
      exact World.unlinked_seen
    simp only [Bool.not_false, true_and, ne_eq, not_true_eq_false, or_false, not_not]
    constructor
    · intro kept
      by_contra some
      obtain ⟨x, removed⟩ := Option.ne_none_iff_exists'.mp some
      have lost := final x
      rw [kept, if_pos removed] at lost
      exact removed_changes removed lost
    · intro nothing x
      rw [final, nothing, if_neg (Option.some_ne_none x).symm]

theorem undone_of_mkstemp (absolute : path.head? = some 47) (flag : notes.statFailed = !existed)
    (left : notes.leftover = name) (ends : Alike (cleaned w name existed path) w') :
    Undone w path (w', notes) := by
  cases removed : w.unlinks name with
  | none =>
    refine undone_of_same absolute (fun x => ?_) flag (by rw [left, removed]) ends
    rw [World.unlinked_seen, removed, if_neg (Option.some_ne_none x).symm]
  | some q =>
    have gone : (w.unlinked name).seen q = none := by rw [World.unlinked_seen, if_pos removed]
    have lost : w'.seen q = none := by
      rw [ends.seen, cleaned]
      split
      · exact gone
      · rw [World.unlinked_seen, gone, ite_self]
    refine ⟨fun kept => ?_, fun fine => absurd (.inr ?_) fine⟩
    · rw [kept] at lost
      exact absurd lost (removed_changes removed)
    · rw [left, removed]
      exact Option.some_ne_none q

section removing

variable {tq q : Place FileName}

theorem undone_of_temporary (absolute : path.head? = some 47) (room : w.Room tq)
    (found : w4.look false name = some (tq, .file w.fresh))
    (others : ∀ x, x ≠ tq → w4.seen x = w.seen x) (flag : notes.statFailed = !existed)
    (left : notes.leftover = []) (ends : Alike (cleaned w4 name existed path) w') :
    Undone w path (w', notes) := by
  have removed : w4.unlinks name = some tq := World.unlinks_eq_some.mpr ⟨_, found, by simp⟩
  refine undone_of_same absolute (fun x => ?_) flag (by rw [left]; rfl) ends
  rw [World.unlinked_seen, removed]
  by_cases here : x = tq
  · rw [here, if_pos rfl, eq_comm, Volume.seen_eq_none]
    exact room.absent
  · rw [if_neg fun same => here (Option.some.inj same).symm, others x here]

theorem undone_of_created {ino : Nat} (absolute : path.head? = some 47) (room : w.Room tq)
    (found : w4.look false name = some (tq, .file w.fresh)) (led : w.resolve false path = .ok q)
    (stays : w4.resolve false path = .ok q) (absent : w.seen q = none) (apart : q ≠ tq)
    (there : w4.tree.get q = some (.file ino)) (others : ∀ x, x ≠ tq → x ≠ q → w4.seen x = w.seen x)
    (left : notes.leftover = []) (ends : Alike (cleaned w4 name false path) w') :
    Undone w path (w', notes) := by
  have removed : w4.unlinks name = some tq := World.unlinks_eq_some.mpr ⟨_, found, by simp⟩
  have seen5 : ∀ x, (w4.unlinked name).seen x = if x = tq then none else w4.seen x := by
    intro x
    rw [World.unlinked_seen, removed]
    simp only [Option.some.injEq, eq_comm]
  have here5 : (w4.unlinked name).tree.get q = some (.file ino) := by
    have seen : (w4.unlinked name).seen q = some ⟨.file ino, w4.files ino⟩ := by
      rw [seen5, if_neg apart, Volume.seen_file there]
    exact (Volume.seen_eq_some.mp seen).1
  have next : (w4.unlinked name).unlinks path = some q := by
    refine World.unlinks_eq_some.mpr ⟨.file ino, World.look_eq_some.mpr ⟨?_, here5⟩, by simp⟩
    exact World.unlinked_resolve absolute found stays
  have final : ∀ x, w'.seen x = w.seen x := by
    intro x
    rw [ends.seen]
    change ((w4.unlinked name).unlinked path).seen x = _
    rw [World.unlinked_seen, next, seen5]
    by_cases here : q = x
    · rw [if_pos (congrArg some here), ← here, absent]
    · rw [if_neg fun same => here (Option.some.inj same)]
      by_cases temp : x = tq
      · rw [if_pos temp, temp, eq_comm, Volume.seen_eq_none]
        exact room.absent
      · rw [if_neg temp, others x temp fun same => here same.symm]
  have nothing : w.unlinks path = none := by
    rw [Volume.seen_eq_none] at absent
    simp [World.unlinks, World.look, led, absent]
  refine ⟨fun _ => ?_, fun _ => final⟩
  rintro (⟨-, some⟩ | some)
  · exact some nothing
  · rw [left] at some
    exact some rfl

end removing

section staged

variable {base : World} {fd : Int} {q tq : Place FileName} {file : File}

theorem undone_of_staged (absolute : path.head? = some 47) (staged : Staged w path name fd q tq base)
    (volume : w4.toVolume = base.setFile w.fresh file) (cwd : w4.cwd = base.cwd)
    (exists_iff : existed = true → w.seen q ≠ none) (flag : notes.statFailed = !existed)
    (left : notes.leftover = []) (ends : Alike (cleaned w4 name existed path) w') :
    Undone w path (w', notes) := by
  have leads : ∀ path, w4.resolve false path = base.resolve false path := by
    intro path
    rw [World.resolve, World.resolve, volume, cwd, Volume.setFile_tree]
  have found : w4.look false name = some (tq, .file w.fresh) := by
    refine World.look_eq_some.mpr ⟨by rw [leads, staged.temp], ?_⟩
    rw [volume, Volume.setFile_tree, staged.temporary.1]
  have others : ∀ x, x ≠ tq → w4.seen x =
      if x = q ∧ w.seen q = none then some ⟨.file (w.fresh + 1), ⟨[], 0o700⟩⟩ else w.seen x := by
    intro x other
    rw [volume, staged.seen_setFile, if_neg other, staged.seen, if_neg other]
  by_cases new : w.seen q = none ∧ q ≠ tq
  · have here := others q new.2
    rw [if_pos ⟨rfl, new.1⟩] at here
    have gone : existed = false := by
      cases existed with
      | true => exact absurd new.1 (exists_iff rfl)
      | false => rfl
    rw [gone] at ends
    refine undone_of_created absolute staged.room found staged.led (by rw [leads, staged.stays]) new.1 new.2
      (Volume.seen_eq_some.mp here).1 (fun x other apart => ?_) left ends
    rw [others x other, if_neg fun same => apart same.1]
  · refine undone_of_temporary absolute staged.room found (fun x other => ?_) flag left ends
    rw [others x other, if_neg]
    rintro ⟨rfl, absent⟩
    exact new ⟨absent, other⟩

end staged

section streaming

variable {base : World} {fd : Int} {ino : Nat} {g : World × Notes}

/-- The descriptor is on the file, and nothing but the file has changed. -/
def Filling (base : World) (fd : Int) (ino : Nat) (notes : Notes) (g : World × Notes) : Prop :=
  g.2 = notes ∧ g.1.cwd = base.cwd ∧ (∃ pos access, g.1.fds fd = some ⟨some ino, pos, access⟩) ∧
    ∃ file, g.1.toVolume = base.setFile ino file

theorem Filling.call {c : Call} (streams : StreamsTo fd c) (filling : Filling base fd ino notes g)
    (r : c.Reply) : Filling base fd ino notes (failing.next g c r) := by
  obtain ⟨w, notes'⟩ := g
  obtain ⟨rfl, cwd, ⟨pos, access, opened⟩, file, volume⟩ := filling
  dsimp only at cwd opened volume
  cases c with
  | file c =>
    cases c with
    | write f data =>
      obtain rfl : f = fd := streams
      cases r with
      | error e => exact ⟨rfl, cwd, ⟨pos, access, opened⟩, file, volume⟩
      | ok written =>
        change Filling base f ino notes' (w.after _ _, notes')
        rw [World.after_write opened]
        refine ⟨rfl, cwd, ⟨pos + written, access, Function.update_self ..⟩,
          { w.files ino with content := overwrite (w.files ino).content pos (data.take written) }, ?_⟩
        rw [World.setFd_toVolume, World.withVolume_toVolume, volume, Volume.setFile_setFile]
    | lseek f offset =>
      obtain rfl : f = fd := streams
      cases r with
      | error e => exact ⟨rfl, cwd, ⟨pos, access, opened⟩, file, volume⟩
      | ok pos' =>
        refine ⟨rfl, cwd, ⟨pos'.toNat, access, ?_⟩, file, volume⟩
        change (w.seek f _).fds f = _
        simp [World.seek, opened]
    | _ => exact absurd streams id
  | socket c =>
    cases c with
    | recvFrameInto bufCap => exact ⟨rfl, cwd, ⟨pos, access, opened⟩, file, volume⟩
    | _ => exact absurd streams id
  | _ => exact absurd streams id

theorem wp_streams {α : Type} {p : Sys α} (streams : p.Calls (StreamsTo fd))
    (filling : Filling base fd ino notes g) : wp failing p (fun _ => Filling base fd ino notes) g :=
  streams.wp_preserving _ (fun _ _ mine here => ⟨trivial, here.call mine⟩) filling fun _ _ here => here

end streaming

section receiving

variable {texts : Texts} {target : Target}

theorem wp_failed {α : Type} {k : Unit → Sys α} {a : α} {Q : α → World × Notes → Prop}
    {fd lockFd : Int} {e : Errno} (h : ∀ u, k u = pure a)
    (undone : ∀ w', Alike (cleaned w name existed target.path) w' → Q a (w', notes)) :
    wp failing (receiveCleanup target fd lockFd name existed (.error e) >>= k) Q (w, notes) := by
  refine wp_bind.mpr (wp_mono (wp_cleanup target fd lockFd e) ?_)
  rintro u ⟨w', _⟩ ⟨rfl, ends⟩
  rw [h]
  exact undone w' ends

theorem wp_receiveIntoFile (whole : target.offset < 0) (absolute : target.path.head? = some 47) :
    wp failing (receiveIntoFile texts target)
      (fun r g => ∀ e, r.1 = .error e → Undone w target.path g) (w, {}) := by
  refine wp_file fun destStat told _ => ?_
  have flag : (see {} (.file (.stat target.path)) destStat).statFailed = !destStat.isOk := by
    cases destStat <;> rfl
  have left : (see {} (.file (.stat target.path)) destStat).leftover = [] := by
    cases destStat <;> rfl
  change wp failing _ _ (w, see {} (.file (.stat target.path)) destStat)
  set notes := see {} (.file (.stat target.path)) destStat
  refine wp_bind.mpr ?_
  unfold openTarget
  rw [if_neg (not_le.mpr whole)]
  refine wp_openTempForUpload ?_ (fun e => ?_) (fun e name _ => ?_) ?_
  · exact fun _ _ _ => rfl
  · refine wp_failed (fun _ => rfl) fun w' ends _ _ => ?_
    exact undone_of_same absolute (fun _ => rfl) flag (by rw [left]; rfl) ends
  · refine wp_failed (fun _ => rfl) fun w' ends _ _ => ?_
    exact undone_of_mkstemp absolute flag rfl ends
  intro fd name tq fills led room
  change wp failing _ _ (World.install _ fd tq .rdwr, notes)
  have get1 : ((w.withVolume (w.add tq .regular 0o600)).install fd tq .rdwr).tree.get tq =
      some (.file w.fresh) := by
    rw [World.install_toVolume, World.withVolume_toVolume, Volume.get_add room, Function.update_self]
    rfl
  refine wp_file ?_
  rintro (e | lockFd) may -
  · refine wp_failed (fun _ => rfl) fun w' ends _ _ => ?_
    refine undone_of_temporary absolute room (World.look_eq_some.mpr ⟨?_, get1⟩) (fun x other => ?_)
      flag left ends
    · exact World.resolve_add room led
    · change (w.add tq .regular 0o600).seen x = _
      rw [Volume.seen_add room, if_neg other]
  obtain ⟨q, opens⟩ := Option.ne_none_iff_exists'.mp may.2
  have staged := staged_of_opens led room may.1 opens
  set base := ((w.withVolume (w.add tq .regular 0o600)).install fd tq .rdwr).after
    (.openPath target.path receiveOpenFlags 0o700) (.ok lockFd)
  have found : destStat.isOk = true → w.seen q ≠ none := by
    cases destStat with
    | error e => exact fun no => by cases no
    | ok st =>
      intro _
      obtain ⟨q', o, look, -⟩ := World.stat_found told
      obtain ⟨led', there⟩ := World.look_eq_some.mp look
      rw [World.resolve, resolve_follow staged.led staged.unlinked] at led'
      cases led'
      rw [Ne, Volume.seen_eq_none, there]
      exact Option.some_ne_none o
  have start : Filling base fd w.fresh notes (base, notes) :=
    ⟨rfl, rfl, ⟨0, .rdwr, staged.opened⟩, base.files w.fresh, (Volume.setFile_eq_self rfl).symm⟩
  -- an error after this point is undone in the same way
  have fails : ∀ {w3 w' : World}, w3.cwd = base.cwd ∧ (∃ file, w3.toVolume = base.setFile w.fresh file) →
      Alike (cleaned w3 name destStat.isOk target.path) w' → Undone w target.path (w', notes) := by
    rintro w3 w' ⟨cwd, file, volume⟩ ends
    exact undone_of_staged absolute staged volume cwd found flag left ends
  refine wp_file ?_
  rintro (e | _) - -
  · exact wp_failed (fun _ => rfl) fun w' ends _ _ => fails ⟨start.2.1, start.2.2.2⟩ ends
  refine wp_sendOk (fun _ _ _ _ => rfl) fun _ => ?_
  refine wp_bind.mpr (wp_mono (wp_streams (recvStream_streams texts fd target.offset (-1) target.dataCode
    target.endCode) start) ?_)
  rintro ⟨e | n, msg⟩ ⟨w3, notes3⟩ filled
  · obtain rfl : notes3 = notes := filled.1
    refine wp_bind.mpr (wp_mono (wp_cleanup target fd lockFd e) ?_)
    rintro _ ⟨w', _⟩ ⟨rfl, ends⟩
    rw [wp_ite]
    exact ⟨fun _ _ _ => fails ⟨filled.2.1, filled.2.2.2⟩ ends, fun _ _ _ => fails ⟨filled.2.1, filled.2.2.2⟩ ends⟩
  obtain rfl : notes3 = notes := filled.1
  dsimp only
  rw [if_neg fills.named]
  refine wp_bind.mpr ?_
  unfold replaceTarget
  refine wp_file ?_
  rintro (e | _) - -
  · exact wp_failed (fun _ => rfl) fun w' ends _ _ => fails ⟨filled.2.1, filled.2.2.2⟩ ends
  obtain ⟨-, cwd, ⟨pos, access, opened⟩, file, volume⟩ := filled
  rw [World.after_fchmod opened]
  have changed : ∀ file, w3.setFile w.fresh file = base.setFile w.fresh file := by
    intro file'
    rw [volume, Volume.setFile_setFile]
  refine wp_file ?_
  rintro _ - rfl
  refine wp_file ?_
  rintro (e | _) - -
  · refine wp_failed (fun _ => rfl) fun w' ends _ _ => fails ?_ ends
    exact ⟨cwd, _, changed _⟩
  · refine wp_bind.mpr ((Calls.trivial _).wp_free (fun _ _ _ => trivial) fun _ _ => ?_)
    exact fun _ failed => by cases failed

end receiving

end Fail

section failure

open Fail

variable {texts : Texts} {target : Target} {w w' : World} {root path : CStr} {e : Errno} {msg : CStr}
  {notes : Notes}

/-- A whole write that fails leaves the file system as it was, just if it is not misled. -/
theorem failed_write_undone_iff (accepted : Checked w path root target.path) (whole : target.offset < 0)
    (ended : Ends failing (receiveIntoFile texts target) (w, {}) (.error e, msg) (w', notes)) :
    (∀ x, w'.seen x = w.seen x) ↔ ¬ Misled w target.path notes :=
  ended.of_wp (wp_receiveIntoFile whole accepted.absolute) e rfl

/-- The client is gone before it sends anything. -/
theorem failed_write_undone_note : ∃ w' e notes, (∀ x, w'.seen x = aliceDisk.seen x) ∧
    Ends failing (receiveIntoFile mute (noteTarget (-1))) (aliceDisk, {})
      (.error e, cstr "Failed to receive stream: ") (w', notes) := by
  have fails : (play failing (fun g => g.1.serves) 60 (receiveIntoFile mute (noteTarget (-1)))
      (aliceDisk, {})).any (fun r => decide (r.1 = (.error EIO, cstr "Failed to receive stream: ") ∧
        r.2.2 = {})) = true := by
    decide +kernel
  obtain ⟨_, ⟨w', _⟩, ended, rfl, rfl⟩ := exists_of_play 60
    (fun (r : SysResult Nat × CStr) (g : World × Notes) =>
      r = (.error EIO, cstr "Failed to receive stream: ") ∧ g.2 = {}) fails
  have accepted : Checked aliceDisk (cstr "note") (cstr "/srv/alice") (noteTarget (-1)).path :=
    .existing (q := [note, alice, srv]) (o := .file 2) (by decide +kernel) (by decide +kernel)
      (by decide +kernel)
  exact ⟨w', EIO, {}, (failed_write_undone_iff accepted (by decide) ended).mpr (by decide +kernel), ended⟩

def draft : FileName := ⟨cstr "draft", by decide⟩

def danglingDisk : World where
  toVolume :=
    { aliceDisk with
      tree := aliceDisk.tree.put draft [alice, srv]
        (.link { absolute := false, steps := [.down ⟨cstr "later", by decide⟩] })
        (by decide +kernel) (by decide +kernel)
      used {p ino} found := by
        rw [Hierarchy.get_put] at found
        by_cases there : p = [draft, alice, srv]
        · rw [there, Function.update_self] at found
          cases found
        · rw [Function.update_of_ne there] at found
          exact aliceDisk.used found
      short {n p o} found := by
        rw [Hierarchy.get_put] at found
        by_cases there : n :: p = [draft, alice, srv]
        · cases there
          decide
        · rw [Function.update_of_ne there] at found
          exact aliceDisk.short found }
  cwd := some [alice, srv]
  fds := fun _ => none

def linksRefused : World × Notes → (c : Call) → c.Reply
  | _, .file (.openPath _ _ _) => .error ELOOP
  | g, c => g.1.serves c

/-- Alice writes to her link: `stat` fails on it, the lock needs a file, and the link is removed. -/
theorem dangling_link_removed : ¬ ∀ {texts : Texts} {target : Target} {w w' : World} {root path : CStr}
    {e : Errno} {msg : CStr} {notes : Notes}, Checked w path root target.path → target.offset < 0 →
    Ends failing (receiveIntoFile texts target) (w, {}) (.error e, msg) (w', notes) →
      ∀ x, w'.seen x = w.seen x := by
  intro all
  let target : Target := { noteTarget (-1) with path := cstr "/srv/alice/draft" }
  have fails : (play failing linksRefused 60 (receiveIntoFile mute target)
      (danglingDisk, {})).any (fun r => decide
        (r.1 = (.error ELOOP, cstr "Failed to open target file for locking") ∧
          r.2.1.seen [draft, alice, srv] = none)) = true := by
    decide +kernel
  obtain ⟨_, ⟨w', _⟩, ended, rfl, lost⟩ := exists_of_play 60
    (fun (r : SysResult Nat × CStr) (g : World × Notes) =>
      r = (.error ELOOP, cstr "Failed to open target file for locking") ∧
        g.1.seen [draft, alice, srv] = none) fails
  have accepted : Checked danglingDisk (cstr "draft") (cstr "/srv/alice") target.path :=
    .missing (d := [alice, srv]) (o := .directory) (by decide +kernel) (by decide +kernel)
      (by decide +kernel) (by decide +kernel)
  have kept := all accepted (by decide) ended [draft, alice, srv]
  dsimp only at lost
  rw [lost] at kept
  exact absurd kept (by decide +kernel)

end failure

end Csap
