import Csap.TemporaryFiles
import Csap.LocalCalls

/-! What a `write` or an `upload` that is answered with a size has done to the file system. -/

namespace Csap

open FileTree Prog

namespace Receive

/-- `stat` finds what is there. -/
def Finds (w : World) : (c : Call) → c.Reply → Prop
  | .file (.stat path), .error _ => w.look true path = none
  | _, _ => True

/-- The path `stat` found nothing at. -/
def notFound : (c : Call) → c.Reply → Option CStr
  | .file (.stat path), .error _ => some path
  | _, _ => none

theorem finds_iff (w : World) (c : Call) (r : c.Reply) :
    (∀ path ∈ notFound c r, w.look true path = none) ↔ Finds w c r := by
  unfold notFound Finds
  split <;> simp

instance (w : World) (c : Call) (r : c.Reply) : Decidable (Finds w c r) :=
  decidable_of_iff (∀ path ∈ notFound c r, w.look true path = none) (finds_iff w c r)

def receives (target : Target) (data : CStr) : (c : Call) → c.Reply → CStr
  | .socket (.recvFrameInto _), .ok frame =>
    if frame.command = target.dataCode ∧ frame.command ≠ target.endCode then data ++ frame.payload
    else data
  | _, _ => data

def receiving (target : Target) : Typestate Call.Reply (World × CStr) :=
  (posix.assuming Finds).watching (receives target)

instance (target : Target) (g : World × CStr) (c : Call) (r : c.Reply) :
    Decidable ((receiving target).expects g c r) :=
  inferInstanceAs (Decidable (((posix.assuming Finds).watching (receives target)).expects g c r))

/-- The bytes were written to a descriptor, from a position in the file on. -/
structure Streaming (base : World) (fd : Int) (ino : Option Nat) (start : Nat) (received : CStr)
    (w : World) : Prop where
  volume : w.toVolume = match ino with
    | some i => base.setFile i
      { base.files i with content := overwrite (base.files i).content start received }
    | none => base.toVolume
  cwd : w.cwd = base.cwd
  opened : ∃ access, w.fds fd = some ⟨ino, start + received.length, access⟩

section streaming

variable {target : Target} {base w : World} {fd : Int} {ino : Option Nat} {start : Nat}
  {received rest : CStr} {α : Type} {p : Sys α} {g : World × CStr} {Q : α → World × CStr → Prop}

theorem wp_any (hQ : ∀ a g, Q a g) : wp (receiving target) p Q g :=
  (Calls.trivial p).wp_free (fun _ _ _ => trivial) hQ

theorem Streaming.write (h : Streaming base fd ino start received w) (data : CStr) {written : Nat}
    (le : written ≤ data.length) : Streaming base fd ino start (received ++ data.take written)
      (w.after (.write fd data) (.ok written)) := by
  obtain ⟨volume, cwd, access, opened⟩ := h
  have length : start + (received ++ data.take written).length = start + received.length + written := by
    rw [List.length_append, List.length_take, Nat.min_eq_left le, Nat.add_assoc]
  cases ino with
  | some i =>
    rw [World.after_write opened]
    refine ⟨?_, cwd, access, ?_⟩
    · rw [World.setFd_toVolume, World.withVolume_toVolume]
      dsimp only at volume ⊢
      rw [volume, Volume.setFile_setFile, Volume.setFile_self, overwrite_append]
    · rw [World.setFd_fds, Function.update_self, length]
  | none =>
    have left : w.after (.write fd data) (.ok written) =
        w.setFd fd (some ⟨none, start + received.length + written, access⟩) := by
      simp [World.after, World.changeFile, World.seek, opened]
    rw [left]
    refine ⟨volume, cwd, access, ?_⟩
    rw [World.setFd_fds, Function.update_self, length]

theorem Streaming.seek (h : Streaming base fd ino 0 [] w) {offset pos : Int} (same : pos = offset) :
    Streaming base fd ino offset.toNat [] (w.after (.lseek fd offset) (.ok pos)) := by
  obtain ⟨volume, cwd, access, opened⟩ := h
  have left : w.after (.lseek fd offset) (.ok pos) = w.setFd fd (some ⟨ino, offset.toNat, access⟩) := by
    simp [World.after, World.seek, opened, same]
  rw [left]
  refine ⟨?_, cwd, access, by simp⟩
  rw [World.setFd_toVolume, volume]
  simp [overwrite_nil]

theorem wp_writeAll {data : CStr} (h : Streaming base fd ino start received w)
    (split : received ++ rest = data) :
    wp (receiving target) (writeAll fd rest) (fun r g => g.2 = data ∧
      (r = .ok () → Streaming base fd ino start data g.1)) (w, data) := by
  refine wp_iterate (fun remaining g => g.2 = data ∧ ∃ done,
    Streaming base fd ino start done g.1 ∧ done ++ remaining = data) ⟨rfl, received, h, split⟩ ?_
  rintro remaining ⟨w, _⟩ ⟨rfl, done, h, split⟩
  rw [wp_ite]
  constructor
  · rintro rfl
    rw [List.append_nil] at split
    exact ⟨rfl, fun _ => split ▸ h⟩
  · intro _
    refine wp_file ?_
    rintro (e | written) answered -
    · rw [wp_ite]
      exact ⟨fun _ => ⟨rfl, done, h, split⟩, fun _ => ⟨rfl, fun ok => by cases ok⟩⟩
    · refine ⟨rfl, _, h.write remaining answered.2, ?_⟩
      rw [List.append_assoc, List.take_append_drop]
      exact split

def Counted (base : World) (fd : Int) (ino : Option Nat) (start : Nat) (got : Received)
    (g : World × CStr) : Prop :=
  got.total = g.2.length ∧ (got.writeErr = none → Streaming base fd ino start g.2 g.1)

theorem wp_recvFrames {texts : Texts} (h : Streaming base fd ino start [] w) :
    wp (receiving target) (recvFrames texts fd target.dataCode target.endCode)
      (fun r => fun g => r.1 = .ok () → Counted base fd ino start r.2 g) (w, []) := by
  refine wp_iterate (Counted base fd ino start) ⟨rfl, fun _ => h⟩ ?_
  rintro got ⟨w, data⟩ ⟨total, written⟩
  refine wp_other (by simp) ?_
  rintro (e | frame) -
  · exact fun ok => by cases ok
  dsimp only
  rw [wp_ite]
  constructor
  · intro stop
    have same : receives target data (.socket (.recvFrameInto Network.CHUNK_SIZE)) (.ok frame) = data :=
      if_neg fun more => more.2 stop
    rw [same]
    exact fun _ => ⟨total, written⟩
  intro goes
  rw [wp_ite]
  refine ⟨fun _ ok => (by cases ok), fun _ => ?_⟩
  rw [wp_ite]
  refine ⟨fun _ ok => (by cases ok), fun other => ?_⟩
  have more : receives target data (.socket (.recvFrameInto Network.CHUNK_SIZE)) (.ok frame) =
      data ++ frame.payload :=
    if_pos ⟨not_ne_iff.mp other, goes⟩
  rw [more]
  have longer : got.total + frame.payload.length = (data ++ frame.payload).length := by
    rw [List.length_append, total]
  rw [wp_ite]
  constructor
  · intro failed
    refine ⟨longer, fun none => ?_⟩
    dsimp only at none
    rw [none] at failed
    cases failed
  · intro fine
    have none : got.writeErr = none := by simpa using fine
    refine wp_bind.mpr (wp_mono (wp_writeAll (written none) rfl) ?_)
    rintro (e | _) ⟨w, data'⟩ ⟨rfl, streamed⟩
    · exact ⟨longer, fun ok => by cases ok⟩
    · exact ⟨longer, fun _ => streamed rfl⟩

/-- What `recv_stream` does once it stands in its place. -/
def recvRest (texts : Texts) (fd : Int) (dataCode endCode : UInt8) : Sys (SysResult Nat × CStr) := do
  let (ended, got) ← recvFrames texts fd dataCode endCode
  match ended with
  | .error e => return (.error e, got.msg)
  | .ok () =>
  match got.writeErr with
  | some e => return (.error e, got.msg)
  | none =>
  if 0 ≤ (-1 : Int) ∧ (-1 : Int) ≠ got.total then return (.error EINVAL, got.msg)
  return (.ok got.total, got.msg)

theorem wp_recvRest {texts : Texts} {start : Nat} (h : Streaming base fd ino start [] w) :
    wp (receiving target) (recvRest texts fd target.dataCode target.endCode)
      (fun r g => ∀ n, r.1 = .ok n → n = g.2.length ∧ Streaming base fd ino start g.2 g.1) (w, []) := by
  refine wp_bind.mpr (wp_mono (wp_recvFrames h) ?_)
  rintro ⟨ended, got⟩ ⟨w, data⟩ counted
  cases ended with
  | error e => exact fun n ok => by cases ok
  | ok =>
    obtain ⟨total, written⟩ := counted rfl
    dsimp only
    cases failed : got.writeErr with
    | some e => exact fun n ok => by cases ok
    | none =>
      dsimp only
      rw [if_neg (by simp)]
      rintro n ⟨⟩
      exact ⟨total, written failed⟩

theorem wp_recvStream {texts : Texts} (h : Streaming base fd ino 0 [] w) :
    wp (receiving target) (recvStream texts fd target.offset (-1) target.dataCode target.endCode)
      (fun r g => ∀ n, r.1 = .ok n → n = g.2.length ∧
        Streaming base fd ino target.offset.toNat g.2 g.1) (w, []) := by
  refine wp_bind.mpr ?_
  unfold seekTo
  rw [wp_ite]
  constructor
  · intro low
    rw [Int.toNat_of_nonpos low]
    exact wp_recvRest h
  · intro _
    refine wp_file ?_
    rintro (e | pos) answered -
    · exact fun n ok => by cases ok
    · exact wp_recvRest (h.seek answered.2.2)

end streaming

section opened

variable {w : World} {path : CStr} {flags : OpenFlags} {mode : Nat} {fd : Int} {q x : Place FileName}

theorem streaming_opened (opens : w.opens path flags = some q) (kept : flags.trunc = false) {base : World}
    (opened : base = w.after (.openPath path flags mode) (.ok fd)) :
    Streaming base fd (base.inoAt q) 0 [] base := by
  rw [World.after_open opens kept] at opened
  refine ⟨?_, rfl, flags.access, ?_⟩
  · split
    · rw [Volume.setFile_eq_self]
      rw [overwrite_nil]
    · rfl
  · rw [opened, World.install_fds, Function.update_self]
    rfl

end opened

end Receive

def Prior (w : World) (q : Place FileName) (file : File) : Prop :=
  (∃ ino, w.seen q = some ⟨.file ino, file⟩) ∨ w.seen q = none ∧ file = ⟨[], 0o700⟩

/-- The file has the bytes from a position on, under all its names. -/
structure Patched (w w' : World) (q : Place FileName) (start : Nat) (data : CStr) : Prop where
  now : ∀ file, Prior w q file → ∃ ino,
    w'.seen q = some ⟨.file ino, { file with content := overwrite file.content start data }⟩
  shared : ∀ x ino, w.tree.get q = some (.file ino) → w.tree.get x = some (.file ino) →
    w'.seen x = w'.seen q
  others : ∀ x, x ≠ q →
    (∀ ino, w.tree.get q = some (.file ino) → w.tree.get x ≠ some (.file ino)) → w'.seen x = w.seen x

theorem Patched.of_volume {w w' w'' : World} {q : Place FileName} {start : Nat} {data : CStr}
    (h : Patched w w' q start data) (same : w''.toVolume = w'.toVolume) : Patched w w'' q start data := by
  obtain ⟨now, shared, others⟩ := h
  rw [← same] at now shared others
  exact ⟨now, shared, others⟩

section effects

open Receive

variable {w w' base : World} {path : CStr} {fd : Int} {q : Place FileName} {start : Nat} {data : CStr}

theorem patched_new (room : w.Room q) (volume : base.toVolume = w.add q .regular 0o700)
    (streamed : Streaming base fd (base.inoAt q) start data w') : Patched w w' q start data := by
  have created : base.tree.get q = some (.file w.fresh) := by
    rw [volume, Volume.get_add room, Function.update_self]
    rfl
  have left := streamed.volume
  rw [World.inoAt_file created] at left
  dsimp only at left
  rw [volume, Volume.add_file room] at left
  have seen : ∀ x, w'.seen x = if x = q then some ⟨.file w.fresh, ⟨overwrite [] start data, 0o700⟩⟩
      else w.seen x := by
    intro x
    rw [left, Volume.seen_setFile, Volume.get_add room, Volume.seen_add room]
    by_cases here : x = q
    · have same : some (w.created .regular) = some (.file w.fresh) := rfl
      rw [here, Function.update_self, if_pos same, if_pos rfl]
    · rw [Function.update_of_ne here, if_neg here, if_neg here]
      split
      · rename_i old
        exact absurd (w.used old) (lt_irrefl _)
      · rfl
  refine ⟨?_, ?_, ?_⟩
  · rintro file (⟨ino, there⟩ | ⟨-, rfl⟩)
    · rw [Volume.seen_eq_none.mpr room.absent] at there
      cases there
    · exact ⟨w.fresh, by rw [seen, if_pos rfl]⟩
  · intro x ino there
    rw [room.absent] at there
    cases there
  · intro x apart _
    rw [seen, if_neg apart]

theorem patched_file {ino : Nat} (there : w.tree.get q = some (.file ino))
    (volume : base.toVolume = w.toVolume)
    (streamed : Streaming base fd (base.inoAt q) start data w') : Patched w w' q start data := by
  have there' : base.tree.get q = some (.file ino) := by rw [volume, there]
  have left := streamed.volume
  rw [World.inoAt_file there'] at left
  dsimp only at left
  rw [volume] at left
  have seen : ∀ x, w'.seen x = if w.tree.get x = some (.file ino) then some ⟨.file ino,
      { w.files ino with content := overwrite (w.files ino).content start data }⟩ else w.seen x := by
    intro x
    rw [left, Volume.seen_setFile]
  refine ⟨?_, ?_, ?_⟩
  · rintro file (⟨ino', same⟩ | ⟨absent, -⟩)
    · rw [Volume.seen_file there] at same
      cases same
      exact ⟨ino, by rw [seen, if_pos there]⟩
    · rw [Volume.seen_file there] at absent
      cases absent
  · intro x ino' same shares
    rw [there] at same
    cases same
    rw [seen, seen, if_pos shares, if_pos there]
  · intro x _ apart
    rw [seen, if_neg (apart ino there)]

/-- A write in place changes the file that was opened, and nothing else. -/
theorem patched_of_streaming (opens : w.opens path receiveOpenFlags = some q)
    (opened : base = w.after (.openPath path receiveOpenFlags 0o700) (.ok fd))
    (streamed : Streaming base fd (base.inoAt q) start data w') : Patched w w' q start data := by
  rw [World.after_open opens rfl] at opened
  obtain ⟨-, ⟨absent, -, room⟩ | ⟨o, found, -, plain, unlinked⟩⟩ := World.opens_cases opens
  · refine patched_new room ?_ streamed
    rw [opened, if_pos absent]
    rfl
  · have volume : base.toVolume = w.toVolume := by
      rw [opened, if_neg (by rw [found]; exact Option.some_ne_none o)]
      rfl
    cases o with
    | directory => cases (plain rfl).1
    | link target => exact absurd rfl (unlinked target)
    | file ino => exact patched_file found volume streamed
    | special =>
      have none : base.inoAt q = none := by
        rw [World.inoAt, volume, found]
      have left := streamed.volume
      rw [none] at left
      refine ⟨?_, ?_, fun x _ _ => by rw [left, volume]⟩
      · rintro file (⟨ino, same⟩ | ⟨absent, -⟩)
        · rw [Volume.seen, found] at same
          cases same
        · rw [Volume.seen, found] at absent
          cases absent
      · intro x ino there
        rw [found] at there
        cases there

end effects

def Written (w w' : World) (target : Target) (n : Nat) (data : CStr) : Prop :=
  n = data.length ∧ ∃ q, w.resolve false target.path = .ok q ∧
    (target.offset < 0 → Replaced w w' q data) ∧
    (0 ≤ target.offset → Patched w w' q target.offset.toNat data)

namespace Receive

variable {texts : Texts} {target : Target} {w : World} {notes : CStr} {α : Type}

theorem wp_cleanup {fd lockFd : Int} {k : Unit → Sys α} {existed : Bool} {size : Nat}
    {Q : α → World × CStr → Prop}
    (h : ∀ w', w'.toVolume = w.toVolume → wp (receiving target) (k ()) Q (w', notes)) :
    wp (receiving target) (receiveCleanup target fd lockFd [] existed (.ok size) >>= k) Q (w, notes) := by
  refine wp_bind.mpr ?_
  have closes : (receiveCleanup target fd lockFd [] existed (.ok size)).Calls
      fun c => ∃ f, c = .file f ∧ World.Looks f := by
    refine Calls.bind (Calls.when (Calls.bind (Calls.perform ⟨_, rfl, trivial⟩) fun _ => trivial)) ?_
    refine fun _ => Calls.bind (Calls.when ?_) fun _ => ?_
    · exact Calls.bind (Calls.perform ⟨_, rfl, trivial⟩) fun _ =>
        Calls.bind (Calls.perform ⟨_, rfl, trivial⟩) fun _ => trivial
    · exact trivial
  refine closes.wp_preserving (fun g => g.1.toVolume = w.toVolume ∧ g.2 = notes) ?_ ⟨rfl, rfl⟩ ?_
  · rintro ⟨w', _⟩ _ ⟨f, rfl, looks⟩ ⟨same, rfl⟩
    exact ⟨trivial, fun r => ⟨(World.after_looks looks r).1.trans same, rfl⟩⟩
  · rintro _ ⟨w', _⟩ ⟨same, rfl⟩
    exact h w' same

theorem wp_failed {p : Sys Unit} {k : Unit → Sys α} {a : α} {g : World × CStr}
    {Q : α → World × CStr → Prop} (h : ∀ u, k u = pure a) (hQ : ∀ g, Q a g) :
    wp (receiving target) (p >>= k) Q g := by
  refine wp_bind.mpr (wp_any fun u g => ?_)
  rw [h u]
  exact hQ g

theorem wp_inPlace (inPlace : 0 ≤ target.offset) : wp (receiving target) (receiveIntoFile texts target)
    (fun r g => ∀ n, r.1 = .ok n → Written w g.1 target n g.2) (w, []) := by
  refine wp_file fun destStat _ _ => ?_
  refine wp_bind.mpr ?_
  unfold openTarget
  rw [if_pos inPlace]
  refine wp_file ?_
  rintro (e | fd) opened -
  · exact wp_failed (fun _ => rfl) fun _ n ok => by cases ok
  obtain ⟨q, opens⟩ := Option.ne_none_iff_exists'.mp opened.2
  refine wp_file ?_
  rintro (e | _) - -
  · exact wp_failed (fun _ => rfl) fun _ n ok => by cases ok
  refine wp_sendOk (fun _ _ _ _ => rfl) fun _ => ?_
  refine wp_bind.mpr (wp_mono (wp_recvStream (streaming_opened opens rfl rfl)) ?_)
  rintro ⟨e | n, msg⟩ ⟨w3, data⟩ streamed
  · refine wp_bind.mpr (wp_any fun _ g => ?_)
    rw [wp_ite]
    exact ⟨fun _ n ok => (by cases ok), fun _ n ok => (by cases ok)⟩
  obtain ⟨whole, streamed⟩ := streamed n rfl
  dsimp only
  rw [if_pos rfl]
  refine wp_cleanup fun w4 same => ?_
  rintro n' ⟨⟩
  refine ⟨whole, q, (World.opens_cases opens).1, fun low => absurd inPlace (not_le.mpr low), fun _ => ?_⟩
  exact (patched_of_streaming opens rfl streamed).of_volume same

theorem destMode_eq {q : Place FileName} (led : w.resolve false target.path = .ok q)
    (unlinked : ¬ w.tree.Links q) (destStat : SysResult Stat) :
    w.Answers (.stat target.path) destStat → Finds w (.file (.stat target.path)) destStat →
    (match destStat with
      | .ok st => st.mode &&& 0o777
      | .error _ => 0o700) = keptMode (w.seen q) := by
  intro told found
  have follows := resolve_follow led unlinked
  cases destStat with
  | error e =>
    have absent : w.seen q = none := by
      rw [Volume.seen_eq_none]
      by_contra there
      obtain ⟨o, there⟩ := Option.ne_none_iff_exists'.mp there
      have look := World.look_eq_some.mpr ⟨follows, there⟩
      rw [show w.look true target.path = none from found] at look
      cases look
    rw [absent]
    rfl
  | ok st =>
    obtain ⟨q', o, look, describes⟩ := World.stat_found told
    obtain ⟨led', there⟩ := World.look_eq_some.mp look
    rw [World.resolve, follows] at led'
    cases led'
    have here : w.seen q = some ⟨o, w.contents q o⟩ := Volume.seen_eq_some.mpr ⟨there, rfl⟩
    rw [here]
    cases o with
    | directory => exact congrArg (· &&& 0o777) describes.2
    | file ino => exact congrArg (· &&& 0o777) describes.2.1
    | special => exact congrArg (· &&& 0o777) describes.2.2.2
    | link route => exact absurd ⟨route, there⟩ unlinked

section replacing

variable {base : World} {into : Receiving} {q tq : Place FileName} {data : CStr} {existed : Bool}
  {destMode : Nat}

theorem streaming_staged (staged : Staged w target.path into.tempPath into.fd q tq base) :
    Streaming base into.fd (some w.fresh) 0 [] base := by
  refine ⟨?_, rfl, .rdwr, staged.opened⟩
  dsimp only
  rw [Volume.setFile_eq_self]
  rw [overwrite_nil]

variable (into) in
theorem wp_replaceTarget (staged : Staged w target.path into.tempPath into.fd q tq base) {w3 : World}
    (streamed : Streaming base into.fd (some w.fresh) 0 data w3) (kept : destMode = keptMode (w.seen q)) :
    wp (receiving target) (replaceTarget texts target into destMode existed)
      (fun r g => r = .ok () → g.2 = notes ∧ Replaced w g.1 q data) (w3, notes) := by
  obtain ⟨volume, cwd, access, opened⟩ := streamed
  dsimp only at volume
  rw [staged.temporary.2] at volume
  refine wp_file ?_
  rintro (e | _) - -
  · exact wp_failed (fun _ => rfl) fun _ ok => by cases ok
  rw [World.after_fchmod opened]
  refine wp_file ?_
  rintro (e | _) - -
  · exact wp_failed (fun _ => rfl) fun _ ok => by cases ok
  refine wp_file ?_
  rintro (e | _) answered -
  · exact wp_failed (fun _ => rfl) fun _ ok => by cases ok
  have whole : overwrite [] 0 data = data := overwrite_end [] data
  refine fun _ => ⟨rfl, staged.replaced ?_ cwd answered⟩
  change w3.setFile _ _ = _
  rw [kept, volume, Volume.setFile_setFile, Volume.setFile_self]
  dsimp only
  rw [whole]

end replacing

theorem wp_replaced (whole : target.offset < 0) : wp (receiving target) (receiveIntoFile texts target)
    (fun r g => ∀ n, r.1 = .ok n → Written w g.1 target n g.2) (w, []) := by
  refine wp_file fun destStat told found => ?_
  change wp (receiving target) _ _ (w, [])
  refine wp_bind.mpr ?_
  unfold openTarget
  rw [if_neg (not_le.mpr whole)]
  refine wp_openTempForUpload ?_ (fun e => ?_) (fun e name _ => ?_) ?_
  · exact fun _ _ _ => rfl
  · exact wp_failed (fun _ => rfl) fun _ n ok => by cases ok
  · exact wp_failed (fun _ => rfl) fun _ n ok => by cases ok
  intro fd name tq fills led room
  change wp (receiving target) _ _ (World.install _ fd tq .rdwr, [])
  refine wp_file ?_
  rintro (e | lockFd) opened -
  · exact wp_failed (fun _ => rfl) fun _ n ok => by cases ok
  obtain ⟨q, opens⟩ := Option.ne_none_iff_exists'.mp opened.2
  have staged := staged_of_opens led room opened.1 opens
  refine wp_file ?_
  rintro (e | _) - -
  · exact wp_failed (fun _ => rfl) fun _ n ok => by cases ok
  refine wp_sendOk (fun _ _ _ _ => rfl) fun _ => ?_
  refine wp_bind.mpr (wp_mono (wp_recvStream (streaming_staged staged)) ?_)
  rintro ⟨e | n, msg⟩ ⟨w3, data⟩ streamed
  · refine wp_bind.mpr (wp_any fun _ g => ?_)
    rw [wp_ite]
    exact ⟨fun _ n ok => (by cases ok), fun _ n ok => (by cases ok)⟩
  obtain ⟨length, streamed⟩ := streamed n rfl
  dsimp only
  rw [if_neg fills.named]
  rw [Int.toNat_of_nonpos whole.le] at streamed
  have kept := destMode_eq staged.led staged.unlinked destStat told found
  refine wp_bind.mpr (wp_mono (wp_replaceTarget ⟨fd, lockFd, name⟩ staged streamed ?_) ?_)
  · cases destStat with
    | ok st => exact kept
    | error e => exact kept
  rintro (e | _) ⟨w4, data'⟩ replaced
  · exact fun n ok => by cases ok
  obtain ⟨rfl, replaced⟩ := replaced rfl
  refine wp_cleanup fun w5 same => ?_
  rintro n' ⟨⟩
  exact ⟨length, q, staged.led, fun _ => replaced.of_volume same,
    fun high => absurd high (not_le.mpr whole)⟩

end Receive

section written

open Receive

/-- A write that is answered with a size has written what was sent, and has changed nothing else. -/
theorem receive_written {texts : Texts} {target : Target} {w w' : World} {n : Nat} {msg data : CStr}
    (ended : Ends (receiving target) (receiveIntoFile texts target) (w, []) (.ok n, msg) (w', data)) :
    Written w w' target n data := by
  rcases lt_or_ge target.offset 0 with whole | inPlace
  · exact ended.of_wp (wp_replaced whole) n rfl
  · exact ended.of_wp (wp_inPlace inPlace) n rfl

def mute : Texts := { strerror := fun _ => [], ctime := fun _ => [] }

def noteTarget (offset : Int) : Target where
  path := cstr "/srv/alice/note"
  offset := offset
  dataCode := Command.writeData.code
  endCode := Command.writeEnd.code

/-- The client sends one frame of data, of which two bytes are written at a time, and ends. -/
def sendsBytes (data : CStr) : World × CStr → (c : Call) → c.Reply
  | (_, received), .socket (.recvFrameInto _) =>
    if received = [] ∧ data ≠ [] then .ok ⟨Command.writeData.code, data⟩
    else .ok ⟨Command.writeEnd.code, []⟩
  | (_, _), .file (.write _ rest) => .ok (min 2 rest.length)
  | (w, _), c => w.serves c

theorem receive_written_note :
    (∃ w', Written aliceDisk w' (noteTarget (-1)) 5 (cstr "other")) ∧
    ∃ w', Written aliceDisk w' (noteTarget 6) 5 (cstr "other") := by
  have replaces : (play (receiving (noteTarget (-1))) (sendsBytes (cstr "other")) 60
      (receiveIntoFile mute (noteTarget (-1))) (aliceDisk, [])).any
      (fun r => decide (r.1 = (.ok 5, []) ∧ r.2.2 = cstr "other")) = true := by
    decide +kernel
  have patches : (play (receiving (noteTarget 6)) (sendsBytes (cstr "other")) 60
      (receiveIntoFile mute (noteTarget 6)) (aliceDisk, [])).any
      (fun r => decide (r.1 = (.ok 5, []) ∧ r.2.2 = cstr "other")) = true := by
    decide +kernel
  obtain ⟨_, ⟨w1, _⟩, ended1, rfl, rfl⟩ := exists_of_play 60
    (fun (r : SysResult Nat × CStr) (g : World × CStr) => r = (.ok 5, []) ∧ g.2 = cstr "other") replaces
  obtain ⟨_, ⟨w2, _⟩, ended2, rfl, rfl⟩ := exists_of_play 60
    (fun (r : SysResult Nat × CStr) (g : World × CStr) => r = (.ok 5, []) ∧ g.2 = cstr "other") patches
  exact ⟨⟨w1, receive_written ended1⟩, w2, receive_written ended2⟩

/-- Nothing is sent for the place behind the end, and the gap before it is not filled. -/
theorem empty_write_unfilled : ¬ ∀ {texts : Texts} {target : Target} {w w' : World} {n : Nat}
    {msg data : CStr}, Ends (receiving target) (receiveIntoFile texts target) (w, []) (.ok n, msg)
      (w', data) → 0 ≤ target.offset → ∀ q ino file, w.resolve false target.path = .ok q →
    w.seen q = some ⟨.file ino, file⟩ → ∃ ino', w'.seen q =
      some ⟨.file ino', { file with content := patched file.content target.offset.toNat data }⟩ := by
  intro all
  have ends : (play (receiving (noteTarget 6)) (sendsBytes []) 60
      (receiveIntoFile mute (noteTarget 6)) (aliceDisk, [])).any
      (fun r => decide (r.1 = (.ok 0, []) ∧ r.2.2 = [] ∧
        (r.2.1.seen [note, alice, srv]).map (fun s => s.file.content) = some (cstr "data"))) = true := by
    decide +kernel
  obtain ⟨_, ⟨w', _⟩, ended, rfl, rfl, same⟩ := exists_of_play 60
    (fun (r : SysResult Nat × CStr) (g : World × CStr) => r = (.ok 0, []) ∧ g.2 = [] ∧
      (g.1.seen [note, alice, srv]).map (fun s => s.file.content) = some (cstr "data")) ends
  obtain ⟨ino, filled⟩ := all ended (by decide) [note, alice, srv] 2 ⟨cstr "data", 0o640⟩
    (by decide +kernel) (by decide +kernel)
  dsimp only at same
  rw [filled] at same
  have content : patched (cstr "data") 6 [] = cstr "data" := Option.some.inj same
  exact absurd content (by decide)

end written

end Csap
