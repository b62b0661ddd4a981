import Csap.Reading

/-! What `receive_into_file` does with a file that it changes in place: the file is locked as a whole,
and what arrives is written to it from the offset on. -/

namespace Csap.Kernel

open Prog

inductive Phase
  | start
  | opened
  | locked
  | done
  | failed
deriving DecidableEq, Repr

/-- What such a command knows of its file, what has arrived for it and what has been written. -/
structure Writing where
  phase : Phase
  fd : Int
  pos : Nat
  data : CStr
  written : CStr

def arrived (target : Target) : (c : Call) → c.Reply → CStr
  | .socket (.recvFrameInto _), .ok frame =>
    if frame.command = target.dataCode ∧ frame.command ≠ target.endCode then frame.payload else []
  | _, _ => []

namespace Writing

def start : Writing where
  phase := .start
  fd := -1
  pos := 0
  data := []
  written := []

def may (target : Target) (g : Writing) : Call → Bool
  | .file (.stat _) => g.phase = .start
  | .file (.openPath name flags _) => g.phase = .start && name = target.path && flags ≠ notifyFlags
  | .file (.setlk fd .wrlck start len) => g.phase = .opened && fd = g.fd && start = 0 && len = 0
  | .file (.setlk fd .unlck _ _) => (g.phase = .opened || g.phase = .locked) && fd = g.fd
  | .file (.lseek fd _) => g.phase = .locked && fd = g.fd
  | .file (.write fd _) =>
    g.phase = .locked && fd = g.fd && g.pos = target.offset.toNat + g.written.length
  | .file (.close _) => g.phase = .done || g.phase = .failed
  | .file (.unlink _) => g.phase ≠ .opened && g.phase ≠ .locked
  | .socket (.sendPacket _ _) | .socket (.recvFrameInto _) => true
  | _ => false

def handle (g : Writing) : (c : FileCall) → c.Reply → Writing
  | .openPath _ _ _, .ok fd => { g with phase := .opened, fd }
  | .setlk _ .wrlck _ _, .ok () => { g with phase := .locked }
  | .setlk _ .unlck _ _, _ => { g with phase := if g.phase = .locked then .done else .failed }
  | .lseek _ _, .ok pos => { g with pos := pos.toNat }
  | .write _ data, .ok written =>
    { g with pos := g.pos + written, written := g.written ++ data.take written }
  | _, _ => g

def receive (g : Writing) (data : CStr) : Writing where
  phase := g.phase
  fd := g.fd
  pos := g.pos
  data := g.data ++ data
  written := g.written

def after (target : Target) (g : Writing) : (c : Call) → c.Reply → Writing
  | .file c, r => g.handle c r
  | .socket (.recvFrameInto size), r => g.receive (arrived target (.socket (.recvFrameInto size)) r)
  | _, _ => g

variable {g : Writing} {target : Target}

theorem handle_data (c : FileCall) (r : c.Reply) : (g.handle c r).data = g.data := by
  unfold handle
  split <;> rfl

theorem after_data (c : Call) (r : c.Reply) :
    (g.after target c r).data = g.data ++ arrived target c r := by
  have silent : ∀ {g' : Writing}, g'.data = g.data → g'.data = g.data ++ [] :=
    fun same => same.trans (List.append_nil _).symm
  cases c with
  | file c => exact silent (handle_data c r)
  | socket c =>
    cases c with
    | recvFrameInto size => rfl
    | _ => exact silent rfl
  | _ => exact silent rfl

end Writing

/-- Descriptors, positions and lengths are as the kernel has them. -/
def counts : (c : Call) → c.Reply → Bool
  | .file (.openPath _ _ _), .ok fd => 0 ≤ fd
  | .file (.lseek _ offset), .ok pos => pos = offset
  | .file (.write _ data), .ok written => written ≤ data.length
  | _, _ => true

def writing (target : Target) : Typestate Call.Reply Writing where
  allowed g c := g.may target c = true
  expects _ c r := counts c r = true
  next := Writing.after target

structure Writing.Ready (target : Target) (fd : Int) (g : Writing) : Prop where
  phase : g.phase = .locked
  fd : g.fd = fd
  here : g.pos = target.offset.toNat + g.written.length

/-- A command that succeeds has written all that has arrived, under its lock. -/
def Writing.Succeeds (r : SysResult Nat × CStr) (g : Writing) : Prop :=
  ∀ n, r.1 = .ok n → g.phase = .done ∧ g.written = g.data ∧ n = g.data.length

section receiveIntoFile

variable {texts : Texts} {target : Target} {fd : Int} {g : Writing}

theorem wp_writeOk {payload : CStr} {Q : Int → Writing → Prop} (hQ : ∀ ret, Q ret g) :
    wp (writing target) (sendOk payload) Q g := by
  unfold sendOk sendPacket
  apply wp_ite.mpr
  refine ⟨fun _ => hQ _, fun _ => ?_⟩
  apply wp_perform.mpr
  exact ⟨rfl, fun ret _ => hQ ret⟩

theorem wp_writeFrame {rest : CStr} (ready : g.Ready target fd) (left : g.written ++ rest = g.data) :
    wp (writing target) (writeAll fd rest) (fun r g' => g'.Ready target fd ∧ g'.data = g.data ∧
      (r = .ok () → g'.written = g'.data)) g := by
  unfold writeAll
  apply wp_iterate fun remaining g' => g'.Ready target fd ∧ g'.data = g.data ∧
    g'.written ++ remaining = g'.data
  · exact ⟨ready, rfl, left⟩
  rintro remaining g' ⟨ready, same, left⟩
  apply wp_ite.mpr
  refine ⟨?_, ?_⟩
  · rintro rfl
    exact ⟨ready, same, fun _ => (List.append_nil _).symm.trans left⟩
  · intro _
    refine ⟨?_, ?_⟩
    · change g'.may target (.file (.write fd remaining)) = true
      simp [Writing.may, ready.phase, ready.fd, ready.here]
    intro r counted
    cases r with
    | error e =>
      apply wp_ite.mpr
      refine ⟨fun _ => ⟨ready, same, left⟩, fun _ => ⟨ready, same, ?_⟩⟩
      intro impossible
      cases impossible
    | ok written =>
      have le : written ≤ remaining.length := of_decide_eq_true counted
      refine ⟨⟨ready.phase, ready.fd, ?_⟩, same, ?_⟩
      · change g'.pos + written = _ + (g'.written ++ remaining.take written).length
        rw [List.length_append, List.length_take, Nat.min_eq_left le, ready.here, Nat.add_assoc]
      · change (g'.written ++ remaining.take written) ++ remaining.drop written = g'.data
        rw [List.append_assoc, List.take_append_drop]
        exact left

def Writing.Counted (target : Target) (fd : Int) (got : Received) (g : Writing) : Prop :=
  g.Ready target fd ∧ got.total = g.data.length ∧ (got.writeErr = none → g.written = g.data)

theorem wp_writeFrames (start : g.Counted target fd {}) :
    wp (writing target) (recvFrames texts fd target.dataCode target.endCode)
      (fun r g' => g'.Ready target fd ∧ (r.1 = .ok () → g'.Counted target fd r.2)) g := by
  unfold recvFrames
  apply wp_iterate (Writing.Counted target fd) start
  rintro got g' ⟨ready, total, written⟩
  refine ⟨rfl, ?_⟩
  intro r _
  cases r with
  | error e =>
    -- the stream broke off
    refine ⟨⟨ready.phase, ready.fd, ready.here⟩, ?_⟩
    intro impossible
    cases impossible
  | ok frame =>
  generalize next : (writing target).next g' (.socket (.recvFrameInto Network.CHUNK_SIZE)) (.ok frame) = g''
  have ready' : g''.Ready target fd := by
    rw [← next]
    exact ⟨ready.phase, ready.fd, ready.here⟩
  have same : g''.written = g'.written := by
    rw [← next]
    rfl
  have data : g''.data = g'.data ++ arrived target (.socket (.recvFrameInto Network.CHUNK_SIZE)) (.ok frame) := by
    rw [← next]
    rfl
  apply wp_ite.mpr
  refine ⟨?_, ?_⟩
  · intro stop
    have none : g''.data = g'.data := by
      rw [data, arrived, if_neg fun more => more.2 stop, List.append_nil]
    refine ⟨ready', fun _ => ⟨ready', ?_, ?_⟩⟩
    · rw [none]
      exact total
    · rw [same, none]
      exact written
  intro goes
  have failed : ∀ {e : Errno} {got : Received}, g''.Ready target fd ∧
      (((.error e : SysResult Unit), got).1 = .ok () → g''.Counted target fd got) := by
    intro e got
    refine ⟨ready', ?_⟩
    intro impossible
    cases impossible
  apply wp_ite.mpr
  refine ⟨fun _ => failed, fun _ => ?_⟩
  apply wp_ite.mpr
  refine ⟨fun _ => failed, fun other => ?_⟩
  have more : g''.data = g'.data ++ frame.payload := by
    rw [data, arrived, if_pos ⟨not_ne_iff.mp other, goes⟩]
  have longer : got.total + frame.payload.length = g''.data.length := by
    rw [more, List.length_append, total]
  apply wp_ite.mpr
  refine ⟨?_, ?_⟩
  · intro broken
    refine ⟨ready', longer, ?_⟩
    intro fine
    change got.writeErr = none at fine
    rw [fine] at broken
    cases broken
  · intro fine
    have none : got.writeErr = none := by simpa using fine
    have left : g''.written ++ frame.payload = g''.data := by
      rw [same, written none, more]
    apply wp_bind.mpr
    apply wp_mono (wp_writeFrame ready' left)
    rintro r g₃ ⟨ready, kept, whole⟩
    rw [← kept] at longer
    cases r with
    | error e =>
      refine ⟨ready, longer, ?_⟩
      intro impossible
      cases impossible
    | ok _ => exact ⟨ready, longer, fun _ => whole rfl⟩

theorem wp_writeSeek (phase : g.phase = .locked) (same : g.fd = fd) (pos : g.pos = 0)
    (written : g.written = []) :
    wp (writing target) (seekTo fd target.offset)
      (fun r g' => g'.data = g.data ∧ g'.written = g.written ∧ g'.phase = g.phase ∧ g'.fd = g.fd ∧
        (r = .ok () → g'.Ready target fd)) g := by
  unfold seekTo
  apply wp_ite.mpr
  refine ⟨fun none => ⟨rfl, rfl, rfl, rfl, fun _ => ⟨phase, same, ?_⟩⟩, fun _ => ⟨?_, ?_⟩⟩
  · rw [pos, written, Int.toNat_of_nonpos none]
    rfl
  · change g.may target (.file (.lseek fd target.offset)) = true
    simp [Writing.may, phase, same]
  intro r counted
  cases r with
  | error e =>
    refine ⟨rfl, rfl, rfl, rfl, ?_⟩
    intro impossible
    cases impossible
  | ok position =>
    have there : position = target.offset := of_decide_eq_true counted
    refine ⟨rfl, rfl, rfl, rfl, fun _ => ⟨phase, same, ?_⟩⟩
    change position.toNat = target.offset.toNat + g.written.length
    rw [there, written]
    rfl

theorem wp_writeStream (phase : g.phase = .locked) (same : g.fd = fd) (pos : g.pos = 0)
    (data : g.data = []) (written : g.written = []) :
    wp (writing target) (recvStream texts fd target.offset (-1) target.dataCode target.endCode)
      (fun r g' => g'.phase = .locked ∧ g'.fd = fd ∧
        ∀ n, r.1 = .ok n → g'.written = g'.data ∧ n = g'.data.length) g := by
  have failed : ∀ {e : Errno} {msg : CStr} {g' : Writing}, g'.phase = .locked → g'.fd = fd →
      g'.phase = .locked ∧ g'.fd = fd ∧ ∀ n, ((.error e : SysResult Nat), msg).1 = .ok n →
        g'.written = g'.data ∧ n = g'.data.length := by
    intro e msg g' phase same
    refine ⟨phase, same, ?_⟩
    intro n impossible
    cases impossible
  unfold recvStream
  apply wp_bind.mpr
  apply wp_mono (wp_writeSeek phase same pos written)
  rintro r g' ⟨unread, unwritten, phase', same', sought⟩
  cases r with
  | error e => exact failed (phase'.trans phase) (same'.trans same)
  | ok _ =>
  have empty : g'.written = g'.data := by rw [unread, unwritten, data, written]
  apply wp_bind.mpr
  apply wp_mono (wp_writeFrames ⟨sought rfl, ?_, fun _ => empty⟩)
  · rintro ⟨ended, got⟩ g'' ⟨ready, counted⟩
    cases ended with
    | error e => exact failed ready.phase ready.fd
    | ok _ =>
    obtain ⟨-, total, whole⟩ := counted rfl
    dsimp only
    cases broken : got.writeErr with
    | some e => exact failed ready.phase ready.fd
    | none =>
    dsimp only
    apply wp_ite.mpr
    refine ⟨fun _ => failed ready.phase ready.fd, fun _ => ⟨ready.phase, ready.fd, ?_⟩⟩
    intro n same
    cases same
    exact ⟨whole broken, total⟩
  · rw [unread, data]
    rfl

theorem wp_writeCleanup {existed : Bool} {result : SysResult Nat} (positive : 0 ≤ fd)
    (own : fd = g.fd) (phase : g.phase = .opened ∨ g.phase = .locked) :
    wp (writing target) (receiveCleanup target fd fd [] existed result)
      (fun _ g' => g' = { g with phase := if g.phase = .locked then .done else .failed }) g := by
  generalize left : ({ g with phase := if g.phase = .locked then .done else .failed } : Writing) = g'
  have ended : g'.phase = .done ∨ g'.phase = .failed := by
    rw [← left]
    rcases phase with opened | locked
    · exact .inr (by rw [opened]; rfl)
    · exact .inl (by rw [locked]; rfl)
  have unlock : (writing target).allowed g (.file (.setlk fd .unlck 0 0)) := by
    change g.may target (.file (.setlk fd .unlck 0 0)) = true
    simpa [Writing.may, own] using phase
  have close : (writing target).allowed g' (.file (.close fd)) := by
    change g'.may target (.file (.close fd)) = true
    simpa [Writing.may] using ended
  have remove : (writing target).allowed g' (.file (.unlink target.path)) := by
    change g'.may target (.file (.unlink target.path)) = true
    rcases ended with done | failed
    · simp [Writing.may, done]
    · simp [Writing.may, failed]
  unfold receiveCleanup
  apply wp_bind.mpr
  apply wp_when.mpr
  refine ⟨fun both => absurd rfl both.2, fun _ => ?_⟩
  apply wp_bind.mpr
  apply wp_when.mpr
  refine ⟨fun _ => ?_, fun negative => absurd positive negative⟩
  refine ⟨unlock, ?_⟩
  intro r _
  have after : (writing target).next g (.file (.setlk fd .unlck 0 0)) r = g' := by
    rw [← left]
    cases r <;> rfl
  rw [after]
  refine ⟨close, ?_⟩
  intro r _
  apply wp_bind.mpr
  apply wp_when.mpr
  refine ⟨fun _ => ⟨remove, ?_⟩, fun _ => rfl⟩
  intro r _
  rfl

/-- The file is open, if it could be opened, and nothing has been written. -/
def Writing.Opened : Except (Errno × CStr) Receiving → Writing → Prop
  | .error _, _ => True
  | .ok into, g => 0 ≤ into.fd ∧ into.lockFd = into.fd ∧ into.tempPath = [] ∧
      g = { Writing.start with phase := .opened, fd := into.fd }

theorem wp_writeOpen {existed : Bool} (inPlace : 0 ≤ target.offset) :
    wp (writing target) (openTarget texts target existed) Writing.Opened Writing.start := by
  unfold openTarget
  apply wp_ite.mpr
  refine ⟨fun _ => ?_, fun negative => absurd inPlace negative⟩
  refine ⟨?_, ?_⟩
  · change Writing.may _ _ _ = true
    simp [Writing.may, Writing.start, notifyFlags, receiveOpenFlags]
  intro r counted
  cases r with
  | error e =>
    apply wp_bind.mpr
    unfold receiveCleanup
    apply wp_bind.mpr
    apply wp_when.mpr
    refine ⟨fun _ => ⟨rfl, fun _ _ => trivial⟩, fun _ => trivial⟩
  | ok fd => exact ⟨of_decide_eq_true counted, rfl, rfl, rfl⟩

/-- What `receive_into_file` does with an offset. -/
theorem wp_writeInPlace (texts : Texts) (inPlace : 0 ≤ target.offset) :
    wp (writing target) (receiveIntoFile texts target) Writing.Succeeds Writing.start := by
  have failed : ∀ {e : Errno} {msg : CStr} {g' : Writing}, Writing.Succeeds (.error e, msg) g' := by
    intro e msg g' n impossible
    cases impossible
  unfold receiveIntoFile
  apply wp_call rfl
  intro destStat _
  apply wp_bind.mpr
  apply wp_mono (wp_writeOpen inPlace)
  intro opened g open'
  cases opened with
  | error e => exact failed
  | ok into =>
  obtain ⟨positive, same, unnamed, begun⟩ := open'
  obtain ⟨fd, lockFd, tempPath⟩ := into
  obtain rfl : lockFd = fd := same
  obtain rfl : tempPath = [] := unnamed
  have may : (writing target).allowed g (.file (.setlk lockFd .wrlck 0 0)) := by
    change g.may target (.file (.setlk lockFd .wrlck 0 0)) = true
    simp [Writing.may, begun]
  apply wp_call may
  intro r _
  cases r with
  | error e =>
    apply wp_bind.mpr
    apply wp_mono (wp_writeCleanup positive (by rw [begun]; rfl) (.inl (by rw [begun]; rfl)))
    intro _ _ _
    exact failed
  | ok _ =>
  generalize locked : (writing target).next g (.file (.setlk lockFd .wrlck 0 0)) (.ok ()) = g₁
  have begun : g₁ = { Writing.start with phase := .locked, fd := lockFd } := by
    rw [← locked, begun]
    rfl
  apply wp_bind.mpr
  apply wp_writeOk
  intro _
  have streams : wp (writing target) (recvStream texts lockFd target.offset (-1) target.dataCode target.endCode)
      (fun r g' => g'.phase = .locked ∧ g'.fd = lockFd ∧
        ∀ n, r.1 = .ok n → g'.written = g'.data ∧ n = g'.data.length) g₁ := by
    apply wp_writeStream <;> rw [begun] <;> rfl
  apply wp_bind.mpr
  apply wp_mono streams
  rintro ⟨r, msg⟩ g₂ ⟨phase, same, whole⟩
  have cleanup : ∀ {result : SysResult Nat}, wp (writing target)
      (receiveCleanup target lockFd lockFd [] destStat.isOk result) (fun _ g' => g' = { g₂ with phase := .done }) g₂ := by
    intro result
    apply wp_mono (wp_writeCleanup positive same.symm (.inr phase))
    intro _ g' left
    rwa [if_pos phase] at left
  cases r with
  | error e =>
    apply wp_bind.mpr
    apply wp_mono cleanup
    intro _ _ _
    exact wp_ite.mpr ⟨fun _ => failed, fun _ => failed⟩
  | ok n =>
    apply wp_ite.mpr
    refine ⟨fun _ => ?_, fun named => absurd rfl named⟩
    apply wp_bind.mpr
    apply wp_mono cleanup
    rintro _ _ rfl
    intro m same
    cases same
    exact ⟨rfl, whole n rfl⟩

end receiveIntoFile

end Csap.Kernel
