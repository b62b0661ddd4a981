import Csap.LocalCalls

/-! What `send_file` does with its file: it is locked from the offset to the end, its size is
announced, and what is read of it is sent. -/

namespace Csap.Kernel

open Prog

inductive Stage
  | start
  | opened
  | locked
  | done
deriving DecidableEq, Repr

/-- What such a command knows of its file, what it has read of it and what it has sent. -/
structure Reading where
  stage : Stage
  fd : Int
  pos : Nat
  size : Option Nat
  data : CStr
  atEnd : Bool
  sent : CStr
  announced : List CStr

def frame (code : UInt8) : Call → Option CStr
  | .socket (.sendPacket command payload) => if command = code then some payload else none
  | _ => none

namespace Reading

def start : Reading where
  stage := .start
  fd := -1
  pos := 0
  size := none
  data := []
  atEnd := false
  sent := []
  announced := []

def may (path : CStr) (offset : Int) (g : Reading) : Call → Bool
  | .file (.openPath name flags _) => g.stage = .start && name = path && flags ≠ notifyFlags
  | .file (.setlk fd .rdlck start len) => g.stage = .opened && fd = g.fd && start = offset && len = 0
  | .file (.setlk _ .unlck _ _) => g.stage = .locked
  | .file (.fstat fd) => g.stage = .locked && fd = g.fd
  | .file (.lseek fd _) => g.stage = .locked && fd = g.fd
  | .file (.read fd count) =>
    g.stage = .locked && fd = g.fd && 0 < count && g.pos = offset.toNat + g.data.length
  | .file (.close _) => g.stage = .opened || g.stage = .done
  | .socket (.sendPacket _ _) => true
  | _ => false

def handle (g : Reading) : (c : FileCall) → c.Reply → Reading
  | .openPath _ _ _, .ok fd => { g with stage := .opened, fd }
  | .setlk _ .rdlck _ _, .ok () => { g with stage := .locked }
  | .setlk _ .unlck _ _, _ => { g with stage := .done }
  | .close _, _ => { g with stage := .done }
  | .fstat _, .ok st => if st.kind = .regular then { g with size := some st.size } else g
  | .lseek _ _, .ok pos => { g with pos := pos.toNat }
  | .read _ _, .ok data =>
    { g with pos := g.pos + data.length, data := g.data ++ data, atEnd := decide (data = []) }
  | _, _ => g

def send (g : Reading) (dataCode : UInt8) (c : Call) : Reading where
  stage := g.stage
  fd := g.fd
  pos := g.pos
  size := g.size
  data := g.data
  atEnd := g.atEnd
  sent := g.sent ++ (frame dataCode c).getD []
  announced := g.announced ++ (frame RSP_OK c).toList

def after (dataCode : UInt8) (g : Reading) : (c : Call) → c.Reply → Reading
  | .file c, r => g.handle c r
  | .socket c, _ => g.send dataCode (.socket c)
  | _, _ => g

variable {g : Reading} {dataCode : UInt8}

theorem handle_sends (c : FileCall) (r : c.Reply) :
    (g.handle c r).sent = g.sent ∧ (g.handle c r).announced = g.announced := by
  unfold handle
  split
  case h_5 => split <;> exact ⟨rfl, rfl⟩
  all_goals exact ⟨rfl, rfl⟩

theorem after_sends (c : Call) (r : c.Reply) :
    (g.after dataCode c r).sent = g.sent ++ (frame dataCode c).getD [] ∧
      (g.after dataCode c r).announced = g.announced ++ (frame RSP_OK c).toList := by
  have silent : ∀ {c : Call}, frame dataCode c = none ∧ frame RSP_OK c = none → ∀ g' : Reading,
      g'.sent = g.sent ∧ g'.announced = g.announced →
      g'.sent = g.sent ++ (frame dataCode c).getD [] ∧
        g'.announced = g.announced ++ (frame RSP_OK c).toList := by
    rintro c ⟨quiet, untold⟩ g' ⟨sent, announced⟩
    rw [quiet, untold, sent, announced]
    exact ⟨(List.append_nil _).symm, (List.append_nil _).symm⟩
  cases c with
  | file c => exact silent ⟨rfl, rfl⟩ _ (handle_sends c r)
  | socket c => exact ⟨rfl, rfl⟩
  | _ => exact silent ⟨rfl, rfl⟩ _ ⟨rfl, rfl⟩

end Reading

/-- A file position is where the process has put it. -/
def seeks : (c : Call) → c.Reply → Bool
  | .file (.lseek _ offset), .ok pos => pos = offset
  | _, _ => true

def reading (path : CStr) (offset : Int) (dataCode : UInt8) : Typestate Call.Reply Reading where
  allowed g c := g.may path offset c = true
  expects _ c r := seeks c r = true
  next := Reading.after dataCode

def announcement (size : Nat) : List CStr :=
  if Network.MAX_PAYLOAD_SIZE < (decimalNat size).length then [] else [decimalNat size]

section sendFile

variable {texts : Texts} {path : CStr} {offset : Int} {dataCode endCode : UInt8} {g : Reading}

theorem wp_readPacket {command : UInt8} {payload : CStr} {Q : Int → Reading → Prop}
    (refused : Network.MAX_PAYLOAD_SIZE < payload.length → Q (-1) g)
    (sent : ¬ Network.MAX_PAYLOAD_SIZE < payload.length →
      ∀ ret, Q ret (g.send dataCode (.socket (.sendPacket command payload)))) :
    wp (reading path offset dataCode) (sendPacket command payload) Q g := by
  unfold sendPacket
  apply wp_ite.mpr
  refine ⟨refused, ?_⟩
  intro fits
  apply wp_perform.mpr
  exact ⟨rfl, fun ret _ => sent fits ret⟩

structure Reading.Copying (offset : Int) (first g : Reading) : Prop where
  stage : g.stage = .locked
  fd : g.fd = first.fd
  size : g.size = first.size
  announced : g.announced = first.announced
  here : g.pos = offset.toNat + g.data.length
  sent : g.sent = g.data

theorem Reading.Copying.send {first : Reading} (dataCode : UInt8)
    (h : Reading.Copying offset first g) (ends : endCode ≠ RSP_OK) :
    Reading.Copying offset first (g.send dataCode (.socket (.sendPacket endCode []))) := by
  refine ⟨h.stage, h.fd, h.size, ?_, h.here, ?_⟩
  · simp [Reading.send, frame, ends, h.announced]
  · simp only [Reading.send, frame, h.sent]
    split_ifs <;> simp

def Reading.Whole (offset : Int) (first : Reading) (r : SysResult Nat) (g : Reading) : Prop :=
  g.stage = .locked ∧ ∀ n, r = .ok n →
    Reading.Copying offset first g ∧ g.atEnd = true ∧ n = g.data.length

theorem wp_sendFrames (apart : dataCode ≠ RSP_OK) (start : Reading.Copying offset g g)
    (empty : g.data = []) :
    wp (reading path offset dataCode) (sendFrames g.fd dataCode) (Reading.Whole offset g) g := by
  have failed : ∀ {e : Errno} {g' : Reading}, g'.stage = .locked →
      Reading.Whole offset g (.error e) g' := by
    intro e g' stage
    refine ⟨stage, ?_⟩
    intro n impossible
    cases impossible
  unfold sendFrames
  apply wp_iterate fun n g' => Reading.Copying offset g g' ∧ n = g'.data.length
  · exact ⟨start, congrArg List.length empty.symm⟩
  rintro n g' ⟨copying, count⟩
  refine ⟨?_, ?_⟩
  · change g'.may path offset (.file (.read g.fd Network.CHUNK_SIZE)) = true
    simp [Reading.may, copying.stage, copying.here, copying.fd, Network.CHUNK_SIZE]
  intro r _
  cases r with
  | error e =>
    apply wp_ite.mpr
    exact ⟨fun _ => ⟨copying, count⟩, fun _ => failed copying.stage⟩
  | ok buffer =>
  apply wp_ite.mpr
  refine ⟨?_, ?_⟩
  · rintro rfl
    refine ⟨copying.stage, ?_⟩
    intro m same
    cases same
    refine ⟨⟨copying.stage, copying.fd, copying.size, copying.announced, ?_, ?_⟩, rfl, ?_⟩
    · change g'.pos + 0 = _ + (g'.data ++ []).length
      rw [List.append_nil]
      exact copying.here
    · exact copying.sent.trans (List.append_nil _).symm
    · exact count.trans (congrArg List.length (List.append_nil _).symm)
  · intro some
    apply wp_bind.mpr
    apply wp_readPacket
    · intro _
      apply wp_ite.mpr
      exact ⟨fun _ => failed copying.stage, fun impossible => absurd (by decide) impossible⟩
    · intro _ ret
      apply wp_ite.mpr
      refine ⟨fun _ => failed copying.stage, fun _ => ⟨⟨copying.stage, copying.fd, copying.size, ?_, ?_, ?_⟩, ?_⟩⟩
      · simp only [Reading.send, frame, if_neg apart, Option.toList_none, List.append_nil]
        exact copying.announced
      · change g'.pos + buffer.length = _ + (g'.data ++ buffer).length
        rw [List.length_append, copying.here, Nat.add_assoc]
      · simp only [Reading.send, frame, if_pos, Option.getD_some]
        exact congrArg (· ++ buffer) copying.sent
      · change n + buffer.length = (g'.data ++ buffer).length
        rw [List.length_append, count]

theorem wp_seekTo (stage : g.stage = .locked) (pos : g.pos = 0) (empty : g.data = [])
    (unsent : g.sent = []) : wp (reading path offset dataCode) (seekTo g.fd offset) (fun r g' =>
      g'.stage = .locked ∧ (r = .ok () → Reading.Copying offset g g' ∧ g'.data = [])) g := by
  unfold seekTo
  apply wp_ite.mpr
  refine ⟨?_, ?_⟩
  · intro none
    refine ⟨stage, fun _ => ⟨⟨stage, rfl, rfl, rfl, ?_, unsent.trans empty.symm⟩, empty⟩⟩
    rw [pos, empty, Int.toNat_of_nonpos none]
    rfl
  · intro _
    refine ⟨?_, ?_⟩
    · change g.may path offset (.file (.lseek g.fd offset)) = true
      simp [Reading.may, stage]
    intro r moved
    cases r with
    | error e =>
      refine ⟨stage, ?_⟩
      intro impossible
      cases impossible
    | ok position =>
      have same : position = offset := of_decide_eq_true moved
      refine ⟨stage, fun _ => ⟨⟨stage, rfl, rfl, rfl, ?_, unsent.trans empty.symm⟩, empty⟩⟩
      change position.toNat = offset.toNat + g.data.length
      rw [same, empty]
      rfl

theorem wp_sendStream (apart : dataCode ≠ RSP_OK) (ends : endCode ≠ RSP_OK) (stage : g.stage = .locked)
    (pos : g.pos = 0) (empty : g.data = []) (unsent : g.sent = []) :
    wp (reading path offset dataCode) (sendStream g.fd offset dataCode endCode) (Reading.Whole offset g) g := by
  have failed : ∀ {e : Errno} {g' : Reading}, g'.stage = .locked →
      Reading.Whole offset g (.error e) g' := by
    intro e g' stage
    refine ⟨stage, ?_⟩
    intro n impossible
    cases impossible
  unfold sendStream
  apply wp_bind.mpr
  apply wp_mono (wp_seekTo stage pos empty unsent)
  rintro r g' ⟨stage, sought⟩
  cases r with
  | error e => exact failed stage
  | ok _ =>
  obtain ⟨copying, empty⟩ := sought rfl
  rw [← copying.fd]
  apply wp_bind.mpr
  apply wp_mono (wp_sendFrames apart ⟨stage, rfl, rfl, rfl, copying.here, copying.sent⟩ empty)
  rintro r g'' ⟨stage, whole⟩
  cases r with
  | error e => exact failed stage
  | ok m =>
  obtain ⟨copied, atEnd, count⟩ := whole m rfl
  apply wp_bind.mpr
  apply wp_readPacket
  · intro long
    cases long
  · intro _ ret
    have kept := copied.send dataCode ends
    apply wp_ite.mpr
    refine ⟨fun _ => failed kept.stage, fun _ => ⟨kept.stage, ?_⟩⟩
    intro n same
    cases same
    refine ⟨⟨kept.stage, kept.fd.trans copying.fd, kept.size.trans copying.size,
      kept.announced.trans copying.announced, kept.here, kept.sent⟩, atEnd, count⟩

theorem wp_readUnlock (fd : Int) (stage : g.stage = .locked) :
    wp (reading path offset dataCode) (sendFileUnlock fd offset)
      (fun _ g' => g' = { g with stage := .done }) g := by
  refine ⟨?_, ?_⟩
  · change g.may path offset (.file (.setlk fd .unlck offset 0)) = true
    simp [Reading.may, stage]
  intro _ _
  exact ⟨rfl, fun _ _ => rfl⟩

/-- A command that succeeds has sent all that it has read, and read to the end. -/
def Reading.Succeeds (offset : Int) (r : SysResult Nat × CStr) (g : Reading) : Prop :=
  ∀ n, r.1 = .ok n → g.stage = .done ∧ g.atEnd = true ∧ g.sent = g.data ∧ n = g.data.length ∧
    ∃ size, g.size = some size ∧ g.announced = announcement (size - offset.toNat)

theorem wp_readFile (texts : Texts) (path : CStr) (offset : Int) (apart : dataCode ≠ RSP_OK) (ends : endCode ≠ RSP_OK) :
    wp (reading path (max offset 0) dataCode) (sendFile texts path offset dataCode endCode)
      (Reading.Succeeds (max offset 0)) Reading.start := by
  have failed : ∀ {e : Errno} {msg : CStr} {g' : Reading},
      Reading.Succeeds (max offset 0) (.error e, msg) g' := by
    intro e msg g' n impossible
    cases impossible
  refine ⟨?_, ?_⟩
  · change Reading.may _ _ _ _ = true
    simp [Reading.may, Reading.start, notifyFlags]
  intro r _
  cases r with
  | error e => exact failed
  | ok fd =>
  have exits : ∀ {e : Errno} {msg : CStr} {g' : Reading}, g'.stage = .locked →
      wp (reading path (max offset 0) dataCode) (do
        sendFileUnlock fd (max offset 0)
        return (.error e, msg)) (Reading.Succeeds (max offset 0)) g' := by
    intro e msg g' stage
    apply wp_bind.mpr
    exact wp_mono (wp_readUnlock fd stage) fun _ _ _ => failed
  refine ⟨?_, ?_⟩
  · change Reading.may _ _ _ _ = true
    simp [Reading.may, reading, Reading.after, Reading.handle]
  intro r _
  cases r with
  | error e => exact ⟨rfl, fun _ _ => failed⟩
  | ok _ =>
  generalize locked : (reading path (max offset 0) dataCode).next _ (.file (.setlk fd .rdlck _ 0)) _ = g
  have begun : g = ⟨.locked, fd, 0, none, [], false, [], []⟩ := locked.symm
  clear locked
  refine ⟨?_, ?_⟩
  · change g.may path (max offset 0) (.file (.fstat fd)) = true
    simp [Reading.may, begun]
  intro r _
  cases r with
  | error e => exact exits (by rw [begun]; rfl)
  | ok statbuf =>
  apply wp_ite.mpr
  refine ⟨?_, ?_⟩
  · intro irregular
    apply exits
    simp [reading, Reading.after, Reading.handle, irregular, begun]
  · intro regular
    have regular := not_not.mp regular
    generalize seen : (reading path (max offset 0) dataCode).next g (.file (.fstat fd)) (.ok statbuf) = g'
    have known : g' = ⟨.locked, fd, 0, some statbuf.size, [], false, [], []⟩ := by
      rw [← seen, begun]
      simp [reading, Reading.after, Reading.handle, regular]
    clear seen
    have told : wp (reading path (max offset 0) dataCode) (sendOk (decimalNat (statbuf.size - (max offset 0).toNat)))
        (fun _ g => g = ⟨.locked, fd, 0, some statbuf.size, [], false, [],
          announcement (statbuf.size - (max offset 0).toNat)⟩) g' := by
      apply wp_readPacket
      · intro long
        rw [known, announcement, if_pos long]
      · intro fits _
        rw [known, announcement, if_neg fits]
        simp [Reading.send, frame, Ne.symm apart]
    apply wp_bind.mpr
    apply wp_mono told
    intro _ g begun
    have streams : wp (reading path (max offset 0) dataCode)
        (sendStream g.fd (max offset 0) dataCode endCode) (Reading.Whole (max offset 0) g) g := by
      apply wp_sendStream apart ends <;> rw [begun]
    rw [show g.fd = fd by rw [begun]] at streams
    apply wp_bind.mpr
    apply wp_mono streams
    rintro r g' ⟨stage, whole⟩
    cases r with
    | error e => exact exits stage
    | ok n =>
      obtain ⟨copied, atEnd, count⟩ := whole n rfl
      apply wp_bind.mpr
      apply wp_mono (wp_readUnlock fd stage)
      rintro _ _ rfl
      intro m same
      cases same
      refine ⟨rfl, atEnd, copied.sent, count, statbuf.size, ?_, ?_⟩
      · exact copied.size.trans (by rw [begun])
      · exact copied.announced.trans (by rw [begun])

end sendFile

end Csap.Kernel
