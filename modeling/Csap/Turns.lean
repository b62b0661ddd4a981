import Csap.ClientMain
import Csap.Dialogue
import Csap.Footprints

/-! Who may say what: a command of the client is answered at once, or the client or the server
streams a file after it. Notifications come at any time the client can tell them from an answer. -/

namespace Csap.Turns

open Prog (wp)
open Network (Packet CHUNK_SIZE)

/-- What follows a command: an answer, or frames of the client or of the server. -/
inductive Kind
  | plain
  | takes (dataCode endCode : UInt8)
  | gives (dataCode endCode : UInt8)
deriving DecidableEq, Repr

def kindOf (code : UInt8) : Kind :=
  match Command.ofCode code with
  | some .write => .takes Command.writeData.code Command.writeEnd.code
  | some .uploadBegin => .takes Command.data.code Command.dataEnd.code
  | some .read => .gives Command.readData.code Command.readEnd.code
  | some .downloadBegin => .gives Command.data.code Command.dataEnd.code
  | some .list => .gives Command.listData.code Command.listEnd.code
  | _ => .plain

inductive Phase
  | idle
  | asked (kind : Kind)
  | uploading (dataCode endCode : UInt8)
  | uploaded
  | downloading (dataCode endCode : UInt8)
deriving DecidableEq, Repr

/-- Where a frame leads that belongs to a stream: it goes on, or ends with its last frame or an error. -/
def framed (dataCode endCode : UInt8) (goes ends : Phase) (packet : Packet) : Option Phase :=
  if CHUNK_SIZE < packet.payload.length ∨ packet.command = RSP_NOTIFY then none
  else if packet.command = endCode ∨ packet.command = RSP_ERR then some ends
  else if packet.command = dataCode then some goes
  else none

theorem framed_cases {dataCode endCode : UInt8} {goes ends : Phase} {packet : Packet}
    (h : (framed dataCode endCode goes ends packet).isSome = true) :
    framed dataCode endCode goes ends packet = some ends ∧
      (packet.command = endCode ∨ packet.command = RSP_ERR) ∨
    framed dataCode endCode goes ends packet = some goes ∧ packet.command = dataCode ∧
      packet.command ≠ endCode ∧ packet.command ≠ RSP_ERR := by
  unfold framed at h ⊢
  split_ifs at h ⊢ with long last data
  · cases h
  · exact .inl ⟨rfl, last⟩
  · exact .inr ⟨rfl, data, not_or.mp last⟩
  · cases h

/-- A stream can be told from its end, from an error and from a notice. -/
structure Streams (dataCode endCode : UInt8) : Prop where
  apart : dataCode ≠ endCode
  plain : dataCode ≠ RSP_ERR
  quiet : dataCode ≠ RSP_NOTIFY ∧ endCode ≠ RSP_NOTIFY

section frames

variable {dataCode endCode : UInt8} {goes ends : Phase} {payload : CStr}

theorem framed_data (streams : Streams dataCode endCode) (short : payload.length ≤ CHUNK_SIZE) :
    framed dataCode endCode goes ends ⟨dataCode, payload⟩ = some goes := by
  rw [framed, if_neg (not_or.mpr ⟨not_lt.mpr short, streams.quiet.1⟩),
    if_neg (not_or.mpr ⟨streams.apart, streams.plain⟩), if_pos rfl]

theorem framed_end (streams : Streams dataCode endCode) :
    framed dataCode endCode goes ends ⟨endCode, []⟩ = some ends := by
  have short : ¬ CHUNK_SIZE < (Packet.mk endCode []).payload.length := Nat.not_lt_zero _
  rw [framed, if_neg (not_or.mpr ⟨short, streams.quiet.2⟩), if_pos (.inl rfl)]

theorem framed_error (short : payload.length ≤ CHUNK_SIZE) :
    framed dataCode endCode goes ends ⟨RSP_ERR, payload⟩ = some ends := by
  have other : ¬ RSP_ERR = RSP_NOTIFY := by decide
  rw [framed, if_neg (not_or.mpr ⟨not_lt.mpr short, other⟩), if_pos (.inr rfl)]

end frames

def clientSpeaks : Phase → Packet → Option Phase
  | .idle, packet =>
    if (Command.ofCode packet.command).isSome then some (.asked (kindOf packet.command)) else none
  | .uploading dataCode endCode, packet =>
    framed dataCode endCode (.uploading dataCode endCode) .uploaded packet
  | _, _ => none

theorem clientSpeaks_idle {packet : Packet} {p : Phase} (h : clientSpeaks .idle packet = some p) :
    p = .asked (kindOf packet.command) := by
  change (if (Command.ofCode packet.command).isSome then _ else _) = some p at h
  split_ifs at h
  exact (Option.some.inj h).symm

/-- Where an `OK` leads. -/
def granted : Phase → Option Phase
  | .asked .plain => some .idle
  | .asked (.takes dataCode endCode) => some (.uploading dataCode endCode)
  | .asked (.gives dataCode endCode) => some (.downloading dataCode endCode)
  | .uploaded => some .idle
  | _ => none

/-- Where an `ERR` leads. -/
def refused : Phase → Option Phase
  | .asked _ | .uploaded => some .idle
  | _ => none

def serverSpeaks : Phase → Packet → Option Phase
  | .uploading _ _, _ => none
  | .downloading dataCode endCode, packet =>
    framed dataCode endCode (.downloading dataCode endCode) .idle packet
  | phase, packet =>
    if packet.command = RSP_NOTIFY then some phase
    else if packet.command = RSP_OK then granted phase
    else if packet.command = RSP_ERR then refused phase
    else none

def protocol : Dialogue.Protocol Phase Packet where
  client := clientSpeaks
  server := serverSpeaks

theorem clientSpeaks_notice {p q : Phase} {m : Packet} (h : clientSpeaks p m = some q) :
    m.command ≠ RSP_NOTIFY := by
  intro notice
  cases p with
  | idle =>
    change (if (Command.ofCode m.command).isSome then _ else _) = some q at h
    rw [notice] at h
    cases h
  | uploading dataCode endCode =>
    change framed _ _ _ _ m = some q at h
    rw [framed, if_pos (.inr notice)] at h
    cases h
  | _ => cases h

/-- While the client has the turn, the server says nothing but notices. -/
theorem notice_of_turn {p q p' : Phase} {m n : Packet} (asks : clientSpeaks p m = some q)
    (speaks : serverSpeaks p n = some p') :
    n.command = RSP_NOTIFY ∧ p' = p ∧ serverSpeaks q n = some q := by
  cases p with
  | idle =>
    obtain rfl := clientSpeaks_idle asks
    change (if n.command = RSP_NOTIFY then _ else _) = some p' at speaks
    split_ifs at speaks with notice
    · cases speaks
      exact ⟨notice, rfl, if_pos notice⟩
    · cases speaks
    · cases speaks
  | uploading dataCode endCode => cases speaks
  | _ => cases asks

theorem turns : protocol.Turns := fun asks speaks => (notice_of_turn asks speaks).2

theorem clientSpeaks_ne_idle (p : Phase) (m : Packet) : clientSpeaks p m ≠ some .idle := by
  intro back
  cases p with
  | idle => cases clientSpeaks_idle back
  | uploading dataCode endCode =>
    change framed _ _ _ _ _ = _ at back
    unfold framed at back
    split_ifs at back <;> cases back
  | _ => cases back

inductive Side
  | client
  | server
deriving DecidableEq, Repr

/-- The phase as one side has it; the server also knows what it has read of a notification. -/
structure Talk where
  side : Side
  phase : Phase
  line : CStr

namespace Talk

def speaks (g : Talk) : Packet → Option Phase :=
  match g.side with
  | .client => clientSpeaks g.phase
  | .server => serverSpeaks g.phase

def hears (g : Talk) : Packet → Option Phase :=
  match g.side with
  | .client => serverSpeaks g.phase
  | .server => clientSpeaks g.phase

def goTo (g : Talk) (next : Option Phase) : Talk := { g with phase := next.getD g.phase }

/-- May the side wait for a packet? Not while it sends frames, nor the client while it gets them. -/
def mayWait (g : Talk) : Bool :=
  match g.side, g.phase with
  | _, .uploading _ _ => false
  | .client, .downloading _ _ => false
  | _, _ => true

def awaitsFrames (g : Talk) : Bool :=
  match g.side, g.phase with
  | .server, .uploading _ _ => true
  | .client, .downloading _ _ => true
  | _, _ => false

def announces (line : CStr) : Prop := line.take 4 = cstr "REQ|"

instance (line : CStr) : Decidable (announces line) := inferInstanceAs (Decidable (_ = _))

/-- What the server may read from its fifo: any line while the answer it owes is to a command without
a stream or ends an upload, only announcements while it owes nothing or the first answer to a command
with a stream, and nothing in the middle of a stream. -/
def reads (g : Talk) (r : SysResult CStr) : Bool :=
  match g.side, g.phase, r with
  | .client, _, _ => true
  | .server, .uploading _ _, _ => false
  | .server, .downloading _ _, _ => false
  | .server, .asked .plain, _ => true
  | .server, .uploaded, _ => true
  | .server, _, .error _ => true
  | .server, _, .ok data =>
    decide ((g.line ++ data).take 4 <+: cstr "REQ|") &&
      (decide (data ≠ [] ∧ data ≠ [10]) || decide (announces g.line))

def may (g : Talk) : Call → Bool
  | .socket (.sendPacket command payload) => (g.speaks ⟨command, payload⟩).isSome
  | .socket .recvPacket => g.mayWait
  | .socket (.recvFrameInto bufCap) => g.awaitsFrames && CHUNK_SIZE ≤ bufCap
  | .socket (.select _) => g.side = .server || g.phase = .idle
  | _ => true

/-- A `read` returns no more than was asked for, and error numbers are `int`s. -/
def fits (count : Nat) : SysResult CStr → Bool
  | .ok data => data.length ≤ count
  | .error e => e.code < 2 ^ 31

/-- The connection stays open, sizes are `off_t`, and no `lseek` fails. -/
def expects (g : Talk) : (c : Call) → c.Reply → Bool
  | .socket (.sendPacket _ _), ret => 0 ≤ ret
  | .socket .recvPacket, packet => (packet.bind g.hears).isSome
  | .socket (.recvFrameInto _), .ok packet => (g.hears packet).isSome
  | .socket (.recvFrameInto _), .error _ => false
  | .file (.read _ count), r => fits count r && (decide (count ≠ 1) || g.reads r)
  | .file (.fstat _), .ok st => st.size < 2 ^ 63
  | .file (.lseek _ _), .error _ => false
  | _, _ => true

def after (g : Talk) : (c : Call) → c.Reply → Talk
  | .socket (.sendPacket command payload), _ => g.goTo (g.speaks ⟨command, payload⟩)
  | .socket .recvPacket, packet => g.goTo (packet.bind g.hears)
  | .socket (.recvFrameInto _), .ok packet => g.goTo (g.hears packet)
  | .socket (.select _), _ => { g with line := [] }
  | .file (.read _ count), .ok data =>
    if g.side = .server ∧ count = 1 then { g with line := g.line ++ data } else g
  | _, _ => g

end Talk

def talking : Typestate Call.Reply Talk where
  allowed g c := g.may c = true
  expects g c r := g.expects c r = true
  next := Talk.after

section rules

variable {g : Talk} {command : UInt8} {payload : CStr} {p : Phase} {dataCode endCode : UInt8}
  {goes ends : Phase} {texts : Texts} {fd offset : Int}

theorem wp_speak {Q : Int → Talk → Prop} (may : g.speaks ⟨command, payload⟩ = some p)
    (long : Network.MAX_PAYLOAD_SIZE < payload.length → Q (-1) g)
    (sent : ∀ ret, 0 ≤ ret → Q ret { g with phase := p }) :
    wp talking (sendPacket command payload) Q g := by
  unfold sendPacket
  apply Prog.wp_ite.mpr
  refine ⟨long, fun _ => ?_⟩
  apply Prog.wp_perform.mpr
  refine ⟨?_, ?_⟩
  · change (g.speaks ⟨command, payload⟩).isSome = true
    rw [may]
    rfl
  · intro ret positive
    have next : talking.next g (.socket (.sendPacket command payload)) ret = { g with phase := p } := by
      change g.goTo (g.speaks ⟨command, payload⟩) = _
      rw [may]
      rfl
    rw [next]
    exact sent ret (of_decide_eq_true positive)

@[reducible] def Silent : Call → Prop
  | .socket _ => False
  | .file (.read _ count) => count ≠ 1
  | _ => True

instance silent_judged : Judged Silent :=
  .avoiding [.read true, .select, .sendPacket, .recvPacket, .recvFrameInto] <| by
    rintro (c | c | c | c | c | c) <;> cases c <;> simp

theorem silent_next {c : Call} (silent : Silent c) (r : c.Reply) : talking.next g c r = g := by
  cases c with
  | socket c => cases silent
  | file c =>
    cases c with
    | read fd count =>
      cases r with
      | error e => rfl
      | ok data => exact if_neg fun both => silent both.2
    | _ => rfl
  | _ => rfl

theorem wp_silent {α : Type} {p : Sys α} {Q : α → Talk → Prop} (h : p.Calls Silent) (hQ : ∀ a, Q a g) :
    wp talking p Q g := by
  apply h.wp _ hQ
  intro c silent
  refine ⟨?_, fun r => silent_next silent r⟩
  cases c with
  | socket c => cases silent
  | _ => rfl

theorem wp_seek {Q : SysResult Unit → Talk → Prop} (hQ : Q (.ok ()) g) :
    wp talking (seekTo fd offset) Q g := by
  unfold seekTo
  apply Prog.wp_ite.mpr
  refine ⟨fun _ => hQ, fun _ => ?_⟩
  refine ⟨rfl, ?_⟩
  intro r expected
  cases r with
  | error e => cases expected
  | ok position => exact hQ

theorem wp_sendBlocks {Q : SysResult Nat → Talk → Prop}
    (frames : g.speaks = framed dataCode endCode g.phase ends) (streams : Streams dataCode endCode)
    (failed : ∀ e : Errno, e.code < 2 ^ 31 → Q (.error e) g)
    (sent : ∀ n, Q (.ok n) g) : wp talking (sendFrames fd dataCode) Q g := by
  unfold sendFrames
  apply Prog.wp_iterate fun _ g' => g = g'
  · rfl
  rintro n _ rfl
  refine ⟨rfl, ?_⟩
  intro r expected
  cases r with
  | error e =>
    apply Prog.wp_ite.mpr
    exact ⟨fun _ => rfl, fun _ => failed e (of_decide_eq_true (Bool.and_eq_true_iff.mp expected).1)⟩
  | ok buffer =>
  have fits : buffer.length ≤ CHUNK_SIZE := of_decide_eq_true (Bool.and_eq_true_iff.mp expected).1
  have same : talking.next g (.file (.read fd CHUNK_SIZE)) (.ok buffer) = g :=
    silent_next (by simp [CHUNK_SIZE]) _
  rw [same]
  apply Prog.wp_ite.mpr
  refine ⟨fun _ => sent n, fun _ => ?_⟩
  have may : g.speaks ⟨dataCode, buffer⟩ = some g.phase := by
    rw [frames, framed_data streams fits]
  apply Prog.wp_bind.mpr
  apply wp_speak may
  · intro long
    have bound : CHUNK_SIZE ≤ Network.MAX_PAYLOAD_SIZE := by decide
    exact absurd (lt_of_lt_of_le long fits) (not_lt.mpr bound)
  · intro ret positive
    apply Prog.wp_ite.mpr
    exact ⟨fun negative => absurd positive (not_le.mpr negative), fun _ => rfl⟩

theorem wp_stream {Q : SysResult Nat → Talk → Prop}
    (frames : g.speaks = framed dataCode endCode g.phase ends) (streams : Streams dataCode endCode)
    (failed : ∀ e : Errno, e.code < 2 ^ 31 → Q (.error e) g)
    (sent : ∀ n, Q (.ok n) { g with phase := ends }) :
    wp talking (sendStream fd offset dataCode endCode) Q g := by
  unfold sendStream
  apply Prog.wp_bind.mpr
  apply wp_seek
  apply Prog.wp_bind.mpr
  apply wp_sendBlocks frames streams
  · intro e small
    exact failed e small
  intro n
  have may : g.speaks ⟨endCode, []⟩ = some ends := by
    rw [frames, framed_end streams]
  apply Prog.wp_bind.mpr
  apply wp_speak may
  · intro long
    cases long
  · intro ret positive
    apply Prog.wp_ite.mpr
    exact ⟨fun negative => absurd positive (not_le.mpr negative), fun _ => sent n⟩

theorem wp_recvBlocks {Q : SysResult Unit × Received → Talk → Prop}
    (frames : g.hears = framed dataCode endCode g.phase ends) (awaits : g.awaitsFrames = true)
    (hQ : ∀ r, Q r { g with phase := ends }) :
    wp talking (recvFrames texts fd dataCode endCode) Q g := by
  unfold recvFrames
  apply Prog.wp_iterate fun _ g' => g = g'
  · rfl
  rintro got _ rfl
  refine ⟨?_, ?_⟩
  · change (g.awaitsFrames && decide (CHUNK_SIZE ≤ CHUNK_SIZE)) = true
    rw [awaits]
    rfl
  intro r expected
  cases r with
  | error e => cases expected
  | ok frame =>
  have next : talking.next g (.socket (.recvFrameInto CHUNK_SIZE)) (.ok frame) = g.goTo (g.hears frame) := rfl
  have heard : (g.hears frame).isSome = true := expected
  rw [next]
  rw [frames] at heard ⊢
  rcases framed_cases heard with ⟨leads, last⟩ | ⟨leads, data, other, good⟩
  · have ended : g.goTo (some ends) = { g with phase := ends } := rfl
    rw [leads, ended]
    apply Prog.wp_ite.mpr
    refine ⟨fun _ => hQ _, fun other => ?_⟩
    apply Prog.wp_ite.mpr
    exact ⟨fun _ => hQ _, fun good => absurd last (not_or.mpr ⟨other, good⟩)⟩
  · have same : g.goTo (some g.phase) = g := rfl
    rw [leads, same]
    apply Prog.wp_ite.mpr
    refine ⟨fun ends => absurd ends other, fun _ => ?_⟩
    apply Prog.wp_ite.mpr
    refine ⟨fun error => absurd error good, fun _ => ?_⟩
    apply Prog.wp_ite.mpr
    refine ⟨fun unknown => absurd data unknown, fun _ => ?_⟩
    apply Prog.wp_ite.mpr
    refine ⟨fun _ => rfl, fun _ => ?_⟩
    apply Prog.wp_bind.mpr
    refine wp_silent (calls_within rfl) ?_
    intro r
    cases r with
    | error e => rfl
    | ok _ => rfl

theorem wp_receive {expectedTotal : Int} {Q : SysResult Nat × CStr → Talk → Prop}
    (frames : g.hears = framed dataCode endCode g.phase ends) (awaits : g.awaitsFrames = true)
    (hQ : ∀ r, Q r { g with phase := ends }) :
    wp talking (recvStream texts fd offset expectedTotal dataCode endCode) Q g := by
  unfold recvStream
  apply Prog.wp_bind.mpr
  apply wp_seek
  apply Prog.wp_bind.mpr
  apply wp_recvBlocks frames awaits
  rintro ⟨ended, got⟩
  cases ended with
  | error e => exact hQ _
  | ok _ =>
  cases written : got.writeErr with
  | some e =>
    simp only [written]
    exact hQ _
  | none =>
    simp only [written]
    apply Prog.wp_ite.mpr
    exact ⟨fun _ => hQ _, fun _ => hQ _⟩

end rules

end Csap.Turns
