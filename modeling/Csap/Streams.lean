import Csap.Client
import Csap.Runs

/-! Streams from a file to another process. One end of a transfer reads a file or
writes an output piece by piece, and sends or receives frames over its socket;
what the two ends have in common is a sequence of frames that carries the data. -/

namespace Csap

open Prog
open Network (Transfer Steady Packet wireOf CHUNK_SIZE MAX_PAYLOAD_SIZE)

/-- One end of a transfer: its file with the position in it, what it has written, the outcomes of
its reads and writes to come, and its socket. -/
structure Endpoint where
  file : CStr := []
  pos : Nat := 0
  out : CStr := []
  calls : List Transfer
  socket : Network.Socket

namespace Endpoint

def read (count : Nat) (s : Endpoint) : Option (SysResult CStr × Endpoint) :=
  match s.calls with
  | [] => none
  | .interrupted :: calls => some (.error EINTR, { s with calls })
  | .failed :: calls => some (.error EIO, { s with calls })
  | .moved extra :: calls =>
    let data := (s.file.drop s.pos).take (min (extra + 1) count)
    some (.ok data, { s with calls, pos := s.pos + data.length })

def write (data : CStr) (s : Endpoint) : Option (SysResult Nat × Endpoint) :=
  match s.calls with
  | [] => none
  | .interrupted :: calls => some (.error EINTR, { s with calls })
  | .failed :: calls => some (.error EIO, { s with calls })
  | .moved extra :: calls =>
    let n := min (extra + 1) data.length
    some (.ok n, { s with calls, out := s.out ++ data.take n })

def frameError (rc : Int) : Errno := if rc = EIO.neg then EIO else EPROTO

end Endpoint

/-- The file is open, locked and of known size; the socket is that of `network.c`. -/
def endpoint : Handler Call.Reply Endpoint Unit
  | .file (.openPath _ _ _), _, s => some (.ok 3, s)
  | .file (.setlk _ _ _ _), _, s => some (.ok (), s)
  | .file (.close _), _, s => some (.ok (), s)
  | .file (.fstat _), _, s =>
    some (.ok { kind := .regular, mode := 0o644, size := s.file.length }, s)
  | .file (.lseek _ offset), _, s => some (.ok offset, { s with pos := offset.toNat })
  | .file (.read _ count), _, s => s.read count
  | .file (.write _ data), _, s => s.write data
  | .socket (.sendPacket command payload), _, s =>
    match Network.sendPacket command payload s.socket with
    | none => none
    | some (.error rc) => some (rc, s)
    | some (.ok ((), socket)) => some (0, { s with socket })
  | .socket .recvPacket, _, s =>
    match Network.recvPacket s.socket with
    | none => none
    | some (.error _) => some (none, s)
    | some (.ok (packet, socket)) => some (some packet, { s with socket })
  | .socket (.recvFrameInto bufCap), _, s =>
    match Network.recvFrameInto bufCap s.socket with
    | none => none
    | some (.error rc) => some (.error (Endpoint.frameError rc), s)
    | some (.ok (packet, socket)) => some (.ok packet, { s with socket })
  | .alloc _, _, s => some (true, s)
  | _, _, _ => none

/-- Data frames of at most `CHUNK_SIZE` bytes each, none of them empty, that carry `data`. -/
inductive Frames (dataCode : UInt8) : CStr → List Packet → Prop
  | nil : Frames dataCode [] []
  | cons {chunk data : CStr} {packets : List Packet} : chunk ≠ [] → chunk.length ≤ CHUNK_SIZE →
      Frames dataCode data packets → Frames dataCode (chunk ++ data) (⟨dataCode, chunk⟩ :: packets)

/-- The bytes of a whole stream: its frames and the end frame. -/
def streamOf (packets : List Packet) (endCode : UInt8) : CStr :=
  wireOf packets ++ Packet.encode ⟨endCode, []⟩

theorem chunk_fits {chunk : CStr} (h : chunk.length ≤ CHUNK_SIZE) :
    chunk.length ≤ MAX_PAYLOAD_SIZE :=
  h.trans (by decide)

theorem Frames.length_le {dataCode : UInt8} {data : CStr} {packets : List Packet}
    (h : Frames dataCode data packets) : (wireOf packets).length ≤ 8 * data.length := by
  induction h with
  | nil => simp [wireOf]
  | cons nonempty _ _ ih =>
    have positive := List.length_pos_iff.mpr nonempty
    simp only [wireOf, List.flatMap_cons, List.length_append, Packet.encode_length,
      Network.HDR_SIZE] at ih ⊢
    omega

section sending

variable {s : Endpoint} {Q : Int → Endpoint → Prop}

theorem sendPacket_achieves {command : UInt8} {payload : CStr} {n : Nat}
    (fits : payload.length ≤ MAX_PAYLOAD_SIZE)
    (steady : Steady ((Packet.encode ⟨command, payload⟩).length + n) s.socket.events)
    (h : ∀ events, Steady n events → Q 0
      { s with socket := ⟨s.socket.wire ++ Packet.encode ⟨command, payload⟩, events⟩ }) :
    Achieves endpoint (sendPacket command payload) Q s := by
  obtain ⟨events, sent, left⟩ :=
    Network.sendPacket_steady ⟨command, payload⟩ s.socket.wire fits steady
  have done : endpoint (.socket (.sendPacket command payload)) () s = some (0,
      { s with socket := ⟨s.socket.wire ++ Packet.encode ⟨command, payload⟩, events⟩ }) := by
    simp only [endpoint]
    rw [sent]
  rw [sendPacket, if_neg (Nat.not_lt.mpr fits)]
  exact achieves_perform done (h events left)

/-- What an end has sent: a stream of frames for `data`, with calls and socket still good for
`m` and `n` more moves. -/
structure Sent (dataCode : UInt8) (data : CStr) (m n : Nat) (wire : CStr) (t : Endpoint) :
    Prop where
  frames : ∃ packets, Frames dataCode data packets ∧ t.socket.wire = wire ++ wireOf packets
  calls : Steady m t.calls
  events : Steady n t.socket.events

theorem sendFrames_achieves {fd : Int} {dataCode : UInt8} {m n : Nat}
    (calls : Steady ((s.file.drop s.pos).length + 1 + m) s.calls)
    (events : Steady (8 * (s.file.drop s.pos).length + n) s.socket.events) :
    Achieves endpoint (sendFrames fd dataCode) (fun r t =>
      r = .ok (0 + (s.file.drop s.pos).length) ∧ Sent dataCode (s.file.drop s.pos) m n s.socket.wire t)
      s := by
  unfold sendFrames
  generalize (0 : Nat) = total
  generalize eq : s.calls = outcomes at calls
  induction outcomes generalizing s total with
  | nil =>
    have moves := calls.2
    simp at moves
  | cons outcome outcomes ih =>
    refine achieves_iterate (Achieves.bind ?_)
    cases outcome with
    | failed => exact absurd List.mem_cons_self calls.1
    | interrupted =>
      have done : endpoint (.file (.read fd CHUNK_SIZE)) () s =
          some (.error EINTR, { s with calls := outcomes }) := by
        simp only [endpoint, Endpoint.read, eq]
      refine achieves_perform done (achieves_pure ?_)
      exact @ih { s with calls := outcomes } events total rfl calls.interrupted
    | moved extra =>
      set rest := s.file.drop s.pos with hrest
      set chunk := rest.take (min (extra + 1) CHUNK_SIZE) with hchunk
      have done : endpoint (.file (.read fd CHUNK_SIZE)) () s =
          some (.ok chunk, { s with calls := outcomes, pos := s.pos + chunk.length }) := by
        simp only [endpoint, Endpoint.read, eq]
        rfl
      refine achieves_perform done ?_
      dsimp only
      have moves : Steady (rest.length + m) outcomes := by
        apply Steady.moved
        exact calls.mono (by omega)
      split
      · rename_i empty
        have none : rest = [] := by
          rw [hchunk, List.take_eq_nil_iff] at empty
          rcases empty with zero | none
          · simp [CHUNK_SIZE] at zero
          · exact none
        refine achieves_pure ⟨by simp [none], ⟨[], ?_, by simp [wireOf]⟩, moves.mono (by omega),
          events.mono (by omega)⟩
        rw [none]
        exact .nil
      · rename_i nonempty
        have fits : chunk.length ≤ CHUNK_SIZE := by
          rw [hchunk, List.length_take]
          omega
        have positive := List.length_pos_iff.mpr nonempty
        have bound : chunk.length ≤ rest.length := by
          rw [hchunk, List.length_take]
          omega
        have left : s.file.drop (s.pos + chunk.length) = rest.drop chunk.length := by
          rw [hrest, List.drop_drop]
        have split : chunk ++ rest.drop chunk.length = rest :=
          List.prefix_iff_eq_append.mp (List.take_prefix _ _)
        have packet : (Packet.encode ⟨dataCode, chunk⟩).length = 7 + chunk.length := by
          simp [Packet.encode_length, Network.HDR_SIZE]
        have room : Steady ((Packet.encode ⟨dataCode, chunk⟩).length +
            (8 * (rest.drop chunk.length).length + n)) s.socket.events := by
          refine events.mono ?_
          rw [packet, List.length_drop]
          omega
        refine Achieves.bind (sendPacket_achieves (chunk_fits fits) room fun events' steady => ?_)
        rw [if_neg (by decide)]
        refine achieves_pure ((@ih { s with
          calls := outcomes
          pos := s.pos + chunk.length
          socket := ⟨s.socket.wire ++ Packet.encode ⟨dataCode, chunk⟩, events'⟩ }
          ?_ (total + chunk.length) rfl ?_).mono ?_)
        · simp only [left]
          exact steady
        · simp only [left, List.length_drop]
          exact moves.mono (by omega)
        · rintro r t ⟨rfl, sent⟩
          simp only [left] at sent ⊢
          obtain ⟨⟨packets, frames, wire⟩, calls', events''⟩ := sent
          refine ⟨?_, ⟨⟨_, split ▸ frames.cons nonempty fits, ?_⟩, calls', events''⟩⟩
          · rw [List.length_drop, Nat.add_assoc, Nat.add_sub_cancel' bound]
          · rw [wire, List.append_assoc]
            rfl

theorem seekTo_achieves {fd offset : Int} {Q : SysResult Unit → Endpoint → Prop} (start : s.pos = 0)
    (h : Q (.ok ()) { s with pos := offset.toNat }) : Achieves endpoint (seekTo fd offset) Q s := by
  unfold seekTo
  split
  · rename_i none
    have same : s.pos = offset.toNat := by omega
    refine achieves_pure ?_
    rw [← same] at h
    exact h
  · have done : endpoint (.file (.lseek fd offset)) () s =
        some (.ok offset, { s with pos := offset.toNat }) := rfl
    exact Achieves.bind (achieves_perform done (achieves_pure h))

theorem sendEnd_achieves {endCode : UInt8} {n : Nat} {Q : Int → Endpoint → Prop}
    (steady : Steady (Network.HDR_SIZE + n) s.socket.events)
    (h : ∀ events, Steady n events → Q 0
      { s with socket := ⟨s.socket.wire ++ Packet.encode ⟨endCode, []⟩, events⟩ }) :
    Achieves endpoint (sendPacket endCode []) Q s :=
  sendPacket_achieves (Nat.zero_le _) (by simpa [Packet.encode_length] using steady) h

theorem sendStream_achieves {fd offset : Int} {dataCode endCode : UInt8} {n : Nat}
    (start : s.pos = 0) (calls : Steady ((s.file.drop offset.toNat).length + 1) s.calls)
    (events : Steady (8 * (s.file.drop offset.toNat).length + (Network.HDR_SIZE + n))
      s.socket.events) :
    Achieves endpoint (sendStream fd offset dataCode endCode) (fun r t =>
      r = .ok (s.file.drop offset.toNat).length ∧ ∃ packets,
        Frames dataCode (s.file.drop offset.toNat) packets ∧
        t.socket.wire = s.socket.wire ++ streamOf packets endCode) s := by
  unfold sendStream
  refine Achieves.bind (seekTo_achieves start (Achieves.bind ?_))
  have sent := @sendFrames_achieves { s with pos := offset.toNat } fd dataCode 0 _ calls events
  refine sent.mono ?_
  rintro r t ⟨rfl, ⟨packets, frames, wire⟩, -, left⟩
  refine Achieves.bind (sendEnd_achieves left fun events' _ => ?_)
  refine achieves_pure ⟨by simp, packets, frames, ?_⟩
  rw [wire, streamOf, List.append_assoc]

theorem sendChunks_achieves {buf : CStr} {dataCode : UInt8} {n : Nat}
    (events : Steady (8 * buf.length + n) s.socket.events) :
    Achieves endpoint (sendChunks buf dataCode) (fun r t => r = true ∧ ∃ packets,
      Frames dataCode buf packets ∧ t.socket.wire = s.socket.wire ++ wireOf packets ∧
      Steady n t.socket.events) s := by
  unfold sendChunks
  generalize size : buf.length = length
  induction length using Nat.strong_induction_on generalizing buf s with
  | _ length ih =>
    refine achieves_iterate ?_
    split
    · rename_i empty
      subst empty
      exact achieves_pure ⟨rfl, [], .nil, by simp [wireOf], events.mono (by omega)⟩
    · rename_i nonempty
      have positive := List.length_pos_iff.mpr nonempty
      set chunk := buf.take CHUNK_SIZE with hchunk
      have length : chunk.length = min CHUNK_SIZE buf.length := List.length_take
      have some : 0 < CHUNK_SIZE := by decide
      have fits : chunk.length ≤ CHUNK_SIZE := by omega
      have nonempty' : chunk ≠ [] := List.length_pos_iff.mp (by omega)
      have packet : (Packet.encode ⟨dataCode, chunk⟩).length = 7 + chunk.length := by
        simp [Packet.encode_length, Network.HDR_SIZE]
      have room : Steady ((Packet.encode ⟨dataCode, chunk⟩).length +
          (8 * (buf.drop CHUNK_SIZE).length + n)) s.socket.events := by
        refine events.mono ?_
        rw [packet, List.length_drop]
        omega
      refine Achieves.bind (sendPacket_achieves (chunk_fits fits) room fun events' steady => ?_)
      rw [if_neg (by decide)]
      refine achieves_pure ((@ih (buf.drop CHUNK_SIZE).length ?_ { s with
        socket := ⟨s.socket.wire ++ Packet.encode ⟨dataCode, chunk⟩, events'⟩ } _ steady rfl).mono ?_)
      · rw [List.length_drop]
        omega
      · rintro r t ⟨rfl, packets, frames, wire, left⟩
        have whole : chunk ++ buf.drop CHUNK_SIZE = buf := List.take_append_drop _ _
        refine ⟨rfl, _, whole ▸ frames.cons nonempty' fits, ?_, left⟩
        rw [wire, List.append_assoc]
        rfl

theorem sendStreamBuf_achieves {buf : CStr} {dataCode endCode : UInt8} {n : Nat}
    (events : Steady (8 * buf.length + (Network.HDR_SIZE + n)) s.socket.events) :
    Achieves endpoint (sendStreamBuf buf dataCode endCode) (fun r t => r = .ok buf.length ∧
      ∃ packets, Frames dataCode buf packets ∧
        t.socket.wire = s.socket.wire ++ streamOf packets endCode) s := by
  unfold sendStreamBuf
  refine Achieves.bind ((sendChunks_achieves events).mono ?_)
  rintro r t ⟨rfl, packets, frames, wire, left⟩
  refine Achieves.bind (sendEnd_achieves left fun events' _ => ?_)
  refine achieves_pure ⟨rfl, packets, frames, ?_⟩
  rw [wire, streamOf, List.append_assoc]

end sending

section receiving

variable {s : Endpoint}

theorem writeAll_achieves {fd : Int} {buf : CStr} {n : Nat}
    (calls : Steady (buf.length + n) s.calls) {Q : SysResult Unit → Endpoint → Prop}
    (h : ∀ calls, Steady n calls → Q (.ok ()) { s with out := s.out ++ buf, calls }) :
    Achieves endpoint (writeAll fd buf) Q s := by
  unfold writeAll
  generalize eq : s.calls = outcomes at calls
  induction outcomes generalizing s buf with
  | nil =>
    have none : buf.length + n = 0 := Nat.le_zero.mp calls.2
    obtain rfl : buf = [] := List.length_eq_zero_iff.mp (by omega)
    refine achieves_iterate ?_
    rw [if_pos rfl]
    refine achieves_pure ?_
    have done := h s.calls (by rw [eq]; exact calls.mono (by omega))
    rwa [List.append_nil] at done
  | cons outcome outcomes ih =>
    refine achieves_iterate ?_
    split
    · rename_i empty
      subst empty
      refine achieves_pure ?_
      have done := h s.calls (by rw [eq]; exact calls.mono (by omega))
      rwa [List.append_nil] at done
    · rename_i nonempty
      have positive := List.length_pos_iff.mpr nonempty
      refine Achieves.bind ?_
      cases outcome with
      | failed => exact absurd List.mem_cons_self calls.1
      | interrupted =>
        have done : endpoint (.file (.write fd buf)) () s =
            some (.error EINTR, { s with calls := outcomes }) := by
          simp only [endpoint, Endpoint.write, eq]
        refine achieves_perform done (achieves_pure ?_)
        exact @ih { s with calls := outcomes } buf h rfl calls.interrupted
      | moved extra =>
        set written := min (extra + 1) buf.length with hwritten
        have done : endpoint (.file (.write fd buf)) () s = some (.ok written,
            { s with calls := outcomes, out := s.out ++ buf.take written }) := by
          simp only [endpoint, Endpoint.write, eq]
          rfl
        refine achieves_perform done (achieves_pure ?_)
        refine @ih { s with calls := outcomes, out := s.out ++ buf.take written }
          (buf.drop written) (fun calls steady => ?_) rfl ?_
        · have done := h calls steady
          rw [← List.take_append_drop written buf, ← List.append_assoc] at done
          exact done
        · apply Steady.moved
          refine calls.mono ?_
          rw [List.length_drop]
          omega

theorem recvFrame_achieves {bufCap n : Nat} {packet : Packet} {wire : CStr}
    {Q : SysResult Packet → Endpoint → Prop} (fits : packet.payload.length ≤ bufCap)
    (limit : packet.payload.length ≤ MAX_PAYLOAD_SIZE) (here : s.socket.wire = packet.encode ++ wire)
    (steady : Steady (packet.encode.length + n) s.socket.events)
    (h : ∀ events, Steady n events → Q (.ok packet) { s with socket := ⟨wire, events⟩ }) :
    Achieves endpoint (socketCall (.recvFrameInto bufCap)) Q s := by
  obtain ⟨events, read, left⟩ := Network.recvFrameInto_steady packet wire fits limit steady
  have done : endpoint (.socket (.recvFrameInto bufCap)) () s =
      some (.ok packet, { s with socket := ⟨wire, events⟩ }) := by
    simp only [endpoint]
    rw [show s.socket = ⟨packet.encode ++ wire, s.socket.events⟩ by rw [← here], read]
  exact achieves_perform done (h events left)

theorem recvFrames_achieves {texts : Texts} {fd : Int} {dataCode endCode : UInt8} {data wire : CStr}
    {packets : List Packet} {m n : Nat} (frames : Frames dataCode data packets)
    (ends : dataCode ≠ endCode) (error : dataCode ≠ RSP_ERR)
    (here : s.socket.wire = streamOf packets endCode ++ wire)
    (calls : Steady (data.length + m) s.calls)
    (events : Steady ((streamOf packets endCode).length + n) s.socket.events) :
    Achieves endpoint (recvFrames texts fd dataCode endCode) (fun r t =>
      r = (.ok (), { total := 0 + data.length }) ∧ t.out = s.out ++ data ∧
        t.socket.wire = wire ∧ Steady m t.calls ∧ Steady n t.socket.events) s := by
  unfold recvFrames
  generalize (0 : Nat) = total
  induction frames generalizing s total with
  | nil =>
    have split : s.socket.wire = Packet.encode ⟨endCode, []⟩ ++ wire := by
      simpa [streamOf, wireOf] using here
    have room : Steady ((Packet.encode ⟨endCode, []⟩).length + n) s.socket.events := by
      simpa [streamOf, wireOf] using events
    refine achieves_iterate (Achieves.bind (recvFrame_achieves (Nat.zero_le _) (Nat.zero_le _) split
      room fun events' steady => ?_))
    dsimp only
    rw [if_pos rfl]
    exact achieves_pure ⟨rfl, by simp, rfl, calls.mono (by omega), steady⟩
  | @cons chunk data packets nonempty fits _ ih =>
    have split : s.socket.wire =
        Packet.encode ⟨dataCode, chunk⟩ ++ (streamOf packets endCode ++ wire) := by
      rw [here]
      simp [streamOf, wireOf]
    have room : Steady ((Packet.encode ⟨dataCode, chunk⟩).length +
        ((streamOf packets endCode).length + n)) s.socket.events := by
      refine events.mono ?_
      simp [streamOf, wireOf]
      omega
    refine achieves_iterate (Achieves.bind (recvFrame_achieves fits (chunk_fits fits) split room
      fun events' steady => ?_))
    dsimp only
    rw [if_neg ends, if_neg error, if_neg (not_not.mpr rfl), if_neg (by simp)]
    have writes : Steady (chunk.length + (data.length + m)) s.calls := by
      refine calls.mono ?_
      rw [List.length_append]
      omega
    refine Achieves.bind (@writeAll_achieves
      { s with socket := ⟨streamOf packets endCode ++ wire, events'⟩ } fd chunk _ writes _
      fun calls' left => achieves_pure ?_)
    refine (@ih { s with
      out := s.out ++ chunk
      calls := calls'
      socket := ⟨streamOf packets endCode ++ wire, events'⟩ } rfl left steady
      (total + chunk.length)).mono ?_
    rintro r t ⟨rfl, out, wire, left⟩
    refine ⟨?_, ?_, wire, left⟩
    · rw [List.length_append, Nat.add_assoc]
    · rw [out, List.append_assoc]

/-- A stream is received whole: what it carries is written, and the socket is left after its end. -/
theorem recvStream_achieves {texts : Texts} {fd offset expectedTotal : Int}
    {dataCode endCode : UInt8} {data wire : CStr} {packets : List Packet} {n : Nat}
    (frames : Frames dataCode data packets) (ends : dataCode ≠ endCode)
    (error : dataCode ≠ RSP_ERR) (expected : expectedTotal < 0 ∨ expectedTotal = data.length)
    (start : s.pos = 0) (here : s.socket.wire = streamOf packets endCode ++ wire)
    (calls : Steady data.length s.calls)
    (events : Steady ((streamOf packets endCode).length + n) s.socket.events) :
    Achieves endpoint (recvStream texts fd offset expectedTotal dataCode endCode) (fun r t =>
      r = (.ok data.length, []) ∧ t.out = s.out ++ data ∧ t.socket.wire = wire ∧
        Steady n t.socket.events) s := by
  unfold recvStream
  refine Achieves.bind (seekTo_achieves start (Achieves.bind ?_))
  refine (@recvFrames_achieves { s with pos := offset.toNat } texts fd dataCode endCode data wire
    packets 0 n frames ends error here calls events).mono ?_
  rintro r t ⟨rfl, out, wire, -, steady⟩
  dsimp only
  rw [if_neg (by omega)]
  exact achieves_pure ⟨by simp, out, wire, steady⟩

theorem recvPacket_achieves {n : Nat} {packet : Packet} {wire : CStr}
    {Q : Option Packet → Endpoint → Prop} (limit : packet.payload.length ≤ MAX_PAYLOAD_SIZE)
    (here : s.socket.wire = packet.encode ++ wire)
    (steady : Steady (packet.encode.length + n) s.socket.events)
    (h : ∀ events, Steady n events → Q (some packet) { s with socket := ⟨wire, events⟩ }) :
    Achieves endpoint (socketCall .recvPacket) Q s := by
  obtain ⟨events, read, left⟩ := Network.Reader.packet.steady packet wire limit steady
  have done : endpoint (.socket .recvPacket) () s =
      some (some packet, { s with socket := ⟨wire, events⟩ }) := by
    simp only [endpoint]
    rw [show s.socket = ⟨packet.encode ++ wire, s.socket.events⟩ by rw [← here], read]
  exact achieves_perform done (h events left)

end receiving

/-- An end that has not moved in its file, with enough reads or writes and enough moves of its
socket to come: any of them may be interrupted or short, none fails. -/
structure Ready (s : Endpoint) (calls moves : Nat) : Prop where
  pos : s.pos = 0
  calls : Steady calls s.calls
  moves : Steady moves s.socket.events

/-- Whoever receives the stream with these codes writes `data` and stops behind it, unless it
expects another size. -/
def Carries (dataCode endCode : UInt8) (data stream : CStr) : Prop :=
  ∀ (texts : Texts) (fd offset expectedTotal : Int) (s : Endpoint) (wire : CStr),
    Ready s data.length stream.length → s.socket.wire = stream ++ wire →
    (expectedTotal < 0 ∨ expectedTotal = data.length) →
    Achieves endpoint (recvStream texts fd offset expectedTotal dataCode endCode) (fun r t =>
      r = (.ok data.length, []) ∧ t.out = s.out ++ data ∧ t.socket.wire = wire) s

theorem Frames.carries {dataCode endCode : UInt8} {data : CStr} {packets : List Packet}
    (frames : Frames dataCode data packets) (ends : dataCode ≠ endCode)
    (error : dataCode ≠ RSP_ERR) : Carries dataCode endCode data (streamOf packets endCode) := by
  intro texts fd offset expectedTotal s wire ready here expected
  refine (@recvStream_achieves s texts fd offset expectedTotal dataCode endCode data wire packets 0
    frames ends error expected ready.pos here ready.calls ready.moves).mono ?_
  rintro r t ⟨rfl, out, wire, -⟩
  exact ⟨rfl, out, wire⟩

/-- What a sender has to have: eight moves for a byte of data, and those of the end frame. -/
def movesFor (data : CStr) : Nat := 8 * data.length + Network.HDR_SIZE

section announcing

variable {c : CStr} {dataCode endCode : UInt8}

def announced (data : CStr) : CStr := Packet.encode ⟨RSP_OK, decimalNat data.length⟩

theorem decimalNat_fits {n : Nat} (h : (n : Int) ≤ LONG_MAX) :
    (decimalNat n).length ≤ MAX_PAYLOAD_SIZE := by
  by_contra long
  have large : 10 ^ (18 + 1) ≤ n := pow_le_of_decimalNat
    (lt_of_le_of_lt (by decide : 18 + 1 ≤ MAX_PAYLOAD_SIZE) (not_le.mp long))
  simp only [LONG_MAX] at h
  omega

theorem sendFile_achieves {s : Endpoint} {texts : Texts} {path : CStr} {k : Int}
    (here : s.file = c) (size : (c.length : Int) ≤ LONG_MAX)
    (ready : Ready s ((c.drop k.toNat).length + 1)
      ((announced (c.drop k.toNat)).length + movesFor (c.drop k.toNat))) :
    Achieves endpoint (sendFile texts path k dataCode endCode) (fun r t =>
      r = (.ok (c.drop k.toNat).length, []) ∧ ∃ packets, Frames dataCode (c.drop k.toNat) packets ∧
        t.socket.wire = s.socket.wire ++ (announced (c.drop k.toNat) ++ streamOf packets endCode))
      s := by
  subst here
  have position : (max k 0).toNat = k.toNat := by omega
  have length : s.file.length - k.toNat = (s.file.drop k.toNat).length := List.length_drop.symm
  unfold sendFile
  refine Achieves.bind (achieves_call rfl ?_)
  refine Achieves.bind (achieves_call rfl ?_)
  refine Achieves.bind (achieves_call rfl ?_)
  dsimp only
  rw [if_neg (by simp), position, length]
  have fits : (decimalNat (s.file.drop k.toNat).length).length ≤ MAX_PAYLOAD_SIZE := by
    refine decimalNat_fits ?_
    rw [List.length_drop]
    omega
  refine Achieves.bind (sendPacket_achieves fits ready.moves fun events steady => ?_)
  have sent := @sendStream_achieves { s with
    socket := { wire := s.socket.wire ++ announced (s.file.drop k.toNat), events } } 3 (max k 0)
    dataCode endCode 0 ready.pos
  rw [position] at sent
  have done := sent ready.calls steady
  refine Achieves.bind (done.mono ?_)
  rintro r t ⟨rfl, packets, frames, wire⟩
  refine Achieves.bind (Achieves.bind (achieves_call rfl ?_))
  refine Achieves.bind (achieves_call rfl (achieves_pure (achieves_pure ?_)))
  refine ⟨rfl, packets, frames, ?_⟩
  rw [wire, List.append_assoc]

theorem recvResponse_achieves {s : Endpoint} {payload wire : CStr} {n : Nat}
    {Q : Option Response → Endpoint → Prop} (limit : payload.length ≤ MAX_PAYLOAD_SIZE)
    (here : s.socket.wire = Packet.encode ⟨RSP_OK, payload⟩ ++ wire)
    (steady : Steady ((Packet.encode ⟨RSP_OK, payload⟩).length + n) s.socket.events)
    (h : ∀ events, Steady n events →
      Q (some { out := payload.take 63, outLen := payload.length })
        { s with socket := ⟨wire, events⟩ }) :
    Achieves endpoint (recvResponse 64) Q s := by
  unfold recvResponse
  refine achieves_iterate (Achieves.bind (recvPacket_achieves limit here steady
    fun events left => ?_))
  dsimp only
  rw [if_neg (by decide), if_pos rfl]
  refine achieves_pure ?_
  have same : payload.take (min payload.length (64 - 1)) = payload.take 63 := by
    simp [min_comm]
  rw [if_pos (by decide), same]
  exact h events left

theorem receiveCommandStream_achieves {s : Endpoint} {texts : Texts} {command : Command} {fd : Int}
    {data stream wire : CStr}
    (carries : Carries (answerCodes command).1 (answerCodes command).2 data stream)
    (size : (data.length : Int) ≤ LONG_MAX)
    (here : s.socket.wire = announced data ++ (stream ++ wire))
    (ready : Ready s data.length ((announced data).length + stream.length)) :
    Achieves endpoint (receiveCommandStream texts command fd) (fun r t =>
      r = true ∧ t.out = s.out ++ data ∧ t.socket.wire = wire) s := by
  unfold receiveCommandStream
  refine Achieves.bind (recvResponse_achieves (decimalNat_fits size) here ready.moves
    fun events left => ?_)
  refine Achieves.bind ((carries texts fd (-1) _ { s with socket := ⟨stream ++ wire, events⟩ } wire
    ⟨ready.pos, ready.calls, left⟩ rfl (expectedTotal_decimalNat data.length)).mono ?_)
  rintro r t ⟨rfl, out, wire⟩
  exact achieves_pure ⟨rfl, out, wire⟩

end announcing

/-- The client that asked with `command` writes `data` and stops behind the answer. -/
def Answers (command : Command) (data answer : CStr) : Prop :=
  ∀ (texts : Texts) (fd : Int) (s : Endpoint) (wire : CStr),
    Ready s data.length answer.length → s.socket.wire = answer ++ wire →
    Achieves endpoint (receiveCommandStream texts command fd) (fun r t =>
      r = true ∧ t.out = s.out ++ data ∧ t.socket.wire = wire) s

theorem Carries.answers {command : Command} {data stream : CStr}
    (carries : Carries (answerCodes command).1 (answerCodes command).2 data stream)
    (size : (data.length : Int) ≤ LONG_MAX) : Answers command data (announced data ++ stream) := by
  intro texts fd s wire ready here
  refine receiveCommandStream_achieves carries size ?_ ?_
  · rw [here, List.append_assoc]
  · rw [← List.length_append]
    exact ready

theorem answerCodes_ne (command : Command) :
    (answerCodes command).1 ≠ (answerCodes command).2 ∧ (answerCodes command).1 ≠ RSP_ERR := by
  unfold answerCodes
  split_ifs <;> decide

/-- Whatever pieces the file is read in and the socket moves, and whichever function sends it;
a size that is announced is the one the client finds. -/
theorem stream_round_trip (c : CStr) (k : Int) (dataCode endCode : UInt8)
    (ends : dataCode ≠ endCode) (error : dataCode ≠ RSP_ERR) :
    (∀ (fd : Int) (s : Endpoint), s.file = c →
      Ready s ((c.drop k.toNat).length + 1) (movesFor (c.drop k.toNat)) →
      Achieves endpoint (sendStream fd k dataCode endCode) (fun r t =>
        r = .ok (c.drop k.toNat).length ∧ ∃ stream, t.socket.wire = s.socket.wire ++ stream ∧
          Carries dataCode endCode (c.drop k.toNat) stream) s) ∧
    (∀ (s : Endpoint), Ready s 0 (movesFor (c.drop k.toNat)) →
      Achieves endpoint (sendStreamBuf (c.drop k.toNat) dataCode endCode) (fun r t =>
        r = .ok (c.drop k.toNat).length ∧ ∃ stream, t.socket.wire = s.socket.wire ++ stream ∧
          Carries dataCode endCode (c.drop k.toNat) stream) s) ∧
    (∀ (texts : Texts) (path : CStr) (command : Command) (s : Endpoint), s.file = c →
      (c.length : Int) ≤ LONG_MAX →
      Ready s ((c.drop k.toNat).length + 1)
        ((announced (c.drop k.toNat)).length + movesFor (c.drop k.toNat)) →
      Achieves endpoint
        (sendFile texts path k (answerCodes command).1 (answerCodes command).2) (fun r t =>
          r = (.ok (c.drop k.toNat).length, []) ∧ ∃ answer,
            t.socket.wire = s.socket.wire ++ answer ∧
            Answers command (c.drop k.toNat) answer) s) := by
  refine ⟨?_, ?_, ?_⟩
  · rintro fd s rfl ready
    refine (@sendStream_achieves s fd k dataCode endCode 0 ready.pos ready.calls
      ready.moves).mono ?_
    rintro r t ⟨rfl, packets, frames, wire⟩
    exact ⟨rfl, _, wire, frames.carries ends error⟩
  · intro s ready
    refine (@sendStreamBuf_achieves s _ dataCode endCode 0 ready.moves).mono ?_
    rintro r t ⟨rfl, packets, frames, wire⟩
    exact ⟨rfl, _, wire, frames.carries ends error⟩
  · rintro texts path command s rfl size ready
    refine (sendFile_achieves rfl size ready).mono ?_
    rintro r t ⟨rfl, packets, frames, wire⟩
    have small : ((s.file.drop k.toNat).length : Int) ≤ LONG_MAX := by
      rw [List.length_drop]
      omega
    obtain ⟨ends, error⟩ := answerCodes_ne command
    exact ⟨rfl, _, wire, (frames.carries ends error).answers small⟩

/-- A file of five bytes, read and sent a byte at a time with an interruption before each step. -/
def slowSender : Endpoint where
  file := cstr "hello"
  calls := (List.replicate 4 [.interrupted, .moved 0]).flatten
  socket := ⟨[], (List.replicate 39 [.interrupted, .moved 0]).flatten⟩

theorem slowSender_ready : Ready slowSender 4 39 := by
  refine ⟨rfl, ?_, ?_⟩ <;> exact ⟨by decide, by decide⟩

theorem stream_round_trip_slow :
    Achieves endpoint (sendStream 3 2 Command.data.code Command.dataEnd.code) (fun r t =>
      r = .ok 3 ∧ ∃ stream, t.socket.wire = stream ∧
        Carries Command.data.code Command.dataEnd.code (cstr "llo") stream) slowSender ∧
    Achieves endpoint (sendStreamBuf (cstr "llo") Command.data.code Command.dataEnd.code)
      (fun r t => r = .ok 3 ∧ ∃ stream, t.socket.wire = stream ∧
        Carries Command.data.code Command.dataEnd.code (cstr "llo") stream) slowSender ∧
    Achieves endpoint (sendFile ⟨fun _ => [], fun _ => []⟩ (cstr "/home/a") 2 (answerCodes .downloadBegin).1
      (answerCodes .downloadBegin).2) (fun r t => r = (.ok 3, []) ∧ ∃ answer,
        t.socket.wire = answer ∧ Answers .downloadBegin (cstr "llo") answer) slowSender := by
  obtain ⟨stream, buf, file⟩ := stream_round_trip (cstr "hello") 2 Command.data.code
    Command.dataEnd.code (by decide) (by decide)
  have calls : Steady 4 slowSender.calls := slowSender_ready.calls
  have moves : Steady 39 slowSender.socket.events := slowSender_ready.moves
  refine ⟨stream 3 slowSender rfl ⟨rfl, calls, moves.mono (by decide)⟩, ?_,
    file ⟨fun _ => [], fun _ => []⟩ (cstr "/home/a") .downloadBegin slowSender rfl (by decide) slowSender_ready⟩
  exact buf slowSender ⟨rfl, calls.mono (by decide), moves.mono (by decide)⟩

end Csap
