import Csap.Libc
import Mathlib.Data.List.Induction

/-! Packet framing of `network.c`. A socket is the bytes on the wire and the
outcomes of the calls still to come: each `send` or `recv` moves at least one
byte and as many more as it likes, is interrupted, or fails. A computation that
runs out of outcomes is still waiting (`none`); one that the code ends with a
negative result throws it. Allocation is taken to succeed here. -/

namespace Csap.Network

abbrev Bytes := List UInt8

def MAX_PAYLOAD_SIZE : Nat := 64 * 1024
def CHUNK_SIZE : Nat := 8 * 1024
def HDR_SIZE : Nat := 2 + 1 + 4
def PREAMBLE : Nat := 0xABCD

/-- Outcome of one `send` or `recv`. -/
inductive Transfer
  | moved (extra : Nat)
  | interrupted
  | failed
deriving DecidableEq, Repr

structure Socket where
  wire : Bytes
  events : List Transfer

abbrev Net := StateT Socket (ExceptT Int Option)

/-- The loop of `send_data`: what was accepted is appended to the wire. -/
def sendLoop : List Transfer → Bytes → Bytes → Option (Except Int (Unit × Socket))
  | events, wire, [] => some (.ok ((), ⟨wire, events⟩))
  | [], _, _ :: _ => none
  | .interrupted :: events, wire, buf => sendLoop events wire buf
  | .failed :: _, _, _ => some (.error (-1))
  | .moved extra :: events, wire, buf =>
    let n := min (extra + 1) buf.length
    sendLoop events (wire ++ buf.take n) (buf.drop n)

def sendData (buf : Bytes) : Net Unit := fun sock => sendLoop sock.events sock.wire buf

/-- The loop of `receive_data`: `got` is what has been read so far, and an
empty wire reads as end of file. -/
def receiveLoop : List Transfer → Bytes → Bytes → Nat → Option (Except Int (Bytes × Socket))
  | events, got, wire, 0 => some (.ok (got, ⟨wire, events⟩))
  | [], _, _, _ + 1 => none
  | .interrupted :: events, got, wire, len => receiveLoop events got wire len
  | .failed :: _, _, _, _ => some (.error (-1))
  | .moved extra :: events, got, wire, len =>
    let n := min (extra + 1) (min len wire.length)
    if n = 0 then some (.error (-1))
    else receiveLoop events (got ++ wire.take n) (wire.drop n) (len - n)

def receiveData (len : Nat) : Net Bytes := fun sock => receiveLoop sock.events [] sock.wire len

/-- `width` bytes of `n`, most significant first, as `htons` and `htonl` lay them out. -/
def toNetwork : (width : Nat) → Nat → Bytes
  | 0, _ => []
  | width + 1, n => toNetwork width (n / 256) ++ [UInt8.ofNat (n % 256)]

def fromNetwork (bytes : Bytes) : Nat := bytes.foldl (fun n b => n * 256 + b.toNat) 0

structure Packet where
  command : UInt8
  payload : Bytes
deriving DecidableEq, Repr

def buildPacket (command : UInt8) (payload : Bytes) : Bytes :=
  toNetwork 2 PREAMBLE ++ [command] ++ toNetwork 4 payload.length ++ payload

def sendPacket (command : UInt8) (payload : Bytes) : Net Unit :=
  if MAX_PAYLOAD_SIZE < payload.length then throw (-1)
  else sendData (buildPacket command payload)

def recvHeader : Net (UInt8 × Nat) := do
  let preamble ← receiveData 2
  if fromNetwork preamble ≠ PREAMBLE then
    throw (-1)
  else
    let command ← receiveData 1
    let payloadLen ← receiveData 4
    if MAX_PAYLOAD_SIZE < fromNetwork payloadLen then
      throw (-1)
    else
      return (command.headD 0, fromNetwork payloadLen)

def recvPacket : Net Packet := do
  let (status, payloadLen) ← recvHeader
  if 0 < payloadLen then
    let buf ← receiveData payloadLen
    return ⟨status, buf⟩
  else
    return ⟨status, []⟩

/-- Replace the result a failed call is reported with. -/
def failingWith {α : Type} (rc : Int) (call : Net α) : Net α := fun sock =>
  Option.map (Except.mapError fun _ => rc) (call sock)

def recvFrameInto (bufCap : Nat) : Net Packet := do
  let (status, payloadLen) ← failingWith EPROTO.neg recvHeader
  if bufCap < payloadLen then
    throw EIO.neg
  else if 0 < payloadLen then
    let buf ← failingWith EPROTO.neg (receiveData payloadLen)
    return ⟨status, buf⟩
  else
    return ⟨status, []⟩

section results

variable {α β : Type}

theorem bind_ok {m : Net α} {f : α → Net β} {sock : Socket} {r : β × Socket} :
    (m >>= f) sock = some (.ok r) ↔
      ∃ a next, m sock = some (.ok (a, next)) ∧ f a next = some (.ok r) := by
  change Option.bind (m sock) (ExceptT.bindCont fun x => f x.1 x.2) = some (.ok r) ↔ _
  rcases m sock with _ | (e | ⟨a, next⟩)
  · simp
  · constructor
    · intro h
      cases h
    · rintro ⟨a, next, h, -⟩
      cases h
  · constructor
    · intro h
      exact ⟨a, next, rfl, h⟩
    · rintro ⟨_, _, h, hf⟩
      cases h
      exact hf

theorem pure_ok {a : α} {sock : Socket} {r : α × Socket} :
    (pure a : Net α) sock = some (.ok r) ↔ r = (a, sock) := by
  change some (Except.ok (a, sock)) = some (.ok r) ↔ _
  simp [eq_comm]

theorem throw_ok {rc : Int} {sock : Socket} {r : α × Socket} :
    (throw rc : Net α) sock ≠ some (.ok r) := by
  change some (Except.error rc) ≠ some (.ok r)
  simp

theorem failingWith_ok {rc : Int} {m : Net α} {sock : Socket} {r : α × Socket} :
    failingWith rc m sock = some (.ok r) ↔ m sock = some (.ok r) := by
  unfold failingWith
  rcases m sock with _ | (e | pair)
  · rfl
  · constructor
    · intro h
      cases h
    · intro h
      cases h
  · rfl

end results

/-- No call fails for good, and at least `n` of them move data. -/
def Steady (n : Nat) (events : List Transfer) : Prop :=
  Transfer.failed ∉ events ∧ n ≤ events.countP fun e => e matches .moved _

theorem Steady.mono {m n : Nat} {events : List Transfer} (h : Steady n events) (le : m ≤ n) :
    Steady m events :=
  ⟨h.1, Nat.le_trans le h.2⟩

theorem Steady.interrupted {n : Nat} {events : List Transfer}
    (h : Steady n (.interrupted :: events)) : Steady n events := by
  simpa [Steady] using h

theorem Steady.moved {n extra : Nat} {events : List Transfer}
    (h : Steady (n + 1) (.moved extra :: events)) : Steady n events := by
  simpa [Steady] using h

theorem sendLoop_steady {events : List Transfer} {wire buf : Bytes} {n : Nat}
    (h : Steady (buf.length + n) events) :
    ∃ rest, sendLoop events wire buf = some (.ok ((), ⟨wire ++ buf, rest⟩)) ∧ Steady n rest := by
  induction events generalizing wire buf with
  | nil =>
    have empty : buf.length + n = 0 := Nat.le_zero.mp h.2
    obtain rfl : buf = [] := List.length_eq_zero_iff.mp (by omega)
    exact ⟨[], by simp [sendLoop], h.mono (by omega)⟩
  | cons event events ih =>
    cases buf with
    | nil => exact ⟨event :: events, by simp [sendLoop], h.mono (by simp)⟩
    | cons b buf =>
      cases event with
      | interrupted => exact ih h.interrupted
      | failed => exact absurd List.mem_cons_self h.1
      | moved extra =>
        simp only [sendLoop]
        set sent := min (extra + 1) (b :: buf).length with hsent
        have left : Steady (((b :: buf).drop sent).length + n) events := by
          apply Steady.moved
          apply h.mono
          simp only [List.length_drop, List.length_cons] at hsent ⊢
          omega
        obtain ⟨rest, done, steady⟩ := ih left
        exact ⟨rest, by rw [done, List.append_assoc, List.take_append_drop], steady⟩

theorem receiveLoop_steady {events : List Transfer} {len n : Nat} (got wire : Bytes)
    (h : Steady (len + n) events) (enough : len ≤ wire.length) :
    ∃ rest, receiveLoop events got wire len =
      some (.ok (got ++ wire.take len, ⟨wire.drop len, rest⟩)) ∧ Steady n rest := by
  induction events generalizing got wire len with
  | nil =>
    have empty : len + n = 0 := Nat.le_zero.mp h.2
    obtain rfl : len = 0 := by omega
    exact ⟨[], by simp [receiveLoop], h.mono (by omega)⟩
  | cons event events ih =>
    cases len with
    | zero => exact ⟨event :: events, by simp [receiveLoop], h.mono (by simp)⟩
    | succ len =>
      cases event with
      | interrupted => exact ih _ _ h.interrupted enough
      | failed => exact absurd List.mem_cons_self h.1
      | moved extra =>
        simp only [receiveLoop]
        set read := min (extra + 1) (min (len + 1) wire.length) with hread
        have positive : read ≠ 0 := by omega
        have left : Steady (len + 1 - read + n) events := by
          apply Steady.moved
          apply h.mono
          omega
        have more : len + 1 - read ≤ (wire.drop read).length := by
          rw [List.length_drop]
          omega
        obtain ⟨rest, done, steady⟩ := ih _ _ left more
        rw [if_neg positive]
        refine ⟨rest, ?_, steady⟩
        have total : read + (len + 1 - read) = len + 1 := by omega
        rw [done, List.append_assoc, ← List.take_add, List.drop_drop, total]

/-- Whatever the calls did, a successful read returns the next `len` bytes of the wire. -/
theorem receiveLoop_ok {events : List Transfer} {got wire data : Bytes} {len : Nat} {sock : Socket}
    (h : receiveLoop events got wire len = some (.ok (data, sock))) :
    ∃ read, data = got ++ read ∧ read.length = len ∧ wire = read ++ sock.wire := by
  induction events generalizing got wire len with
  | nil =>
    cases len with
    | zero =>
      cases h
      exact ⟨[], by simp, rfl, rfl⟩
    | succ len => simp [receiveLoop] at h
  | cons event events ih =>
    cases len with
    | zero =>
      cases h
      exact ⟨[], by simp, rfl, rfl⟩
    | succ len =>
      cases event with
      | interrupted => exact ih h
      | failed => simp [receiveLoop] at h
      | moved extra =>
        simp only [receiveLoop] at h
        set n := min (extra + 1) (min (len + 1) wire.length) with hn
        split_ifs at h
        · simp at h
        · obtain ⟨read, rfl, length, rest⟩ := ih h
          refine ⟨wire.take n ++ read, by simp, ?_, ?_⟩
          · simp only [List.length_append, List.length_take]
            omega
          · rw [List.append_assoc, ← rest, List.take_append_drop]

theorem sendData_steady {events : List Transfer} {n : Nat} (wire buf : Bytes)
    (h : Steady (buf.length + n) events) :
    ∃ rest, sendData buf ⟨wire, events⟩ = some (.ok ((), ⟨wire ++ buf, rest⟩)) ∧ Steady n rest :=
  sendLoop_steady h

theorem receiveData_steady {events : List Transfer} {n : Nat} (data wire : Bytes)
    (h : Steady (data.length + n) events) :
    ∃ rest, receiveData data.length ⟨data ++ wire, events⟩ = some (.ok (data, ⟨wire, rest⟩)) ∧
      Steady n rest := by
  obtain ⟨rest, done, steady⟩ := receiveLoop_steady [] (data ++ wire) h (by simp)
  refine ⟨rest, ?_, steady⟩
  rw [receiveData, done]
  simp

theorem receiveData_ok {sock next : Socket} {data : Bytes} {len : Nat}
    (h : receiveData len sock = some (.ok (data, next))) :
    data.length = len ∧ sock.wire = data ++ next.wire := by
  obtain ⟨read, rfl, length, wire⟩ := receiveLoop_ok h
  exact ⟨length, wire⟩

@[simp] theorem toNetwork_length (width n : Nat) : (toNetwork width n).length = width := by
  induction width generalizing n with
  | zero => rfl
  | succ width ih => simp [toNetwork, ih]

theorem fromNetwork_append_singleton (bytes : Bytes) (b : UInt8) :
    fromNetwork (bytes ++ [b]) = fromNetwork bytes * 256 + b.toNat := by
  simp [fromNetwork]

theorem fromNetwork_toNetwork (width n : Nat) (h : n < 256 ^ width) :
    fromNetwork (toNetwork width n) = n := by
  induction width generalizing n with
  | zero => simp [fromNetwork, toNetwork] at *; omega
  | succ width ih =>
    have high : n / 256 < 256 ^ width := by
      apply Nat.div_lt_of_lt_mul
      rwa [Nat.pow_succ, Nat.mul_comm] at h
    rw [toNetwork, fromNetwork_append_singleton, ih _ high, UInt8.toNat_ofNat']
    omega

theorem toNetwork_fromNetwork (bytes : Bytes) :
    toNetwork bytes.length (fromNetwork bytes) = bytes := by
  induction bytes using List.reverseRecOn with
  | nil => rfl
  | append_singleton bytes b ih =>
    have byte := b.toNat_lt
    have high : (fromNetwork bytes * 256 + b.toNat) / 256 = fromNetwork bytes := by omega
    have low : (fromNetwork bytes * 256 + b.toNat) % 256 = b.toNat := by omega
    rw [List.length_append, List.length_singleton, fromNetwork_append_singleton, toNetwork, high,
      low, ih, UInt8.ofNat_toNat]

theorem recvHeader_ok {sock next : Socket} {command : UInt8} {len : Nat}
    (h : recvHeader sock = some (.ok ((command, len), next))) :
    sock.wire = toNetwork 2 PREAMBLE ++ ([command] ++ (toNetwork 4 len ++ next.wire)) ∧
      len ≤ MAX_PAYLOAD_SIZE := by
  obtain ⟨preamble, s1, h1, h⟩ := bind_ok.mp h
  split_ifs at h with hp
  · exact absurd h throw_ok
  obtain ⟨commandByte, s2, h2, h⟩ := bind_ok.mp h
  obtain ⟨payloadLen, s3, h3, h⟩ := bind_ok.mp h
  split_ifs at h with hl
  · exact absurd h throw_ok
  cases pure_ok.mp h
  obtain ⟨l1, w1⟩ := receiveData_ok h1
  obtain ⟨l2, w2⟩ := receiveData_ok h2
  obtain ⟨l3, w3⟩ := receiveData_ok h3
  obtain ⟨b, rfl⟩ := List.length_eq_one_iff.mp l2
  rw [not_not] at hp
  refine ⟨?_, Nat.not_lt.mp hl⟩
  rw [w1, w2, w3, ← hp, ← l1, ← l3, toNetwork_fromNetwork, toNetwork_fromNetwork]
  rfl

theorem recvHeader_steady {events : List Transfer} {len n : Nat} (command : UInt8) (wire : Bytes)
    (fits : len ≤ MAX_PAYLOAD_SIZE) (h : Steady (HDR_SIZE + n) events) :
    ∃ rest, recvHeader
        ⟨toNetwork 2 PREAMBLE ++ ([command] ++ (toNetwork 4 len ++ wire)), events⟩ =
      some (.ok ((command, len), ⟨wire, rest⟩)) ∧ Steady n rest := by
  have preamble : fromNetwork (toNetwork 2 PREAMBLE) = PREAMBLE := by decide
  have length : fromNetwork (toNetwork 4 len) = len :=
    fromNetwork_toNetwork 4 len (by simp only [MAX_PAYLOAD_SIZE] at fits; omega)
  simp only [HDR_SIZE] at h
  obtain ⟨r1, h1, s1⟩ := receiveData_steady (n := 5 + n) (toNetwork 2 PREAMBLE) _
    (h.mono (by simp; omega))
  obtain ⟨r2, h2, s2⟩ := receiveData_steady (n := 4 + n) [command] _ (s1.mono (by simp; omega))
  obtain ⟨r3, h3, s3⟩ := receiveData_steady (n := n) (toNetwork 4 len) wire (s2.mono (by simp))
  rw [toNetwork_length] at h1 h3
  refine ⟨r3, bind_ok.mpr ⟨_, _, h1, ?_⟩, s3⟩
  rw [if_neg (not_not.mpr preamble)]
  refine bind_ok.mpr ⟨_, _, h2, bind_ok.mpr ⟨_, _, h3, ?_⟩⟩
  rw [length, if_neg (Nat.not_lt.mpr fits)]
  exact pure_ok.mpr rfl

def Packet.encode (p : Packet) : Bytes := buildPacket p.command p.payload

/-- The two ways the code reads a packet of at most `MAX_PAYLOAD_SIZE` bytes. -/
inductive Reader : Net Packet → Prop
  | packet : Reader recvPacket
  | frame : Reader (recvFrameInto MAX_PAYLOAD_SIZE)

theorem encode_append (p : Packet) (rest : Bytes) :
    p.encode ++ rest = toNetwork 2 PREAMBLE ++
      ([p.command] ++ (toNetwork 4 p.payload.length ++ (p.payload ++ rest))) := by
  simp [Packet.encode, buildPacket]

theorem Packet.encode_length (p : Packet) : p.encode.length = HDR_SIZE + p.payload.length := by
  simp [Packet.encode, buildPacket, HDR_SIZE]
  omega

theorem sendPacket_steady {events : List Transfer} {n : Nat} (p : Packet) (wire : Bytes)
    (fits : p.payload.length ≤ MAX_PAYLOAD_SIZE) (h : Steady (p.encode.length + n) events) :
    ∃ rest, sendPacket p.command p.payload ⟨wire, events⟩ =
      some (.ok ((), ⟨wire ++ p.encode, rest⟩)) ∧ Steady n rest := by
  rw [sendPacket, if_neg (Nat.not_lt.mpr fits)]
  exact sendData_steady wire p.encode h

theorem receiveData_zero (sock : Socket) : receiveData 0 sock = some (.ok ([], sock)) := by
  rcases sock with ⟨wire, _ | ⟨event, events⟩⟩ <;> rfl

theorem Reader.ok_iff {read : Net Packet} (reader : Reader read) {sock next : Socket} {p : Packet} :
    read sock = some (.ok (p, next)) ↔ ∃ middle,
      recvHeader sock = some (.ok ((p.command, p.payload.length), middle)) ∧
        receiveData p.payload.length middle = some (.ok (p.payload, next)) := by
  obtain ⟨command, payload⟩ := p
  cases reader with
  | packet =>
    constructor
    · intro h
      obtain ⟨⟨status, len⟩, middle, header, h⟩ := bind_ok.mp h
      simp only at h
      split_ifs at h with positive
      · obtain ⟨buf, last, body, h⟩ := bind_ok.mp h
        cases pure_ok.mp h
        obtain ⟨rfl, -⟩ := receiveData_ok body
        exact ⟨middle, header, body⟩
      · cases pure_ok.mp h
        obtain rfl : len = 0 := by omega
        exact ⟨_, header, receiveData_zero _⟩
    · rintro ⟨middle, header, body⟩
      refine bind_ok.mpr ⟨_, _, header, ?_⟩
      simp only
      split_ifs with positive
      · exact bind_ok.mpr ⟨_, _, body, pure_ok.mpr rfl⟩
      · obtain rfl : payload = [] := List.length_eq_zero_iff.mp (by omega)
        cases (receiveData_zero middle).symm.trans body
        exact pure_ok.mpr rfl
  | frame =>
    constructor
    · intro h
      obtain ⟨⟨status, len⟩, middle, header, h⟩ := bind_ok.mp h
      rw [failingWith_ok] at header
      simp only at h
      split_ifs at h with big positive
      · exact absurd h throw_ok
      · obtain ⟨buf, last, body, h⟩ := bind_ok.mp h
        rw [failingWith_ok] at body
        cases pure_ok.mp h
        obtain ⟨rfl, -⟩ := receiveData_ok body
        exact ⟨middle, header, body⟩
      · cases pure_ok.mp h
        obtain rfl : len = 0 := by omega
        exact ⟨_, header, receiveData_zero _⟩
    · rintro ⟨middle, header, body⟩
      have fits := (recvHeader_ok header).2
      refine bind_ok.mpr ⟨_, _, failingWith_ok.mpr header, ?_⟩
      simp only [if_neg (Nat.not_lt.mpr fits)]
      split_ifs with positive
      · exact bind_ok.mpr ⟨_, _, failingWith_ok.mpr body, pure_ok.mpr rfl⟩
      · obtain rfl : payload = [] := List.length_eq_zero_iff.mp (by omega)
        cases (receiveData_zero middle).symm.trans body
        exact pure_ok.mpr rfl

theorem Reader.ok {read : Net Packet} (reader : Reader read) {sock next : Socket} {p : Packet}
    (h : read sock = some (.ok (p, next))) :
    sock.wire = p.encode ++ next.wire ∧ p.payload.length ≤ MAX_PAYLOAD_SIZE := by
  obtain ⟨middle, header, body⟩ := reader.ok_iff.mp h
  obtain ⟨wire, fits⟩ := recvHeader_ok header
  rw [wire, (receiveData_ok body).2, encode_append]
  exact ⟨rfl, fits⟩

theorem Reader.steady {read : Net Packet} (reader : Reader read) {events : List Transfer} {n : Nat}
    (p : Packet) (wire : Bytes) (fits : p.payload.length ≤ MAX_PAYLOAD_SIZE)
    (h : Steady (p.encode.length + n) events) :
    ∃ rest, read ⟨p.encode ++ wire, events⟩ = some (.ok (p, ⟨wire, rest⟩)) ∧ Steady n rest := by
  rw [p.encode_length] at h
  obtain ⟨middle, header, steady⟩ := recvHeader_steady p.command (p.payload ++ wire) fits
    (n := p.payload.length + n) (h.mono (by omega))
  obtain ⟨rest, body, steady⟩ := receiveData_steady p.payload wire steady
  rw [encode_append]
  exact ⟨rest, reader.ok_iff.mpr ⟨_, header, body⟩, steady⟩

theorem recvFrameInto_steady {events : List Transfer} {bufCap n : Nat} (p : Packet) (wire : Bytes)
    (fits : p.payload.length ≤ bufCap) (limit : p.payload.length ≤ MAX_PAYLOAD_SIZE)
    (h : Steady (p.encode.length + n) events) :
    ∃ rest, recvFrameInto bufCap ⟨p.encode ++ wire, events⟩ = some (.ok (p, ⟨wire, rest⟩)) ∧
      Steady n rest := by
  obtain ⟨command, payload⟩ := p
  obtain ⟨rest, done, steady⟩ := Reader.frame.steady ⟨command, payload⟩ wire limit h
  obtain ⟨middle, header, body⟩ := Reader.frame.ok_iff.mp done
  refine ⟨rest, bind_ok.mpr ⟨_, _, failingWith_ok.mpr header, ?_⟩, steady⟩
  simp only [if_neg (Nat.not_lt.mpr fits)]
  split_ifs with positive
  · exact bind_ok.mpr ⟨_, _, failingWith_ok.mpr body, pure_ok.mpr rfl⟩
  · obtain rfl : payload = [] := List.length_eq_zero_iff.mp (by omega)
    cases (receiveData_zero middle).symm.trans body
    exact pure_ok.mpr rfl

def sendPackets : List Packet → Net Unit
  | [] => pure ()
  | p :: rest => do
    sendPacket p.command p.payload
    sendPackets rest

def recvPackets (read : Net Packet) : Nat → Net (List Packet)
  | 0 => pure []
  | n + 1 => do
    let p ← read
    let rest ← recvPackets read n
    return p :: rest

def wireOf (packets : List Packet) : Bytes := packets.flatMap Packet.encode

theorem sendPackets_steady (packets : List Packet) (wire : Bytes) {events : List Transfer}
    (fits : ∀ p ∈ packets, p.payload.length ≤ MAX_PAYLOAD_SIZE)
    (h : Steady (wireOf packets).length events) :
    ∃ rest, sendPackets packets ⟨wire, events⟩ = some (.ok ((), ⟨wire ++ wireOf packets, rest⟩)) := by
  induction packets generalizing wire events with
  | nil => exact ⟨events, pure_ok.mpr (by simp [wireOf])⟩
  | cons p packets ih =>
    have length : (wireOf (p :: packets)).length = p.encode.length + (wireOf packets).length := by
      simp [wireOf]
    rw [length] at h
    obtain ⟨middle, sent, steady⟩ := sendPacket_steady p wire (fits p List.mem_cons_self) h
    obtain ⟨rest, done⟩ :=
      ih (wire ++ p.encode) (fun q hq => fits q (List.mem_cons_of_mem _ hq)) steady
    refine ⟨rest, bind_ok.mpr ⟨_, _, sent, ?_⟩⟩
    rw [done, List.append_assoc]
    rfl

theorem recvPackets_steady {read : Net Packet} (reader : Reader read) (packets : List Packet)
    (wire : Bytes) {events : List Transfer}
    (fits : ∀ p ∈ packets, p.payload.length ≤ MAX_PAYLOAD_SIZE)
    (h : Steady (wireOf packets).length events) :
    ∃ rest, recvPackets read packets.length ⟨wireOf packets ++ wire, events⟩ =
      some (.ok (packets, ⟨wire, rest⟩)) := by
  induction packets generalizing events with
  | nil => exact ⟨events, pure_ok.mpr rfl⟩
  | cons p packets ih =>
    have length : (wireOf (p :: packets)).length = p.encode.length + (wireOf packets).length := by
      simp [wireOf]
    rw [length] at h
    obtain ⟨middle, first, steady⟩ :=
      reader.steady p (wireOf packets ++ wire) (fits p List.mem_cons_self) h
    obtain ⟨rest, done⟩ := ih (fun q hq => fits q (List.mem_cons_of_mem _ hq)) steady
    refine ⟨rest, bind_ok.mpr ⟨_, _, ?_, bind_ok.mpr ⟨_, _, done, pure_ok.mpr rfl⟩⟩⟩
    rw [← first]
    simp [wireOf]

/-- The preamble, a length within the limit, and as many bytes as it announces. -/
def Acceptable (wire : Bytes) : Prop :=
  HDR_SIZE ≤ wire.length ∧ fromNetwork (wire.take 2) = PREAMBLE ∧
    fromNetwork ((wire.drop 3).take 4) ≤ MAX_PAYLOAD_SIZE ∧
    HDR_SIZE + fromNetwork ((wire.drop 3).take 4) ≤ wire.length

theorem acceptable_encode (p : Packet) (rest : Bytes) (fits : p.payload.length ≤ MAX_PAYLOAD_SIZE) :
    Acceptable (p.encode ++ rest) := by
  have preamble : fromNetwork (toNetwork 2 PREAMBLE) = PREAMBLE := by decide
  have length : fromNetwork (toNetwork 4 p.payload.length) = p.payload.length :=
    fromNetwork_toNetwork 4 _ (by simp only [MAX_PAYLOAD_SIZE] at fits; omega)
  have first : (p.encode ++ rest).take 2 = toNetwork 2 PREAMBLE := by
    rw [encode_append]
    exact List.take_left' (toNetwork_length ..)
  have announced : ((p.encode ++ rest).drop 3).take 4 = toNetwork 4 p.payload.length := by
    rw [encode_append, ← List.append_assoc, List.drop_left' (by simp)]
    exact List.take_left' (toNetwork_length ..)
  have total : (p.encode ++ rest).length = HDR_SIZE + p.payload.length + rest.length := by
    rw [List.length_append, p.encode_length]
  rw [Acceptable, first, announced, preamble, length, total]
  exact ⟨by omega, rfl, fits, by omega⟩

theorem Acceptable.split {wire : Bytes} (h : Acceptable wire) :
    ∃ p rest, wire = Packet.encode p ++ rest ∧ p.payload.length ≤ MAX_PAYLOAD_SIZE := by
  obtain ⟨header, preamble, fits, body⟩ := h
  simp only [HDR_SIZE] at header body
  set len := fromNetwork ((wire.drop 3).take 4) with hlen
  have l2 : (wire.take 2).length = 2 := by simp; omega
  have l4 : ((wire.drop 3).take 4).length = 4 := by simp; omega
  have ll : ((wire.drop 7).take len).length = len := by simp; omega
  obtain ⟨command, hc⟩ : ∃ command, (wire.drop 2).take 1 = [command] :=
    List.length_eq_one_iff.mp (by simp; omega)
  refine ⟨⟨command, (wire.drop 7).take len⟩, (wire.drop 7).drop len, ?_, by rw [ll]; exact fits⟩
  rw [encode_append]
  simp only [ll]
  have p2 : toNetwork 2 PREAMBLE = wire.take 2 := by
    rw [← preamble]
    conv_rhs => rw [← toNetwork_fromNetwork (wire.take 2), l2]
  have p4 : toNetwork 4 len = (wire.drop 3).take 4 := by
    rw [hlen]
    conv_rhs => rw [← toNetwork_fromNetwork ((wire.drop 3).take 4), l4]
  have d3 : wire.drop 3 = (wire.drop 2).drop 1 := by rw [List.drop_drop]
  have d7 : wire.drop 7 = (wire.drop 3).drop 4 := by rw [List.drop_drop]
  calc
    wire = wire.take 2 ++ ((wire.drop 2).take 1 ++ wire.drop 3) := by
      rw [d3, List.take_append_drop, List.take_append_drop]
    _ = wire.take 2 ++ ((wire.drop 2).take 1 ++ ((wire.drop 3).take 4 ++ wire.drop 7)) := by
      rw [d7, List.take_append_drop]
    _ = _ := by rw [p2, p4, hc, List.take_append_drop]

/-- Round trip and exactness of the codec, for every way the calls split the stream. -/
theorem packet_codec_exact :
    (∀ (packets : List Packet) (rest : Bytes) (sends recvs : List Transfer) (read : Net Packet),
      (∀ p ∈ packets, p.payload.length ≤ MAX_PAYLOAD_SIZE) → Reader read →
      Steady (wireOf packets).length sends → Steady (wireOf packets).length recvs →
      ∃ wire sends' recvs', sendPackets packets ⟨[], sends⟩ = some (.ok ((), ⟨wire, sends'⟩)) ∧
        recvPackets read packets.length ⟨wire ++ rest, recvs⟩ =
          some (.ok (packets, ⟨rest, recvs'⟩))) ∧
    (∀ (wire : Bytes) (recvs : List Transfer), Steady wire.length recvs →
      (∀ p next, recvPacket ⟨wire, recvs⟩ = some (.ok (p, next)) →
        wire = buildPacket p.command p.payload ++ next.wire) ∧
      ((∃ p next, recvPacket ⟨wire, recvs⟩ = some (.ok (p, next))) ↔ Acceptable wire)) := by
  constructor
  · intro packets rest sends recvs read fits reader steadySends steadyRecvs
    obtain ⟨sends', sent⟩ := sendPackets_steady packets [] fits steadySends
    obtain ⟨recvs', received⟩ := recvPackets_steady reader packets rest fits steadyRecvs
    exact ⟨wireOf packets, sends', recvs', sent, received⟩
  · intro wire recvs steady
    refine ⟨fun p next h => (Reader.packet.ok h).1, fun ⟨p, next, h⟩ => ?_, fun h => ?_⟩
    · obtain ⟨split, fits⟩ := Reader.packet.ok h
      rw [show wire = p.encode ++ next.wire from split]
      exact acceptable_encode p next.wire fits
    · obtain ⟨p, rest, rfl, fits⟩ := h.split
      rw [List.length_append] at steady
      obtain ⟨recvs', received, -⟩ := Reader.packet.steady p rest fits steady
      exact ⟨p, _, received⟩

theorem packet_codec_exact_login :
    (∃ wire sends' recvs',
      sendPackets [⟨1, cstr "login"⟩] ⟨[], .interrupted :: List.replicate 12 (.moved 0)⟩ =
        some (.ok ((), ⟨wire, sends'⟩)) ∧
      recvPackets recvPacket 1 ⟨wire ++ [7], List.replicate 12 (.moved 3)⟩ =
        some (.ok ([⟨1, cstr "login"⟩], ⟨[7], recvs'⟩))) ∧
    ((∃ p next, recvPacket ⟨[0xAB, 0xCD, 18], List.replicate 3 (.moved 0)⟩ =
      some (.ok (p, next))) ↔ Acceptable [0xAB, 0xCD, 18]) :=
  ⟨packet_codec_exact.1 [⟨1, cstr "login"⟩] [7] _ _ recvPacket (by decide) .packet
      ⟨by decide, by decide⟩ ⟨by decide, by decide⟩,
    (packet_codec_exact.2 [0xAB, 0xCD, 18] (List.replicate 3 (.moved 0))
      ⟨by decide, by decide⟩).2⟩

end Csap.Network
