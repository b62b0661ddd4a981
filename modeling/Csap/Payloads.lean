import Csap.Heap
import Csap.Network
import Csap.Refinement
import Csap.Server
import Csap.ClientMain
import Csap.ServerRuns

/-! Who releases the payload of a packet: `recv_packet` down to `recv`, `malloc` and
`free`, and the three places of the server and the client that call it. -/

namespace Csap.Payloads

open Prog (iterate when perform)
open Network (Bytes MAX_PAYLOAD_SIZE PREAMBLE fromNetwork)

/-- `recv` is one call of the socket function, and `select` the one a session waits in; what the
server and the client do otherwise is `sys` and `client`. -/
inductive Call
  | heap (c : HeapCall)
  | recv (len : Nat)
  | select (fds : List Int)
  | sys (c : Csap.Call)
  | client (c : ClientMain.Call)
deriving DecidableEq, Repr

@[reducible] def Call.Reply : Call → Type
  | heap c => c.Reply
  | recv _ => SysResult Bytes
  | select _ => SysResult (List Int)
  | sys c => c.Reply
  | client c => c.Reply

abbrev Low := Prog Call.Reply

abbrev heap (c : HeapCall) : Low c.Reply := perform (Call.heap c)

abbrev sys {α : Type} (p : Sys α) : Low α := p.embed Call.sys

/-- `free`, which does nothing to NULL. -/
def free (ptr : Option Nat) : Low Unit :=
  match ptr with
  | some p => heap (.free p)
  | none => return ()

/-- `receive_data`; `put` is where the bytes go, at their offset. -/
def receiveData (put : Nat → Bytes → Low Unit) (len : Nat) : Low (Option Bytes) :=
  iterate [] fun got => do
    if len ≤ got.length then return .inr (some got)
    match ← perform (Call.recv (len - got.length)) with
    | .error e => if e = EINTR then return .inl got else return .inr none
    | .ok bytes =>
    if bytes = [] then return .inr none
    put got.length bytes
    return .inl (got ++ bytes)

def onStack (_ : Nat) (_ : Bytes) : Low Unit := return ()

def recvHeader : Low (Option (UInt8 × Nat)) := do
  match ← receiveData onStack 2 with
  | none => return none
  | some preamble =>
  if fromNetwork preamble ≠ PREAMBLE then return none
  match ← receiveData onStack 1 with
  | none => return none
  | some command =>
  match ← receiveData onStack 4 with
  | none => return none
  | some payloadLen =>
  if MAX_PAYLOAD_SIZE < fromNetwork payloadLen then return none
  return some (command.headD 0, fromNetwork payloadLen)

/-- Whether `recv_packet` returned 0, what it left in `*buf`, and the packet. -/
structure Result where
  ok : Bool
  buf : Option Nat
  packet : Network.Packet := ⟨0, []⟩

def recvPacket (buf : Option Nat) : Low Result := do
  match ← recvHeader with
  | none => return { ok := false, buf }
  | some (status, payloadLen) =>
  if 0 < payloadLen then
    match ← heap (.malloc (payloadLen + 1)) with
    | none => return { ok := false, buf := none }
    | some data =>
    match ← receiveData (fun offset bytes => heap (.store data offset bytes)) payloadLen with
    | none =>
      free (some data)
      return { ok := false, buf := some data }
    | some payload =>
      heap (.store data payloadLen [0])
      return { ok := true, buf := some data, packet := ⟨status, payload⟩ }
  else return { ok := true, buf := none, packet := ⟨status, []⟩ }

/-- `handle_session`, the branch for the client's socket. -/
def receiveCommand (server : Server) (session : Session) : Low (Option Session) := do
  let received ← recvPacket none
  if !received.ok then
    free received.buf
    return none
  let session ← sys (dispatch server session received.packet)
  free received.buf
  return some session

/-- The `for(;;)` of `handle_session`. -/
def sessionLoop (server : Server) (clientSocket : Int) (session : Session) : Low Session :=
  iterate session fun session => do
    let readfds := clientSocket :: (if 0 ≤ session.notifyFd then [session.notifyFd] else [])
    match ← perform (Call.select readfds) with
    | .error e => if e = EINTR then return .inl session else return .inr session
    | .ok ready =>
    match ← (if clientSocket ∈ ready then receiveCommand server session
        else pure (some session)) with
    | none => return .inr session
    | some session =>
    if 0 ≤ session.notifyFd ∧ session.notifyFd ∈ ready then
      let stillOpen ← sys (receiveNotification session)
      if stillOpen then return .inl session else return .inr session
    return .inl session

/-- `recv_response` of the client. -/
def recvResponse (outSize : Nat) : Low (Option Response) :=
  iterate () fun _ => do
    let received ← recvPacket none
    if !received.ok then
      free received.buf
      return .inr none
    let packet := received.packet
    if packet.command = RSP_NOTIFY then
      free received.buf
      return .inl ()
    else if packet.command = RSP_OK then
      let n := min packet.payload.length (outSize - 1)
      free received.buf
      return .inr (some
        { out := if 0 < outSize then packet.payload.take n else []
          outLen := packet.payload.length })
    else
      free received.buf
      return .inr none

/-- A packet the client has not asked for; `false` where the loop of `main` is left. -/
def unsolicited : Low Bool := do
  let received ← recvPacket none
  if !received.ok then
    free received.buf
    return false
  if received.packet.command = RSP_NOTIFY then
    free received.buf
    return true
  else
    free received.buf
    return true

/-- `recv_packet` where the client calls it: it looks at the packet, and releases it. -/
def receivePacket : Low (Option Network.Packet) := do
  let received ← recvPacket none
  free received.buf
  return if received.ok then some received.packet else none

/-- The calls of the client, with `recv_packet` carried out. -/
def carried : (c : ClientMain.Call) → Low c.Reply
  | .sys (.socket .recvPacket) => receivePacket
  | c => perform (Call.client c)

/-- The heap of the process, whether the payload of a packet is being received, and whether that
was ever cut off: by the end of the stream or an error of `recv`. -/
structure Ledger where
  heap : Heap := Heap.empty
  filling : Bool := false
  cut : Bool := false

/-- Every buffer that was allocated has been released exactly once. -/
def Balanced (h : Heap) : Prop := ∀ ptr, h ptr = .fresh ∨ h ptr = .released 1

/-- Every buffer is released exactly once just when no payload was cut off. -/
def Fair (g : Ledger) : Prop := Balanced g.heap ↔ g.cut = false

def answers (g : Ledger) : (c : Call) → c.Reply → Bool
  | .heap c, r => g.heap.answers c r
  | .recv len, .ok bytes => bytes.length ≤ len
  | _, _ => true

/-- Stores stay inside their blocks, while a session waits it holds no buffer, and while the client
waits it holds one only if one was cut off. -/
def ledger : Typestate Call.Reply Ledger where
  allowed
    | g, .heap (.store ptr offset bytes) => g.heap.Room ptr offset bytes.length
    | g, .select _ => Balanced g.heap ∧ g.cut = false
    | g, .client (.sys (.socket (.select _))) => Fair g
    | _, _ => True
  expects g c r := answers g c r = true
  next
    | g, .heap (.malloc size), some ptr =>
      { g with heap := g.heap.after (.malloc size) (some ptr), filling := true }
    | g, .heap (.free ptr), _ =>
      { g with heap := g.heap.after (.free ptr) (), filling := false }
    | g, .heap c, r => { g with heap := g.heap.after c r }
    | g, .recv _, .error e => { g with cut := g.cut || g.filling && e ≠ EINTR }
    | g, .recv _, .ok bytes => { g with cut := g.cut || g.filling && bytes = [] }
    | g, _, _ => g

section receiving

variable {g : Ledger} {α : Type}

theorem wp_receiveData {put : Nat → Bytes → Low Unit} {len : Nat}
    {Q : Option Bytes → Ledger → Prop} (J : Ledger → Prop) (start : J g)
    (puts : ∀ offset bytes g, offset + bytes.length ≤ len → J g →
      Prog.wp ledger (put offset bytes) (fun _ g => J g) g)
    (failed : ∀ g, J g → Q none { g with cut := g.cut || g.filling })
    (done : ∀ bytes g, bytes.length = len → J g → Q (some bytes) g) :
    Prog.wp ledger (receiveData put len) Q g := by
  refine Prog.wp_iterate (fun got g => got.length ≤ len ∧ J g) ⟨Nat.zero_le _, start⟩ ?_
  rintro got g ⟨short, here⟩
  rw [Prog.wp_ite]
  constructor
  · intro all
    exact done got g (by omega) here
  · intro more
    refine Prog.wp_call trivial ?_
    intro r expected
    cases r with
    | error e =>
      rw [Prog.wp_ite]
      constructor
      · rintro rfl
        have same : ledger.next g (.recv (len - got.length)) (.error EINTR) = g := by
          simp [ledger]
        rw [same]
        exact ⟨short, here⟩
      · intro other
        have same : ledger.next g (.recv (len - got.length)) (.error e) =
            { g with cut := g.cut || g.filling } := by
          simp [ledger, other]
        rw [same]
        exact failed g here
    | ok bytes =>
      have fits : bytes.length ≤ len - got.length := of_decide_eq_true expected
      dsimp only
      rw [Prog.wp_ite]
      constructor
      · rintro rfl
        have same : ledger.next g (.recv (len - got.length)) (.ok []) =
            { g with cut := g.cut || g.filling } := by
          simp [ledger]
        rw [same]
        exact failed g here
      · intro some
        have same : ledger.next g (.recv (len - got.length)) (.ok bytes) = g := by
          simp [ledger, some]
        rw [same, Prog.wp_bind]
        refine Prog.wp_mono (puts got.length bytes g (by omega) here) ?_
        intro _ g' kept
        refine ⟨?_, kept⟩
        rw [List.length_append]
        omega

theorem wp_recvHeader {Q : Option (UInt8 × Nat) → Ledger → Prop} (idle : g.filling = false)
    (hQ : ∀ r, Q r g) : Prog.wp ledger recvHeader Q g := by
  have received : ∀ {len : Nat} {Q : Option Bytes → Ledger → Prop}, (∀ r, Q r g) →
      Prog.wp ledger (receiveData onStack len) Q g := by
    intro len Q hQ
    refine wp_receiveData (· = g) rfl ?_ ?_ ?_
    · intro _ _ _ _ same
      exact same
    · intro g' same
      have still : ({ g with cut := g.cut || g.filling } : Ledger) = g := by
        obtain ⟨heap, filling, cut⟩ := g
        dsimp only at idle
        rw [idle, Bool.or_false]
      rw [same, still]
      exact hQ _
    · intro bytes g' _ same
      rw [same]
      exact hQ _
  refine Prog.wp_bind.mpr (received fun preamble => ?_)
  cases preamble with
  | none => exact hQ _
  | some preamble =>
  refine Prog.wp_ite.mpr ⟨fun _ => hQ _, fun _ => ?_⟩
  refine Prog.wp_bind.mpr (received fun command => ?_)
  cases command with
  | none => exact hQ _
  | some command =>
  refine Prog.wp_bind.mpr (received fun payloadLen => ?_)
  cases payloadLen with
  | none => exact hQ _
  | some payloadLen => exact Prog.wp_ite.mpr ⟨fun _ => hQ _, fun _ => hQ _⟩

/-- What `recv_packet` leaves: it fails before it has a buffer, or it has one that was cut off,
or its caller has one. -/
inductive Outcome (buf : Option Nat) (g : Ledger) : Result → Ledger → Prop
  | refused {r : Result} : r.ok = false → r.buf = buf ∨ r.buf = none → Outcome buf g r g
  | cut {r : Result} {h : Heap} {ptr : Nat} : r.ok = false → r.buf = some ptr →
      g.heap ptr = .fresh → h ptr = .released 1 → (∀ q ≠ ptr, h q = g.heap q) →
      Outcome buf g r { heap := h, filling := false, cut := true }
  | empty {r : Result} : r.ok = true → r.buf = none → Outcome buf g r g
  | held {r : Result} {h : Heap} {ptr : Nat} {block : Block} : r.ok = true → r.buf = some ptr →
      g.heap ptr = .fresh → h ptr = .live block → (∀ q ≠ ptr, h q = g.heap q) →
      Outcome buf g r { heap := h, filling := true, cut := g.cut }

theorem wp_recvPacket {buf : Option Nat} (idle : g.filling = false) :
    Prog.wp ledger (recvPacket buf) (Outcome buf g) g := by
  refine Prog.wp_bind.mpr (wp_recvHeader idle fun header => ?_)
  cases header with
  | none => exact .refused rfl (.inl rfl)
  | some header =>
  obtain ⟨status, payloadLen⟩ := header
  refine Prog.wp_ite.mpr ⟨fun _ => ?_, fun _ => .empty rfl rfl⟩
  refine Prog.wp_call trivial ?_
  intro r new
  cases r with
  | none => exact .refused rfl (.inr rfl)
  | some ptr =>
  have fresh : g.heap ptr = .fresh := Heap.isFresh_iff.mp (of_decide_eq_true new ptr rfl)
  dsimp only
  rw [Prog.wp_bind]
  refine wp_receiveData (fun g' => g'.filling = true ∧ g'.cut = g.cut ∧
    (∃ block, g'.heap ptr = .live block ∧ block.length = payloadLen + 1) ∧
    ∀ q ≠ ptr, g'.heap q = g.heap q) ?_ ?_ ?_ ?_
  · refine ⟨rfl, rfl, ⟨_, Heap.set_same, List.length_replicate⟩, ?_⟩
    intro q other
    exact Heap.set_other other
  · intro offset bytes g' fits ⟨filling, whole', ⟨block, here, size⟩, others⟩
    refine ⟨⟨block, here, by omega⟩, ?_⟩
    intro _ _
    refine ⟨filling, whole', ⟨block.store offset bytes, ?_, ?_⟩, ?_⟩
    · change Heap.set _ _ (Heap.stored _ _ (g'.heap ptr)) ptr = _
      rw [Heap.set_same, here]
      rfl
    · rw [Block.store_length (by omega), size]
    · intro q other
      exact (Heap.set_other other).trans (others q other)
  · intro g' ⟨filling, whole', ⟨block, here, size⟩, others⟩
    refine Prog.wp_call trivial ?_
    intro _ _
    have freed : ledger.next { g' with cut := g'.cut || g'.filling } (.heap (.free ptr)) () =
        { heap := g'.heap.set ptr (.released 1), filling := false, cut := true } := by
      simp only [ledger, Heap.after, here, Heap.releasedBy, filling, Bool.or_true]
    rw [freed]
    refine .cut rfl rfl fresh Heap.set_same ?_
    intro q other
    exact (Heap.set_other other).trans (others q other)
  · intro payload g' size' ⟨filling, whole', ⟨block, here, size⟩, others⟩
    have room : g'.heap.Room ptr payloadLen [(0 : UInt8)].length :=
      ⟨block, here, by rw [List.length_singleton]; omega⟩
    refine Prog.wp_call room ?_
    intro _ _
    have stored : ledger.next g' (.heap (.store ptr payloadLen [0])) () =
        { heap := g'.heap.set ptr (.live (block.store payloadLen [0]))
          filling := true
          cut := g.cut } := by
      simp only [ledger, Heap.after, here, Heap.stored, filling, whole']
    rw [stored]
    refine .held rfl rfl fresh Heap.set_same ?_
    intro q other
    exact (Heap.set_other other).trans (others q other)

/-- Nothing is held, and nothing was cut off. -/
structure Clean (g : Ledger) : Prop where
  balanced : Balanced g.heap
  idle : g.filling = false
  whole : g.cut = false

theorem Clean.fair (clean : Clean g) : Fair g := iff_of_true clean.balanced clean.whole

/-- A buffer that was cut off has been released by `recv_packet` and by its caller. -/
structure Broken (g : Ledger) : Prop where
  twice : ∃ ptr, g.heap ptr = .released 2
  idle : g.filling = false
  cut : g.cut = true

theorem Broken.fair (broken : Broken g) : Fair g := by
  obtain ⟨ptr, twice⟩ := broken.twice
  refine iff_of_false ?_ (by simp [broken.cut])
  intro balanced
  rcases balanced ptr with fresh | once
  · exact absurd (twice.symm.trans fresh) (by simp)
  · exact absurd (twice.symm.trans once) (by simp)

theorem broken_of_cut {h : Heap} {ptr : Nat} :
    Broken { heap := h.set ptr (.released 2), filling := false, cut := true } where
  twice := ⟨ptr, Heap.set_same⟩
  idle := rfl
  cut := rfl

theorem Outcome.wp_free {r : Result} {g' : Ledger} (outcome : Outcome none g r g')
    (clean : Clean g) {Q : Unit → Ledger → Prop} (kept : ∀ g, Clean g → Q () g)
    (failed : ∀ g, r.ok = false → Broken g → Q () g) : Prog.wp ledger (free r.buf) Q g' := by
  have once : ∀ (h : Heap) (ptr : Nat) (block : Block), h ptr = .live block →
      (∀ q ≠ ptr, h q = g.heap q) → Balanced (h.set ptr (.released 1)) := by
    intro h ptr block here others q
    by_cases same : q = ptr
    · rw [same, Heap.set_same]
      exact .inr rfl
    · rw [Heap.set_other same, others q same]
      exact clean.balanced q
  cases outcome with
  | refused _ null =>
    have none : r.buf = none := by
      rcases null with null | null
      · exact null
      · exact null
    rw [none]
    exact kept g clean
  | empty _ null =>
    rw [null]
    exact kept g clean
  | @cut h ptr wrong some _ released _ =>
    rw [some]
    refine ⟨trivial, ?_⟩
    intro _ _
    have freed : ledger.next { heap := h, filling := false, cut := true } (.heap (.free ptr)) () =
        { heap := h.set ptr (.released 2), filling := false, cut := true } := by
      simp only [ledger, Heap.after, released, Heap.releasedBy]
    rw [freed]
    exact failed _ wrong broken_of_cut
  | @held h ptr block _ some _ here others =>
    rw [some]
    refine ⟨trivial, ?_⟩
    intro _ _
    have freed : ledger.next { heap := h, filling := true, cut := g.cut } (.heap (.free ptr)) () =
        { heap := h.set ptr (.released 1), filling := false, cut := g.cut } := by
      simp only [ledger, Heap.after, here, Heap.releasedBy]
    rw [freed]
    exact kept _ ⟨once h ptr block here others, rfl, clean.whole⟩

/-- A client goes on after a packet that was cut off. -/
def Settled (g : Ledger) : Prop := Clean g ∨ Broken g

theorem Settled.fair (settled : Settled g) : Fair g := by
  rcases settled with clean | broken
  · exact clean.fair
  · exact broken.fair

theorem Outcome.wp_free_broken {r : Result} {g' : Ledger} (outcome : Outcome none g r g')
    (broken : Broken g) : Prog.wp ledger (free r.buf) (fun _ => Broken) g' := by
  obtain ⟨bad, twice⟩ := broken.twice
  cases outcome with
  | refused _ null =>
    rw [or_self] at null
    rw [null]
    exact broken
  | empty _ null =>
    rw [null]
    exact broken
  | @cut h ptr _ some _ released _ =>
    rw [some]
    refine ⟨trivial, ?_⟩
    intro _ _
    have freed : ledger.next { heap := h, filling := false, cut := true } (.heap (.free ptr)) () =
        { heap := h.set ptr (.released 2), filling := false, cut := true } := by
      simp only [ledger, Heap.after, released, Heap.releasedBy]
    rw [freed]
    exact broken_of_cut
  | @held h ptr block _ some fresh here others =>
    rw [some]
    refine ⟨trivial, ?_⟩
    intro _ _
    have apart : bad ≠ ptr := by
      rintro rfl
      cases twice.symm.trans fresh
    exact ⟨⟨bad, (Heap.set_other apart).trans ((others bad apart).trans twice)⟩, rfl, broken.cut⟩

theorem wp_receivePacket (settled : Settled g) :
    Prog.wp ledger receivePacket (fun _ => Settled) g := by
  have idle : g.filling = false := by
    rcases settled with clean | broken
    · exact clean.idle
    · exact broken.idle
  refine Prog.wp_bind.mpr (Prog.wp_mono (wp_recvPacket idle) ?_)
  intro received g' outcome
  rw [Prog.wp_bind]
  rcases settled with clean | broken
  · refine outcome.wp_free clean ?_ ?_
    · exact fun _ clean => .inl clean
    · exact fun _ _ broken => .inr broken
  · exact Prog.wp_mono (outcome.wp_free_broken broken) fun _ _ broken => .inr broken

theorem client_allowed (fair : Fair g) (c : ClientMain.Call) : ledger.allowed g (.client c) := by
  cases c with
  | sys c =>
    cases c with
    | socket c =>
      cases c with
      | select fds => exact fair
      | _ => trivial
    | _ => trivial
  | _ => trivial

theorem wp_carried (c : ClientMain.Call) (settled : Settled g) :
    Prog.wp ledger (carried c) (fun _ => Settled) g := by
  unfold carried
  split
  · exact wp_receivePacket settled
  · exact ⟨client_allowed settled.fair c, fun _ _ => settled⟩

end receiving

section callers

variable {g : Ledger} {α : Type}

theorem wp_sys {p : Sys α} {Q : α → Ledger → Prop} (hQ : ∀ a, Q a g) :
    Prog.wp ledger (sys p) Q g := by
  refine Prog.wp_embed.mpr ((Prog.Calls.trivial p).wp ?_ hQ)
  intro c _
  exact ⟨trivial, fun _ => rfl⟩

theorem wp_receiveCommand {server : Server} {session : Session} (clean : Clean g) :
    Prog.wp ledger (receiveCommand server session) (fun r g' =>
      Fair g' ∧ (r ≠ none → Clean g')) g := by
  refine Prog.wp_bind.mpr (Prog.wp_mono (wp_recvPacket clean.idle) ?_)
  intro received g' outcome
  rw [Prog.wp_ite]
  constructor
  · intro _
    refine Prog.wp_bind.mpr (outcome.wp_free clean ?_ ?_)
    · intro g clean
      exact ⟨clean.fair, fun _ => clean⟩
    · intro g _ broken
      exact ⟨broken.fair, fun some => absurd rfl some⟩
  · intro ok
    refine Prog.wp_bind.mpr (wp_sys fun session' => ?_)
    refine Prog.wp_bind.mpr (outcome.wp_free clean ?_ ?_)
    · intro g clean
      exact ⟨clean.fair, fun _ => clean⟩
    · intro g wrong _
      rw [wrong] at ok
      exact absurd rfl ok

theorem wp_sessionLoop {server : Server} {clientSocket : Int} {session : Session}
    (clean : Clean g) :
    Prog.wp ledger (sessionLoop server clientSocket session) (fun _ g => Fair g) g := by
  refine Prog.wp_iterate (fun _ g => Clean g) clean ?_
  intro session g clean
  refine Prog.wp_call ⟨clean.balanced, clean.whole⟩ ?_
  intro r _
  cases r with
  | error e => exact Prog.wp_ite.mpr ⟨fun _ => clean, fun _ => clean.fair⟩
  | ok ready =>
    dsimp only
    have received : Prog.wp ledger (if clientSocket ∈ ready then receiveCommand server session
        else pure (some session)) (fun r g' => Fair g' ∧ (r ≠ none → Clean g')) g := by
      rw [Prog.wp_ite]
      exact ⟨fun _ => wp_receiveCommand clean, fun _ => ⟨clean.fair, fun _ => clean⟩⟩
    refine Prog.wp_bind.mpr (Prog.wp_mono received ?_)
    intro r g' ⟨fair, goes⟩
    cases r with
    | none => exact fair
    | some session =>
      have clean := goes (by simp)
      refine Prog.wp_ite.mpr ⟨fun _ => ?_, fun _ => clean⟩
      refine Prog.wp_bind.mpr (wp_sys fun stillOpen => ?_)
      exact Prog.wp_ite.mpr ⟨fun _ => clean, fun _ => clean.fair⟩

theorem wp_recvResponse {outSize : Nat} (clean : Clean g) :
    Prog.wp ledger (recvResponse outSize) (fun _ g => Fair g) g := by
  refine Prog.wp_iterate (fun _ g => Clean g) clean ?_
  intro _ g clean
  refine Prog.wp_bind.mpr (Prog.wp_mono (wp_recvPacket clean.idle) ?_)
  intro received g' outcome
  rw [Prog.wp_ite]
  constructor
  · intro _
    refine Prog.wp_bind.mpr (outcome.wp_free clean ?_ ?_)
    · exact fun _ clean => clean.fair
    · exact fun _ _ broken => broken.fair
  · intro ok
    have goes : ∀ {Q : Unit → Ledger → Prop}, (∀ g, Clean g → Q () g) →
        Prog.wp ledger (free received.buf) Q g' := by
      intro Q hQ
      refine outcome.wp_free clean hQ ?_
      intro g wrong _
      rw [wrong] at ok
      exact absurd rfl ok
    refine Prog.wp_ite.mpr ⟨fun _ => ?_, fun _ => Prog.wp_ite.mpr ⟨fun _ => ?_, fun _ => ?_⟩⟩
    · exact Prog.wp_bind.mpr (goes fun _ clean => clean)
    · exact Prog.wp_bind.mpr (goes fun _ clean => clean.fair)
    · exact Prog.wp_bind.mpr (goes fun _ clean => clean.fair)

theorem wp_unsolicited (clean : Clean g) :
    Prog.wp ledger unsolicited (fun _ g => Fair g) g := by
  refine Prog.wp_bind.mpr (Prog.wp_mono (wp_recvPacket clean.idle) ?_)
  intro received g' outcome
  have released : ∀ goes : Bool, Prog.wp ledger (free received.buf >>= fun _ => pure goes)
      (fun _ g => Fair g) g' := by
    intro goes
    refine Prog.wp_bind.mpr (outcome.wp_free clean ?_ ?_)
    · exact fun _ clean => clean.fair
    · exact fun _ _ broken => broken.fair
  rw [Prog.wp_ite]
  refine ⟨fun _ => released _, fun _ => ?_⟩
  rw [Prog.wp_ite]
  exact ⟨fun _ => released _, fun _ => released _⟩

theorem clean_start : Clean {} where
  balanced := fun _ => .inl rfl
  idle := rfl
  whole := rfl

/-- A buffer that `recv_packet` has released and still returns. -/
def Dangles (r : Result) (g : Ledger) : Prop :=
  r.ok = false ∧ ∃ ptr times, r.buf = some ptr ∧ g.heap ptr = .released times

/-- `recv_packet` leaves no dangling pointer, and in each of its callers every buffer is released
exactly once, if and only if no payload is cut off while it is received: in the loop of a session, in
`recv_response`, and in the client from its start on, whenever it waits and when it returns. -/
theorem payloads_released (server : Server) (clientSocket : Int) (session : Session)
    (outSize : Nat) :
    Prog.wp ledger (recvPacket none) (fun r g => ¬ Dangles r g ↔ g.cut = false) {} ∧
    Prog.wp ledger (sessionLoop server clientSocket session) (fun _ g => Fair g) {} ∧
    Prog.wp ledger (recvResponse outSize) (fun _ g => Fair g) {} ∧
    (∀ g, Clean g → Prog.wp ledger unsolicited (fun _ g => Fair g) g) ∧
    (∀ client, Prog.wp ledger ((ClientMain.main client).lower carried) (fun _ g => Fair g) {}) ∧
    ∀ client, Prog.wp ledger ((ClientMain.background client).lower carried) (fun _ g => Fair g) {} := by
  have client : ∀ {α : Type} (p : ClientMain.Forking α),
      Prog.wp ledger (p.lower carried) (fun _ g => Fair g) {} := by
    intro α p
    refine Prog.wp_mono (Prog.wp_lower (J := Settled) ?_ (.inl clean_start)) ?_
    · exact fun c _ settled => wp_carried c settled
    · exact fun _ _ settled => settled.fair
  refine ⟨?_, wp_sessionLoop clean_start, wp_recvResponse clean_start, fun _ => wp_unsolicited,
    fun _ => client _, fun _ => client _⟩
  refine Prog.wp_mono (wp_recvPacket rfl) ?_
  intro r g outcome
  cases outcome with
  | refused _ null =>
    have none : r.buf = none := by
      rcases null with null | null
      · exact null
      · exact null
    refine iff_of_true ?_ rfl
    intro ⟨_, _, _, denoted, _⟩
    rw [none] at denoted
    cases denoted
  | cut wrong some _ released _ =>
    refine iff_of_false ?_ (by simp)
    intro fine
    exact fine ⟨wrong, _, 1, some, released⟩
  | empty ok _ =>
    refine iff_of_true ?_ rfl
    intro ⟨wrong, _⟩
    rw [ok] at wrong
    cases wrong
  | held ok _ _ _ _ =>
    refine iff_of_true ?_ rfl
    intro ⟨wrong, _⟩
    rw [ok] at wrong
    cases wrong

instance (g : Ledger) (c : Call) (r : c.Reply) : Decidable (ledger.expects g c r) :=
  inferInstanceAs (Decidable (_ = true))

/-- A packet of five bytes, of which two arrive before the end of the stream. -/
def cutOff (g : Ledger) : (c : Call) → Option c.Reply
  | .heap (.malloc _) => some (some 0)
  | .heap (.realloc _ _) => some none
  | .heap (.free _) | .heap (.store _ _ _) => some ()
  | .recv 2 => some (.ok [0xAB, 0xCD])
  | .recv 1 => some (.ok [1])
  | .recv 4 => some (.ok [0, 0, 0, 5])
  | .recv 5 => some (.ok (cstr "lo"))
  | .recv _ => some (if g.filling then .ok [] else .error EIO)
  | .select _ => some (.ok [4])
  | .sys c => some ((Sessions.calm [] none).reply c)
  | .client _ => none

def cuttingOff : Prog.Handler Call.Reply Ledger Unit := fun c _ g =>
  (cutOff g c).bind fun r => if ledger.expects g c r then some (r, ledger.next g c r) else none

theorem cuttingOff_sound {g g' : Ledger} (c : Call) (choice : Unit) (r : c.Reply)
    (done : cuttingOff c choice g = some (r, g')) : ledger.expects g c r ∧ g' = ledger.next g c r := by
  obtain ⟨r', -, done⟩ := Option.bind_eq_some_iff.mp done
  split_ifs at done with expected
  cases done
  exact ⟨expected, rfl⟩

theorem cut_payload_released_twice :
    ∃ session g, Prog.Ends ledger
      (sessionLoop Sessions.calmServer 4 { rootPath := cstr "/srv" }) {} session g ∧
      g.heap 0 = .released 2 := by
  have played : (Prog.execute cuttingOff (fun _ _ => ()) 60
      (sessionLoop Sessions.calmServer 4 { rootPath := cstr "/srv" }) {}).any
      (fun r => decide (r.2.2.heap 0 = .released 2)) = true := by
    decide +kernel
  obtain ⟨log, session, g, ran, twice⟩ := Prog.exists_of_execute 60
    (fun _ (_ : Session) (g : Ledger) => g.heap 0 = .released 2) played
  exact ⟨session, g, ran.ends fun c choice _ r _ => cuttingOff_sound c choice r, twice⟩

end callers

end Csap.Payloads
