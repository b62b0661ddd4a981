import Csap.Turns

/-! The client keeps to the turns: it waits for the answer to a command, and for the whole of a stream,
before it looks for the next one. -/

namespace Csap.Turns

open Prog (wp Calls)
open Network (Packet CHUNK_SIZE)

def asClient (p : Phase) : Talk := ⟨.client, p, []⟩

def Phase.pending : Phase → Bool
  | .idle | .asked _ | .uploaded => true
  | _ => false

section responses

variable {p q : Phase} {dataCode endCode : UInt8} {texts : Texts} {fd : Int} {command : Cmd}

theorem serverSpeaks_pending (pending : p.pending = true) (packet : Packet) :
    serverSpeaks p packet =
      if packet.command = RSP_NOTIFY then some p
      else if packet.command = RSP_OK then granted p
      else if packet.command = RSP_ERR then refused p
      else none := by
  cases p with
  | uploading dataCode endCode => cases pending
  | downloading dataCode endCode => cases pending
  | _ => rfl

theorem wp_response {outSize : Nat} {Q : Option Response → Talk → Prop} (pending : p.pending = true)
    (agreed : ∀ response q, granted p = some q → Q (some response) (asClient q))
    (failed : ∀ q, refused p = some q → Q none (asClient q)) :
    wp talking (recvResponse outSize) Q (asClient p) := by
  have waits : (asClient p).may (.socket .recvPacket) = true := by
    cases p with
    | uploading dataCode endCode => cases pending
    | downloading dataCode endCode => cases pending
    | _ => rfl
  unfold recvResponse
  apply Prog.wp_iterate fun _ g' => asClient p = g'
  · rfl
  rintro _ _ rfl
  refine Prog.wp_call waits fun received expected => ?_
  cases received with
  | none => cases expected
  | some packet =>
  obtain ⟨q, heard⟩ : ∃ q, serverSpeaks p packet = some q := Option.isSome_iff_exists.mp expected
  have next : talking.next (asClient p) (.socket .recvPacket) (some packet) = asClient q := by
    change (asClient p).goTo (serverSpeaks p packet) = _
    rw [heard]
    rfl
  rw [next]
  rw [serverSpeaks_pending pending] at heard
  apply Prog.wp_ite.mpr
  constructor
  · intro notice
    rw [if_pos notice] at heard
    cases heard
    rfl
  intro notice
  rw [if_neg notice] at heard
  apply Prog.wp_ite.mpr
  constructor
  · intro ok
    rw [if_pos ok] at heard
    exact agreed _ q heard
  · intro other
    rw [if_neg other] at heard
    split_ifs at heard
    exact failed q heard

theorem wp_response_idle {outSize : Nat} {Q : Option Response → Talk → Prop} :
    wp talking (recvResponse outSize) Q (asClient .idle) := by
  apply wp_response rfl
  · intro _ _ granted
    cases granted
  · intro _ refused
    cases refused

theorem wp_outcome {outSize : Nat} {Q : Option Response → Talk → Prop} (pending : p.pending = true)
    (grants : ∀ q, granted p = some q → q = .idle) (hQ : ∀ r, Q r (asClient .idle)) :
    wp talking (recvResponse outSize) Q (asClient p) := by
  apply wp_response pending
  · intro response q agreed
    rw [grants q agreed]
    exact hQ _
  · intro q failed
    cases p with
    | asked kind =>
      cases failed
      exact hQ _
    | uploaded =>
      cases failed
      exact hQ _
    | _ => cases failed

end responses

section streams

variable {dataCode endCode : UInt8} {texts : Texts} {fd : Int}

theorem wp_takeStream {command : Command} {Q : Bool → Talk → Prop} {p : Phase}
    (takes : command = .read ∨ command = .downloadBegin ∨ command = .list)
    (may : p = .idle ∨ p = .asked (kindOf command.code)) (hQ : ∀ r, Q r (asClient .idle)) :
    wp talking (receiveCommandStream texts command fd) Q (asClient p) := by
  have kind : kindOf command.code = .gives (answerCodes command).1 (answerCodes command).2 := by
    rcases takes with rfl | rfl | rfl <;> rfl
  unfold receiveCommandStream
  apply Prog.wp_bind.mpr
  rcases may with rfl | rfl
  · exact wp_response_idle
  rw [kind]
  apply wp_response rfl
  · intro size q agreed
    cases agreed
    have frames : (asClient (.downloading (answerCodes command).1 (answerCodes command).2)).hears =
        framed (answerCodes command).1 (answerCodes command).2
          (.downloading (answerCodes command).1 (answerCodes command).2) .idle := rfl
    apply Prog.wp_bind.mpr
    apply wp_receive frames rfl
    rintro ⟨received, msg⟩
    cases received with
    | error e => exact hQ _
    | ok n => exact hQ _
  · intro q failed
    cases failed
    exact hQ _

theorem wp_giveStream {command : Command} {Q : Bool → Talk → Prop} {p : Phase}
    (gives : command = .write ∨ command = .uploadBegin)
    (may : p = .idle ∨ p = .asked (kindOf command.code)) (hQ : ∀ r, Q r (asClient .idle)) :
    wp talking (sendCommandStream command fd) Q (asClient p) := by
  obtain ⟨dataCode, endCode, codes, kind, streams⟩ : ∃ dataCode endCode : Command,
      (if command = .write then (Command.writeData, Command.writeEnd)
        else (Command.data, Command.dataEnd)) = (dataCode, endCode) ∧
      kindOf command.code = .takes dataCode.code endCode.code ∧ Streams dataCode.code endCode.code := by
    rcases gives with rfl | rfl
    · exact ⟨.writeData, .writeEnd, rfl, rfl, by decide, by decide, by decide⟩
    · exact ⟨.data, .dataEnd, rfl, rfl, by decide, by decide, by decide⟩
  have outcome : ∀ {outSize : Nat} {f : Option Response → Sys Bool},
      (∀ r, ∃ b, f r = pure b) → wp talking (recvResponse outSize >>= f) Q (asClient .uploaded) := by
    intro outSize f returns
    apply Prog.wp_bind.mpr
    apply wp_outcome rfl
    · intro q agreed
      cases agreed
      rfl
    · intro r
      obtain ⟨b, same⟩ := returns r
      rw [same]
      exact hQ b
  unfold sendCommandStream
  apply Prog.wp_bind.mpr
  rcases may with rfl | rfl
  · exact wp_response_idle
  rw [kind]
  apply wp_response rfl
  · intro _ q agreed
    cases agreed
    have frames : (asClient (.uploading dataCode.code endCode.code)).speaks = framed dataCode.code
        endCode.code (.uploading dataCode.code endCode.code) .uploaded := rfl
    rw [codes]
    apply Prog.wp_bind.mpr
    apply wp_stream frames streams
    · intro e _
      have ended : (asClient (.uploading dataCode.code endCode.code)).speaks ⟨RSP_ERR, []⟩ =
          some .uploaded := by
        rw [frames, framed_error (by simp)]
      apply Prog.wp_bind.mpr
      apply wp_speak ended
      · intro long
        cases long
      · intro _ _
        exact outcome fun _ => ⟨false, rfl⟩
    · intro n
      exact outcome fun r => ⟨r.isSome, rfl⟩
  · intro q failed
    cases failed
    exact hQ _

theorem wp_streamCommand {command : Cmd} {Q : Bool → Talk → Prop} {p : Phase}
    (streams : command.code = .read ∨ command.code = .write ∨ command.code = .uploadBegin ∨
      command.code = .downloadBegin ∨ command.code = .list)
    (may : p = .idle ∨ p = .asked (kindOf command.code.code)) (hQ : ∀ r, Q r (asClient .idle)) :
    wp talking (runStreamCommand texts command fd) Q (asClient p) := by
  unfold runStreamCommand
  apply Prog.wp_ite.mpr
  refine ⟨fun takes => wp_takeStream takes may hQ, fun other => ?_⟩
  apply Prog.wp_ite.mpr
  refine ⟨fun gives => wp_giveStream gives may hQ, fun neither => ?_⟩
  rcases streams with is | is | is | is | is
  · exact absurd (.inl is) other
  · exact absurd (.inl is) neither
  · exact absurd (.inr is) neither
  · exact absurd (.inr (.inl is)) other
  · exact absurd (.inr (.inr is)) other

theorem wp_plainCommand {command : Cmd} {Q : Bool → Talk → Prop} {p : Phase}
    (plain : ¬ (command.code = .read ∨ command.code = .write ∨ command.code = .uploadBegin ∨
      command.code = .downloadBegin ∨ command.code = .list))
    (may : p = .idle ∨ p = .asked (kindOf command.code.code)) (hQ : ∀ r, Q r (asClient .idle)) :
    wp talking waitResponse Q (asClient p) := by
  have kind : kindOf command.code.code = .plain := by
    unfold kindOf
    rw [Command.ofCode_code]
    generalize command.code = code at plain
    cases code <;> first | rfl | exact absurd (by decide) plain
  apply Prog.wp_bind.mpr
  rcases may with rfl | rfl
  · exact wp_response_idle
  rw [kind]
  apply wp_outcome rfl
  · intro q agreed
    cases agreed
    rfl
  · exact fun r => hQ _

end streams

section main

open ClientMain

/-- `talking`, for the calls of the client's own processes as well. -/
def calling : Typestate ClientMain.Call.Reply Talk where
  allowed g c :=
    match c with
    | .sys c => talking.allowed g c
    | _ => True
  expects g c r :=
    match c, r with
    | .sys c, r => talking.expects g c r
    | _, _ => True
  next g c r :=
    match c, r with
    | .sys c, r => talking.next g c r
    | _, _ => g

variable {client : Client} {socketFd : Int} {pipeFd : Int × Int} {username : CStr} {g : Talk}

theorem wp_sys {α : Type} {p : Sys α} {Q : α → Talk → Prop} (h : wp talking p Q g) :
    wp calling (sys p) Q g :=
  Prog.wp_embed.mpr h

theorem wp_own {c : ClientMain.Call} {Q : c.Reply → Talk → Prop}
    (own : ∀ c' : Csap.Call, c ≠ .sys c') (hQ : ∀ r, Q r g) : wp calling (call c) Q g := by
  cases c with
  | sys c => exact absurd rfl (own c)
  | _ => exact ⟨trivial, fun r _ => hQ r⟩

theorem wp_close {fd : Int} {Q : Unit → Talk → Prop} (hQ : Q () g) : wp calling (close fd) Q g := by
  apply Prog.wp_bind.mpr
  exact wp_sys (p := fileCall (.close fd)) (wp_silent (calls_within rfl) fun _ => hQ)

theorem wp_closeLocal {fd : Int} {Q : Unit → Talk → Prop} (hQ : Q () g) :
    wp calling (Prog.when (2 < fd) (close fd)) Q g := by
  apply Prog.wp_when.mpr
  exact ⟨fun _ => wp_close hQ, fun _ => hQ⟩

theorem wp_exit {α : Type} {code : Int} {Q : α → Talk → Prop} :
    wp calling (exit code : Forking α) Q g := by
  apply Prog.wp_bind.mpr
  refine ⟨trivial, ?_⟩
  intro r
  exact r.elim

theorem wp_startClient {Q : Int → Talk → Prop} (hQ : ∀ sockfd, Q sockfd g) :
    wp calling (startClient client) Q g := by
  unfold startClient
  apply Prog.wp_bind.mpr
  apply wp_own (by simp)
  intro opened
  cases opened with
  | error e => exact wp_exit
  | ok sockfd =>
  dsimp only
  cases makeEndpoint client with
  | none =>
    apply Prog.wp_bind.mpr
    apply wp_close
    exact wp_exit
  | some port =>
  apply Prog.wp_bind.mpr
  apply wp_own (by simp)
  intro connected
  cases connected with
  | error e =>
    apply Prog.wp_bind.mpr
    apply wp_close
    exact wp_exit
  | ok _ => exact hQ sockfd

theorem readLine_bytes (fd : Int) (size : Nat) :
    (readLine fd size).Calls fun c => c = .file (.read fd 1) := by
  unfold readLine
  repeat' with_reducible first
    | exact Calls.pure _
    | exact Calls.perform rfl
    | refine Calls.iterate fun _ => ?_
    | refine Calls.bind ?_ fun _ => ?_
    | split

theorem wp_input {p : Phase} {fd : Int} {size : Nat} {Q : SysResult (CStr × Bool) → Talk → Prop}
    (hQ : ∀ r, Q r (asClient p)) : wp talking (readLine fd size) Q (asClient p) := by
  apply (readLine_bytes fd size).wp _ hQ
  rintro _ rfl
  refine ⟨rfl, ?_⟩
  intro r
  cases r with
  | error e => rfl
  | ok data => rfl

instance computeLocalFd_footprint (command : Cmd) :
    Footprint (computeLocalFd command)
      [.openPath { access := .rdonly }, .openPath { access := .wronly, creat := true, trunc := true }] := by
  unfold computeLocalFd
  exact {}

theorem wp_ask {command : Cmd} {line : CStr} {Q : Talk → Prop}
    (hQ : ∀ p, p = .idle ∨ p = .asked (kindOf command.code.code) → Q (asClient p)) :
    wp talking (sendPacket command.code.code line) (fun _ g => Q g) (asClient .idle) := by
  have speaks : (asClient .idle).speaks ⟨command.code.code, line⟩ =
      some (.asked (kindOf command.code.code)) := by
    change (if (Command.ofCode command.code.code).isSome then _ else _) = _
    rw [Command.ofCode_code]
    rfl
  apply wp_speak speaks
  · intro _
    exact hQ _ (.inl rfl)
  · intro _ _
    exact hQ _ (.inr rfl)

theorem wp_handleInput : wp calling (handleInput client socketFd pipeFd username)
    (fun _ g => g = asClient .idle) (asClient .idle) := by
  unfold handleInput
  apply Prog.wp_bind.mpr
  apply wp_sys
  apply wp_input
  intro r
  cases r with
  | error e => rfl
  | ok input =>
  obtain ⟨buf, stdinEof⟩ := input
  apply Prog.wp_ite.mpr
  refine ⟨fun _ => rfl, fun _ => ?_⟩
  apply Prog.wp_ite.mpr
  refine ⟨fun _ => rfl, fun _ => ?_⟩
  apply Prog.wp_bind.mpr
  apply wp_sys
  refine wp_silent (calls_within rfl) ?_
  intro parsed
  cases parsed with
  | error msg => rfl
  | ok command =>
  apply Prog.wp_ite.mpr
  refine ⟨fun _ => ?_, fun _ => ?_⟩
  · apply Prog.wp_bind.mpr
    apply wp_own (by simp)
    intro running
    apply Prog.wp_ite.mpr
    exact ⟨fun _ => rfl, fun _ => rfl⟩
  apply Prog.wp_bind.mpr
  apply wp_sys
  refine wp_silent (calls_within rfl) ?_
  intro opened
  cases opened with
  | none => rfl
  | some localFd =>
  apply Prog.wp_ite.mpr
  refine ⟨fun _ => ?_, fun _ => ?_⟩
  · apply Prog.wp_ite.mpr
    refine ⟨fun _ => ?_, fun _ => ?_⟩
    · apply Prog.wp_bind.mpr
      apply Prog.wp_bind.mpr
      apply wp_own (by simp)
      intro forked
      apply Prog.wp_bind.mpr
      apply wp_closeLocal
      apply Prog.wp_bind.mpr
      apply wp_own (by simp)
      intro _
      rfl
    · apply Prog.wp_bind.mpr
      apply wp_closeLocal
      rfl
  apply Prog.wp_bind.mpr
  apply wp_sys
  apply wp_ask
  intro p may
  apply Prog.wp_ite.mpr
  refine ⟨fun streams => ?_, fun plain => ?_⟩
  · apply Prog.wp_bind.mpr
    apply wp_sys
    apply wp_streamCommand streams may
    intro _
    apply Prog.wp_bind.mpr
    apply wp_closeLocal
    rfl
  · apply Prog.wp_bind.mpr
    apply wp_sys
    apply wp_plainCommand plain may
    intro _
    rfl

theorem wp_handlePipe {Q : Unit → Talk → Prop} {fd : Int} (hQ : Q () g) :
    wp calling (handlePipe fd) Q g := by
  unfold handlePipe
  apply Prog.wp_bind.mpr
  apply wp_own (by simp)
  intro r
  cases r with
  | error e => exact hQ
  | ok buf => exact wp_own (by simp) fun _ => hQ

/-- In its loop the client reads nothing but notices: what it has asked for was answered before. -/
theorem wp_round : wp calling (ClientMain.round client socketFd pipeFd username) (fun _ g => g = asClient .idle)
    (asClient .idle) := by
  have piped : ∀ {readfds : List Int}, wp calling (do
      Prog.when (pipeFd.1 ∈ readfds) (handlePipe pipeFd.1)
      return .inl username : Round) (fun _ g => g = asClient .idle) (asClient .idle) := by
    intro readfds
    apply Prog.wp_bind.mpr
    apply Prog.wp_when.mpr
    exact ⟨fun _ => wp_handlePipe rfl, fun _ => rfl⟩
  unfold ClientMain.round
  refine Prog.wp_call rfl fun ready _ => ?_
  cases ready with
  | error e =>
    apply Prog.wp_ite.mpr
    exact ⟨fun _ => rfl, fun _ => rfl⟩
  | ok readfds =>
  apply Prog.wp_ite.mpr
  refine ⟨fun _ => wp_handleInput, fun _ => ?_⟩
  apply Prog.wp_ite.mpr
  refine ⟨fun _ => ?_, fun _ => piped⟩
  refine Prog.wp_call rfl fun received expected => ?_
  cases received with
  | none => cases expected
  | some packet =>
  obtain ⟨q, heard⟩ : ∃ q, serverSpeaks .idle packet = some q := Option.isSome_iff_exists.mp expected
  have notice : q = .idle := by
    rw [serverSpeaks_pending rfl] at heard
    split_ifs at heard
    · exact (Option.some.inj heard).symm
    · cases heard
    · cases heard
  have next : calling.next (asClient .idle) (.sys (.socket .recvPacket)) (some packet) =
      asClient .idle := by
    change (asClient .idle).goTo (serverSpeaks .idle packet) = _
    rw [heard, notice]
    rfl
  have same : calling.next (asClient .idle) (.sys (.socket (.select [0, socketFd, pipeFd.1])))
      (.ok readfds) = asClient .idle := rfl
  rw [same, next]
  apply Prog.wp_ite.mpr
  exact ⟨fun _ => rfl, fun _ => piped⟩

theorem wp_main : wp calling (main client) (fun _ _ => True) (asClient .idle) := by
  unfold main
  apply Prog.wp_bind.mpr
  apply wp_startClient
  intro socketFd
  apply Prog.wp_bind.mpr
  apply wp_own (by simp)
  intro piped
  cases piped with
  | error e =>
    apply Prog.wp_bind.mpr
    apply wp_close
    exact wp_exit
  | ok pipeFd =>
  apply Prog.wp_bind.mpr
  apply Prog.wp_iterate fun _ g => g = asClient .idle
  · rfl
  · rintro username _ rfl
    apply Prog.wp_mono wp_round
    intro next g idle
    cases next with
    | inl username => exact idle
    | inr _ => exact wp_close trivial

theorem wp_endNotify {α : Type} {Q : α → Talk → Prop} {pipeWriteFd exitCode : Int} {msg : Option CStr} :
    wp calling (bgEndNotify pipeWriteFd socketFd exitCode msg : Forking α) Q g := by
  unfold bgEndNotify
  apply Prog.wp_bind.mpr
  apply wp_own (by simp)
  intro _
  apply Prog.wp_bind.mpr
  apply Prog.wp_when.mpr
  refine ⟨fun _ => ?_, fun _ => wp_exit⟩
  apply wp_close
  exact wp_exit

theorem wp_background : wp calling (background client) (fun _ _ => True) (asClient .idle) := by
  unfold background
  apply Prog.wp_bind.mpr
  apply wp_own (by simp)
  intro inherited
  obtain ⟨command, line, username, pipeFd, parentFd⟩ := inherited
  apply Prog.wp_bind.mpr
  apply wp_close
  apply Prog.wp_bind.mpr
  apply wp_close
  apply Prog.wp_bind.mpr
  apply wp_startClient
  intro bgSocketFd
  apply Prog.wp_bind.mpr
  apply wp_sys
  apply wp_speak (p := .asked .plain) rfl
  · intro _
    apply Prog.wp_bind.mpr
    exact wp_sys wp_response_idle
  intro _ _
  have grants : ∀ q, granted (.asked .plain) = some q → q = .idle := by
    rintro q ⟨⟩
    rfl
  apply Prog.wp_bind.mpr
  apply wp_sys
  apply wp_outcome rfl grants
  intro agreed
  cases agreed with
  | none => exact wp_endNotify
  | some _ =>
  apply Prog.wp_bind.mpr
  apply wp_sys
  apply wp_silent (calls_within rfl)
  intro opened
  cases opened with
  | none => exact wp_endNotify
  | some fd =>
  apply Prog.wp_bind.mpr
  apply wp_sys
  apply wp_ask
  intro p may
  have ends : ∀ rc g, wp calling (do
      Prog.when (2 < fd) (close fd)
      if !rc then
        bgEndNotify pipeFd.2 bgSocketFd 1
          (some (cstr "[ERROR]: Background operation failed during stream transfer.\n"))
      else bgEndNotify pipeFd.2 bgSocketFd 0 (some (successMsg command)) : Forking Unit)
      (fun _ _ => True) g := by
    intro rc g
    apply Prog.wp_bind.mpr
    apply wp_closeLocal
    apply Prog.wp_ite.mpr
    exact ⟨fun _ => wp_endNotify, fun _ => wp_endNotify⟩
  apply Prog.wp_bind.mpr
  apply wp_sys
  by_cases streams : command.code = .read ∨ command.code = .write ∨ command.code = .uploadBegin ∨
      command.code = .downloadBegin ∨ command.code = .list
  · exact wp_streamCommand streams may fun rc => ends rc _
  · have other : runStreamCommand client.texts command fd = pure false := by
      unfold runStreamCommand
      rw [if_neg (by tauto), if_neg (by tauto)]
    rw [other]
    exact ends false _

end main

end Csap.Turns
