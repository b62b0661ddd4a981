import Csap.Turns

/-! The server keeps to the turns: every command gets one answer or one stream, and nothing is sent
while the client has the turn but notifications. -/

namespace Csap.Turns

open Prog (wp Calls)
open Network (Packet CHUNK_SIZE)

namespace Talk

structure Serving (g : Talk) : Prop where
  side : g.side = .server
  fresh : g.line = []

/-- The server has done with a command, or owes an answer that it will not give. -/
structure Free (g : Talk) : Prop extends g.Serving where
  listens : ∀ dataCode endCode, g.phase ≠ .uploading dataCode endCode

structure Owing (g : Talk) : Prop extends g.Serving where
  grants : granted g.phase = some .idle
  refuses : refused g.phase = some .idle

structure Asked (g : Talk) : Prop extends g.Serving where
  refuses : refused g.phase = some .idle

end Talk

section answers

variable {g : Talk} {α β : Type}

theorem Talk.Serving.goes (h : g.Serving) (p : Phase) : ({ g with phase := p } : Talk).Serving :=
  ⟨h.side, h.fresh⟩

theorem Talk.Serving.speaks (h : g.Serving) : g.speaks = serverSpeaks g.phase := by
  unfold Talk.speaks
  rw [h.side]

theorem Talk.Serving.hears (h : g.Serving) : g.hears = clientSpeaks g.phase := by
  unfold Talk.hears
  rw [h.side]

theorem Talk.Asked.free (h : g.Asked) : g.Free := by
  refine ⟨h.toServing, ?_⟩
  intro dataCode endCode uploading
  have refuses := h.refuses
  rw [uploading] at refuses
  cases refuses

theorem Talk.Owing.asked (h : g.Owing) : g.Asked := ⟨h.toServing, h.refuses⟩

theorem Talk.Asked.told (h : g.Asked) : ({ g with phase := .idle } : Talk).Free := by
  refine ⟨h.goes _, ?_⟩
  intro dataCode endCode idle
  cases idle

theorem speaks_err (h : g.Asked) (payload : CStr) : g.speaks ⟨RSP_ERR, payload⟩ = some .idle := by
  obtain ⟨side, phase, line⟩ := g
  obtain ⟨⟨rfl, -⟩, refuses⟩ := h
  cases phase with
  | asked kind => rfl
  | uploaded => rfl
  | _ => cases refuses

theorem speaks_ok {p : Phase} (side : g.side = .server) (grants : granted g.phase = some p) (payload : CStr) :
    g.speaks ⟨RSP_OK, payload⟩ = some p := by
  obtain ⟨here, phase, line⟩ := g
  obtain rfl : here = .server := side
  cases phase with
  | asked kind => exact grants
  | uploaded => exact grants
  | _ => cases grants

theorem wp_error {err : Int} {reason : CStr} {Q : Int → Talk → Prop} (h : g.Asked)
    (hQ : ∀ r g', g'.Free → Q r g') : wp talking (sendErr err reason) Q g := by
  unfold sendErr
  apply Prog.wp_bind.mpr
  refine wp_silent (calls_within rfl) ?_
  intro allocated
  apply Prog.wp_ite.mpr
  refine ⟨fun _ => ?_, fun _ => hQ _ _ h.free⟩
  exact wp_speak (speaks_err h _) (fun _ => hQ _ _ h.free) fun _ _ => hQ _ _ h.told

theorem wp_fail {err : Errno} {reason : CStr} {Q : Unit → Talk → Prop} (h : g.Asked)
    (hQ : ∀ g', g'.Free → Q () g') : wp talking (failWith err reason) Q g := by
  apply Prog.wp_bind.mpr
  exact wp_error h fun _ => hQ

theorem wp_succeed {reason : CStr} {Q : Unit → Talk → Prop} (h : g.Owing)
    (hQ : ∀ g', g'.Free → Q () g') : wp talking (succeedWith reason) Q g := by
  apply Prog.wp_bind.mpr
  exact wp_speak (speaks_ok h.side h.grants _) (fun _ => hQ _ h.asked.free) fun _ _ => hQ _ h.asked.told

theorem wp_notice {payload : CStr} {Q : Int → Talk → Prop} (side : g.side = .server)
    (open_ : ∀ dataCode endCode, g.phase ≠ .uploading dataCode endCode)
    (framed : ∀ dataCode endCode, g.phase ≠ .downloading dataCode endCode) (hQ : ∀ r, Q r g) :
    wp talking (sendPacket RSP_NOTIFY payload) Q g := by
  have may : g.speaks ⟨RSP_NOTIFY, payload⟩ = some g.phase := by
    unfold Talk.speaks
    rw [side]
    cases phase : g.phase with
    | uploading dataCode endCode => exact absurd phase (open_ _ _)
    | downloading dataCode endCode => exact absurd phase (framed _ _)
    | _ => rfl
  exact wp_speak may (fun _ => hQ _) fun _ _ => hQ _

def Answers (p : Sys α) : Prop := ∀ g : Talk, g.Owing → wp talking p (fun _ g' => g'.Free) g

/-- The program refuses and has no result, or has one and has said nothing. -/
def Checks (p : Sys (Option α)) : Prop := ∀ g : Talk, g.Asked →
  wp talking p (fun r g' => (r = none → g'.Free) ∧ ∀ a, r = some a → g' = g) g

theorem answers_of_silent {p : Sys α} (silent : p.Calls Silent) : Answers p := by
  intro g owing
  exact wp_silent silent fun _ => owing.asked.free

theorem answers_after {p : Sys α} {f : α → Sys β} (silent : p.Calls Silent) (h : ∀ a, Answers (f a)) :
    Answers (p >>= f) := by
  intro g owing
  apply Prog.wp_bind.mpr
  apply wp_silent silent
  intro a
  exact h a g owing

theorem answers_then {p : Sys α} {f : α → Sys β} (h : Answers p) (silent : ∀ a, (f a).Calls Silent) :
    Answers (p >>= f) := by
  intro g owing
  apply Prog.wp_bind.mpr
  apply Prog.wp_mono (h g owing)
  intro a g' free
  exact wp_silent (silent a) fun _ => free

theorem answers_check {p : Sys (Option α)} {f : Option α → Sys β} (h : Checks p)
    (none : (f none).Calls Silent) (some : ∀ a, Answers (f (some a))) : Answers (p >>= f) := by
  intro g owing
  apply Prog.wp_bind.mpr
  apply Prog.wp_mono (h g owing.asked)
  rintro r g' ⟨refused, checked⟩
  cases r with
  | none => exact wp_silent none fun _ => refused rfl
  | some a =>
    rw [checked a rfl]
    exact some a g owing

theorem checks_pure (a : Option α) (result : a ≠ none) : Checks (pure a) := by
  intro g _
  exact ⟨fun failed => absurd failed result, fun _ _ => rfl⟩

theorem checks_refuse {p : Sys β} {f : β → Sys (Option α)}
    (h : ∀ g : Talk, g.Asked → wp talking p (fun _ g' => g'.Free) g)
    (silent : ∀ b g, wp talking (f b) (fun r g' => r = none ∧ g' = g) g) : Checks (p >>= f) := by
  intro g asked
  apply Prog.wp_bind.mpr
  apply Prog.wp_mono (h g asked)
  intro b g' free
  apply Prog.wp_mono (silent b g')
  rintro r _ ⟨rfl, rfl⟩
  refine ⟨fun _ => free, ?_⟩
  intro a impossible
  cases impossible

theorem refuses_fail (err : Errno) (reason : CStr) (g : Talk) (asked : g.Asked) :
    wp talking (failWith err reason) (fun _ g' => g'.Free) g :=
  wp_fail asked fun _ free => free

theorem refuses_error (err : Int) (reason : CStr) (g : Talk) (asked : g.Asked) :
    wp talking (sendErr err reason) (fun _ g' => g'.Free) g :=
  wp_error asked fun _ _ free => free

theorem none_after (g : Talk) : wp talking (pure none : Sys (Option α)) (fun r g' => r = none ∧ g' = g) g :=
  ⟨rfl, rfl⟩

theorem checks_after {p : Sys β} {f : β → Sys (Option α)} (silent : p.Calls Silent)
    (h : ∀ b, Checks (f b)) : Checks (p >>= f) := by
  intro g asked
  apply Prog.wp_bind.mpr
  apply wp_silent silent
  intro b
  exact h b g asked

class Checking (p : Sys (Option α)) : Prop where
  checks : Checks p

instance cmdParse_checking (payload : Option CStr) : Checking (cmdParse payload) where
  checks := by
    refine checks_after (calls_within rfl) fun r => ?_
    split
    · exact checks_refuse (refuses_fail _ _) fun _ => none_after
    · exact checks_pure _ (Option.some_ne_none _)

instance cmdResolve_checking (path root : CStr) : Checking (cmdResolve path root) where
  checks := by
    refine checks_after (calls_within rfl) fun r => ?_
    split
    · exact checks_refuse (refuses_fail _ _) fun _ => none_after
    · exact checks_pure _ (Option.some_ne_none _)

instance cmdPerms_checking (arg : CStr) : Checking (cmdPerms arg) where
  checks := by
    unfold cmdPerms
    split
    · exact checks_refuse (refuses_fail _ _) fun _ => none_after
    · exact checks_pure _ (Option.some_ne_none _)

instance listPath_checking (session : Session) (buf : CStr) : Checking (listPath session buf) where
  checks := by
    unfold listPath
    split
    · refine checks_after (calls_within rfl) fun r => ?_
      split
      · exact checks_refuse (refuses_fail _ _) fun _ => none_after
      · exact checks_pure _ (Option.some_ne_none _)
    · exact Checking.checks

instance lockMoveSource_checking (srcStat : Stat) (fullSrcPath : CStr) :
    Checking (lockMoveSource srcStat fullSrcPath) where
  checks := by
    unfold lockMoveSource
    split
    · exact checks_pure _ (Option.some_ne_none _)
    · refine checks_after (calls_within rfl) fun opened => ?_
      split
      · exact checks_refuse (refuses_fail _ _) fun _ => none_after
      · refine checks_after (calls_within rfl) fun locked => ?_
        split
        · exact checks_refuse (refuses_fail _ _) fun _ g => ⟨rfl, fun _ _ => ⟨rfl, rfl⟩⟩
        · exact checks_pure _ (Option.some_ne_none _)

instance lockDeleted_checking (pathStat : Stat) (fullPath : CStr) :
    Checking (lockDeleted pathStat fullPath) where
  checks := by
    unfold lockDeleted
    split
    · exact checks_pure _ (Option.some_ne_none _)
    · refine checks_after (calls_within rfl) fun opened => ?_
      split
      · exact checks_refuse (refuses_fail _ _) fun _ => none_after
      · refine checks_after (calls_within rfl) fun locked => ?_
        split
        · exact checks_refuse (refuses_fail _ _) fun _ g => ⟨rfl, fun _ _ => ⟨rfl, rfl⟩⟩
        · exact checks_pure _ (Option.some_ne_none _)

instance takeRequest_checking (session : Session) (requestId : Int) (newStatus : RequestStatus)
    (reason : CStr) : Checking (takeRequest session requestId newStatus reason) where
  checks := by
    unfold takeRequest sourceLost
    refine checks_after (calls_within rfl) ?_
    rintro ⟨r, requestCopy⟩
    dsimp only
    split
    · exact checks_refuse (refuses_error _ _) fun _ => none_after
    · refine checks_after (calls_within rfl) ?_
      rintro ⟨found, source⟩
      dsimp only
      split
      · refine checks_refuse ?_ fun _ => none_after
        intro g asked
        split
        · apply Prog.wp_bind.mpr
          exact wp_error asked fun _ _ free => free
        · exact wp_fail asked fun _ free => free
      · exact checks_pure _ (Option.some_ne_none _)

/-- A program that answers what it owes, put together from its parts. -/
class Answering (p : Sys α) : Prop where
  answers : Answers p := by
    repeat' with_reducible first
      | exact answers_of_silent (calls_within rfl)
      | exact Answering.answers
      | exact answers_then Answering.answers fun _ => calls_within rfl
      | refine answers_check Checking.checks (calls_within rfl) fun _ => ?_
      | refine answers_after (calls_within rfl) fun _ => ?_
      | split
      | dsimp only

instance failWith_answering (err : Errno) (reason : CStr) : Answering (failWith err reason) :=
  ⟨fun _ owing => wp_fail owing.asked fun _ free => free⟩

instance sendErr_answering (err : Int) (reason : CStr) : Answering (sendErr err reason) :=
  ⟨fun _ owing => wp_error owing.asked fun _ _ free => free⟩

instance sendOk_answering (reason : CStr) : Answering (sendOk reason) where
  answers _ owing :=
    wp_speak (speaks_ok owing.side owing.grants _) (fun _ => owing.asked.free) fun _ _ => owing.asked.told

instance succeedWith_answering (reason : CStr) : Answering (succeedWith reason) :=
  ⟨fun _ owing => wp_succeed owing fun _ free => free⟩

instance notice_answering {payload : CStr} : Answering (sendPacket RSP_NOTIFY payload) where
  answers := by
    intro g owing
    apply wp_notice owing.side
    · exact owing.asked.free.listens
    · intro dataCode endCode downloading
      have grants := owing.grants
      rw [downloading] at grants
      cases grants
    · intro _
      exact owing.asked.free

end answers

section handlers

variable {server : Server} {session : Session} {payload : Option CStr}

instance dispatchCd_answering : Answering (dispatchCd session payload) := by
  unfold dispatchCd
  exact {}

instance dispatchChmod_answering : Answering (dispatchChmod session payload) := by
  unfold dispatchChmod
  exact {}

instance dispatchCreate_answering : Answering (dispatchCreate session payload) := by
  unfold dispatchCreate
  exact {}

instance dispatchMove_answering : Answering (dispatchMove session payload) := by
  unfold dispatchMove
  exact {}

instance dispatchDelete_answering : Answering (dispatchDelete session payload) := by
  unfold dispatchDelete
  exact {}

instance dispatchAccept_answering : Answering (dispatchAccept session payload) := by
  unfold dispatchAccept acceptCopy answerAccept
  exact {}

instance dispatchReject_answering : Answering (dispatchReject session payload) := by
  unfold dispatchReject
  exact {}

instance dispatchTransferReq_answering : Answering (dispatchTransferReq server session payload) := by
  unfold dispatchTransferReq enterRequest
  exact {}

instance dispatchCreateUser_answering : Answering (dispatchCreateUser server session payload) := by
  unfold dispatchCreateUser
  exact {}

instance dispatchLogin_answering : Answering (dispatchLogin server session payload) := by
  unfold dispatchLogin
  exact {}

end handlers

section streams

variable {g : Talk} {dataCode endCode : UInt8} {texts : Texts} {server : Server} {session : Session}
  {payload : Option CStr}

theorem speaks_broken {payload : CStr} (serving : g.Serving)
    (phase : g.phase = .downloading dataCode endCode) (short : payload.length ≤ CHUNK_SIZE) :
    g.speaks ⟨RSP_ERR, payload⟩ = some .idle := by
  obtain ⟨here, now, line⟩ := g
  obtain rfl : here = .server := serving.side
  obtain rfl : now = .downloading dataCode endCode := phase
  change framed _ _ _ _ _ = _
  exact framed_error short

theorem errPayload_short {err : Errno} {reason : CStr} (small : err.code < 2 ^ 31)
    (short : reason.length ≤ 256) : (errPayload err.code reason).length ≤ CHUNK_SIZE := by
  have number : (decimal err.code).length ≤ 10 := by
    by_contra long
    have large : 10 ^ (9 + 1) ≤ err.code := pow_le_of_decimalNat (not_le.mp long)
    omega
  have space : (cstr " ").length = 1 := by decide
  have limit : CHUNK_SIZE = 8192 := rfl
  simp only [errPayload, List.length_append]
  omega

theorem wp_breakOff {err : Errno} {reason : CStr} {Q : Unit → Talk → Prop} (serving : g.Serving)
    (phase : g.phase = .downloading dataCode endCode) (small : err.code < 2 ^ 31)
    (short : reason.length ≤ 256) (hQ : ∀ g', g'.Free → Q () g') :
    wp talking (failWith err reason) Q g := by
  have free : g.Free := by
    refine ⟨serving, ?_⟩
    intro d e uploading
    rw [phase] at uploading
    cases uploading
  apply Prog.wp_bind.mpr
  unfold sendErr
  apply Prog.wp_bind.mpr
  refine wp_silent (calls_within rfl) ?_
  intro allocated
  apply Prog.wp_ite.mpr
  refine ⟨fun _ => ?_, fun _ => hQ _ free⟩
  apply wp_speak (speaks_broken serving phase (errPayload_short small short))
  · intro _
    exact hQ _ free
  · intro _ _
    apply hQ
    refine ⟨serving.goes _, ?_⟩
    intro d e idle
    cases idle

theorem wp_streamFile {path : CStr} {offset : Int} {Q : SysResult Nat × CStr → Talk → Prop}
    (serving : g.Serving) (phase : g.phase = .asked (.gives dataCode endCode))
    (streams : Streams dataCode endCode)
    (early : ∀ e msg, Q (.error e, msg) g)
    (broken : ∀ (e : Errno) (msg : CStr), e.code < 2 ^ 31 → msg.length ≤ 256 →
      Q (.error e, msg) { g with phase := .downloading dataCode endCode })
    (sent : ∀ n, Q (.ok n, []) { g with phase := .idle }) :
    wp talking (sendFile texts path offset dataCode endCode) Q g := by
  unfold sendFile
  dsimp only
  apply Prog.wp_bind.mpr
  refine wp_silent (calls_within rfl) ?_
  intro opened
  cases opened with
  | error e => exact early _ _
  | ok fd =>
  apply Prog.wp_bind.mpr
  refine wp_silent (calls_within rfl) ?_
  intro locked
  cases locked with
  | error e =>
    apply Prog.wp_bind.mpr
    refine wp_silent (calls_within rfl) ?_
    intro _
    exact early _ _
  | ok _ =>
  refine Prog.wp_call rfl fun told sized => ?_
  have same : talking.next g (.file (.fstat fd)) told = g := silent_next trivial told
  rw [same]
  cases told with
  | error e =>
    apply Prog.wp_bind.mpr
    refine wp_silent (calls_within rfl) ?_
    intro _
    exact early _ _
  | ok statbuf =>
  apply Prog.wp_ite.mpr
  refine ⟨fun _ => ?_, fun _ => ?_⟩
  · apply Prog.wp_bind.mpr
    refine wp_silent (calls_within rfl) ?_
    intro _
    exact early _ _
  · have bound : statbuf.size < 2 ^ 63 := of_decide_eq_true sized
    have fits : (decimalNat (statbuf.size - (max offset 0).toNat)).length ≤ 19 := by
      by_contra long
      have large := pow_le_of_decimalNat (k := 18) (not_le.mp long)
      omega
    have grants : granted g.phase = some (.downloading dataCode endCode) := by
      rw [phase]
      rfl
    apply Prog.wp_bind.mpr
    apply wp_speak (speaks_ok serving.side grants _)
    · intro long
      have limit : Network.MAX_PAYLOAD_SIZE = 65536 := rfl
      omega
    intro _ _
    apply Prog.wp_bind.mpr
    have frames : ({ g with phase := .downloading dataCode endCode } : Talk).speaks =
        framed dataCode endCode (.downloading dataCode endCode) .idle :=
      (serving.goes _).speaks
    apply wp_stream frames streams
    · intro e small
      apply Prog.wp_bind.mpr
      refine wp_silent (calls_within rfl) ?_
      intro _
      apply broken _ _ small
      have short : (errorMsg (cstr "Failed to send file stream: " ++ texts.strerror e)).length < 256 :=
        snprintf_length_lt _ (by decide)
      exact short.le
    · intro n
      apply Prog.wp_bind.mpr
      refine wp_silent (calls_within rfl) ?_
      intro _
      exact sent n

theorem wp_check {α β : Type} {p : Sys (Option α)} {f : Option α → Sys β} {Q : β → Talk → Prop}
    (h : Checks p) (asked : g.Asked) (refused : ∀ g', g'.Free → wp talking (f none) Q g')
    (goes : ∀ a, wp talking (f (some a)) Q g) : wp talking (p >>= f) Q g := by
  apply Prog.wp_bind.mpr
  apply Prog.wp_mono (h g asked)
  rintro r g' ⟨failed, checked⟩
  cases r with
  | none => exact refused g' (failed rfl)
  | some a =>
    rw [checked a rfl]
    exact goes a

theorem asked_of_phase {kind : Kind} (serving : g.Serving) (phase : g.phase = .asked kind) : g.Asked := by
  refine ⟨serving, ?_⟩
  rw [phase]
  rfl

theorem free_of_phase {p : Phase} (serving : g.Serving)
    (other : ∀ dataCode endCode, p ≠ .uploading dataCode endCode) :
    ({ g with phase := p } : Talk).Free :=
  ⟨serving.goes p, other⟩

theorem orElseText_short {msg text : CStr} (short : msg.length ≤ 256) (brief : text.length ≤ 256) :
    (orElseText msg text).length ≤ 256 := by
  unfold orElseText
  split_ifs
  · exact brief
  · exact short

theorem wp_answerFile {path text : CStr} {offset : Int} {f : SysResult Nat × CStr → Sys Unit}
    (serving : g.Serving) (phase : g.phase = .asked (.gives dataCode endCode))
    (streams : Streams dataCode endCode) (brief : text.length ≤ 256)
    (failed : ∀ e msg, f (.error e, msg) = failWith e (orElseText msg text))
    (sent : ∀ n msg, f (.ok n, msg) = pure ()) :
    wp talking (sendFile texts path offset dataCode endCode >>= f) (fun _ g' => g'.Free) g := by
  have asked := asked_of_phase serving phase
  apply Prog.wp_bind.mpr
  apply wp_streamFile serving phase streams
  · intro e msg
    rw [failed]
    exact wp_fail asked fun _ free => free
  · intro e msg small short
    rw [failed]
    exact wp_breakOff (serving.goes _) rfl small (orElseText_short short brief) fun _ free => free
  · intro n
    rw [sent]
    exact free_of_phase serving (by simp)

theorem wp_talkDownload (serving : g.Serving)
    (phase : g.phase = .asked (.gives Command.data.code Command.dataEnd.code)) :
    wp talking (dispatchDownload server session payload) (fun _ g' => g'.Free) g := by
  have asked := asked_of_phase serving phase
  apply wp_check Checking.checks asked
  · exact fun _ free => free
  intro command
  apply wp_check Checking.checks asked
  · exact fun _ free => free
  intro fullPath
  exact wp_answerFile serving phase ⟨by decide, by decide, by decide⟩ (by decide) (fun _ _ => rfl)
    fun _ _ => rfl

theorem wp_talkRead (serving : g.Serving)
    (phase : g.phase = .asked (.gives Command.readData.code Command.readEnd.code)) :
    wp talking (dispatchRead server session payload) (fun _ g' => g'.Free) g := by
  have asked := asked_of_phase serving phase
  apply wp_check Checking.checks asked
  · exact fun _ free => free
  intro command
  apply wp_check Checking.checks asked
  · exact fun _ free => free
  intro fullPath
  exact wp_answerFile serving phase ⟨by decide, by decide, by decide⟩ (by decide) (fun _ _ => rfl)
    fun _ _ => rfl

theorem wp_talkBuf {buf : CStr} {Q : SysResult Nat → Talk → Prop} {ends : Phase}
    (frames : g.speaks = framed dataCode endCode g.phase ends) (streams : Streams dataCode endCode)
    (sent : Q (.ok buf.length) { g with phase := ends }) :
    wp talking (sendStreamBuf buf dataCode endCode) Q g := by
  unfold sendStreamBuf sendChunks
  apply Prog.wp_bind.mpr
  apply Prog.wp_iterate fun _ g' => g = g'
  · rfl
  rintro rest _ rfl
  apply Prog.wp_ite.mpr
  refine ⟨fun _ => ?_, fun _ => ?_⟩
  · have may : g.speaks ⟨endCode, []⟩ = some ends := by
      rw [frames, framed_end streams]
    apply Prog.wp_bind.mpr
    apply wp_speak may
    · intro long
      cases long
    · intro ret positive
      apply Prog.wp_ite.mpr
      exact ⟨fun negative => absurd positive (not_le.mpr negative), fun _ => sent⟩
  · have short : (rest.take CHUNK_SIZE).length ≤ CHUNK_SIZE := List.length_take_le _ _
    have may : g.speaks ⟨dataCode, rest.take CHUNK_SIZE⟩ = some g.phase := by
      rw [frames, framed_data streams short]
    apply Prog.wp_bind.mpr
    apply wp_speak may
    · intro long
      have bound : CHUNK_SIZE ≤ Network.MAX_PAYLOAD_SIZE := by decide
      exact absurd (lt_of_lt_of_le long short) (not_lt.mpr bound)
    · intro ret positive
      apply Prog.wp_ite.mpr
      exact ⟨fun negative => absurd positive (not_le.mpr negative), fun _ => rfl⟩

theorem wp_sendList {sb : StrBuf} {filled : Bool} {after : SysResult Nat → Sys Unit}
    (serving : g.Serving)
    (phase : g.phase = .asked (.gives Command.listData.code Command.listEnd.code))
    (sent : ∀ n, after (.ok n) = pure ()) :
    wp talking (if (!filled) = true then
        failWith ENOMEM (cstr "Failed to allocate memory for response") >>= fun _ => pure ()
      else sendOk (decimalNat sb.content.length) >>= fun announced =>
        if announced < 0 then pure ()
        else sendStreamBuf sb.content Command.listData.code Command.listEnd.code >>= after)
      (fun _ g' => g'.Free) g := by
  have asked := asked_of_phase serving phase
  apply Prog.wp_ite.mpr
  refine ⟨fun _ => ?_, fun _ => ?_⟩
  · apply Prog.wp_bind.mpr
    exact wp_fail asked fun _ free => free
  have grants : granted g.phase = some (.downloading Command.listData.code Command.listEnd.code) := by
    rw [phase]
    rfl
  apply Prog.wp_bind.mpr
  apply wp_speak (speaks_ok serving.side grants _)
  · intro _
    exact asked.free
  intro ret positive
  apply Prog.wp_ite.mpr
  refine ⟨fun negative => absurd positive (not_le.mpr negative), fun _ => ?_⟩
  have frames : ({ g with
        phase := .downloading Command.listData.code Command.listEnd.code } : Talk).speaks =
      framed Command.listData.code Command.listEnd.code
        (.downloading Command.listData.code Command.listEnd.code) .idle :=
    (serving.goes _).speaks
  apply Prog.wp_bind.mpr
  apply wp_talkBuf frames ⟨by decide, by decide, by decide⟩
  rw [sent]
  exact free_of_phase (serving.goes _) (by simp)

theorem wp_talkList (serving : g.Serving)
    (phase : g.phase = .asked (.gives Command.listData.code Command.listEnd.code)) :
    wp talking (dispatchList server session payload) (fun _ g' => g'.Free) g := by
  have asked := asked_of_phase serving phase
  apply wp_check Checking.checks asked
  · exact fun _ free => free
  intro command
  apply wp_check Checking.checks asked
  · exact fun _ free => free
  intro fullPath
  apply Prog.wp_bind.mpr
  refine wp_silent (calls_within rfl) ?_
  rintro ⟨listed, sb⟩
  cases listed with
  | error e => exact wp_fail asked fun _ free => free
  | ok _ =>
  dsimp only
  apply Prog.wp_ite.mpr
  refine ⟨fun _ => ?_, fun _ => ?_⟩
  · apply Prog.wp_bind.mpr
    refine wp_silent (calls_within rfl) ?_
    intro filled
    exact wp_sendList serving phase fun _ => rfl
  · apply Prog.wp_bind.mpr
    exact wp_sendList serving phase fun _ => rfl

theorem wp_receiveFile {target : Target} {Q : SysResult Nat × CStr → Talk → Prop}
    (serving : g.Serving) (phase : g.phase = .asked (.takes target.dataCode target.endCode))
    (early : ∀ e msg, Q (.error e, msg) g) (done : ∀ r, Q r { g with phase := .uploaded }) :
    wp talking (receiveIntoFile texts target) Q g := by
  have exits : ∀ {fd lockFd tempPath existed result} {r : SysResult Nat × CStr} {g' : Talk},
      Q r g' → wp talking (do
        receiveCleanup target fd lockFd tempPath existed result
        return r) Q g' := by
    intro fd lockFd tempPath existed result r g' holds
    apply Prog.wp_bind.mpr
    exact wp_silent (calls_within rfl) fun _ => holds
  unfold receiveIntoFile
  apply Prog.wp_bind.mpr
  refine wp_silent (calls_within rfl) ?_
  intro destStat
  dsimp only
  apply Prog.wp_bind.mpr
  refine wp_silent (calls_within rfl) ?_
  intro opened
  cases opened with
  | error failure => exact early _ _
  | ok into =>
  apply Prog.wp_bind.mpr
  refine wp_silent (calls_within rfl) ?_
  intro locked
  cases locked with
  | error e => exact exits (early _ _)
  | ok _ =>
  have grants : granted g.phase = some (.uploading target.dataCode target.endCode) := by
    rw [phase]
    rfl
  apply Prog.wp_bind.mpr
  apply wp_speak (speaks_ok serving.side grants _)
  · intro long
    cases (show ¬ Network.MAX_PAYLOAD_SIZE < (cstr "Ready to receive data").length by decide) long
  intro _ _
  have frames : ({ g with phase := .uploading target.dataCode target.endCode } : Talk).hears =
      framed target.dataCode target.endCode (.uploading target.dataCode target.endCode) .uploaded :=
    (serving.goes _).hears
  have awaits : ({ g with phase := .uploading target.dataCode target.endCode } : Talk).awaitsFrames =
      true := by
    unfold Talk.awaitsFrames
    rw [serving.side]
  apply Prog.wp_bind.mpr
  apply wp_receive frames awaits
  rintro ⟨received, msg⟩
  cases received with
  | error e =>
    apply Prog.wp_bind.mpr
    refine wp_silent (calls_within rfl) ?_
    intro _
    apply Prog.wp_ite.mpr
    exact ⟨fun _ => done _, fun _ => done _⟩
  | ok n =>
  apply Prog.wp_ite.mpr
  refine ⟨fun _ => exits (done _), fun _ => ?_⟩
  apply Prog.wp_bind.mpr
  refine wp_silent (calls_within rfl) ?_
  intro replaced
  cases replaced with
  | error failure => exact done _
  | ok _ => exact exits (done _)

theorem wp_talkTarget {target : Target} (serving : g.Serving)
    (phase : g.phase = .asked (.takes target.dataCode target.endCode)) :
    wp talking (receiveTarget server target) (fun _ g' => g'.Free) g := by
  unfold receiveTarget
  apply Prog.wp_bind.mpr
  apply wp_receiveFile serving phase
  · intro e msg
    exact wp_fail (asked_of_phase serving phase) fun _ free => free
  · rintro ⟨received, msg⟩
    have owing : ({ g with phase := .uploaded } : Talk).Owing := ⟨serving.goes _, rfl, rfl⟩
    cases received with
    | error e => exact wp_fail owing.asked fun _ free => free
    | ok n => exact wp_succeed owing fun _ free => free

theorem wp_talkUpload (serving : g.Serving)
    (phase : g.phase = .asked (.takes Command.data.code Command.dataEnd.code)) :
    wp talking (dispatchUpload server session payload) (fun _ g' => g'.Free) g := by
  have asked := asked_of_phase serving phase
  apply wp_check Checking.checks asked
  · exact fun _ free => free
  intro command
  apply wp_check Checking.checks asked
  · exact fun _ free => free
  intro fullPath
  exact wp_talkTarget serving phase

theorem wp_talkWrite (serving : g.Serving)
    (phase : g.phase = .asked (.takes Command.writeData.code Command.writeEnd.code)) :
    wp talking (dispatchWrite server session payload) (fun _ g' => g'.Free) g := by
  have asked := asked_of_phase serving phase
  apply wp_check Checking.checks asked
  · exact fun _ free => free
  intro command
  apply wp_check Checking.checks asked
  · exact fun _ free => free
  intro fullPath
  exact wp_talkTarget serving phase

theorem wp_talkDispatch {packet : Packet} (serving : g.Serving)
    (phase : g.phase = .asked (kindOf packet.command)) :
    wp talking (dispatch server session packet) (fun _ g' => g'.Free) g := by
  have asked := asked_of_phase serving phase
  have owing : kindOf packet.command = .plain → g.Owing := by
    intro plain
    refine ⟨serving, ?_, asked.refuses⟩
    rw [phase, plain]
    rfl
  unfold dispatch
  dsimp only
  unfold kindOf at phase owing
  generalize Command.ofCode packet.command = command at phase owing ⊢
  apply Prog.wp_ite.mpr
  refine ⟨?_, fun _ => ?_⟩
  · rintro rfl
    exact Answering.answers g (owing rfl)
  apply Prog.wp_ite.mpr
  refine ⟨?_, fun _ => ?_⟩
  · rintro rfl
    apply Prog.wp_bind.mpr
    exact Prog.wp_mono (Answering.answers g (owing rfl)) fun _ _ free => free
  apply Prog.wp_ite.mpr
  refine ⟨fun _ => ?_, fun _ => ?_⟩
  · apply Prog.wp_bind.mpr
    exact wp_fail asked fun _ free => free
  apply Prog.wp_bind.mpr
  have served : wp talking (dispatchLoggedIn server session command (payloadText packet.payload))
      (fun _ g' => g'.Free) g := by
    unfold dispatchLoggedIn
    split
    · exact Answering.answers g (owing rfl)
    · exact Answering.answers g (owing rfl)
    · exact Answering.answers g (owing rfl)
    · exact Answering.answers g (owing rfl)
    · exact Answering.answers g (owing rfl)
    · exact Answering.answers g (owing rfl)
    · exact Answering.answers g (owing rfl)
    · exact wp_talkDownload serving phase
    · exact wp_talkRead serving phase
    · exact wp_talkUpload serving phase
    · exact wp_talkWrite serving phase
    · exact Answering.answers g (owing rfl)
    · exact wp_talkList serving phase
    · exact wp_fail asked fun _ free => free
  exact Prog.wp_mono served fun _ _ free => free

end streams

section session

variable {g : Talk} {server : Server} {session : Session} {fd : Int} {size : Nat}

@[reducible] def Unread : Call → Prop
  | .file (.read _ count) => count ≠ 1
  | _ => True

instance unread_judged : Judged Unread :=
  .avoiding [.read true] <| by
    rintro (c | c | c | c | c | c) <;> cases c <;> simp

theorem next_unread {c : Call} (unread : Unread c) (r : c.Reply) :
    talking.next { g with line := [] } c r = { talking.next g c r with line := [] } := by
  cases c with
  | socket c =>
    cases c with
    | recvFrameInto bufCap =>
      cases r with
      | error e => rfl
      | ok packet => rfl
    | _ => rfl
  | file c =>
    cases c with
    | read fd count =>
      cases r with
      | error e => rfl
      | ok data =>
        have first : talking.next g (.file (.read fd count)) (.ok data) = g :=
          if_neg fun both => unread both.2
        have second : talking.next { g with line := [] } (.file (.read fd count)) (.ok data) =
            { g with line := [] } := if_neg fun both => unread both.2
        rw [first, second]
    | _ => rfl
  | _ => rfl

theorem wp_forget {α : Type} {p : Sys α} {Q : α → Talk → Prop} (unread : p.Calls Unread)
    (h : wp talking p Q { g with line := [] }) :
    wp talking p (fun a g' => Q a { g' with line := [] }) g := by
  induction p generalizing g with
  | ret a => exact h
  | call c k ih =>
    refine ⟨?_, ?_⟩
    · have may := h.1
      cases c with
      | socket c => cases c <;> exact may
      | _ => rfl
    · intro r expected
      apply ih r (unread.2 r)
      rw [← next_unread unread.1]
      apply h.2 r
      cases c with
      | socket c =>
        cases c with
        | recvFrameInto bufCap => cases r <;> exact expected
        | _ => exact expected
      | file c =>
        cases c with
        | read fd count =>
          have large : decide (count ≠ 1) = true := decide_eq_true unread.1
          change (Talk.fits count r && (decide (count ≠ 1) || _)) = true
          change (Talk.fits count r && (decide (count ≠ 1) || _)) = true at expected
          rwa [large, Bool.true_or] at expected ⊢
        | fstat fd => cases r <;> exact expected
        | lseek fd offset => cases r <;> exact expected
        | _ => exact expected
      | _ => exact expected
  | loop s body k ihBody ih =>
    obtain ⟨J, start, round⟩ := h
    refine ⟨fun s g => J s { g with line := [] }, start, ?_⟩
    intro s g here
    apply Prog.wp_mono (ihBody s (unread.1 s) (round s _ here))
    intro r g' kept
    cases r with
    | inl s => exact kept
    | inr b => exact ih b (unread.2 b) kept

/-- A line is read up to its end, and `J` is what the bytes read so far have in common. -/
theorem wp_line {Q : SysResult (CStr × Bool) → Talk → Prop} (J : CStr → Prop)
    (fresh : g.line = []) (side : g.side = .server) (start : J [])
    (goes : ∀ buf c, J buf → ({ g with line := buf } : Talk).reads (.ok [c]) = true → J (buf ++ [c]))
    (failed : ∀ e line, Q (.error e) { g with line })
    (long : ∀ buf line, J buf → size ≤ buf.length + 1 → Q (.ok (buf, false)) { g with line })
    (ended : ∀ buf data eof line, J buf → data = [] ∨ data = [10] →
      ({ g with line := buf } : Talk).reads (.ok data) = true → Q (.ok (buf, eof)) { g with line }) :
    wp talking (readLine fd size) Q g := by
  have reading : ∀ line data, talking.next { g with line } (.file (.read fd 1)) (.ok data) =
      { g with line := line ++ data } := fun line data => if_pos ⟨side, rfl⟩
  unfold readLine
  apply Prog.wp_iterate fun buf g' => J buf ∧ g' = { g with line := buf }
  · refine ⟨start, ?_⟩
    rw [← fresh]
  intro buf g' inv
  obtain ⟨here, rfl⟩ := inv
  apply Prog.wp_ite.mpr
  refine ⟨fun full => long buf _ here full, fun _ => ?_⟩
  refine Prog.wp_call rfl fun r expected => ?_
  obtain ⟨fits, read⟩ := Bool.and_eq_true_iff.mp expected
  cases r with
  | error e =>
    apply Prog.wp_ite.mpr
    exact ⟨fun _ => ⟨here, rfl⟩, fun _ => failed e _⟩
  | ok data =>
  rw [reading]
  cases data with
  | nil => exact ended buf [] _ _ here (.inl rfl) read
  | cons c rest =>
    have single : (c :: rest).length ≤ 1 := of_decide_eq_true fits
    obtain rfl : rest = [] := by
      apply List.eq_nil_of_length_eq_zero
      rw [List.length_cons] at single
      omega
    apply Prog.wp_ite.mpr
    refine ⟨?_, fun _ => ⟨goes buf c here read, rfl⟩⟩
    rintro rfl
    exact ended buf [10] _ _ here (.inr rfl) read

instance handleNotification_answering (line : CStr) : Answering (handleNotification line) := by
  unfold handleNotification
  exact {}

theorem wp_announce {line : CStr} (heads : Talk.announces line)
    (side : g.side = .server) (open_ : ∀ dataCode endCode, g.phase ≠ .uploading dataCode endCode)
    (framed : ∀ dataCode endCode, g.phase ≠ .downloading dataCode endCode) :
    wp talking (handleNotification line) (fun _ g' => g' = g) g := by
  have apart : ∀ word : CStr, word.take 4 ≠ cstr "REQ|" → line.take 7 ≠ word := by
    rintro _ other rfl
    apply other
    rw [List.take_take]
    exact heads
  unfold handleNotification
  rw [if_neg (apart _ (by decide)), if_neg (apart _ (by decide)), if_pos (show line.take 4 = cstr "REQ|" from heads)]
  apply Prog.wp_bind.mpr
  apply wp_notice side open_ framed
  intro _
  rfl

structure Talk.Listens (g : Talk) : Prop where
  side : g.side = .server
  open_ : ∀ dataCode endCode, g.phase ≠ .uploading dataCode endCode

theorem Talk.Free.waits (h : g.Free) : g.Listens := ⟨h.side, h.listens⟩

theorem wp_notification_owing (owing : g.Owing) :
    wp talking (receiveNotification session) (fun _ g' => g'.Listens) g := by
  have waits : ∀ line, ({ g with line } : Talk).Listens := fun line =>
    ⟨owing.side, owing.asked.free.listens⟩
  have passes : ∀ buf line, wp talking (do
      handleNotification buf
      return true) (fun _ g' => g'.Listens) { g with line } := by
    intro buf line
    apply Prog.wp_bind.mpr
    apply Prog.wp_mono (wp_forget (calls_within rfl) (Answering.answers _ _))
    · intro _ g' free
      exact ⟨free.side, free.listens⟩
    · exact ⟨⟨owing.side, rfl⟩, owing.grants, owing.refuses⟩
  apply Prog.wp_bind.mpr
  apply wp_line (fun _ => True) owing.fresh owing.side trivial
  · intro _ _ _ _
    trivial
  · intro e line
    exact waits line
  · intro buf line _ _
    exact passes buf line
  · intro buf _ eof line _ _ _
    exact passes buf line

theorem quiet_of_reads {line data : CStr} (h : (decide ((line ++ data).take 4 <+: cstr "REQ|") &&
      (decide (data ≠ [] ∧ data ≠ [10]) || decide (Talk.announces line))) = true) :
    (line ++ data).take 4 <+: cstr "REQ|" ∧ (data = [] ∨ data = [10] → Talk.announces line) := by
  obtain ⟨begins, ends⟩ := Bool.and_eq_true_iff.mp h
  refine ⟨of_decide_eq_true begins, ?_⟩
  intro last
  rcases Bool.or_eq_true_iff.mp ends with goes | heads
  · have both := of_decide_eq_true goes
    rcases last with none | newline
    · exact absurd none both.1
    · exact absurd newline both.2
  · exact of_decide_eq_true heads

theorem wp_notification_quiet (serving : g.Serving)
    (quiet : ∀ line data, ({ g with line } : Talk).reads (.ok data) = true →
      (line ++ data).take 4 <+: cstr "REQ|" ∧ (data = [] ∨ data = [10] → Talk.announces line))
    (open_ : ∀ dataCode endCode, g.phase ≠ .uploading dataCode endCode)
    (framed : ∀ dataCode endCode, g.phase ≠ .downloading dataCode endCode) :
    wp talking (receiveNotification session) (fun _ g' => g'.Listens) g := by
  have waits : ∀ line, ({ g with line } : Talk).Listens := fun line => ⟨serving.side, open_⟩
  have passes : ∀ buf line, Talk.announces buf → wp talking (do
      handleNotification buf
      return true) (fun _ g' => g'.Listens) { g with line } := by
    intro buf line heads
    apply Prog.wp_bind.mpr
    apply Prog.wp_mono (wp_announce (g := { g with line }) heads serving.side open_ framed)
    rintro _ _ rfl
    exact waits line
  apply Prog.wp_bind.mpr
  apply wp_line (fun buf => buf.take 4 <+: cstr "REQ|") serving.fresh serving.side
  · exact List.nil_prefix
  · intro buf c _ read
    exact (quiet buf [c] read).1
  · intro e line
    exact waits line
  · intro buf line begins full
    apply passes buf line
    have size : PATH_MAX = 4096 := rfl
    apply begins.eq_of_length
    rw [List.length_take, Nat.min_eq_left (by omega)]
    rfl
  · intro buf data eof line _ last read
    exact passes buf line ((quiet buf data read).2 last)

theorem wp_notification (free : g.Free) :
    wp talking (receiveNotification session) (fun _ g' => g'.Listens) g := by
  obtain ⟨here, now, line⟩ := g
  obtain ⟨serving, open_⟩ := free
  obtain rfl : here = .server := serving.side
  cases now with
  | idle => exact wp_notification_quiet serving (fun _ _ => quiet_of_reads) open_ (by simp)
  | asked kind =>
    cases kind with
    | plain => exact wp_notification_owing ⟨serving, rfl, rfl⟩
    | takes dataCode endCode =>
      exact wp_notification_quiet serving (fun _ _ => quiet_of_reads) open_ (by simp)
    | gives dataCode endCode =>
      exact wp_notification_quiet serving (fun _ _ => quiet_of_reads) open_ (by simp)
  | uploading dataCode endCode => exact absurd rfl (open_ _ _)
  | uploaded => exact wp_notification_owing ⟨serving, rfl, rfl⟩
  | downloading dataCode endCode =>
    apply Prog.wp_bind.mpr
    apply wp_line (· = []) serving.fresh serving.side rfl
    · intro buf c _ read
      cases read
    · intro e line
      exact ⟨rfl, open_⟩
    · rintro _ line rfl full
      cases (show ¬ PATH_MAX + 64 - 1 ≤ [].length + 1 by decide) full
    · intro buf data eof line _ _ read
      cases read

theorem wp_command {clientSocket : Int} {ready : List Int} (free : g.Free) :
    wp talking (if clientSocket ∈ ready then receiveCommand server session else pure (some session))
      (fun _ g' => g'.Free) g := by
  apply Prog.wp_ite.mpr
  refine ⟨fun _ => ?_, fun _ => free⟩
  have waits : g.may (.socket .recvPacket) = true := by
    change g.mayWait = true
    unfold Talk.mayWait
    rw [free.side]
    cases phase : g.phase with
    | uploading dataCode endCode => exact absurd phase (free.listens _ _)
    | _ => rfl
  refine Prog.wp_call waits fun received expected => ?_
  cases received with
  | none => cases expected
  | some packet =>
  obtain ⟨next, heard⟩ := Option.isSome_iff_exists.mp (show (g.hears packet).isSome = true from expected)
  have same : talking.next g (.socket .recvPacket) (some packet) = { g with phase := next } := by
    change g.goTo (g.hears packet) = _
    rw [heard]
    rfl
  have asked : next = .asked (kindOf packet.command) := by
    rw [free.hears] at heard
    cases phase : g.phase with
    | idle =>
      rw [phase] at heard
      exact clientSpeaks_idle heard
    | uploading dataCode endCode => exact absurd phase (free.listens _ _)
    | _ =>
      rw [phase] at heard
      cases heard
  rw [same]
  apply Prog.wp_bind.mpr
  apply Prog.wp_mono (wp_talkDispatch (free.goes next) asked)
  intro _ _ free
  exact free

theorem wp_talkSession {clientSocket : Int} (waits : g.Listens) :
    wp talking (sessionLoop server clientSocket session) (fun _ g' => g'.Listens) g := by
  apply Prog.wp_iterate fun _ g' => g'.Listens
  · exact waits
  intro session g waits
  have may : g.may (.socket (.select
      (clientSocket :: (if 0 ≤ session.notifyFd then [session.notifyFd] else [])))) = true := by
    change (decide (g.side = .server) || _) = true
    rw [decide_eq_true waits.side, Bool.true_or]
  refine Prog.wp_call may fun ready _ => ?_
  have free : ({ g with line := [] } : Talk).Free := ⟨⟨waits.side, rfl⟩, waits.open_⟩
  cases ready with
  | error e =>
    apply Prog.wp_ite.mpr
    exact ⟨fun _ => free.waits, fun _ => free.waits⟩
  | ok ready =>
  apply Prog.wp_bind.mpr
  apply Prog.wp_mono (wp_command free)
  intro r g' free
  cases r with
  | none => exact free.waits
  | some session =>
  apply Prog.wp_ite.mpr
  refine ⟨fun _ => ?_, fun _ => free.waits⟩
  apply Prog.wp_bind.mpr
  apply Prog.wp_mono (wp_notification free)
  intro stillOpen g' waits
  apply Prog.wp_ite.mpr
  exact ⟨fun _ => waits, fun _ => waits⟩

/-- The server of a connection keeps to the turns. -/
theorem wp_talkClient (server : Server) (clientSocket : Int) :
    wp talking (serveClient server clientSocket) (fun _ _ => True) ⟨.server, .idle, []⟩ := by
  apply Prog.wp_bind.mpr
  refine wp_silent (calls_within rfl) ?_
  intro dropped
  cases dropped with
  | error e =>
    apply Prog.wp_bind.mpr
    exact wp_silent (calls_within rfl) fun _ => trivial
  | ok _ =>
  apply Prog.wp_bind.mpr
  apply Prog.wp_bind.mpr
  have waits : (⟨.server, .idle, []⟩ : Talk).Listens := by
    refine ⟨rfl, ?_⟩
    intro _ _ same
    cases same
  apply Prog.wp_mono (wp_talkSession waits)
  intro session g' _
  refine wp_silent (calls_within rfl) ?_
  intro _
  apply Prog.wp_bind.mpr
  exact wp_silent (calls_within rfl) fun _ => trivial

end session

end Csap.Turns
