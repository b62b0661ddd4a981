import Csap.Lines
import Csap.LocalCalls
import Csap.ServerRuns

/-! The buffers a notification passes through: `msg` of `notify_pid` and `notify_buffer` of
the session that reads it. Every line `dispatch` can send fits in both. -/

namespace Csap.NoticeBuffers

open Prog

/-- `sizeof(msg)`. -/
def msgSize : Nat := PATH_MAX + 128

/-- What the reader passes to `read_line` for `notify_buffer`. -/
def notifyBufferSize : Nat := PATH_MAX + 64 - 1

def name : Notification → CStr
  | .req _ baseName => baseName
  | .accept _ path => path
  | .reject _ | .fail _ _ => []

/-- The numbers are of type `int`, a base name comes from its buffer, a path was opened. -/
def Possible : Notification → Prop
  | .req id baseName => IsInt id ∧ baseName.length ≤ NAME_MAX
  | .accept id path => IsInt id ∧ path.length < PATH_MAX
  | .reject id => IsInt id
  | .fail id err => IsInt id ∧ IsInt err.code

/-- One `read_line` that succeeds takes exactly this text, whatever lies behind it. -/
def ReadWhole (text : CStr) : Prop :=
  ∀ fd rest, wp (reading fd) (readLine fd notifyBufferSize) (fun r left =>
    ∀ line eof, r = .ok (line, eof) → line ++ [10] = text ∧ left = rest) (text ++ rest)

section text

variable {n : Notification}

def body : Notification → CStr
  | .req id baseName => cstr "REQ|" ++ decimal id ++ cstr "|" ++ baseName
  | .accept id path => cstr "ACCEPT|" ++ decimal id ++ cstr "|" ++ path
  | .reject id => cstr "REJECT|" ++ decimal id
  | .fail id err => cstr "FAIL|" ++ decimal id ++ cstr "|" ++ decimal err.code

theorem text_eq (n : Notification) : n.text = body n ++ [10] := by
  cases n <;> rfl

theorem body_length (possible : Possible n) : (body n).length + 2 ≤ notifyBufferSize := by
  have size : notifyBufferSize = 4159 := rfl
  have sizes : (cstr "REQ|").length = 4 ∧ (cstr "ACCEPT|").length = 7 ∧
      (cstr "REJECT|").length = 7 ∧ (cstr "FAIL|").length = 5 ∧ (cstr "|").length = 1 := by decide
  have names : NAME_MAX = 255 ∧ PATH_MAX = 4096 := ⟨rfl, rfl⟩
  cases n with
  | req id baseName =>
    have number := decimal_length_le possible.1
    have short := possible.2
    simp only [body, List.length_append]
    omega
  | accept id path =>
    have number := decimal_length_le possible.1
    have short := possible.2
    simp only [body, List.length_append]
    omega
  | reject id =>
    have number := decimal_length_le possible
    simp only [body, List.length_append]
    omega
  | fail id err =>
    have number := decimal_length_le possible.1
    have code := decimal_length_le possible.2
    simp only [body, List.length_append]
    omega

theorem mem_body : (10 : UInt8) ∈ body n ↔ 10 ∈ name n := by
  have numbers : ∀ i : Int, (10 : UInt8) ∉ decimal i := fun i inside =>
    mem_decimal_ne inside 10 (by decide) (by decide) rfl
  have words : (10 : UInt8) ∉ cstr "REQ|" ∧ (10 : UInt8) ∉ cstr "ACCEPT|" ∧
      (10 : UInt8) ∉ cstr "REJECT|" ∧ (10 : UInt8) ∉ cstr "FAIL|" ∧ (10 : UInt8) ∉ cstr "|" := by
    decide
  cases n <;> simp [body, name, numbers, words]

theorem text_length (possible : Possible n) : n.text.length < msgSize := by
  have short := body_length possible
  have size : notifyBufferSize + 65 = msgSize := rfl
  rw [text_eq, List.length_append, List.length_singleton]
  omega

/-- A notification is read in one piece unless its name contains a newline. -/
theorem readWhole_iff (possible : Possible n) : ReadWhole n.text ↔ 10 ∉ name n := by
  have short := body_length possible
  rw [← mem_body.not, text_eq]
  constructor
  · intro whole inside
    obtain ⟨eof, ends⟩ := readLine_ends 0 notifyBufferSize (body n ++ [10] ++ [])
    obtain ⟨same, -⟩ := ends.of_wp (whole 0 []) _ _ rfl
    have one := List.append_cancel_right same
    rw [← one] at inside
    exact cutLine_no_newline _ _ inside
  · intro one fd rest
    refine wp_mono wp_readLine_cut ?_
    intro r left cut line eof result
    obtain ⟨pair, -⟩ := cut line eof result
    rw [List.append_assoc, List.singleton_append, cutLine_newline (by omega) one] at pair
    obtain ⟨rfl, rfl⟩ := Prod.mk.inj pair
    exact ⟨rfl, rfl⟩

end text

def errnoOf : (c : Call) → c.Reply → Option Errno
  | .file (.openPath _ _ _), .error e | .file (.fstat _), .error e
  | .file (.setlk _ _ _ _), .error e | .file (.read _ _), .error e | .file (.write _ _), .error e
  | .user (.seteuid _), .error e => some e
  | _, _ => none

/-- The notification whose first byte is due on a descriptor fits in both buffers, and is read in
one piece exactly if its name has no newline. -/
def Due (data : CStr) : Prop :=
  ∃ n : Notification, data = n.text ∧ data.length < msgSize ∧ (ReadWhole data ↔ 10 ∉ name n)

/-- A path of `PATH_MAX` bytes or more cannot be opened, and ids are of type `int`. -/
def answers : (c : Call) → c.Reply → Bool
  | .file (.openPath path _ _), .ok _ => path.length < PATH_MAX
  | .shared (.requestAdd _ _ _), id => IsInt id
  | .shared (.requestTake _ _ _), taken => ∀ e ∈ taken.2, IsInt e.id
  | .shared (.requestsForDest _ _), found => ∀ e ∈ found.2, IsInt e.id
  | _, _ => true

/-- The descriptor `notify_pid` has opened and not yet written to. Error numbers are of type
`int` too. -/
def noticing : Typestate Call.Reply (Option Int) where
  allowed
    | some fd, .file (.write fd' data) => fd' = fd → Due data
    | _, _ => True
  expects _ c r := (∀ e ∈ errnoOf c r, IsInt e.code) ∧ answers c r = true
  next
    | _, .file (.openPath _ flags _), .ok fd => if flags = notifyFlags then some fd else none
    | _, .file (.write _ _), .ok _ => none
    | _, .file (.close _), _ => none
    | g, _, _ => g

section calls

variable {α : Type} {Q : α → Option Int → Prop}

theorem local_quiet (c : Call) (mine : Local c) :
    noticing.allowed none c ∧ ∀ r, noticing.next none c r = none := by
  refine ⟨trivial, ?_⟩
  intro r
  cases c with
  | file c =>
    cases c with
    | openPath path flags mode =>
      cases r with
      | error e => rfl
      | ok fd => exact if_neg mine
    | write fd data => cases r <;> rfl
    | _ => rfl
  | _ => rfl

theorem wp_local {p : Sys α} (calls : p.Calls Local) (hQ : ∀ a, Q a none) :
    wp noticing p Q none :=
  calls.wp local_quiet hQ

theorem wp_quiet {c : Call} {k : c.Reply → Sys α} (mine : Local c)
    (next : ∀ r, noticing.expects none c r → wp noticing (k r) Q none) :
    wp noticing (perform c >>= k) Q none := by
  refine wp_call trivial ?_
  intro r expected
  rw [(local_quiet c mine).2 r]
  exact next r expected

theorem due_of_possible {n : Notification} (possible : Possible n) : Due n.text :=
  ⟨n, rfl, text_length possible, readWhole_iff possible⟩

theorem wp_notifyPid {root : CStr} {pid : Int} {n : Notification}
    {Q : SysResult Unit → Option Int → Prop} (possible : Possible n) (hQ : ∀ r, Q r none) :
    wp noticing (notifyPid root pid n.text) Q none := by
  refine wp_call trivial ?_
  intro r _
  cases r with
  | error e => exact hQ _
  | ok fd =>
    have opened : noticing.next none (.file (.openPath (sessionFifoPath root pid)
        { access := .wronly, nonblock := true } 0)) (.ok fd) = some fd := by
      simp [noticing, notifyFlags]
    rw [opened]
    dsimp only
    rw [wp_bind]
    -- until the first write succeeds it is the whole text that is due
    refine wp_iterate (fun remaining g => g = none ∨ g = some fd ∧ remaining = n.text)
      (.inr ⟨rfl, rfl⟩) ?_
    have closes : ∀ g r, wp noticing (fileCall (.close fd) >>= fun _ => pure r) Q g := by
      intro g r
      refine wp_call ?_ ?_
      · cases g <;> trivial
      · intro _ _
        cases g <;> exact hQ r
    intro remaining g state
    rw [wp_ite]
    constructor
    · intro _
      exact closes g _
    · intro _
      rcases state with rfl | ⟨rfl, rfl⟩
      · refine wp_quiet trivial ?_
        intro r _
        cases r with
        | error e =>
          rw [wp_ite]
          exact ⟨fun _ => .inl rfl, fun _ => closes _ _⟩
        | ok written => exact .inl rfl
      · refine wp_call (fun _ => due_of_possible possible) ?_
        intro r _
        cases r with
        | error e =>
          rw [wp_ite]
          exact ⟨fun _ => .inr ⟨rfl, rfl⟩, fun _ => closes _ _⟩
        | ok written => exact .inl rfl

theorem pathBasename_length (path : CStr) : (pathBasename (NAME_MAX + 1) path).length ≤ NAME_MAX :=
  Nat.le_of_lt_succ (snprintf_length_lt _ (by decide))

theorem wp_notifyWaiting {server : Server} {rootPath : CStr} {Q : Unit → Option Int → Prop}
    (requests : List TransferRequestEntry) (ids : ∀ e ∈ requests, IsInt e.id) (hQ : Q () none) :
    wp noticing (notifyWaiting server rootPath requests) Q none := by
  induction requests with
  | nil => exact hQ
  | cons request rest ih =>
    have id := ids request List.mem_cons_self
    refine wp_bind.mpr (wp_notifyPid ⟨id, pathBasename_length _⟩ ?_)
    intro _
    exact ih fun e inside => ids e (List.mem_cons_of_mem _ inside)

theorem wp_writeAll {fd : Int} {buf : CStr} : wp noticing (writeAll fd buf) (fun r g =>
    g = none ∧ ∀ e, r = .error e → IsInt e.code) none := by
  refine wp_iterate (fun _ g => g = none) rfl ?_
  rintro remaining _ rfl
  rw [wp_ite]
  constructor
  · intro _
    refine ⟨rfl, ?_⟩
    intro e same
    cases same
  · intro _
    refine wp_quiet trivial ?_
    intro r expected
    cases r with
    | error e =>
      rw [wp_ite]
      refine ⟨fun _ => rfl, fun _ => ⟨rfl, ?_⟩⟩
      intro e' same
      cases same
      exact expected.1 e rfl
    | ok written => rfl

theorem wp_copyLoop {srcFd destFd : Int} : wp noticing (copyLoop srcFd destFd) (fun r g =>
    g = none ∧ ∀ e, r = .error e → IsInt e.code) none := by
  refine wp_iterate (fun _ g => g = none) rfl ?_
  rintro _ _ rfl
  refine wp_quiet trivial ?_
  intro r expected
  cases r with
  | error e =>
    rw [wp_ite]
    refine ⟨fun _ => rfl, fun _ => ⟨rfl, ?_⟩⟩
    intro e' same
    cases same
    exact expected.1 e rfl
  | ok buffer =>
    rw [wp_ite]
    constructor
    · intro _
      refine ⟨rfl, ?_⟩
      intro e same
      cases same
    · intro _
      refine wp_bind.mpr (wp_mono wp_writeAll ?_)
      rintro r _ ⟨rfl, codes⟩
      cases r with
      | error e => exact ⟨rfl, codes⟩
      | ok _ => rfl

def Copied (destPath : CStr) (r : SysResult Unit) (g : Option Int) : Prop :=
  g = none ∧ (∀ e, r = .error e → IsInt e.code) ∧ (r = .ok () → destPath.length < PATH_MAX)

theorem copied_error {destPath : CStr} {e : Errno} (code : IsInt e.code) :
    Copied destPath (.error e) none := by
  refine ⟨rfl, ?_, ?_⟩
  · intro e' same
    cases same
    exact code
  · intro same
    cases same

theorem wp_executeTransferCopy {srcPath destPath : CStr} :
    wp noticing (executeTransferCopy srcPath destPath) (Copied destPath) none := by
  refine wp_call trivial fun _ _ => ?_
  refine wp_quiet trivial fun originalEuid _ => ?_
  refine wp_quiet trivial fun raised expected => ?_
  cases raised with
  | error e => exact copied_error (expected.1 e rfl)
  | ok _ =>
  refine wp_quiet (c := .file (.openPath srcPath _ 0)) (by simp [Local, notifyFlags])
    fun opened opens => ?_
  refine wp_quiet trivial fun lowered lowers => ?_
  cases lowered with
  | error e =>
    cases opened with
    | error _ => exact copied_error (lowers.1 e rfl)
    | ok srcFd => exact wp_quiet trivial fun _ _ => copied_error (lowers.1 e rfl)
  | ok _ =>
  cases opened with
  | error e => exact copied_error (opens.1 e rfl)
  | ok srcFd =>
  refine wp_quiet trivial fun stats told => ?_
  cases stats with
  | error e => exact wp_quiet trivial fun _ _ => copied_error (told.1 e rfl)
  | ok srcStat =>
  dsimp only
  rw [wp_ite]
  refine ⟨fun _ => wp_quiet trivial fun _ _ => copied_error ⟨by decide, by decide⟩, fun _ => ?_⟩
  refine wp_quiet (c := .file (.openPath destPath _ 0o600)) (by simp [Local, notifyFlags])
    fun created creates => ?_
  cases created with
  | error e => exact wp_quiet trivial fun _ _ => copied_error (creates.1 e rfl)
  | ok destFd =>
  have short : destPath.length < PATH_MAX := of_decide_eq_true creates.2
  refine wp_quiet trivial fun shared shares => ?_
  cases shared with
  | error e =>
    refine wp_quiet trivial fun _ _ => wp_quiet trivial fun _ _ => ?_
    exact copied_error (shares.1 e rfl)
  | ok _ =>
  refine wp_quiet trivial fun locked locks => ?_
  cases locked with
  | error e =>
    refine wp_quiet trivial fun _ _ => wp_quiet trivial fun _ _ => wp_quiet trivial fun _ _ => ?_
    exact copied_error (locks.1 e rfl)
  | ok _ =>
  dsimp only
  rw [wp_bind]
  refine wp_mono wp_copyLoop ?_
  rintro copied _ ⟨rfl, codes⟩
  refine wp_quiet trivial fun _ _ => wp_quiet trivial fun _ _ => ?_
  refine wp_quiet trivial fun _ _ => wp_quiet trivial fun _ _ => ?_
  cases copied with
  | error e => exact wp_quiet trivial fun _ _ => copied_error (codes e rfl)
  | ok _ =>
    refine ⟨rfl, ?_, fun _ => short⟩
    intro e same
    cases same

theorem wp_notifySource {session : Session} {pid : Int} {online : Bool} {n : Notification}
    {Q : SysResult Unit → Option Int → Prop} (possible : Possible n) (hQ : ∀ r, Q r none) :
    wp noticing (notifySource session pid online n) Q none := by
  unfold notifySource
  split
  · exact wp_notifyPid possible hQ
  · exact hQ _

theorem wp_takeRequest {session : Session} {id : Int} {st : RequestStatus} {reason : CStr}
    {Q : Option (TransferRequestEntry × Int × Bool) → Option Int → Prop} (refused : Q none none)
    (hQ : ∀ e pid online, IsInt e.id → Q (some (e, pid, online)) none) :
    wp noticing (takeRequest session id st reason) Q none := by
  refine wp_call trivial ?_
  rintro ⟨rc, taken⟩ expected
  have entry : IsInt (taken.getD {}).id := by
    cases taken with
    | none => exact ⟨by decide, by decide⟩
    | some e => exact of_decide_eq_true expected.2 e rfl
  rw [wp_ite]
  constructor
  · intro _
    exact wp_bind.mpr (wp_local (calls_within rfl) fun _ => refused)
  · intro _
    refine wp_call trivial ?_
    rintro ⟨found, source⟩ _
    rw [wp_ite]
    constructor
    · intro _
      exact wp_bind.mpr (wp_local (calls_within rfl) fun _ => refused)
    · intro _
      exact hQ _ _ _ entry

theorem wp_dispatchReject {session : Session} {payload : Option CStr} :
    wp noticing (dispatchReject session payload) (fun _ g => g = none) none := by
  refine wp_bind.mpr (wp_local (calls_within rfl) fun parsed => ?_)
  split
  · dsimp only
    rw [wp_ite]
    refine ⟨fun _ => wp_bind.mpr (wp_local (calls_within rfl) fun _ => rfl), fun _ => ?_⟩
    refine wp_bind.mpr (wp_takeRequest rfl fun e pid online id => ?_)
    refine wp_bind.mpr (wp_notifySource id fun r => ?_)
    split
    · exact wp_local (calls_within rfl) fun _ => rfl
    · exact wp_local (calls_within rfl) fun _ => rfl
  · exact rfl

theorem wp_answerAccept {session : Session} {e : TransferRequestEntry} {pid : Int} {online : Bool}
    {baseName destPath : CStr} {copyResult : SysResult Unit} (id : IsInt e.id)
    (copied : Copied destPath copyResult none) :
    wp noticing (answerAccept session e pid online baseName destPath copyResult)
      (fun _ g => g = none) none := by
  obtain ⟨-, codes, short⟩ := copied
  refine wp_bind.mpr (wp_notifySource ?_ fun r => wp_local ?_ fun _ => rfl)
  · cases copyResult with
    | error err => exact ⟨id, codes err rfl⟩
    | ok _ => exact ⟨id, short rfl⟩
  · split
    · exact calls_within rfl
    · split
      · exact calls_within rfl
      · exact calls_within rfl

theorem wp_dispatchAccept {session : Session} {payload : Option CStr} :
    wp noticing (dispatchAccept session payload) (fun _ g => g = none) none := by
  refine wp_bind.mpr (wp_local (calls_within rfl) fun parsed => ?_)
  split
  · dsimp only
    rw [wp_ite]
    refine ⟨fun _ => wp_bind.mpr (wp_local (calls_within rfl) fun _ => rfl), fun _ => ?_⟩
    refine wp_bind.mpr (wp_local (calls_within rfl) fun resolved => ?_)
    split
    · refine wp_bind.mpr (wp_takeRequest rfl fun e pid online id => ?_)
      refine wp_bind.mpr (wp_mono wp_executeTransferCopy ?_)
      intro copyResult g copied
      obtain rfl := copied.1
      rw [wp_bind, wp_when]
      refine ⟨fun _ => ?_, fun _ => wp_answerAccept id copied⟩
      refine wp_call trivial ?_
      intro _ _
      exact wp_answerAccept id copied
    · exact rfl
  · exact rfl

theorem wp_enterRequest {session : Session} {destUser srcPath : CStr} {pid : Int} {online : Bool} :
    wp noticing (enterRequest session destUser srcPath pid online) (fun _ g => g = none) none := by
  refine wp_call trivial ?_
  intro newId expected
  rw [wp_ite]
  refine ⟨fun _ => wp_bind.mpr (wp_local (calls_within rfl) fun _ => rfl), fun _ => ?_⟩
  rw [wp_ite]
  refine ⟨fun _ => ?_, fun _ => rfl⟩
  refine wp_bind.mpr (wp_notifyPid ⟨of_decide_eq_true expected.2, pathBasename_length _⟩ fun r => ?_)
  refine wp_local ?_ fun _ => rfl
  split
  · exact calls_within rfl
  · exact Calls.pure _

theorem wp_dispatchTransferReq {server : Server} {session : Session} {payload : Option CStr} :
    wp noticing (dispatchTransferReq server session payload) (fun _ g => g = none) none := by
  refine wp_bind.mpr (wp_local (calls_within rfl) fun parsed => ?_)
  split
  · dsimp only
    refine wp_bind.mpr (wp_local (calls_within rfl) fun resolved => ?_)
    split
    · refine wp_quiet trivial fun stats _ => ?_
      cases stats with
      | error e => exact wp_local (calls_within rfl) fun _ => rfl
      | ok srcSt =>
        dsimp only
        rw [wp_ite]
        refine ⟨fun _ => wp_bind.mpr (wp_local (calls_within rfl) fun _ => rfl), fun _ => ?_⟩
        refine wp_call trivial ?_
        rintro ⟨found, dest⟩ _
        dsimp only
        rw [wp_ite]
        refine ⟨fun _ => wp_bind.mpr (wp_local (calls_within rfl) fun _ => rfl), fun _ => ?_⟩
        rw [wp_ite]
        refine ⟨fun _ => ?_, fun _ => wp_enterRequest⟩
        refine wp_bind.mpr (wp_local (calls_within rfl) fun userExists => ?_)
        rw [wp_ite]
        refine ⟨fun _ => wp_bind.mpr (wp_local (calls_within rfl) fun _ => rfl), fun _ => ?_⟩
        rw [wp_ite]
        exact ⟨fun _ => wp_bind.mpr (wp_local (calls_within rfl) fun _ => rfl), fun _ => wp_enterRequest⟩
    · exact rfl
  · exact rfl

theorem wp_dispatchLogin {server : Server} {session : Session} {payload : Option CStr} :
    wp noticing (dispatchLogin server session payload) (fun _ g => g = none) none := by
  refine wp_bind.mpr (wp_local (calls_within rfl) fun parsed => ?_)
  split
  · rw [wp_ite]
    refine ⟨fun _ => wp_bind.mpr (wp_local (calls_within rfl) fun _ => rfl), fun _ => ?_⟩
    rw [wp_ite]
    refine ⟨fun _ => wp_bind.mpr (wp_local (calls_within rfl) fun _ => rfl), fun _ => ?_⟩
    refine wp_bind.mpr (wp_local (calls_within rfl) fun r => ?_)
    obtain ⟨result, entered⟩ := r
    cases result with
    | error msg => exact wp_bind.mpr (wp_local (calls_within rfl) fun _ => rfl)
    | ok =>
      refine wp_bind.mpr (wp_local (calls_within rfl) fun _ => ?_)
      refine wp_call trivial fun _ _ => ?_
      refine wp_call trivial fun found expected => ?_
      exact wp_bind.mpr (wp_notifyWaiting found.2 (of_decide_eq_true expected.2) rfl)
  · exact rfl

/-- Every notification a command sends fits in `msg` and in `notify_buffer`, and the session that
it goes to reads it in one piece exactly if no file name in it contains a newline. -/
theorem dispatch_notices (server : Server) (session : Session) (packet : Network.Packet) :
    wp noticing (dispatch server session packet) (fun _ g => g = none) none := by
  unfold dispatch
  dsimp only
  split
  · exact wp_dispatchLogin
  split
  · exact wp_bind.mpr (wp_local (calls_within rfl) fun _ => rfl)
  split
  · exact wp_bind.mpr (wp_local (calls_within rfl) fun _ => rfl)
  · rw [wp_bind]
    refine wp_mono (Q := fun _ g => g = none) ?_ fun _ _ quiet => quiet
    unfold dispatchLoggedIn
    split
    · exact wp_dispatchAccept
    · exact wp_dispatchReject
    · exact wp_dispatchTransferReq
    · exact wp_local (calls_within rfl) fun _ => rfl
    · exact wp_local (calls_within rfl) fun _ => rfl
    · exact wp_local (calls_within rfl) fun _ => rfl
    · exact wp_local (calls_within rfl) fun _ => rfl
    · exact wp_local (calls_within rfl) fun _ => rfl
    · exact wp_local (calls_within rfl) fun _ => rfl
    · exact wp_local (calls_within rfl) fun _ => rfl
    · exact wp_local (calls_within rfl) fun _ => rfl
    · exact wp_local (calls_within rfl) fun _ => rfl
    · exact wp_local (calls_within rfl) fun _ => rfl
    · exact wp_local (calls_within rfl) fun _ => rfl

end calls

instance (g : Option Int) (c : Call) (r : c.Reply) : Decidable (noticing.expects g c r) :=
  inferInstanceAs (Decidable (_ ∧ _))

def bobOnline (_ : Option Int) : (c : Call) → c.Reply
  | .shared (.sessionFind _) => (1, some (3, true))
  | .shared (.requestAdd _ _ _) => 1
  | c => (Sessions.calm (cstr "alice") none).reply c

def aliceSession : Session where
  loggedIn := true
  user := cstr "alice"
  homePath := cstr "/srv/alice"
  rootPath := cstr "/srv"

def twoLines : CStr := (Notification.req 1 (cstr "x" ++ [10] ++ cstr "note")).text

theorem notice_of_two_lines :
    (∃ c g, Makes noticing (dispatch Sessions.calmServer aliceSession
        { command := Command.transferReq.code
          payload := cstr "transfer_request x" ++ [10] ++ cstr "note bob" }) none c g ∧
      decide (c = .file (.write 7 twoLines) ∧ g = some 7) = true) ∧ ¬ ReadWhole twoLines := by
  constructor
  · apply exists_of_reach bobOnline 60
    decide +kernel
  · have possible : Possible (.req 1 (cstr "x" ++ [10] ++ cstr "note")) := by
      refine ⟨⟨by decide, by decide⟩, by decide⟩
    intro whole
    exact (readWhole_iff possible).mp whole (by decide)

end Csap.NoticeBuffers
