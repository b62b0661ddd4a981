import Csap.Server

/-! A command is named twice in a packet: by the command byte of its header, which
chooses the branch of `dispatch`, and by the first word of its payload, which
`parse_command` looks up. -/

namespace Csap

open Prog

/-- What `parse_command` makes of a payload it can copy. -/
def accepted (payload : Network.Bytes) : Option Cmd :=
  (payloadText payload).bind fun line => (parseLine line).toOption

/-- How often a packet was answered with `RSP_ERR`, and whether an allocation failed since. -/
structure Answer where
  errors : Nat := 0
  starved : Bool := false

/-- A program that only looks around and answers once, with `RSP_ERR`. Error numbers are `int`s. -/
def refusing : Typestate Call.Reply Answer where
  allowed
    | _, .file (.realpath _) | _, .file (.stat _) | _, .file (.lstat _) | _, .file (.fstat _)
    | _, .file .getcwd | _, .file (.opendir _) | _, .file (.readdir _)
    | _, .file (.closedir _) => True
    | _, .file (.openPath _ flags _) => flags = { access := .rdonly }
    | _, .file (.setlk _ type _ _) => type = .rdlck
    | _, .user .geteuid | _, .user (.getpwnam _) | _, .user (.getpwuid _)
    | _, .user (.getgrgid _) => True
    | _, .shared (.sessionFind _) => True
    | _, .alloc _ => True
    | g, .socket (.sendPacket command _) => command = RSP_ERR ∧ g.errors = 0
    | _, _ => False
  expects
    | _, .file (.realpath _), .error e => e.code < 2 ^ 31
    | _, _, _ => True
  next
    | g, .socket (.sendPacket _ _), _ => { g with errors := g.errors + 1 }
    | g, .alloc _, false => { g with starved := true }
    | g, _, _ => g

/-- The packet was answered, unless there was no memory for it. -/
def Answer.Done (g : Answer) : Prop := g.starved = false → g.errors = 1

/-- Whatever the system replies, the packet changes nothing and is answered with `RSP_ERR`. -/
def Refused (server : Server) (session : Session) (packet : Network.Packet) : Prop :=
  wp refusing (dispatch server session packet) (fun s g => s = session ∧ g.Done) {}

/-- The operation a header selects goes beyond its own checks with what another command was parsed
into. -/
def Carried (session : Session) (header : Command) (parsed : Cmd) : Prop :=
  match header with
  | .login => session.loggedIn = false ∧ parsed.buf.length ≤ 31
  | .createUser =>
    2 ≤ parsed.argc ∧ (validatePermissions parsed.buf2).isSome ∧
      validateUsername parsed.buf = none
  | .accept => session.loggedIn = true ∧ 0 < atoi parsed.buf2
  | .reject => session.loggedIn = true ∧ 0 < atoi parsed.buf
  | .create | .chmod => session.loggedIn = true ∧ (validatePermissions parsed.buf2).isSome
  | .transferReq | .move | .cd | .downloadBegin | .read | .uploadBegin | .write | .delete
  | .list => session.loggedIn = true
  | .data | .dataEnd | .exit | .readData | .readEnd | .writeData | .writeEnd | .listData
  | .listEnd => False

section refusals

variable {g : Answer} {session : Session} {payload : Network.Bytes}

theorem errPayload_fits {err : Errno} {reason : CStr} (small : err.code < 2 ^ 31)
    (short : reason.length ≤ 1024) :
    (errPayload err.code reason).length ≤ Network.MAX_PAYLOAD_SIZE := by
  have number : (decimal err.code).length ≤ 10 := decimalNat_length_le (by omega)
  have space : (cstr " ").length = 1 := by decide
  have limit : Network.MAX_PAYLOAD_SIZE = 65536 := rfl
  simp only [errPayload, List.length_append]
  omega

theorem failWith_refuses {err : Errno} {reason : CStr} (first : g.errors = 0)
    (small : err.code < 2 ^ 31) (short : reason.length ≤ 1024) :
    wp refusing (failWith err reason) (fun _ g => g.Done) g := by
  have fits := errPayload_fits small short
  unfold failWith sendErr
  rw [wp_bind, wp_bind]
  refine ⟨trivial, fun allocated _ => ?_⟩
  cases allocated with
  | false =>
    intro starved
    cases starved
  | true =>
    simp only [sendPacket, if_neg (Nat.not_lt.mpr fits)]
    exact ⟨⟨rfl, first⟩, fun _ _ _ => congrArg Nat.succ first⟩

theorem errorMsg_short (text : CStr) : (errorMsg text).length ≤ 1024 :=
  (List.length_take_le _ _).trans (by decide)

theorem parseOption_short {command : Cmd} {token msg : CStr}
    (h : parseOption command token = .error msg) : msg.length ≤ 1024 := by
  unfold parseOption at h
  dsimp only at h
  split_ifs at h
  all_goals
    cases h
    exact errorMsg_short _

theorem parseArgs_short {row : CommandRow} {command : Cmd} {args : List CStr} {msg : CStr}
    (h : parseArgs row command args = .error msg) : msg.length ≤ 1024 := by
  induction args generalizing command with
  | nil => cases h
  | cons token rest ih =>
    rw [parseArgs] at h
    split_ifs at h
    · split at h
      · rename_i failed
        cases h
        exact parseOption_short failed
      · exact ih h
    · exact ih h
    · exact ih h
    · cases h
      exact errorMsg_short _

theorem parseLine_short {line msg : CStr} (h : parseLine line = .error msg) :
    msg.length ≤ 1024 := by
  unfold parseLine at h
  split at h
  · cases h
    exact errorMsg_short _
  · split at h
    · cases h
      exact errorMsg_short _
    · split at h
      · rename_i failed
        cases h
        exact parseArgs_short failed
      · split_ifs at h
        cases h
        exact errorMsg_short _

theorem cmdParse_refuses : wp refusing (cmdParse (payloadText payload)) (fun
    | none, g => g.Done
    | some parsed, g => accepted payload = some parsed ∧ g.errors = 0) {} := by
  unfold cmdParse parseCommand accepted
  rw [wp_bind]
  cases payloadText payload with
  | none => exact wp_bind.mpr (failWith_refuses rfl (by decide) (errorMsg_short _))
  | some line =>
    refine wp_call trivial fun copied _ => ?_
    cases copied with
    | false => exact wp_bind.mpr (failWith_refuses rfl (by decide) (errorMsg_short _))
    | true =>
      rw [if_pos rfl, wp_pure]
      cases parsed : parseLine line with
      | error msg => exact wp_bind.mpr (failWith_refuses rfl (by decide) (parseLine_short parsed))
      | ok parsed => exact ⟨by simp [parsed, Except.toOption], rfl⟩

theorem pathErrorReason_short (err : Errno) : (pathErrorReason err).length ≤ 1024 := by
  unfold pathErrorReason
  split_ifs <;> decide

theorem validatePath_refuses {path root : CStr} (first : g.errors = 0) :
    wp refusing (validatePath path root) (fun
      | (.error err, _), g => g.errors = 0 ∧ err.code < 2 ^ 31
      | (.ok _, _), g => g.errors = 0) g := by
  unfold validatePath
  refine wp_call trivial fun r small => ?_
  cases r with
  | ok validated =>
    dsimp only
    split
    · exact first
    · exact ⟨first, by decide⟩
  | error err =>
    dsimp only
    split
    · exact ⟨first, small⟩
    · refine wp_call trivial fun copied _ => wp_call trivial fun copied' _ => ?_
      have first' : (refusing.next (refusing.next g (.alloc (path.length + 1)) copied)
          (.alloc (path.length + 1)) copied').errors = 0 := by
        cases copied <;> cases copied' <;> exact first
      split
      · exact ⟨first', by decide⟩
      · refine wp_call trivial fun r small => ?_
        cases r with
        | error err => exact ⟨first', small⟩
        | ok parent =>
          dsimp only
          split
          · exact ⟨first', by decide⟩
          · generalize (if parent = cstr "/" then [] else cstr "/") = slash
            split
            · exact ⟨first', by decide⟩
            · exact first'

theorem cmdResolve_refuses {path root : CStr} (first : g.errors = 0) :
    wp refusing (cmdResolve path root) (fun
      | none, g => g.Done
      | some _, g => g.errors = 0) g := by
  unfold cmdResolve
  refine wp_bind.mpr (wp_mono (validatePath_refuses first) ?_)
  rintro ⟨err | _, out⟩ g done
  · exact wp_bind.mpr (failWith_refuses done.1 done.2 (pathErrorReason_short err))
  · exact done

theorem cmdPerms_refuses {arg : CStr} (first : g.errors = 0) :
    wp refusing (cmdPerms arg) (fun
      | none, g => g.Done
      | some perms, g => validatePermissions arg = some perms ∧ g.errors = 0) g := by
  unfold cmdPerms
  cases valid : validatePermissions arg with
  | none => exact wp_bind.mpr (failWith_refuses first (by decide) (by decide))
  | some perms => exact ⟨rfl, first⟩

theorem refuses_of_parse {f : Option Cmd → Sys Unit} (none_ : f none = pure ())
    (h : ∀ parsed, accepted payload = some parsed → ∀ g : Answer, g.errors = 0 →
      wp refusing (f (some parsed)) (fun _ g => g.Done) g) :
    wp refusing (cmdParse (payloadText payload) >>= f) (fun _ g => g.Done) {} := by
  refine wp_bind.mpr (wp_mono cmdParse_refuses ?_)
  rintro (_ | parsed) g done
  · rw [none_]
    exact done
  · exact h parsed done.1 g done.2

theorem dispatchLoggedIn_refuses {server : Server} {command : Option Command}
    (rejected : accepted payload = none) :
    wp refusing (dispatchLoggedIn server session command (payloadText payload))
      (fun _ g => g.Done) {} := by
  have never : ∀ {f : Option Cmd → Sys Unit}, f none = pure () →
      wp refusing (cmdParse (payloadText payload) >>= f) (fun _ g => g.Done) {} := fun none_ =>
    refuses_of_parse none_ fun parsed h => by
      rw [rejected] at h
      cases h
  unfold dispatchLoggedIn
  split
  all_goals first
    | exact never rfl
    | exact failWith_refuses rfl (by decide) (by decide)

theorem dispatchLogin_refuses {server : Server}
    (h : ∀ parsed, accepted payload = some parsed → ¬ Carried session .login parsed) :
    wp refusing (dispatchLogin server session (payloadText payload))
      (fun s g => s = session ∧ g.Done) {} := by
  unfold dispatchLogin
  refine wp_bind.mpr (wp_mono cmdParse_refuses ?_)
  rintro (_ | parsed) g done
  · exact ⟨rfl, done⟩
  have kept := h parsed done.1
  dsimp only
  split
  · refine wp_bind.mpr (wp_mono (failWith_refuses done.2 (by decide) ?_) fun _ g done => ⟨rfl, done⟩)
    exact (List.length_take_le _ _).trans (by decide)
  · rename_i out
    split
    · refine wp_bind.mpr (wp_mono (failWith_refuses done.2 (by decide) ?_)
        fun _ g done => ⟨rfl, done⟩)
      decide
    · rename_i short
      exact absurd ⟨by simpa using out, Nat.not_lt.mp short⟩ kept

theorem handleCreateUser_refuses {server : Server} {username root : CStr} {perms : Nat}
    {g : Answer} {msg : CStr} (invalid : validateUsername username = some msg) :
    wp refusing (handleCreateUser server username perms root) (fun r g' =>
      r = errText 256 msg ∧ g' = g) g := by
  unfold handleCreateUser
  refine wp_call trivial fun euid _ => ?_
  rw [invalid]
  exact ⟨rfl, rfl⟩

theorem dispatchCreateUser_refuses {server : Server}
    (h : ∀ parsed, accepted payload = some parsed → ¬ Carried session .createUser parsed) :
    wp refusing (dispatchCreateUser server session (payloadText payload))
      (fun _ g => g.Done) {} := by
  refine refuses_of_parse rfl fun parsed done g first => ?_
  have kept := h parsed done
  dsimp only
  split
  · exact wp_bind.mpr (failWith_refuses first (by decide) (by decide))
  · rename_i enough
    refine wp_bind.mpr (wp_mono (cmdPerms_refuses first) ?_)
    rintro (_ | perms) g done
    · exact done
    · cases name : validateUsername parsed.buf with
      | none =>
        refine absurd ⟨Nat.not_lt.mp enough, ?_, name⟩ kept
        rw [done.1]
        rfl
      | some msg =>
        refine wp_bind.mpr (wp_mono (handleCreateUser_refuses name) ?_)
        rintro r g' ⟨rfl, rfl⟩
        refine failWith_refuses done.2 (by decide) ?_
        split
        · decide
        · exact (List.length_take_le _ _).trans (by decide)

theorem dispatchAccept_refuses (login : session.loggedIn = true)
    (h : ∀ parsed, accepted payload = some parsed → ¬ Carried session .accept parsed) :
    wp refusing (dispatchAccept session (payloadText payload)) (fun _ g => g.Done) {} := by
  refine refuses_of_parse rfl fun parsed done g first => ?_
  have none_ : atoi parsed.buf2 ≤ 0 := not_lt.mp fun some_ => h parsed done ⟨login, some_⟩
  dsimp only
  rw [if_pos none_]
  exact wp_bind.mpr (failWith_refuses first (by decide) (by decide))

theorem dispatchReject_refuses (login : session.loggedIn = true)
    (h : ∀ parsed, accepted payload = some parsed → ¬ Carried session .reject parsed) :
    wp refusing (dispatchReject session (payloadText payload)) (fun _ g => g.Done) {} := by
  refine refuses_of_parse rfl fun parsed done g first => ?_
  have none_ : atoi parsed.buf ≤ 0 := not_lt.mp fun some_ => h parsed done ⟨login, some_⟩
  dsimp only
  rw [if_pos none_]
  exact wp_bind.mpr (failWith_refuses first (by decide) (by decide))

theorem perms_refuse {path root arg : CStr} {f : CStr → Option Nat → Sys Unit}
    (none_ : ∀ out, f out none = pure ()) (invalid : (validatePermissions arg).isSome = false)
    (first : g.errors = 0) :
    wp refusing (do
      let some out ← cmdResolve path root | return
      f out (← cmdPerms arg)) (fun _ g => g.Done) g := by
  refine wp_bind.mpr (wp_mono (cmdResolve_refuses first) ?_)
  rintro (_ | out) g done
  · exact done
  · refine wp_bind.mpr (wp_mono (cmdPerms_refuses done) ?_)
    rintro (_ | perms) g done
    · rw [none_]
      exact done
    · rw [done.1] at invalid
      cases invalid

theorem dispatchCreate_refuses (login : session.loggedIn = true)
    (h : ∀ parsed, accepted payload = some parsed → ¬ Carried session .create parsed) :
    wp refusing (dispatchCreate session (payloadText payload)) (fun _ g => g.Done) {} := by
  refine refuses_of_parse rfl fun parsed done g first => ?_
  exact perms_refuse (fun _ => rfl) (Bool.eq_false_iff.mpr fun ok => h parsed done ⟨login, ok⟩) first

theorem dispatchChmod_refuses (login : session.loggedIn = true)
    (h : ∀ parsed, accepted payload = some parsed → ¬ Carried session .chmod parsed) :
    wp refusing (dispatchChmod session (payloadText payload)) (fun _ g => g.Done) {} := by
  refine refuses_of_parse rfl fun parsed done g first => ?_
  exact perms_refuse (fun _ => rfl) (Bool.eq_false_iff.mpr fun ok => h parsed done ⟨login, ok⟩) first

/-- A header no operation goes by, or a payload its operation does not take, is refused. -/
theorem refused_of_not_carried {server : Server} {packet : Network.Packet}
    (h : ∀ header parsed, Command.ofCode packet.command = some header →
      accepted packet.payload = some parsed → ¬ Carried session header parsed) :
    Refused server session packet := by
  have stays : ∀ {p : Sys Unit}, wp refusing p (fun _ g => g.Done) {} →
      wp refusing (do p; return session) (fun s g => s = session ∧ g.Done) {} := fun done =>
    wp_bind.mpr (wp_mono done fun _ _ done => ⟨rfl, done⟩)
  unfold Refused dispatch
  dsimp only
  split
  · rename_i login
    exact dispatchLogin_refuses fun parsed => h .login parsed login
  split
  · rename_i create
    exact stays (dispatchCreateUser_refuses fun parsed => h .createUser parsed create)
  split
  · exact stays (failWith_refuses rfl (by decide) (by decide))
  rename_i login
  have login : session.loggedIn = true := by simpa using login
  refine stays ?_
  cases parsed : accepted packet.payload with
  | none => exact dispatchLoggedIn_refuses parsed
  | some parsed' =>
    cases header : Command.ofCode packet.command with
    | none => exact failWith_refuses rfl (by decide) (by decide)
    | some header' =>
      have kept := h header' parsed' header parsed
      cases header' with
      | accept => exact dispatchAccept_refuses login fun parsed => h .accept parsed header
      | reject => exact dispatchReject_refuses login fun parsed => h .reject parsed header
      | create => exact dispatchCreate_refuses login fun parsed => h .create parsed header
      | chmod => exact dispatchChmod_refuses login fun parsed => h .chmod parsed header
      | login | createUser => contradiction
      | transferReq | move | cd | downloadBegin | read | uploadBegin | write | delete | list =>
        exact absurd login kept
      | _ => exact failWith_refuses rfl (by decide) (by decide)

end refusals

section carried

variable {g : Answer} {session : Session} {payload : Network.Bytes} {parsed : Cmd}
  {α : Type} {Q : α → Answer → Prop}

theorem parsed_of_refuses {f : Option Cmd → Sys α} (ok : accepted payload = some parsed)
    (h : wp refusing (cmdParse (payloadText payload) >>= f) Q {}) :
    wp refusing (f (some parsed)) Q {} := by
  obtain ⟨line, text, result⟩ := Option.bind_eq_some_iff.mp ok
  rw [text, wp_bind, cmdParse, wp_bind, parseCommand, wp_bind] at h
  have next := (wp_perform.mp h).2 true trivial
  rw [if_pos rfl, wp_pure] at next
  cases parse : parseLine line with
  | error msg =>
    rw [parse] at result
    cases result
  | ok out =>
    rw [parse] at result next
    cases result
    exact next

theorem insideRoot_self (nroot : CStr) : insideRoot nroot nroot = true := by
  simp [insideRoot]

theorem resolved_of_refuses {path root : CStr} {f : Option CStr → Sys α}
    (h : wp refusing (cmdResolve path root >>= f) Q g) :
    ∃ out, wp refusing (f (some out)) Q g := by
  refine ⟨stripSlashes (snprintf PATH_MAX root), ?_⟩
  rw [wp_bind, cmdResolve, wp_bind, validatePath, wp_bind] at h
  have next := (wp_perform.mp h).2 (.ok (stripSlashes (snprintf PATH_MAX root))) trivial
  dsimp only at next
  rw [if_pos (insideRoot_self _)] at next
  exact next

theorem perms_of_refuses {arg : CStr} {perms : Nat} {f : Option Nat → Sys α}
    (ok : validatePermissions arg = some perms)
    (h : wp refusing (cmdPerms arg >>= f) Q g) : wp refusing (f (some perms)) Q g := by
  unfold cmdPerms at h
  rw [ok] at h
  exact h

theorem dispatchAccept_carried (ok : accepted payload = some parsed) (id : 0 < atoi parsed.buf2)
    (h : wp refusing (dispatchAccept session (payloadText payload)) (fun _ g => g.Done) {}) :
    False := by
  have start := parsed_of_refuses ok h
  dsimp only at start
  rw [if_neg (not_le.mpr id)] at start
  obtain ⟨out, taken⟩ := resolved_of_refuses start
  exact taken.1

theorem dispatchReject_carried (ok : accepted payload = some parsed) (id : 0 < atoi parsed.buf)
    (h : wp refusing (dispatchReject session (payloadText payload)) (fun _ g => g.Done) {}) :
    False := by
  have start := parsed_of_refuses ok h
  dsimp only at start
  rw [if_neg (not_le.mpr id)] at start
  exact start.1

theorem dispatchTransferReq_carried {server : Server} (ok : accepted payload = some parsed)
    (h : wp refusing (dispatchTransferReq server session (payloadText payload))
      (fun _ g => g.Done) {}) : False := by
  obtain ⟨out, start⟩ := resolved_of_refuses (parsed_of_refuses ok h)
  have found := start.2 (.ok { kind := .regular, mode := 0 }) trivial
  have added := found.2 (1, some (1, true)) trivial
  exact added.1

theorem dispatchCreate_carried (ok : accepted payload = some parsed)
    (perms : (validatePermissions parsed.buf2).isSome = true)
    (h : wp refusing (dispatchCreate session (payloadText payload)) (fun _ g => g.Done) {}) :
    False := by
  obtain ⟨out, start⟩ := resolved_of_refuses (parsed_of_refuses ok h)
  obtain ⟨perms, valid⟩ := Option.isSome_iff_exists.mp perms
  have created := perms_of_refuses valid start
  dsimp only at created
  unfold createCmd at created
  split at created
  · exact created.1
  · cases created.1

theorem dispatchChmod_carried (ok : accepted payload = some parsed)
    (perms : (validatePermissions parsed.buf2).isSome = true)
    (h : wp refusing (dispatchChmod session (payloadText payload)) (fun _ g => g.Done) {}) :
    False := by
  obtain ⟨out, start⟩ := resolved_of_refuses (parsed_of_refuses ok h)
  obtain ⟨perms, valid⟩ := Option.isSome_iff_exists.mp perms
  exact (perms_of_refuses valid start).1

theorem dispatchMove_carried (ok : accepted payload = some parsed)
    (h : wp refusing (dispatchMove session (payloadText payload)) (fun _ g => g.Done) {}) :
    False := by
  obtain ⟨src, start⟩ := resolved_of_refuses (parsed_of_refuses ok h)
  obtain ⟨dest, both⟩ := resolved_of_refuses start
  -- a directory needs no lock, and the destination does not exist
  have source := both.2 (.ok { kind := .directory, mode := 0 }) trivial
  have moved := source.2 (.error ENOENT) trivial
  exact moved.1

theorem dispatchCd_carried (ok : accepted payload = some parsed)
    (h : wp refusing (dispatchCd session (payloadText payload)) (fun _ g => g.Done) {}) :
    False := by
  obtain ⟨out, start⟩ := resolved_of_refuses (parsed_of_refuses ok h)
  exact start.1

theorem not_sendOk_refuses {payload : CStr} {Q : Int → Answer → Prop}
    (fits : payload.length ≤ Network.MAX_PAYLOAD_SIZE) : ¬ wp refusing (sendOk payload) Q g := by
  intro h
  rw [sendOk, sendPacket, if_neg (Nat.not_lt.mpr fits)] at h
  exact absurd h.1.1 (by decide)

theorem not_sendFile_refuses {texts : Texts} {path : CStr} {offset : Int}
    {dataCode endCode : UInt8} {Q : SysResult Nat × CStr → Answer → Prop} :
    ¬ wp refusing (sendFile texts path offset dataCode endCode) Q g := by
  intro h
  rw [sendFile, wp_bind] at h
  have opened := (wp_perform.mp h).2 (.ok 3) trivial
  rw [wp_bind] at opened
  have locked := (wp_perform.mp opened).2 (.ok ()) trivial
  rw [wp_bind] at locked
  have sized := (wp_perform.mp locked).2 (.ok { kind := .regular, mode := 0 }) trivial
  dsimp only at sized
  rw [if_neg (by decide), wp_bind, Nat.zero_sub] at sized
  exact not_sendOk_refuses (by decide) sized

theorem dispatchDownload_carried {server : Server} (ok : accepted payload = some parsed)
    (h : wp refusing (dispatchDownload server session (payloadText payload))
      (fun _ g => g.Done) {}) : False := by
  obtain ⟨out, start⟩ := resolved_of_refuses (parsed_of_refuses ok h)
  exact not_sendFile_refuses (wp_bind.mp start)

theorem dispatchRead_carried {server : Server} (ok : accepted payload = some parsed)
    (h : wp refusing (dispatchRead server session (payloadText payload)) (fun _ g => g.Done) {}) :
    False := by
  obtain ⟨out, start⟩ := resolved_of_refuses (parsed_of_refuses ok h)
  exact not_sendFile_refuses (wp_bind.mp start)

theorem not_receiveCleanup_refuses {target : Target} {tempPath : CStr} {err : Errno}
    {Q : Unit → Answer → Prop} :
    ¬ wp refusing (receiveCleanup target (-1) (-1) tempPath false (.error err)) Q g := by
  intro h
  rw [receiveCleanup, wp_bind, wp_when] at h
  have closed := h.2 (by decide)
  rw [wp_bind, wp_when] at closed
  have unlocked := closed.2 (by decide)
  rw [wp_bind, wp_when] at unlocked
  by_cases temp : tempPath = []
  · have removed := unlocked.2 (not_not.mpr temp)
    rw [wp_when] at removed
    exact (removed.1 ⟨rfl, rfl⟩).1
  · exact (unlocked.1 temp).1

theorem not_receiveIntoFile_refuses {texts : Texts} {target : Target}
    {Q : SysResult Nat × CStr → Answer → Prop} :
    ¬ wp refusing (receiveIntoFile texts target) Q g := by
  intro h
  rw [receiveIntoFile, wp_bind] at h
  have start := (wp_perform.mp h).2 (.error ENOENT) trivial
  dsimp only at start
  rw [wp_bind, openTarget] at start
  split at start
  · rw [wp_bind] at start
    cases (wp_perform.mp start).1
  · rw [wp_bind, openTempForUpload] at start
    split at start
    · rw [wp_pure] at start
      exact not_receiveCleanup_refuses (wp_bind.mp start)
    · rw [wp_bind] at start
      have copied := (wp_perform.mp start).2 true trivial
      rw [if_neg (by decide)] at copied
      dsimp only at copied
      split at copied
      · rw [wp_pure] at copied
        exact not_receiveCleanup_refuses (wp_bind.mp copied)
      · exact (wp_perform.mp copied).1

theorem dispatchUpload_carried {server : Server} (ok : accepted payload = some parsed)
    (h : wp refusing (dispatchUpload server session (payloadText payload)) (fun _ g => g.Done) {}) :
    False := by
  obtain ⟨out, start⟩ := resolved_of_refuses (parsed_of_refuses ok h)
  exact not_receiveIntoFile_refuses (wp_bind.mp start)

theorem dispatchWrite_carried {server : Server} (ok : accepted payload = some parsed)
    (h : wp refusing (dispatchWrite server session (payloadText payload)) (fun _ g => g.Done) {}) :
    False := by
  obtain ⟨out, start⟩ := resolved_of_refuses (parsed_of_refuses ok h)
  exact not_receiveIntoFile_refuses (wp_bind.mp start)

theorem dispatchDelete_carried (ok : accepted payload = some parsed)
    (h : wp refusing (dispatchDelete session (payloadText payload)) (fun _ g => g.Done) {}) :
    False := by
  obtain ⟨out, start⟩ := resolved_of_refuses (parsed_of_refuses ok h)
  have found := start.2 (.ok { kind := .directory, mode := 0 }) trivial
  exact (found.2 (.ok { kind := .directory, mode := 0 }) trivial).1

theorem list_of_refuses {texts : Texts} {path : CStr} {f : SysResult Unit × StrBuf → Sys α}
    (h : wp refusing (list texts path >>= f) Q g) :
    ∃ g', wp refusing (f (.ok (), { data := some [], cap := 1024 })) Q g' := by
  rw [wp_bind, list, wp_bind, sbInit, wp_bind] at h
  have allocated := (wp_perform.mp h).2 true trivial
  rw [if_pos rfl, wp_pure, wp_bind] at allocated
  have looked := (wp_perform.mp allocated).2 (.ok { kind := .directory, mode := 0 }) trivial
  dsimp only at looked
  rw [if_pos rfl, wp_bind] at looked
  have opened := (wp_perform.mp looked).2 (.ok 3) trivial
  dsimp only at opened
  rw [wp_bind] at opened
  obtain ⟨J, first, round⟩ := opened
  have ended := (round _ _ first).2 none trivial
  have closed := (wp_bind.mp ended).2 (.ok ()) trivial
  exact ⟨_, closed⟩

theorem listPath_of_refuses {buf : CStr} {f : Option CStr → Sys α}
    (h : wp refusing (listPath session buf >>= f) Q g) : ∃ out, wp refusing (f (some out)) Q g := by
  unfold listPath at h
  split at h
  · rw [wp_bind, wp_bind] at h
    exact ⟨_, (wp_perform.mp h).2 (.ok []) trivial⟩
  · exact resolved_of_refuses h

theorem dispatchList_carried {server : Server} (ok : accepted payload = some parsed)
    (h : wp refusing (dispatchList server session (payloadText payload)) (fun _ g => g.Done) {}) :
    False := by
  obtain ⟨out, start⟩ := listPath_of_refuses (parsed_of_refuses ok h)
  obtain ⟨g', listed⟩ := list_of_refuses start
  have empty : StrBuf.content { data := some [], cap := 1024 } = [] := rfl
  have text : sbAppend { data := some [], cap := 1024 } (cstr "Directory is empty\n") =
      pure (true, { data := some (cstr "Directory is empty\n"), cap := 1024 }) := rfl
  dsimp only at listed
  rw [if_pos empty, text, wp_bind, wp_pure] at listed
  rw [if_neg (by decide), wp_bind] at listed
  exact not_sendOk_refuses ((decimalNat_length_le (by decide)).trans (by decide)) listed

theorem dispatchLogin_carried {server : Server} (ok : accepted payload = some parsed)
    (out : session.loggedIn = false) (short : parsed.buf.length ≤ 31)
    (h : wp refusing (dispatchLogin server session (payloadText payload))
      (fun s g => s = session ∧ g.Done) {}) : False := by
  have start := parsed_of_refuses ok h
  dsimp only at start
  rw [if_neg (by simp [out]), if_neg (by omega), wp_bind, handleLogin, wp_bind] at start
  -- a user of the server whose home directory exists
  have user := (wp_perform.mp start).2 (some ⟨1000, server.serverGid⟩) trivial
  have csap : isCsapUser server ⟨1000, server.serverGid⟩ = true := by simp [isCsapUser]
  dsimp only at user
  rw [if_neg (by simp [csap]), wp_bind, validatePath, wp_bind] at user
  have home := (wp_perform.mp user).2 (.ok (stripSlashes (snprintf PATH_MAX session.rootPath))) trivial
  dsimp only at home
  rw [if_pos (insideRoot_self _), wp_pure, wp_bind] at home
  have found := (wp_perform.mp home).2 (.ok { kind := .directory, mode := 0 }) trivial
  rw [if_neg (by decide), wp_bind] at found
  exact (wp_perform.mp found).1

theorem validatePermissions_le {arg : CStr} {perms : Nat}
    (h : validatePermissions arg = some perms) : perms ≤ 0o777 := by
  unfold validatePermissions at h
  dsimp only at h
  split_ifs at h with invalid
  cases h
  omega

theorem dispatchCreateUser_carried {server : Server} (ok : accepted payload = some parsed)
    (enough : 2 ≤ parsed.argc) (perms : (validatePermissions parsed.buf2).isSome = true)
    (name : validateUsername parsed.buf = none)
    (h : wp refusing (dispatchCreateUser server session (payloadText payload))
      (fun _ g => g.Done) {}) : False := by
  have start := parsed_of_refuses ok h
  dsimp only at start
  obtain ⟨perms, valid⟩ := Option.isSome_iff_exists.mp perms
  rw [if_neg (by omega)] at start
  have next := perms_of_refuses valid start
  dsimp only at next
  rw [wp_bind, handleCreateUser, wp_bind] at next
  have user := (wp_perform.mp next).2 0 trivial
  rw [name] at user
  dsimp only at user
  rw [if_neg (Nat.not_lt.mpr (validatePermissions_le valid)), wp_bind] at user
  exact (wp_perform.mp user).1

/-- What an operation carries out with another command's arguments is not refused. -/
theorem not_refused_of_carried {server : Server} {packet : Network.Packet} {header : Command}
    (known : Command.ofCode packet.command = some header)
    (ok : accepted packet.payload = some parsed) (carried : Carried session header parsed) :
    ¬ Refused server session packet := by
  intro refused
  unfold Refused dispatch at refused
  dsimp only at refused
  rw [known] at refused
  have after : ∀ {p : Sys Unit} {g : Answer}, wp refusing (do p; return session)
      (fun s g => s = session ∧ g.Done) g → wp refusing p (fun _ g => g.Done) g := fun h =>
    wp_mono (wp_bind.mp h) fun _ _ done => done.2
  have entered : header ≠ .login → header ≠ .createUser → session.loggedIn = true →
      wp refusing (dispatchLoggedIn server session (some header) (payloadText packet.payload))
        (fun _ g => g.Done) {} := by
    intro login create loggedIn
    rw [if_neg (by simpa using login), if_neg (by simpa using create),
      if_neg (by simp [loggedIn])] at refused
    exact after refused
  cases header with
  | login => exact dispatchLogin_carried ok carried.1 carried.2 refused
  | createUser =>
    exact dispatchCreateUser_carried ok carried.1 carried.2.1 carried.2.2 (after refused)
  | accept => exact dispatchAccept_carried ok carried.2 (entered nofun nofun carried.1)
  | reject => exact dispatchReject_carried ok carried.2 (entered nofun nofun carried.1)
  | create => exact dispatchCreate_carried ok carried.2 (entered nofun nofun carried.1)
  | chmod => exact dispatchChmod_carried ok carried.2 (entered nofun nofun carried.1)
  | transferReq => exact dispatchTransferReq_carried ok (entered nofun nofun carried)
  | move => exact dispatchMove_carried ok (entered nofun nofun carried)
  | cd => exact dispatchCd_carried ok (entered nofun nofun carried)
  | downloadBegin => exact dispatchDownload_carried ok (entered nofun nofun carried)
  | read => exact dispatchRead_carried ok (entered nofun nofun carried)
  | uploadBegin => exact dispatchUpload_carried ok (entered nofun nofun carried)
  | write => exact dispatchWrite_carried ok (entered nofun nofun carried)
  | delete => exact dispatchDelete_carried ok (entered nofun nofun carried)
  | list => exact dispatchList_carried ok (entered nofun nofun carried)
  | _ => exact absurd carried id

end carried

/-- The payload is another command's, and the operation of the header is carried out with it. -/
def Misread (session : Session) (packet : Network.Packet) : Prop :=
  ∃ header parsed, Command.ofCode packet.command = some header ∧
    accepted packet.payload = some parsed ∧ parsed.code ≠ header ∧ Carried session header parsed

/-- A packet is the command its header names, or changes nothing, exactly when it is not misread. -/
theorem headers_agree (server : Server) (session : Session) (packet : Network.Packet) :
    ((∃ parsed, accepted packet.payload = some parsed ∧
      Command.ofCode packet.command = some parsed.code) ∨ Refused server session packet) ↔
    ¬ Misread session packet := by
  constructor
  · rintro (⟨parsed, ok, same⟩ | refused) ⟨header, parsed', known, ok', other, carried⟩
    · rw [ok] at ok'
      cases ok'
      rw [same] at known
      exact other (Option.some.inj known)
    · exact not_refused_of_carried known ok' carried refused
  · intro read
    by_cases agree : ∃ parsed, accepted packet.payload = some parsed ∧
        Command.ofCode packet.command = some parsed.code
    · exact .inl agree
    · refine .inr (refused_of_not_carried fun header parsed known ok carried => ?_)
      refine read ⟨header, parsed, known, ok, ?_, carried⟩
      rintro rfl
      exact agree ⟨parsed, ok, known⟩

/-- `cd notes.txt` under the header of `delete`, from a user who is logged in. -/
theorem cd_deletes : ¬ ((∃ parsed, accepted (cstr "cd notes.txt") = some parsed ∧
      Command.ofCode Command.delete.code = some parsed.code) ∨
    Refused ⟨⟨fun _ => [], fun _ => []⟩, cstr "/srv", 1001, 65534, 65534, 0⟩
      { loggedIn := true, rootPath := cstr "/srv" }
      ⟨Command.delete.code, cstr "cd notes.txt"⟩) := by
  have ok : accepted (cstr "cd notes.txt") =
      some { code := .cd, argc := 1, buf := cstr "notes.txt" } := by
    decide
  rintro (⟨parsed, ok', same⟩ | refused)
  · rw [ok] at ok'
    cases ok'
    revert same
    decide
  · have login : Carried { loggedIn := true, rootPath := cstr "/srv" } .delete
        { code := .cd, argc := 1, buf := cstr "notes.txt" } := rfl
    exact not_refused_of_carried (Command.ofCode_code _) ok login refused

end Csap
