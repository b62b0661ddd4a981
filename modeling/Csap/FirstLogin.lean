import Csap.UserAccounts
import Csap.CommandLines
import Csap.Footprints

/-! The login of a user that `create_user` has made: which checks the name meets on
its way, and where it is cut. -/

namespace Csap

open Prog

variable {server : Server} {adduser : Adduser} {root username : CStr} {perms : Nat} {s t : Users}
  {log : History Call.Reply Users (Option Errno)}

section created

variable {choice : Option Errno}

theorem getpwnam_done {name : CStr} {r : Option Passwd}
    (done : userSystem adduser (.user (.getpwnam name)) choice s = some (r, t)) :
    t = s ∧ (r = none ∨ r = s.account name) := by
  cases choice <;> cases done
  · exact ⟨rfl, .inr rfl⟩
  · exact ⟨rfl, .inl rfl⟩

theorem geteuid_done {r : Int}
    (done : userSystem adduser (.user .geteuid) choice s = some (r, t)) : t = s := by
  cases done
  rfl

theorem seteuid_done {uid : Int} {r : SysResult Unit}
    (done : userSystem adduser (.user (.seteuid uid)) choice s = some (r, t)) :
    t.account = s.account ∧ t.home = s.home := by
  cases choice <;> cases done <;> exact ⟨rfl, rfl⟩

theorem runExec_done {r : Int}
    (done : userSystem adduser (.user (.runExec (adduserArgv username))) choice s = some (r, t))
    (ran : ¬ r < 0) : t.account username = some (adduser.passwd username) := by
  have last : (adduserArgv username).getLast?.getD [] = username := rfl
  simp only [userSystem, last] at done
  split_ifs at done with fresh
  · cases done
    simp [Users.addAccount, fresh.2]
  all_goals
    cases done
    exact absurd (show (-1 : Int) < 0 by decide) ran

theorem mkdir_done {path : CStr} {mode : Nat} {r : SysResult Unit}
    (done : userSystem adduser (.file (.mkdir path mode)) choice s = some (r, t)) :
    t.account = s.account ∧ (r = .ok () → t.home path ≠ none) := by
  cases choice with
  | some e =>
    cases done
    exact ⟨rfl, fun ok => by cases ok⟩
  | none =>
    simp only [userSystem] at done
    split at done <;> cases done
    · exact ⟨rfl, fun ok => by cases ok⟩
    · exact ⟨rfl, fun _ => by simp⟩

theorem chown_done {path : CStr} {uid gid : Int} {r : SysResult Unit}
    (done : userSystem adduser (.file (.chown path uid gid)) choice s = some (r, t))
    (there : s.home path ≠ none) : t.account = s.account ∧ t.home path ≠ none := by
  cases choice with
  | some e =>
    cases done
    exact ⟨rfl, there⟩
  | none =>
    simp only [userSystem] at done
    split at done <;> cases done
    · exact ⟨rfl, there⟩
    · exact ⟨rfl, by simp⟩

theorem chmod_done {path : CStr} {mode : Nat} {r : SysResult Unit}
    (done : userSystem adduser (.file (.chmod path mode)) choice s = some (r, t))
    (there : s.home path ≠ none) : t.account = s.account ∧ t.home path ≠ none := by
  cases choice with
  | some e =>
    cases done
    exact ⟨rfl, there⟩
  | none =>
    simp only [userSystem] at done
    split at done <;> cases done
    · exact ⟨rfl, there⟩
    · exact ⟨rfl, by simp⟩

/-- What a user has once `handle_create_user` has returned 0. -/
structure Created (server : Server) (root username : CStr) (t : Users) : Prop where
  valid : validateUsername username = none
  account : ∃ pwd, t.account username = some pwd ∧ isCsapUser server pwd = true
  home : t.home (homeDirPath root username) ≠ none

theorem createHomeDirectory_ensures (pwd : Passwd) : Ensures (userSystem adduser)
    (createHomeDirectory server root username perms pwd) (fun r _ t => t.account = s.account ∧
      (r = .ok () → t.home (homeDirPath root username) ≠ none)) log s := by
  unfold createHomeDirectory
  simp only [ensures_bind, ensures_perform]
  intro choice made t done
  obtain ⟨account, there⟩ := mkdir_done done
  rcases made with e | ⟨⟩
  · dsimp only
    split_ifs <;> exact ensures_pure.mpr ⟨account, fun ok => by cases ok⟩
  simp only [ensures_bind, ensures_perform]
  intro choice owned u done
  obtain ⟨account', there⟩ := chown_done done (there rfl)
  rcases owned with e | ⟨⟩
  · exact ensures_pure.mpr ⟨account'.trans account, fun ok => by cases ok⟩
  simp only [ensures_bind, ensures_perform]
  intro choice allowed v done
  obtain ⟨account'', there⟩ := chmod_done done there
  rcases allowed with e | ⟨⟩
  · exact ensures_pure.mpr ⟨(account''.trans account').trans account, fun ok => by cases ok⟩
  · exact ensures_pure.mpr ⟨(account''.trans account').trans account, fun _ => there⟩

theorem restoreEuid_ensures (originalEuid : Int) (rc : Except CStr Unit) :
    Ensures (userSystem adduser) (restoreEuid server originalEuid rc) (fun r _ t =>
      t.account = s.account ∧ t.home = s.home ∧ (r = .ok () → rc = .ok ())) log s := by
  unfold restoreEuid
  simp only [ensures_bind, ensures_perform]
  intro choice restored t done
  obtain ⟨account, home⟩ := seteuid_done done
  rcases restored with e | ⟨⟩
  · exact ensures_pure.mpr ⟨account, home, fun ok => by cases ok⟩
  · exact ensures_pure.mpr ⟨account, home, fun ok => ok⟩

theorem createHome_ensures {pwd : Passwd} (originalEuid : Int) (valid : validateUsername username = none)
    (account : s.account username = some pwd) (own : isCsapUser server pwd = true) :
    Ensures (userSystem adduser) (do
      let rc ← createHomeDirectory server root username perms pwd
      restoreEuid server originalEuid rc) (fun r _ t => r = .ok () → Created server root username t)
      log s := by
  rw [ensures_bind]
  refine (createHomeDirectory_ensures pwd).mono fun rc log t ⟨kept, there⟩ => ?_
  refine (restoreEuid_ensures originalEuid rc).mono fun r log u ⟨kept', home, ok⟩ done => ?_
  refine ⟨valid, ⟨pwd, ?_, own⟩, ?_⟩
  · rw [kept', kept, account]
  · rw [home]
    exact there (ok done)

theorem created_of_returns (made : ∀ name, isCsapUser server (adduser.passwd name) = true)
    (ran : Returns (userSystem adduser) (handleCreateUser server username perms root) s log (.ok ()) t) :
    Created server root username t := by
  have all : Ensures (userSystem adduser) (handleCreateUser server username perms root)
      (fun r _ t => r = .ok () → Created server root username t) [] s := by
    have refused : ∀ {log s} {originalEuid : Int} {msg : CStr} {size : Nat}, Ensures (userSystem adduser)
        (restoreEuid server originalEuid (errText size msg))
        (fun r _ t => r = .ok () → Created server root username t) log s := fun {_ _ _ _ _} =>
      (restoreEuid_ensures _ _).mono fun _ _ _ h ok => by cases h.2.2 ok
    unfold handleCreateUser
    simp only [ensures_bind, ensures_perform]
    intro choice originalEuid u _
    split
    · exact ensures_pure.mpr fun ok => by cases ok
    · rename_i valid
      rw [ensures_ite]
      refine ⟨fun _ => ensures_pure.mpr fun ok => (by cases ok), fun _ => ?_⟩
      simp only [ensures_bind, ensures_perform]
      intro choice raised u _
      rcases raised with e | ⟨⟩
      · exact ensures_pure.mpr fun ok => by cases ok
      simp only [ensures_bind, ensures_perform]
      intro choice found u' done
      obtain ⟨rfl, known⟩ := getpwnam_done done
      rcases found with _ | pwd
      · simp only [ensures_bind, ensures_perform]
        intro choice euid v done
        cases geteuid_done done
        rw [ensures_ite]
        refine ⟨fun _ => refused, fun _ => ?_⟩
        simp only [ensures_bind, ensures_perform]
        intro choice added v done
        rw [ensures_ite]
        refine ⟨fun _ => refused, fun ran => ?_⟩
        have account := runExec_done done ran
        simp only [ensures_bind, ensures_perform]
        intro choice found v' done
        obtain ⟨rfl, known⟩ := getpwnam_done done
        rcases found with _ | pwd
        · exact refused
        · have same : v'.account username = some pwd := (known.resolve_left (by simp)).symm
          rw [account] at same
          cases same
          exact createHome_ensures _ valid account (made username)
      · dsimp only
        rw [ensures_ite]
        refine ⟨fun _ => refused, fun own => ?_⟩
        have account := (known.resolve_left (by simp)).symm
        exact createHome_ensures _ valid account (by simpa using own)
  exact all log _ t ran rfl

end created

section login

def homePathOf (root username : CStr) : CStr := stripSlashes root ++ cstr "/" ++ username

def failedCall : (c : Call) → c.Reply → Bool
  | .alloc _, allocated => !allocated
  | .user (.seteuid _), r | .user (.setegid _), r | .file (.mkfifo _ _), r | .file (.chown _ _ _), r
  | .file (.chdir _), r => !r.isOk
  | .file (.openPath _ _ _), r => !r.isOk
  | _, _ => false

/-- A login on accounts and directories that have not changed. It is refused only after a call has
failed, and enters the session under the whole name. -/
def unchanged (users : Users) (root username : CStr) : Typestate Call.Reply Bool where
  allowed
    | failed, .socket (.sendPacket code _) => code = RSP_ERR → failed = true
    | _, .shared (.sessionAdd user _) => usernameField user = username
    | _, _ => True
  expects
    | _, .user (.getpwnam name), r => r = users.account name
    | _, .file (.realpath path), r =>
      path = homeDirPath root username → users.home path ≠ none →
        r = .ok (homePathOf root username) ∧ (homePathOf root username).length < PATH_MAX
    | _, .file (.stat path), r =>
      path = homePathOf root username → users.home (homeDirPath root username) ≠ none →
        statIsDir r = true
    | _, _, _ => True
  next failed c r := failed || failedCall c r

variable {session : Session} {users : Users}

theorem plain_of_valid (valid : validateUsername username = none) :
    3 ≤ username.length ∧ username.length ≤ 32 ∧ (∃ c rest, username = c :: rest ∧ isalpha c = true) ∧
      ∀ c ∈ username, (isalnum c || c = 95 || c = 45) = true := by
  unfold validateUsername at valid
  split_ifs at valid with length first others
  push Not at length
  refine ⟨length.1, length.2, ?_, ?_⟩
  · cases username with
    | nil => simp at first
    | cons c rest => exact ⟨c, rest, rfl, by simpa using first⟩
  · have all : username.all (fun ch => isalnum ch || ch = 95 || ch = 45) = true := by
      simpa only [Bool.not_eq_true', Bool.not_eq_false] using others
    exact List.all_eq_true.mp all

theorem parseLine_login (valid : validateUsername username = none) :
    parseLine (cstr "login " ++ username) = .ok { code := .login, argc := 1, buf := username } := by
  obtain ⟨-, short, ⟨c, rest, same, letter⟩, others⟩ := plain_of_valid valid
  have some : username ≠ [] := by simp [same]
  have plain : (32 : UInt8) ∉ username := fun space => absurd (others _ space) (by decide)
  let row : CommandRow := ⟨cstr "login", .login, Option.some 1, cstr "login <username>"⟩
  have mem : row ∈ CMDS := List.mem_of_getElem? (i := 8) rfl
  have split : tokens 32 [] (cstr "login " ++ username) = [row.name, username] := by
    have joined : cstr "login " ++ username = cstr "login" ++ 32 :: username := rfl
    rw [joined, tokens_append, tokens_name plain some]
    rfl
  have argument : isOption username = false := by
    refine decide_eq_false fun dash => ?_
    rw [same, List.head?_cons, Option.some.injEq] at dash
    rw [dash] at letter
    cases letter
  have alone : positional [username] = [username] := by simp [positional, argument]
  refine parseLine_eq_ok.mpr ⟨row, mem, [username], split, ?_, ?_, ?_, ?_⟩
  · intro token here option
    rw [List.mem_singleton.mp here, argument] at option
    cases option
  · rw [alone]
    exact Nat.le_succ 1
  · rw [alone]
    rfl
  · have fits : snprintf PATH_MAX username = username :=
      snprintf_eq_self (short.trans_lt (by decide))
    simp [Cmd.take, argument, fits, row]

@[reducible] def Unjudged : Call → Prop
  | .socket (.sendPacket _ _) => False
  | .shared (.sessionAdd _ _) => False
  | _ => True

instance unjudged_judged : Judged Unjudged :=
  .avoiding [.sendPacket, .sessionAdd] <| by
    rintro (c | c | c | c | c | c) <;> cases c <;> simp

theorem unjudged_allowed (g : Bool) (c : Call) (h : Unjudged c) :
    (unchanged users root username).allowed g c := by
  cases c with
  | socket c =>
    cases c with
    | sendPacket code payload => exact absurd h id
    | _ => trivial
  | shared c =>
    cases c with
    | sessionAdd user pid => exact absurd h id
    | _ => trivial
  | _ => trivial

theorem wp_unjudged {α : Type} {p : Sys α} {Q : α → Bool → Prop} {g : Bool} (h : p.Calls Unjudged)
    (hQ : ∀ a g, Q a g) : wp (unchanged users root username) p Q g :=
  h.wp_free unjudged_allowed hQ

theorem wp_sendPacket {code : UInt8} {payload : CStr} {g : Bool} {Q : Int → Bool → Prop}
    (may : code = RSP_ERR → g = true) (hQ : ∀ r g, Q r g) :
    wp (unchanged users root username) (sendPacket code payload) Q g := by
  unfold sendPacket
  rw [wp_ite]
  exact ⟨fun _ => hQ _ _, fun _ => ⟨may, fun r _ => hQ r _⟩⟩

theorem wp_failWith {err : Errno} {reason : CStr} {Q : Unit → Bool → Prop} (hQ : Q () true) :
    wp (unchanged users root username) (failWith err reason) Q true := by
  refine wp_bind.mpr (wp_call trivial fun allocated _ => ?_)
  cases allocated with
  | false => exact hQ
  | true =>
    unfold sendPacket
    rw [if_pos rfl, wp_ite]
    exact ⟨fun _ => hQ, fun _ => ⟨fun _ => rfl, fun _ _ => hQ⟩⟩

theorem wp_failing {α : Type} {p : Sys α} {Q : α → Bool → Prop} (h : p.Calls Unjudged)
    (hQ : ∀ a, Q a true) : wp (unchanged users root username) p Q true :=
  h.wp (fun c unjudged => ⟨unjudged_allowed true c unjudged, fun _ => rfl⟩) hQ

/-- How a login ends: refused after a failure, or under the whole name. -/
def LoginEnds (root username : CStr) (r : Except CStr Unit × Session) (failed : Bool) : Prop :=
  match r with
  | (.error _, session) => failed = true ∧ session.loggedIn = false
  | (.ok (), session) => session.loggedIn = true ∧ session.user = username ∧
      session.homePath = homePathOf root username

theorem wp_loginFailed_unchanged {nFd : Int} {fifoName msg : CStr} :
    wp (unchanged users root username) (loginFailed server session nFd fifoName msg)
      (LoginEnds root username) true := by
  refine wp_bind.mpr (wp_failing (calls_within rfl) fun _ => ?_)
  refine wp_bind.mpr (wp_failing (calls_within rfl) fun _ => ?_)
  refine wp_bind.mpr (wp_failing (calls_within rfl) fun euid => ?_)
  exact wp_bind.mpr (wp_failing (calls_within rfl) fun _ => ⟨rfl, rfl⟩)

theorem insideRoot_home (root username : CStr) :
    insideRoot (stripSlashes root) (homePathOf root username) = true := by
  simp [insideRoot, homePathOf, cstr]

theorem wp_handleLogin_unchanged (created : Created server session.rootPath username users)
    (out : session.loggedIn = false) (fits : session.rootPath.length < PATH_MAX)
    (short : username.length ≤ 31) : wp (unchanged users session.rootPath username)
      (handleLogin server session username) (LoginEnds session.rootPath username) false := by
  obtain ⟨pwd, account, own⟩ := created.account
  have whole : username.take 32 = username := List.take_of_length_le (by omega)
  have named : snprintf 32 username = username := snprintf_eq_self (by omega)
  unfold handleLogin
  refine wp_call trivial fun found known => ?_
  cases known.trans account
  dsimp only
  rw [own, if_neg (by simp)]
  have asked : snprintf (PATH_MAX + 64) (session.rootPath ++ cstr "/" ++ username.take 32) =
      homeDirPath session.rootPath username := by rw [whole, homeDirPath]
  simp only [asked]
  refine wp_bind.mpr (wp_call trivial fun resolved known => ?_)
  obtain ⟨rfl, small⟩ := known rfl created.home
  dsimp only
  rw [snprintf_eq_self fits, if_pos (insideRoot_home _ _), wp_pure]
  refine wp_call trivial fun st known => ?_
  rw [known rfl created.home, if_neg (by simp)]
  refine wp_call trivial fun raised _ => ?_
  rcases raised with e | ⟨⟩
  · exact ⟨rfl, out⟩
  refine wp_call trivial fun _ _ => ?_
  refine wp_call trivial fun fifo _ => ?_
  rcases fifo with e | ⟨⟩
  · exact wp_loginFailed_unchanged
  refine wp_call trivial fun opened _ => ?_
  rcases opened with e | nFd
  · exact wp_loginFailed_unchanged
  refine wp_call trivial fun owned _ => ?_
  rcases owned with e | ⟨⟩
  · exact wp_loginFailed_unchanged
  refine wp_call trivial fun owned _ => ?_
  rcases owned with e | ⟨⟩
  · exact wp_loginFailed_unchanged
  refine wp_call trivial fun entered _ => ?_
  rcases entered with e | ⟨⟩
  · exact wp_loginFailed_unchanged
  refine wp_call trivial fun group _ => ?_
  rcases group with e | ⟨⟩
  · exact wp_loginFailed_unchanged
  refine wp_call trivial fun switched _ => ?_
  rcases switched with e | ⟨⟩
  · exact wp_loginFailed_unchanged
  · exact ⟨rfl, named, snprintf_eq_self small⟩

def loginPacket (username : CStr) : Network.Packet :=
  { command := Command.login.code, payload := cstr "login " ++ username }

theorem payloadText_login (valid : validateUsername username = none) :
    payloadText (loginPacket username).payload = some (cstr "login " ++ username) := by
  obtain ⟨-, -, -, others⟩ := plain_of_valid valid
  have text : ∀ c ∈ cstr "login " ++ username, decide (c ≠ 0) = true := by
    intro c hc
    refine decide_eq_true ?_
    rintro rfl
    rcases List.mem_append.mp hc with command | name
    · revert command
      decide
    · exact absurd (others _ name) (by decide)
  have whole := List.takeWhile_eq_self_iff.mpr text
  rw [payloadText, loginPacket, if_neg (by simp [cstr]), whole]

/-- The session is the user's under the whole name, unless a call has failed. -/
structure Entered (root username : CStr) (session : Session) (failed : Bool) : Prop where
  login : failed = false → session.loggedIn = true
  user : session.loggedIn = true → session.user = username
  home : session.loggedIn = true → session.homePath = homePathOf root username

theorem wp_dispatch_login (created : Created server session.rootPath username users)
    (out : session.loggedIn = false) (fits : session.rootPath.length < PATH_MAX)
    (short : username.length ≤ 31) : wp (unchanged users session.rootPath username)
      (dispatch server session (loginPacket username))
      (fun after failed => Entered session.rootPath username after failed) false := by
  have refused : ∀ {after : Session}, after.loggedIn = false →
      Entered session.rootPath username after true := by
    intro after out
    refine ⟨fun fine => (by cases fine), fun login => ?_, fun login => ?_⟩ <;>
    · rw [out] at login
      cases login
  unfold dispatch
  simp only [payloadText_login created.valid]
  rw [loginPacket, Command.ofCode_code, if_pos rfl]
  refine wp_bind.mpr (wp_bind.mpr (wp_call trivial fun copied _ => ?_))
  cases copied with
  | false => exact wp_bind.mpr (wp_failWith (refused out))
  | true =>
    simp only [if_true, parseLine_login created.valid]
    simp only [wp_pure]
    rw [if_neg (by simp [out]), if_neg (by omega)]
    refine wp_bind.mpr (wp_mono (wp_handleLogin_unchanged created out fits short) ?_)
    rintro ⟨r, session'⟩ failed ended
    rcases r with msg | ⟨⟩
    · obtain ⟨rfl, out'⟩ := ended
      exact wp_bind.mpr (wp_failWith (refused out'))
    · obtain ⟨login, user, home⟩ := ended
      have stored : usernameField username = username := snprintf_eq_self (by omega)
      refine wp_bind.mpr (wp_bind.mpr (wp_sendPacket (fun same => absurd same (by decide)) ?_))
      intro _ _
      refine wp_call (by rw [user]; exact stored) fun _ _ => ?_
      refine wp_call trivial fun found _ => ?_
      refine wp_bind.mpr (wp_unjudged (calls_within rfl) fun _ _ => ?_)
      exact ⟨fun _ => login, fun _ => user, fun _ => home⟩

variable (root server users) in
theorem login_refused (valid : validateUsername username = none) (out : session.loggedIn = false)
    (long : 31 < username.length) : ∃ payload, Makes (unchanged users root username)
      (dispatch server session (loginPacket username)) false
      (.socket (.sendPacket RSP_ERR payload)) false := by
  refine ⟨errPayload EINVAL.code (cstr "Username too long"), ?_⟩
  unfold dispatch
  simp only [payloadText_login valid]
  rw [loginPacket, Command.ofCode_code, if_pos rfl]
  refine .later (r := true) trivial ?_
  simp only [parseLine_login valid]
  change Makes _ (ite (session.loggedIn = true) _ (ite (31 < username.length) _ _)) _ _ _
  rw [if_neg (by simp [out]), if_pos long]
  refine .later (r := true) trivial ?_
  have small : ¬ Network.MAX_PAYLOAD_SIZE <
      (errPayload EINVAL.code (cstr "Username too long")).length := by decide +kernel
  simp only [sendPacket, if_neg small]
  exact .here _ _ _

/-- A user that `create_user` has made can log in just if one byte is left for the end of the name in
the session's record. -/
theorem created_user_logs_in_iff (made : ∀ name, isCsapUser server (adduser.passwd name) = true)
    (created : Returns (userSystem adduser)
      (handleCreateUser server username perms session.rootPath) s log (.ok ()) t)
    (out : session.loggedIn = false) (fits : session.rootPath.length < PATH_MAX) :
    ((∀ c failed, Makes (unchanged t session.rootPath username)
        (dispatch server session (loginPacket username)) false c failed →
        (unchanged t session.rootPath username).allowed failed c) ∧
      ∀ after failed, Ends (unchanged t session.rootPath username)
        (dispatch server session (loginPacket username)) false after failed →
        Entered session.rootPath username after failed) ↔ username.length ≤ 31 := by
  have whole := created_of_returns made created
  constructor
  · rintro ⟨judged, -⟩
    by_contra long
    obtain ⟨payload, refused⟩ := login_refused server session.rootPath t
      whole.valid out (not_le.mp long)
    cases judged _ _ refused rfl
  · intro short
    have login := wp_dispatch_login whole out fits short
    exact ⟨fun c failed makes => makes.of_wp login, fun after failed ends => ends.of_wp login⟩

theorem created_user_logs_in_marco : ∃ log t, Returns (userSystem addsUsers)
      (handleCreateUser accountServer (cstr "marco") 0o750 (cstr "/srv")) unpopulated log (.ok ()) t ∧
    (∀ c failed, Makes (unchanged t (cstr "/srv") (cstr "marco"))
      (dispatch accountServer { rootPath := cstr "/srv" } (loginPacket (cstr "marco"))) false c failed →
      (unchanged t (cstr "/srv") (cstr "marco")).allowed failed c) ∧
    ∀ after failed, Ends (unchanged t (cstr "/srv") (cstr "marco"))
      (dispatch accountServer { rootPath := cstr "/srv" } (loginPacket (cstr "marco"))) false after failed →
      Entered (cstr "/srv") (cstr "marco") after failed := by
  have succeeds : (execute (userSystem addsUsers) (fun _ _ => none) 20
      (handleCreateUser accountServer (cstr "marco") 0o750 (cstr "/srv")) unpopulated).any
      (fun r => decide (r.2.1 = .ok ())) = true := by
    decide +kernel
  obtain ⟨log, r, t, ran, rfl⟩ := exists_of_execute 20 (fun _ (r : Except CStr Unit) _ => r = .ok ())
    succeeds
  let session : Session := { rootPath := cstr "/srv" }
  have logsIn : (cstr "marco").length ≤ 31 := by decide
  exact ⟨log, t, ran, (@created_user_logs_in_iff _ _ _ _ _ _ _ session
    (fun _ => rfl) ran rfl (by decide)).mpr logsIn⟩

/-- A name of 32 letters is created, and refused at the login. -/
theorem longest_name_refused : ¬ ∀ {server : Server} {adduser : Adduser} {username : CStr} {perms : Nat}
    {s t : Users} {log : History Call.Reply Users (Option Errno)} {session : Session},
    (∀ name, isCsapUser server (adduser.passwd name) = true) →
    Returns (userSystem adduser) (handleCreateUser server username perms session.rootPath) s log
      (.ok ()) t →
    session.loggedIn = false → session.rootPath.length < PATH_MAX →
    ∀ c failed, Makes (unchanged t session.rootPath username)
      (dispatch server session (loginPacket username)) false c failed →
      (unchanged t session.rootPath username).allowed failed c := by
  intro all
  let name : CStr := List.replicate 32 97
  have succeeds : (execute (userSystem addsUsers) (fun _ _ => none) 20
      (handleCreateUser accountServer name 0o750 (cstr "/srv")) unpopulated).any
      (fun r => decide (r.2.1 = .ok ())) = true := by
    decide +kernel
  obtain ⟨log, r, t, ran, rfl⟩ := exists_of_execute 20 (fun _ (r : Except CStr Unit) _ => r = .ok ())
    succeeds
  let session : Session := { rootPath := cstr "/srv" }
  have valid : validateUsername name = none := by decide
  have long : 31 < name.length := by decide
  obtain ⟨payload, refused⟩ := @login_refused accountServer session.rootPath name session t valid rfl long
  have allowed := @all _ _ _ _ _ _ _ session (fun _ => rfl) ran rfl (by decide) _ _ refused
  cases allowed rfl

end login

end Csap
