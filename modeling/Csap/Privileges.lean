import Csap.Runs
import Csap.ServerRuns

/-! The effective user of a session process. It is root's while a login, a new
user or the source of an accepted request is being dealt with, and the session's
own otherwise. -/

namespace Csap

open Prog

/-- Calls that leave the user of the process and its directory alone, and take no packet. -/
@[reducible] def Plain : Call → Prop
  | .file (.chdir _) => False
  | .user (.seteuid _) | .user (.setegid _) => False
  | .socket .recvPacket => False
  | _ => True

instance plain_judged : Judged Plain :=
  .avoiding ([.chdir, .seteuid, .setegid, .recvPacket]) <| by
    rintro (c | c | c | c | c | c) <;> cases c <;> simp

/-- What the system knows of a session process: its effective user, the command it took last, and
whether it has just entered a directory as root, as `handle_login` does before it takes the user's
identity. -/
structure Identity where
  euid : Int
  command : Option Command := none
  switching : Bool := false
deriving DecidableEq, Repr

/-- The one open of `execute_transfer_copy` and what `create_user` does to the new home. -/
def Exempt (g : Identity) : FileCall → Prop
  | .openPath _ flags _ => flags = { access := .rdonly, nofollow := true }
  | .mkdir _ _ | .chown _ _ _ | .chmod _ _ => g.command = some .createUser
  | _ => False

/-- Files are touched as `user`, if that is given. Root's privileges can be refused; they can always
be given up, except by `handle_login` for those of the user it was asked for. -/
def identity (user : Option Int) : Typestate Call.Reply Identity where
  allowed
    | g, .file c => ∀ uid, user = some uid → g.euid = uid ∨ Exempt g c
    | _, _ => True
  expects
    | g, .user .geteuid, euid => euid = g.euid
    | g, .user (.seteuid uid), r => g.switching = false → uid ≠ 0 → r = .ok ()
    | g, .user (.setegid _), r => g.switching = false → r = .ok ()
    | _, _, _ => True
  next
    | g, .user (.seteuid uid), .ok () => { g with euid := uid, switching := false }
    | g, .user (.seteuid _), .error _ => { g with switching := false }
    | g, .user (.setegid _), .error _ => { g with switching := false }
    | g, .file (.chdir _), .ok () => { g with switching := g.euid = 0 }
    | g, .socket .recvPacket, some packet =>
      { g with command := Command.ofCode packet.command }
    | g, _, _ => g

section privileges

variable {user : Option Int} {g : Identity}

def Identity.Acts (user : Option Int) (g : Identity) : Prop := ∀ uid, user = some uid → g.euid = uid

theorem Identity.Acts.file (acts : g.Acts user) (c : FileCall) :
    (identity user).allowed g (.file c) :=
  fun uid same => .inl (acts uid same)

theorem plain_neutral (acts : g.Acts user) (c : Call) (h : Plain c) :
    (identity user).allowed g c ∧ ∀ r, (identity user).next g c r = g := by
  cases c with
  | file c =>
    refine ⟨acts.file c, ?_⟩
    cases c with
    | chdir path => exact absurd h id
    | _ => exact fun _ => rfl
  | user c =>
    refine ⟨trivial, ?_⟩
    cases c with
    | seteuid uid => exact absurd h id
    | setegid gid => exact absurd h id
    | _ => exact fun _ => rfl
  | socket c =>
    refine ⟨trivial, ?_⟩
    cases c with
    | recvPacket => exact absurd h id
    | _ => exact fun _ => rfl
  | _ => exact ⟨trivial, fun _ => rfl⟩

theorem wp_plain {α : Type} {p : Sys α} {Q : α → Identity → Prop} (h : p.Calls Plain)
    (acts : g.Acts user) (hQ : ∀ a, Q a g) : wp (identity user) p Q g :=
  h.wp (plain_neutral acts) hQ

theorem wp_raise {α : Type} {k : SysResult Unit → Sys α} {Q : α → Identity → Prop}
    (steady : g.switching = false) (failed : ∀ e, wp (identity user) (k (.error e)) Q g)
    (raised : wp (identity user) (k (.ok ())) Q { g with euid := 0 }) :
    wp (identity user) (userCall (.seteuid 0) >>= k) Q g := by
  obtain ⟨euid, command, switching⟩ := g
  cases steady
  refine wp_call trivial fun r _ => ?_
  rcases r with e | ⟨⟩
  · exact failed e
  · exact raised

theorem wp_lower {α : Type} {k : SysResult Unit → Sys α} {Q : α → Identity → Prop} {uid : Int}
    (steady : g.switching = false) (root : g.euid = 0)
    (next : ∀ r, wp (identity user) (k r) Q { g with euid := uid }) :
    wp (identity user) (userCall (.seteuid uid) >>= k) Q g := by
  obtain ⟨euid, command, switching⟩ := g
  cases steady
  cases root
  refine wp_call trivial fun r expected => ?_
  rcases r with e | ⟨⟩
  · have zero : uid = 0 := by
      by_contra other
      cases expected rfl other
    have done := next (.error e)
    rw [zero] at done
    exact done
  · exact next (.ok ())

theorem wp_dropPrivileges {server : Server} {Q : SysResult Unit → Identity → Prop}
    (steady : g.switching = false) (root : g.euid = 0)
    (hQ : ∀ r, Q r { g with euid := server.unprivUid }) :
    wp (identity user) (dropPrivileges server) Q g := by
  unfold dropPrivileges
  refine wp_call trivial fun euid same => ?_
  have zero : euid = 0 := same.trans root
  rw [if_neg (not_not.mpr zero)]
  refine wp_call trivial fun r expected => ?_
  cases expected steady
  refine wp_lower steady root fun r => ?_
  rcases r with e | ⟨⟩
  · refine wp_call trivial fun r expected => ?_
    cases expected steady
    exact hQ _
  · exact hQ _

theorem allowed_none (g : Identity) (c : Call) : (identity none).allowed g c := by
  cases c with
  | file c => exact fun _ same => by cases same
  | _ => trivial

theorem wp_loginFailed {server : Server} {session : Session} {nFd : Int} {fifoName msg : CStr}
    {Q : Except CStr Unit × Session → Identity → Prop} (steady : g.switching = false)
    (root : g.euid = 0)
    (hQ : Q (errText 255 msg, { session with notifyFd := -1, loggedIn := false })
      { g with euid := server.unprivUid }) :
    wp (identity none) (loginFailed server session nFd fifoName msg) Q g := by
  unfold loginFailed
  refine wp_bind.mpr (wp_plain (calls_within rfl) nofun fun _ => ?_)
  refine wp_call (allowed_none _ _) fun _ _ => wp_call (allowed_none _ _) fun euid same => ?_
  have zero : euid = 0 := same.trans root
  rw [wp_bind, wp_when]
  refine ⟨fun _ => ?_, fun other => absurd zero other⟩
  exact wp_bind.mpr (wp_dropPrivileges steady root fun _ => hQ)

/-- The user a login ends with, or the one it began with. -/
structure Lowered (server : Server) (session : Session) (g : Identity) : Prop where
  euid : g.euid = if session.loggedIn then session.uid else server.unprivUid
  user : session.loggedIn = true → session.uid ≠ 0
  steady : g.switching = false

theorem isCsapUser_uid {server : Server} {pwd : Passwd} (h : isCsapUser server pwd = true) :
    pwd.uid ≠ 0 := by
  unfold isCsapUser at h
  split_ifs at h with system
  omega

theorem wp_handleLogin {server : Server} {session : Session} {username : CStr}
    (out : session.loggedIn = false) (h : Lowered server session g) :
    wp (identity none) (handleLogin server session username)
      (fun r g => Lowered server r.2 g ∧ (r.1.isOk = false → r.2.loggedIn = false)) g := by
  have euid : g.euid = server.unprivUid := by
    rw [h.euid, out]
    rfl
  have stays : ∀ msg, Lowered server session g ∧
      ((errText 255 msg).isOk = false → session.loggedIn = false) := fun _ => ⟨h, fun _ => out⟩
  have fails : ∀ {nFd : Int} {fifoName msg : CStr} {g' : Identity}, g'.switching = false →
      g'.euid = 0 → wp (identity none) (loginFailed server session nFd fifoName msg)
        (fun r g => Lowered server r.2 g ∧ (r.1.isOk = false → r.2.loggedIn = false)) g' := by
    intro nFd fifoName msg g' steady root
    exact wp_loginFailed steady root ⟨⟨rfl, nofun, steady⟩, fun _ => rfl⟩
  unfold handleLogin
  refine wp_call (allowed_none _ _) fun pwd _ => ?_
  rcases pwd with _ | pwd
  · exact stays _
  dsimp only
  split
  · exact stays _
  rename_i csap
  refine wp_bind.mpr (wp_plain (calls_within rfl) nofun fun resolved => ?_)
  rcases resolved with e | resolvedHome
  · exact stays _
  refine wp_call (allowed_none _ _) fun st _ => ?_
  split
  · exact stays _
  refine wp_raise h.steady (fun _ => stays _) ?_
  refine wp_call (allowed_none _ _) fun _ _ => wp_call (allowed_none _ _) fun made _ => ?_
  rcases made with e | ⟨⟩
  · exact fails h.steady rfl
  refine wp_call (allowed_none _ _) fun opened _ => ?_
  rcases opened with e | nFd
  · exact fails h.steady rfl
  refine wp_call (allowed_none _ _) fun owned _ => ?_
  rcases owned with e | ⟨⟩
  · exact fails h.steady rfl
  refine wp_call (allowed_none _ _) fun owned _ => ?_
  rcases owned with e | ⟨⟩
  · exact fails h.steady rfl
  refine wp_call (allowed_none _ _) fun entered _ => ?_
  rcases entered with e | ⟨⟩
  · exact fails h.steady rfl
  refine wp_call (allowed_none _ _) fun gid _ => ?_
  rcases gid with e | ⟨⟩
  · exact fails rfl rfl
  refine wp_call (allowed_none _ _) fun uid _ => ?_
  rcases uid with e | ⟨⟩
  · exact fails rfl rfl
  · have valid : pwd.uid ≠ 0 := isCsapUser_uid (by simpa using csap)
    exact ⟨⟨rfl, fun _ => valid, rfl⟩, nofun⟩

def actor (session : Session) : Option Int := if session.loggedIn then some session.uid else none

variable {server : Server} {session : Session} {payload : Option CStr}

theorem Lowered.acts (h : Lowered server session g) : g.Acts (actor session) := by
  intro uid same
  unfold actor at same
  split at same
  · rename_i loggedIn
    cases same
    rw [h.euid, if_pos loggedIn]
  · cases same

/-- What a round leaves behind: the identity its session ends with, and still the right one for the
user it works for. -/
structure Kept (server : Server) (session next : Session) (g : Identity) : Prop extends
    Lowered server next g where
  acts : g.Acts (actor session)

theorem Lowered.kept (h : Lowered server session g) : Kept server session session g :=
  ⟨h, h.acts⟩

theorem wp_dispatchLogin (h : Lowered server session g) :
    wp (identity (actor session)) (dispatchLogin server session payload) (Kept server session) g := by
  unfold dispatchLogin
  refine wp_bind.mpr (wp_plain (calls_within rfl) h.acts fun parsed => ?_)
  rcases parsed with _ | loginCommand
  · exact h.kept
  dsimp only
  split
  · exact wp_bind.mpr (wp_plain (calls_within rfl) h.acts fun _ => h.kept)
  rename_i out
  have out : session.loggedIn = false := by simpa using out
  split
  · exact wp_bind.mpr (wp_plain (calls_within rfl) h.acts fun _ => h.kept)
  have nobody : actor session = none := by simp [actor, out]
  have kept : ∀ {s : Session} {g : Identity}, Lowered server s g → Kept server session s g :=
    fun lowered => ⟨lowered, by rw [nobody]; nofun⟩
  rw [nobody]
  refine wp_bind.mpr (wp_mono (wp_handleLogin out h) ?_)
  rintro ⟨result, session'⟩ g' ⟨lowered, loggedOut⟩
  rcases result with msg | ⟨⟩
  · exact wp_bind.mpr (wp_plain (calls_within rfl) nofun fun _ => kept lowered)
  · refine wp_bind.mpr (wp_plain (calls_within rfl) nofun fun _ => ?_)
    refine wp_call trivial fun _ _ => wp_call trivial fun requests _ => ?_
    exact wp_bind.mpr (wp_plain (calls_within rfl) nofun fun _ => kept lowered)

theorem wp_createHomeDirectory {root username : CStr} {perms : Nat} {pwd : Passwd}
    {Q : Except CStr Unit → Identity → Prop} (creates : g.command = some .createUser)
    (hQ : ∀ r, Q r g) :
    wp (identity user) (createHomeDirectory server root username perms pwd) Q g := by
  unfold createHomeDirectory
  refine wp_call (fun _ _ => .inr creates) fun made _ => ?_
  rcases made with e | ⟨⟩
  · dsimp only
    split <;> exact hQ _
  refine wp_call (fun _ _ => .inr creates) fun owned _ => ?_
  rcases owned with e | ⟨⟩
  · exact hQ _
  refine wp_call (fun _ _ => .inr creates) fun changed _ => ?_
  rcases changed with e | ⟨⟩ <;> exact hQ _

theorem wp_handleCreateUser {username root : CStr} {perms : Nat}
    {Q : Except CStr Unit → Identity → Prop} (steady : g.switching = false)
    (creates : g.command = some .createUser) (hQ : ∀ r, Q r g) :
    wp (identity user) (handleCreateUser server username perms root) Q g := by
  have restores : ∀ rc, wp (identity user) (restoreEuid server g.euid rc) Q { g with euid := 0 } := by
    intro rc
    refine wp_lower steady rfl fun r => ?_
    rcases r with e | ⟨⟩ <;> exact hQ _
  unfold handleCreateUser
  refine wp_call trivial fun euid same => ?_
  obtain rfl : euid = g.euid := same
  split
  · exact hQ _
  split
  · exact hQ _
  refine wp_raise steady (fun _ => hQ _) ?_
  refine wp_call trivial fun found _ => ?_
  rcases found with _ | pwd
  · refine wp_call trivial fun euid _ => ?_
    split
    · exact restores _
    refine wp_call trivial fun added _ => ?_
    split
    · exact restores _
    refine wp_call trivial fun found _ => ?_
    rcases found with _ | pwd
    · exact restores _
    · exact wp_bind.mpr (wp_createHomeDirectory creates fun _ => restores _)
  · dsimp only
    split
    · exact restores _
    · exact wp_bind.mpr (wp_createHomeDirectory creates fun _ => restores _)

theorem wp_dispatchCreateUser (h : Lowered server session g)
    (creates : g.command = some .createUser) :
    wp (identity (actor session)) (dispatchCreateUser server session payload)
      (fun _ => Lowered server session) g := by
  unfold dispatchCreateUser
  refine wp_bind.mpr (wp_plain (calls_within rfl) h.acts fun parsed => ?_)
  rcases parsed with _ | cuCommand
  · exact h
  dsimp only
  split
  · exact wp_bind.mpr (wp_plain (calls_within rfl) h.acts fun _ => h)
  refine wp_bind.mpr (wp_plain (calls_within rfl) h.acts fun perms => ?_)
  rcases perms with _ | perms
  · exact h
  refine wp_bind.mpr (wp_handleCreateUser h.steady creates fun r => ?_)
  rcases r with msg | ⟨⟩
  · exact wp_plain (calls_within rfl) h.acts fun _ => h
  · exact wp_plain (calls_within rfl) h.acts fun _ => h

theorem wp_executeTransferCopy {src dest : CStr} {Q : SysResult Unit → Identity → Prop}
    (steady : g.switching = false) (acts : g.Acts user) (hQ : ∀ r, Q r g) :
    wp (identity user) (executeTransferCopy src dest) Q g := by
  unfold executeTransferCopy
  refine wp_call trivial fun _ _ => wp_call trivial fun euid same => ?_
  obtain rfl : euid = g.euid := same
  refine wp_raise steady (fun _ => hQ _) ?_
  refine wp_call (fun _ _ => .inr rfl) fun opened _ => ?_
  refine wp_lower steady rfl fun r => ?_
  refine wp_plain ?_ acts hQ
  unfold releaseLock
  repeat' with_reducible first
    | exact calls_within rfl
    | refine Calls.iterate fun _ => ?_
    | refine Calls.bind ?_ fun _ => ?_
    | split

theorem wp_dispatchAccept (h : Lowered server session g) :
    wp (identity (actor session)) (dispatchAccept session payload)
      (fun _ => Lowered server session) g := by
  unfold dispatchAccept
  refine wp_bind.mpr (wp_plain (calls_within rfl) h.acts fun parsed => ?_)
  rcases parsed with _ | acceptCommand
  · exact h
  dsimp only
  split
  · exact wp_bind.mpr (wp_plain (calls_within rfl) h.acts fun _ => h)
  refine wp_bind.mpr (wp_plain (calls_within rfl) h.acts fun resolved => ?_)
  rcases resolved with _ | fullDestPath
  · exact h
  refine wp_bind.mpr (wp_plain (calls_within rfl) h.acts fun taken => ?_)
  rcases taken with _ | ⟨requestCopy, pid, online⟩
  · exact h
  unfold acceptCopy
  refine wp_bind.mpr (wp_executeTransferCopy h.steady h.acts fun copied => ?_)
  exact wp_plain (calls_within rfl) h.acts fun _ => h

theorem wp_dispatchCd (h : Lowered server session g) (loggedIn : session.loggedIn = true) :
    wp (identity (actor session)) (dispatchCd session payload)
      (fun _ => Lowered server session) g := by
  unfold dispatchCd cdCmd
  refine wp_bind.mpr (wp_plain (calls_within rfl) h.acts fun parsed => ?_)
  rcases parsed with _ | cdCommand
  · exact h
  refine wp_bind.mpr (wp_plain (calls_within rfl) h.acts fun resolved => ?_)
  rcases resolved with _ | fullPath
  · exact h
  have other : g.euid ≠ 0 := by
    rw [h.euid, if_pos loggedIn]
    exact h.user loggedIn
  refine wp_call (h.acts.file _) fun r _ => ?_
  rcases r with e | ⟨⟩
  · exact wp_plain (calls_within rfl) h.acts fun _ => h
  · have same : (identity (actor session)).next g (.file (.chdir fullPath)) (.ok ()) = g := by
      obtain ⟨euid, command, switching⟩ := g
      cases h.steady
      simpa [identity] using other
    rw [same]
    exact wp_plain (calls_within rfl) h.acts fun _ => h

theorem wp_dispatchLoggedIn (h : Lowered server session g) (loggedIn : session.loggedIn = true)
    {command : Option Command} :
    wp (identity (actor session)) (dispatchLoggedIn server session command payload)
      (fun _ => Lowered server session) g := by
  have alone : ∀ {p : Sys Unit}, p.Calls Plain → wp (identity (actor session)) p
      (fun _ => Lowered server session) g := fun calls => wp_plain calls h.acts fun _ => h
  unfold dispatchLoggedIn
  split
  · exact wp_dispatchAccept h
  · exact alone (calls_within rfl)
  · exact alone (calls_within rfl)
  · exact alone (calls_within rfl)
  · exact alone (calls_within rfl)
  · exact alone (calls_within rfl)
  · exact wp_dispatchCd h loggedIn
  · exact alone (calls_within rfl)
  · exact alone (calls_within rfl)
  · exact alone (calls_within rfl)
  · exact alone (calls_within rfl)
  · exact alone (calls_within rfl)
  · exact alone (calls_within rfl)
  · exact alone (calls_within rfl)

theorem wp_dispatch {packet : Network.Packet} (h : Lowered server session g)
    (took : g.command = Command.ofCode packet.command) :
    wp (identity (actor session)) (dispatch server session packet) (Kept server session) g := by
  unfold dispatch
  dsimp only
  split
  · exact wp_dispatchLogin h
  split
  · rename_i creates
    exact wp_bind.mpr (wp_mono (wp_dispatchCreateUser h (took.trans creates)) fun _ _ done => Lowered.kept done)
  split
  · exact wp_bind.mpr (wp_plain (calls_within rfl) h.acts fun _ => h.kept)
  · rename_i loggedIn
    have loggedIn : session.loggedIn = true := by simpa using loggedIn
    exact wp_bind.mpr (wp_mono (wp_dispatchLoggedIn h loggedIn) fun _ _ done => Lowered.kept done)

theorem Lowered.took (h : Lowered server session g) (packet : Network.Packet) :
    Lowered server session { g with command := Command.ofCode packet.command } :=
  ⟨h.euid, h.user, h.steady⟩

end privileges

def sessionRound (server : Server) (clientSocket : Int) (session : Session) :
    Sys (Session ⊕ Session) := do
  let readfds := clientSocket :: (if 0 ≤ session.notifyFd then [session.notifyFd] else [])
  match ← socketCall (.select readfds) with
  | .error e => if e = EINTR then return .inl session else return .inr session
  | .ok ready =>
  match ← (if clientSocket ∈ ready then receiveCommand server session
      else pure (some session)) with
  | none => return .inr session
  | some session =>
  if 0 ≤ session.notifyFd ∧ session.notifyFd ∈ ready then
    let stillOpen ← receiveNotification session
    if stillOpen then return .inl session else return .inr session
  return .inl session

/-- The loop of `handle_session` is made of these rounds. -/
theorem sessionLoop_eq (server : Server) (clientSocket : Int) (session : Session) :
    sessionLoop server clientSocket session =
      iterate session (sessionRound server clientSocket) := rfl

theorem wp_sessionRound {server : Server} {clientSocket : Int} {session : Session} {g : Identity}
    (h : Lowered server session g) :
    wp (identity (actor session)) (sessionRound server clientSocket session) (fun
      | .inl next => Lowered server next
      | .inr _ => fun _ => True) g := by
  unfold sessionRound
  refine wp_call trivial fun ready _ => ?_
  rcases ready with e | ready
  · dsimp only
    split
    · exact h
    · trivial
  have received : wp (identity (actor session)) (if clientSocket ∈ ready then
      receiveCommand server session else pure (some session)) (fun
        | none => fun _ => True
        | some next => Kept server session next) g := by
    split
    · refine wp_call trivial fun packet _ => ?_
      rcases packet with _ | packet
      · trivial
      · exact wp_bind.mpr (wp_dispatch (h.took packet) rfl)
    · exact h.kept
  refine wp_bind.mpr (wp_mono received ?_)
  rintro (_ | next) g' kept
  · trivial
  dsimp only
  split
  · refine wp_bind.mpr (wp_plain (calls_within rfl) kept.acts
      fun stillOpen => ?_)
    split
    · exact kept.toLowered
    · trivial
  · exact kept.toLowered

/-- A session process that has dropped its privileges is back in its loop as nobody or as its user,
who is not root, and touches files for its user as that user. -/
theorem privileges_kept (server : Server) (clientSocket : Int) {started g : Identity}
    {session : Session}
    (dropped : Ends (identity none) (dropPrivileges server) { euid := 0 } (.ok ()) started)
    (rounds : Rounds (identity none) (sessionRound server clientSocket)
      { rootPath := snprintf PATH_MAX server.rootDirectory } started session g) :
    g.euid = (if session.loggedIn then session.uid else server.unprivUid) ∧
    (server.unprivUid ≠ 0 → g.euid ≠ 0) ∧
    (session.loggedIn = true → g.euid ≠ 0 ∧ ∀ (c : FileCall) (g' : Identity),
      Makes (identity none) (sessionRound server clientSocket session) g (.file c) g' →
        g'.euid = session.uid ∨ Exempt g' c) := by
  have lowered : Lowered server session g := by
    induction rounds with
    | start =>
      have drops : wp (identity none) (dropPrivileges server)
          (fun _ g => g = { euid := server.unprivUid }) { euid := 0 } :=
        wp_dropPrivileges rfl rfl fun _ => rfl
      rw [dropped.of_wp drops]
      exact ⟨rfl, nofun, rfl⟩
    | round _ ends ih => exact (ends.judge (identity _).allowed).of_wp (wp_sessionRound ih)
  refine ⟨lowered.euid, fun some => ?_, fun loggedIn => ?_⟩
  · rw [lowered.euid]
    split
    · rename_i loggedIn
      exact lowered.user loggedIn
    · exact some
  · have euid : g.euid = session.uid := by rw [lowered.euid, if_pos loggedIn]
    refine ⟨euid ▸ lowered.user loggedIn, fun c g' makes => ?_⟩
    have actor_ : actor session = some session.uid := if_pos loggedIn
    have allowed := (makes.judge (identity (actor session)).allowed).of_wp (wp_sessionRound lowered)
    exact allowed _ actor_

section login

/-- A system that refuses nothing, to a client that asks with `packet`. -/
def granting (packet : Option Network.Packet) : Handler Call.Reply Identity Unit := fun c _ g =>
  let reply : (c : Call) → c.Reply
    | .user .geteuid => g.euid
    | c => (Sessions.calm (cstr "alice") packet).reply c
  some (reply c, (identity none).next g c (reply c))

theorem granting_sound (packet : Option Network.Packet) (c : Call) (choice : Unit) (g : Identity)
    (r : c.Reply) (g' : Identity) (done : granting packet c choice g = some (r, g')) :
    (identity none).expects g c r ∧ g' = (identity none).next g c r := by
  cases done
  refine ⟨?_, rfl⟩
  cases c with
  | user c =>
    cases c with
    | geteuid => rfl
    | seteuid uid => exact fun _ _ => rfl
    | setegid gid => exact fun _ => rfl
    | _ => trivial
  | _ => trivial

def aliceLoggedIn : Session where
  loggedIn := true
  user := cstr "alice"
  uid := 1001
  homePath := cstr "/srv/alice"
  rootPath := cstr "/srv"
  notifyFd := 7

theorem privileges_kept_alice : ({ euid := 1001, command := some .login } : Identity).euid ≠ 0 ∧
    ∀ (c : FileCall) (g' : Identity), Makes (identity none)
      (sessionRound Sessions.calmServer 4 aliceLoggedIn) { euid := 1001, command := some .login }
        (.file c) g' → g'.euid = 1001 ∨ Exempt g' c := by
  have dropped : (execute (granting none) (fun _ _ => ()) 10
      (dropPrivileges Sessions.calmServer) { euid := 0 }).any (fun r =>
        decide (r.2.1 = .ok () ∧ r.2.2 = { euid := 65534 })) = true := by
    decide +kernel
  have round : (execute (granting (Sessions.line .login "login alice")) (fun _ _ => ()) 60
      (sessionRound Sessions.calmServer 4 { rootPath := cstr "/srv" }) { euid := 65534 }).any (fun r =>
        decide (r.2.1 = .inl aliceLoggedIn ∧ r.2.2 = { euid := 1001, command := some .login })) =
      true := by
    decide +kernel
  obtain ⟨_, _, _, ran, rfl, rfl⟩ := exists_of_execute 10
    (fun _ (a : SysResult Unit) t => a = .ok () ∧ t = ({ euid := 65534 } : Identity)) dropped
  obtain ⟨_, _, _, ran', rfl, rfl⟩ := exists_of_execute 60
    (fun _ (a : Session ⊕ Session) t => a = .inl aliceLoggedIn ∧
      t = ({ euid := 1001, command := some .login } : Identity)) round
  obtain ⟨-, -, kept⟩ := privileges_kept Sessions.calmServer 4 (ran.ends (granting_sound _))
    (.round .start (ran'.ends (granting_sound _)))
  exact kept rfl

end login

end Csap
