import Csap.LocalCalls
import Csap.ServerRuns

/-! A login that fails: what `handle_login` changes of the process on its way, and what
its error exits undo. -/

namespace Csap.FailedLogins

open Prog

/-- The working directory, the effective user and group, the open descriptors and the fifos of
`.sessions`. -/
structure Process where
  cwd : CStr
  euid : Int
  egid : Int
  fds : Int → Bool
  fifos : CStr → Bool

/-- The process during `handle_login`: whether it has entered the user's home directory, whether it
is giving up root's privileges, and the directory it was in when it had entered the home and could
not take on the user's group or id. -/
structure Attempt extends Process where
  entered : Bool := false
  dropping : Bool := false
  late : Option CStr := none

/-- Descriptors and fifos are new when they are made, a fifo that is there can be unlinked, and root's
privileges can be given up. Anything else may fail. -/
def answers (g : Attempt) : (c : Call) → c.Reply → Bool
  | .user .geteuid, euid => euid = g.euid
  | .user (.seteuid _), .error _ | .user (.setegid _), .error _ => !g.dropping
  | .file (.openPath _ _ _), .ok fd => 0 ≤ fd && !g.fds fd
  | .file (.mkfifo path _), .ok _ => !g.fifos path
  | .file (.unlink path), .error _ => !g.fifos path
  | _, _ => true

def after (g : Attempt) : (c : Call) → c.Reply → Attempt
  | .user .geteuid, _ => { g with dropping := true }
  | .user (.seteuid uid), .ok _ => { g with euid := uid }
  | .user (.setegid gid), .ok _ => { g with egid := gid }
  | .user (.seteuid _), .error _ | .user (.setegid _), .error _ =>
    { g with late := if g.entered then some g.cwd else g.late }
  | .file (.openPath _ _ _), .ok fd => { g with fds := Function.update g.fds fd true }
  | .file (.close fd), _ => { g with fds := Function.update g.fds fd false }
  | .file (.mkfifo path _), .ok _ => { g with fifos := Function.update g.fifos path true }
  | .file (.unlink path), .ok _ => { g with fifos := Function.update g.fifos path false }
  | .file (.chdir path), .ok _ => { g with cwd := path, entered := true }
  | _, _ => g

def attempting : Typestate Call.Reply Attempt where
  allowed _ _ := True
  expects g c r := answers g c r = true
  next := after

/-- A session that is not logged in, in a process that has dropped its privileges. -/
structure Waiting (server : Server) (session : Session) (g : Attempt) : Prop where
  loggedOut : session.loggedIn = false
  unopened : session.notifyFd = -1
  euid_eq : g.euid = server.unprivUid
  egid_eq : g.egid = server.unprivGid
  unnamed : g.fifos (sessionFifoPath session.rootPath server.pid) = false
  entered : g.entered = false
  dropping : g.dropping = false
  late : g.late = none

section login

variable {server : Server} {session : Session} {g g' : Attempt} {username : CStr}

theorem update_back {K : Type} [DecidableEq K] {f : K → Bool} {k : K} (b : Bool) (absent : f k = false) :
    Function.update (Function.update f k b) k false = f := by
  rw [Function.update_idem, ← absent, Function.update_eq_self]

theorem wp_dropPrivileges {Q : SysResult Unit → Attempt → Prop} (root : g.euid = 0)
    (dropping : g.dropping = true)
    (hQ : Q (.ok ()) { g with euid := server.unprivUid, egid := server.unprivGid }) :
    wp attempting (dropPrivileges server) Q g := by
  refine wp_call trivial ?_
  intro euid same
  have zero : euid = 0 := (of_decide_eq_true same).trans root
  have still : attempting.next g (.user .geteuid) euid = g := by
    obtain ⟨process, entered, d, late⟩ := g
    change Attempt.mk process entered true late = _
    dsimp only at dropping
    rw [dropping]
  rw [still, zero]
  refine wp_call trivial ?_
  intro r may
  cases r with
  | error e =>
    have free : (!g.dropping) = true := may
    rw [dropping] at free
    cases free
  | ok _ =>
    refine wp_call trivial ?_
    intro r may
    cases r with
    | error e =>
      have free : (!g.dropping) = true := may
      rw [dropping] at free
      cases free
    | ok _ => exact hQ

theorem wp_loginFailed {nFd : Int} {fifoName msg : CStr} {b : Bool} (fds : Int → Bool)
    (fifos : CStr → Bool) {Q : Except CStr Unit × Session → Attempt → Prop}
    (root : g.euid = 0) (opened : 0 ≤ nFd → g.fds = Function.update fds nFd true ∧ fds nFd = false)
    (unopened : ¬ 0 ≤ nFd → g.fds = fds) (made : g.fifos = Function.update fifos fifoName b)
    (unnamed : fifos fifoName = false)
    (hQ : Q (errText 255 msg, { session with notifyFd := -1, loggedIn := false })
      { cwd := g.cwd, euid := server.unprivUid, egid := server.unprivGid, fds, fifos,
        entered := g.entered, dropping := true, late := g.late }) :
    wp attempting (loginFailed server session nFd fifoName msg) Q g := by
  have closed : ∀ {P : Unit → Attempt → Prop}, P () { g with fds := fds } →
      wp attempting (when (0 ≤ nFd) do let _ ← fileCall (.close nFd)) P g := by
    intro P hP
    rw [wp_when]
    constructor
    · intro positive
      obtain ⟨eq, absent⟩ := opened positive
      refine wp_call trivial ?_
      intro _ _
      have back : attempting.next g (.file (.close nFd)) = fun _ => { g with fds := fds } := by
        funext _
        change { g with fds := Function.update g.fds nFd false } = _
        rw [eq, update_back true absent]
      rw [back]
      exact hP
    · intro negative
      have same : g = { g with fds := fds } := by
        rw [← unopened negative]
      rw [same]
      exact hP
  refine wp_bind.mpr (closed ?_)
  refine wp_call trivial ?_
  intro r may
  have removed : attempting.next { g with fds := fds } (.file (.unlink fifoName)) r =
      { g with fds := fds, fifos := fifos } := by
    cases r with
    | error e =>
      have gone : g.fifos fifoName = false := by simpa [attempting, answers] using may
      have same : g.fifos = fifos := by
        rw [made, Function.update_self] at gone
        rw [made, gone, ← unnamed, Function.update_eq_self]
      change { g with fds := fds } = _
      rw [← same]
    | ok _ =>
      change { g with fds := fds, fifos := Function.update g.fifos fifoName false } = _
      rw [made, update_back b unnamed]
  rw [removed]
  refine wp_call trivial ?_
  intro euid same
  have zero : euid = 0 := (of_decide_eq_true same).trans root
  rw [zero, wp_bind, wp_when]
  refine ⟨fun _ => ?_, fun wrong => absurd rfl wrong⟩
  exact wp_bind.mpr (wp_dropPrivileges root rfl hQ)

@[reducible] def Resolves : Call → Prop
  | .file (.realpath _) | .alloc _ => True
  | _ => False

instance resolves_judged : Judged Resolves where
  admits
    | .realpath | .alloc => true
    | _ => false
  sound := by
    rintro (c | c | c | c | c | c) <;> cases c <;> simp

theorem wp_validatePath {path root : CStr} {Q : SysResult Unit × CStr → Attempt → Prop}
    (hQ : ∀ r, Q r g) : wp attempting (validatePath path root) Q g := by
  have calls : (validatePath path root).Calls Resolves := calls_within rfl
  refine calls.wp ?_ hQ
  intro c resolves
  refine ⟨trivial, ?_⟩
  intro r
  cases c with
  | file c =>
    cases c with
    | realpath path => rfl
    | _ => exact absurd resolves id
  | alloc size => rfl
  | _ => exact absurd resolves id

def Unchanged (session : Session) (g : Attempt) (r : Except CStr Unit × Session) (g' : Attempt) :
    Prop :=
  r.2 = session ∧ g'.toProcess = g.toProcess

/-- If the login fails, nothing has changed, unless the user's identity could not be taken on in
another directory. -/
def Outcome (session : Session) (g : Attempt) (r : Except CStr Unit × Session) (g' : Attempt) :
    Prop :=
  ∀ msg, r.1 = .error msg → (Unchanged session g r g' ↔ ∀ dir, g'.late = some dir → dir = g.cwd)

theorem outcome_unchanged {r : Except CStr Unit × Session} (same : Unchanged session g r g')
    (early : g'.late = none) : Outcome session g r g' := by
  intro msg _
  refine iff_of_true same ?_
  intro dir late
  rw [early] at late
  cases late

theorem Waiting.undone (waiting : Waiting server session g) {msg : CStr} {cwd : CStr}
    {entered dropping : Bool} {late : Option CStr} (where_ : late = some cwd ∨ late = none ∧ cwd = g.cwd) :
    Outcome session g (errText 255 msg, { session with notifyFd := -1, loggedIn := false })
      { cwd, euid := server.unprivUid, egid := server.unprivGid, fds := g.fds, fifos := g.fifos,
        entered, dropping, late } := by
  have session_eq : { session with notifyFd := -1, loggedIn := false } = session := by
    rw [← waiting.unopened, ← waiting.loggedOut]
  intro _ _
  unfold Unchanged
  dsimp only
  rw [session_eq]
  obtain ⟨⟨cwd₀, euid, egid, fds, fifos⟩, _, _, _⟩ := g
  have euid_eq := waiting.euid_eq
  have egid_eq := waiting.egid_eq
  dsimp only at euid_eq egid_eq where_
  rw [euid_eq, egid_eq]
  rcases where_ with rfl | ⟨rfl, rfl⟩
  · simp
  · simp

/-- A login of a session that waits for one, whatever fails in it. -/
theorem failed_login (waiting : Waiting server session g) :
    wp attempting (handleLogin server session username) (Outcome session g) g := by
  have kept : ∀ msg, Outcome session g (errText 255 msg, session) g := fun msg =>
    outcome_unchanged ⟨rfl, rfl⟩ waiting.late
  refine wp_call trivial fun pwd _ => ?_
  change wp attempting _ _ g
  cases pwd with
  | none => exact kept _
  | some pwd =>
  refine wp_ite.mpr ⟨fun _ => kept _, fun _ => ?_⟩
  refine wp_bind.mpr (wp_validatePath fun resolved => ?_)
  obtain ⟨_ | _, resolvedHome⟩ := resolved
  · exact kept _
  refine wp_call trivial fun st _ => ?_
  change wp attempting _ _ g
  refine wp_ite.mpr ⟨fun _ => kept _, fun _ => ?_⟩
  refine wp_call trivial fun raised _ => ?_
  cases raised with
  | error e =>
    refine outcome_unchanged ⟨rfl, rfl⟩ ?_
    change (if g.entered then some g.cwd else g.late) = none
    rw [waiting.entered, waiting.late]
    rfl
  | ok _ =>
  have unnamed := waiting.unnamed
  dsimp only
  generalize fifo : sessionFifoPath session.rootPath server.pid = fifoName at unnamed ⊢
  refine wp_call trivial fun removed _ => ?_
  have absent : attempting.next { g with euid := 0 } (.file (.unlink fifoName)) removed =
      { g with euid := 0 } := by
    cases removed with
    | error e => rfl
    | ok _ =>
      change { g with euid := 0, fifos := Function.update g.fifos fifoName false } = _
      rw [← unnamed, Function.update_eq_self]
  change wp attempting _ _ (attempting.next { g with euid := 0 } (.file (.unlink fifoName)) removed)
  rw [absent]
  refine wp_call trivial fun made _ => ?_
  have here : ∀ {late : Option CStr}, late = g.late → late = some g.cwd ∨ late = none ∧ g.cwd = g.cwd :=
    fun same => .inr ⟨same.trans waiting.late, rfl⟩
  cases made with
  | error e =>
    refine wp_loginFailed (b := false) g.fds g.fifos rfl (fun impossible => ?_)
      (fun _ => rfl) ?_ unnamed (waiting.undone (here rfl))
    · exact absurd impossible (by decide)
    · rw [← unnamed, Function.update_eq_self]
      rfl
  | ok _ =>
  refine wp_call trivial fun opened may => ?_
  cases opened with
  | error e =>
    refine wp_loginFailed (b := true) g.fds g.fifos rfl (fun impossible => ?_)
      (fun _ => rfl) rfl unnamed (waiting.undone (here rfl))
    exact absurd impossible (by decide)
  | ok nFd =>
  obtain ⟨positive, unused⟩ : 0 ≤ nFd ∧ g.fds nFd = false := by
    simpa [attempting, answers, after] using may
  -- from here on every error exit has the descriptor and the fifo to undo
  have exits : ∀ {msg : CStr} (state : Attempt), state.euid = 0 →
      state.fds = Function.update g.fds nFd true → state.fifos = Function.update g.fifos fifoName true →
      (state.late = some state.cwd ∨ state.late = none ∧ state.cwd = g.cwd) →
      wp attempting (loginFailed server session nFd fifoName msg) (Outcome session g) state := by
    intro msg state root fds fifos where_
    exact wp_loginFailed _ _ root (fun _ => ⟨fds, unused⟩) (fun negative => absurd positive negative)
      fifos unnamed (waiting.undone where_)
  refine wp_call trivial fun owned _ => ?_
  cases owned with
  | error e => exact exits _ rfl rfl rfl (here rfl)
  | ok _ =>
  refine wp_call trivial fun owned _ => ?_
  cases owned with
  | error e => exact exits _ rfl rfl rfl (here rfl)
  | ok _ =>
  refine wp_call trivial fun entered _ => ?_
  cases entered with
  | error e => exact exits _ rfl rfl rfl (here rfl)
  | ok _ =>
  refine wp_call trivial fun group _ => ?_
  cases group with
  | error e => exact exits _ rfl rfl rfl (.inl rfl)
  | ok _ =>
  refine wp_call trivial fun user _ => ?_
  cases user with
  | error e => exact exits _ rfl rfl rfl (.inl rfl)
  | ok _ =>
  intro msg impossible
  cases impossible

end login

section sessions

variable {server : Server} {session : Session} {g : Attempt}

def Unopened (session : Session) : Prop := session.loggedIn = false → session.notifyFd = -1

theorem wp_any {α : Type} {p : Sys α} {Q : α → Attempt → Prop} (hQ : ∀ a g, Q a g) :
    wp attempting p Q g :=
  (Calls.trivial p).wp_free (fun _ _ _ => trivial) hQ

theorem handleLogin_unopened {username : CStr} (before : Unopened session) :
    wp attempting (handleLogin server session username) (fun r _ => Unopened r.2) g := by
  have aborted : ∀ {nFd : Int} {fifoName msg : CStr} {g : Attempt},
      wp attempting (loginFailed server session nFd fifoName msg) (fun r _ => Unopened r.2) g := by
    intro nFd fifoName msg g
    refine wp_bind.mpr (wp_any fun _ _ => wp_bind.mpr (wp_any fun _ _ => ?_))
    refine wp_bind.mpr (wp_any fun _ _ => wp_bind.mpr (wp_any fun _ _ => ?_))
    exact fun _ => rfl
  unfold handleLogin
  repeat' with_reducible first
    | exact wp_pure.mpr before
    | exact aborted
    | refine wp_bind.mpr (wp_any fun _ _ => ?_)
    | split
  intro impossible
  cases impossible

theorem dispatch_unopened {packet : Network.Packet} (before : Unopened session) :
    wp attempting (dispatch server session packet) (fun session' _ => Unopened session') g := by
  unfold dispatch dispatchLogin
  dsimp only
  split
  · refine wp_bind.mpr (wp_any fun parsed g => ?_)
    split
    · refine wp_ite.mpr ⟨fun _ => wp_bind.mpr (wp_any fun _ _ => before), fun _ => ?_⟩
      refine wp_ite.mpr ⟨fun _ => wp_bind.mpr (wp_any fun _ _ => before), fun _ => ?_⟩
      refine wp_bind.mpr (wp_mono (handleLogin_unopened before) ?_)
      intro r g after
      obtain ⟨result, entered⟩ := r
      cases result with
      | error msg => exact wp_bind.mpr (wp_any fun _ _ => after)
      | ok _ =>
        refine wp_bind.mpr (wp_any fun _ _ => wp_bind.mpr (wp_any fun _ _ => ?_))
        exact wp_bind.mpr (wp_any fun _ _ => wp_bind.mpr (wp_any fun _ _ => after))
    · exact before
  split
  · exact wp_bind.mpr (wp_any fun _ _ => before)
  split
  · exact wp_bind.mpr (wp_any fun _ _ => before)
  · exact wp_bind.mpr (wp_any fun _ _ => before)

theorem sessionLoop_unopened {clientSocket : Int} (before : Unopened session) :
    wp attempting (sessionLoop server clientSocket session) (fun session' _ => Unopened session')
      g := by
  refine wp_iterate (fun session _ => Unopened session) before ?_
  intro session g before
  refine wp_bind.mpr (wp_any fun ready g => ?_)
  cases ready with
  | error e => exact wp_ite.mpr ⟨fun _ => before, fun _ => before⟩
  | ok ready =>
    have received : wp attempting (if clientSocket ∈ ready then receiveCommand server session
        else pure (some session)) (fun r _ => ∀ session', r = some session' → Unopened session') g := by
      refine wp_ite.mpr ⟨fun _ => wp_bind.mpr (wp_any fun packet g => ?_), fun _ => ?_⟩
      · cases packet with
        | none =>
          intro _ impossible
          cases impossible
        | some packet =>
          refine wp_bind.mpr (wp_mono (dispatch_unopened before) ?_)
          intro session' _ after _ same
          cases same
          exact after
      · intro _ same
        cases same
        exact before
    refine wp_bind.mpr (wp_mono received ?_)
    intro r g after
    cases r with
    | none => exact before
    | some session' =>
      have after := after session' rfl
      refine wp_ite.mpr ⟨fun _ => wp_bind.mpr (wp_any fun stillOpen _ => ?_), fun _ => after⟩
      exact wp_ite.mpr ⟨fun _ => after, fun _ => after⟩

end sessions

instance (g : Attempt) (c : Call) (r : c.Reply) : Decidable (attempting.expects g c r) :=
  inferInstanceAs (Decidable (_ = true))

def refusesAlice (_ : Attempt) : (c : Call) → c.Reply
  | .user (.seteuid uid) => if uid = 1001 then .error EPERM else .ok ()
  | c => (Sessions.calm (cstr "alice") none).reply c

def visitor : Session where
  rootPath := cstr "/srv"

def atRoot : Attempt where
  cwd := cstr "/"
  euid := 65534
  egid := 65534
  fds := fun _ => false
  fifos := fun _ => false

theorem visitor_waiting : Waiting Sessions.calmServer visitor atRoot := by
  constructor <;> rfl

theorem failed_login_atRoot : wp attempting (handleLogin Sessions.calmServer visitor (cstr "alice"))
    (Outcome visitor atRoot) atRoot :=
  failed_login visitor_waiting

theorem login_leaves_directory : ∃ r g',
    Ends attempting (handleLogin Sessions.calmServer visitor (cstr "alice")) atRoot r g' ∧
      r.1.isOk = false ∧ g'.cwd = cstr "/srv/alice" := by
  have played : (play attempting refusesAlice 40
      (handleLogin Sessions.calmServer visitor (cstr "alice")) atRoot).any
      (fun r => decide (r.1.1.isOk = false ∧ r.2.cwd = cstr "/srv/alice")) = true := by
    decide +kernel
  exact exists_of_play 40 (fun (r : Except CStr Unit × Session) (g' : Attempt) =>
    r.1.isOk = false ∧ g'.cwd = cstr "/srv/alice") played

end Csap.FailedLogins
