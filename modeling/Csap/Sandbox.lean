import Csap.ConfinedUploads
import Csap.ServerRuns

/-! A session on a file system that nobody else changes: what its user's commands reach. -/

namespace Csap

open FileTree Prog

namespace Sandbox

open Confine

section login

variable {α : Type} {w : World} {home root d : Place FileName} {session : Session} {server : Server}
  {Q : α → World → Prop}

theorem wp_any {p : Sys α} (hQ : ∀ a w, Q a w) : wp serving p Q w :=
  (Calls.trivial p).wp_free (fun _ _ _ => trivial) hQ

theorem wp_unmoved {p : Sys α} (still : p.Calls Still) (hQ : ∀ a w', Unmoved w w' → Q a w') :
    wp serving p Q w :=
  still.wp_preserving (Unmoved w) (fun _ _ still same => ⟨trivial, fun r => same.trans (still_next still r)⟩)
    (.refl w) hQ

theorem wp_spares {p : Sys α} (spares : p.Calls Spares) (directory : w.tree.get d = some .directory)
    (hQ : ∀ a w', w'.tree.get d = some .directory → Q a w') : wp serving p Q w := by
  apply spares.wp_preserving (fun w => w.tree.get d = some .directory) ?_ directory hQ
  intro w c spares directory
  cases c with
  | file c => exact ⟨trivial, fun r => spares_after spares directory r⟩
  | _ => exact ⟨trivial, fun _ => directory⟩

theorem obeys (w : World) : Obeys serving w w := by
  intro c checks
  cases c with
  | file c =>
    cases c with
    | realpath path => exact ⟨trivial, fun r expected => ⟨expected.1, rfl⟩⟩
    | _ => exact absurd checks id
  | alloc size => exact ⟨trivial, fun _ expected => ⟨expected.1, rfl⟩⟩
  | _ => exact absurd checks id

structure Rooted (root : Place FileName) (session : Session) : Prop where
  rootPath : session.rootPath = spell root
  short : (spell root).length < PATH_MAX

theorem Rooted.canonical (h : Rooted root session) :
    stripSlashes (snprintf PATH_MAX session.rootPath) = spell root := by
  rw [h.rootPath, snprintf_eq_self h.short]
  by_cases bare : root = []
  · rw [bare]
    rfl
  · have same : spell root = render root := (if_neg bare).symm
    rw [same, stripSlashes_render]
    exact same

/-- What a login leaves: a session that is settled in its user's home directory, or one that waits. -/
structure Entered (root : Place FileName) (r : Except CStr Unit × Session) (w : World) : Prop where
  rooted : Rooted root r.2
  failed : r.1.isOk = false → r.2.loggedIn = false
  settled : r.1.isOk = true → ∃ home, Settled root home r.2 ∧ w.Within home

theorem entered_refused {msg : CStr} (rooted : Rooted root session)
    (loggedOut : session.loggedIn = false) : Entered root (errText 255 msg, session) w where
  rooted := rooted
  failed := fun _ => loggedOut
  settled := fun impossible => by cases impossible

theorem wp_loginFailed {nFd : Int} {fifoName msg : CStr} (rooted : Rooted root session) :
    wp serving (loginFailed server session nFd fifoName msg) (Entered root) w := by
  apply wp_bind.mpr
  apply wp_any
  intro _ w
  apply wp_bind.mpr
  apply wp_any
  intro _ w
  apply wp_bind.mpr
  apply wp_any
  intro _ w
  apply wp_bind.mpr
  apply wp_any
  intro _ w
  exact entered_refused ⟨rooted.rootPath, rooted.short⟩ rfl

theorem home_of_checked {username v : CStr} {st : Stat} (rooted : Rooted root session)
    (checked : Checked w (snprintf (PATH_MAX + 64) (session.rootPath ++ cstr "/" ++ username.take 32))
      session.rootPath v) (told : w.Answers (.stat v) (.ok st)) (isDir : st.kind = .directory) :
    ∃ home, v = render home ∧ root <:+ home ∧ w.tree.get home = some .directory := by
  obtain ⟨home, o, found, describes⟩ := World.stat_found told
  obtain rfl := World.directory_of_stat describes isDir
  have named : snprintf (PATH_MAX + 64) (session.rootPath ++ cstr "/" ++ username.take 32) ≠ [] := by
    simp [snprintf, cstr, PATH_MAX]
  refine ⟨home, checked.rendered found named, checked.found_inside rooted.canonical found, ?_⟩
  exact (World.look_eq_some.mp found).2

theorem after_chdir {home : Place FileName} (directory : w.tree.get home = some .directory) :
    w.after (.chdir (render home)) (.ok ()) = { w with cwd := some home } := by
  have look : w.look true (render home) = some (home, .directory) := by
    refine World.look_eq_some.mpr ⟨?_, directory⟩
    apply resolve_canonical (Hierarchy.parent_directory directory)
    intro _ link
    obtain ⟨target, link⟩ := link
    rw [directory] at link
    cases link
  simp only [World.after, look]

theorem entered_home {home : Place FileName} {nFd uid : Int} {username : CStr}
    (rooted : Rooted root session) (above : root <:+ home) (short : (render home).length < PATH_MAX)
    (directory : w.tree.get home = some .directory) :
    Entered root (.ok (), { session with
      notifyFd := nFd
      loggedIn := true
      uid := uid
      user := snprintf 32 username
      homePath := snprintf PATH_MAX (render home) }) { w with cwd := some home } where
  rooted := ⟨rooted.rootPath, rooted.short⟩
  failed := fun impossible => by cases impossible
  settled := by
    intro _
    refine ⟨home, ⟨rfl, snprintf_eq_self short, short, rooted.canonical, above⟩, ?_⟩
    intro d here
    cases here
    exact ⟨List.suffix_rfl, directory⟩

theorem wp_handleLogin {username : CStr} (rooted : Rooted root session)
    (loggedOut : session.loggedIn = false) :
    wp serving (handleLogin server session username) (Entered root) w := by
  have refused : ∀ {msg : CStr} {w : World}, Entered root (errText 255 msg, session) w :=
    entered_refused rooted loggedOut
  unfold handleLogin
  apply wp_call trivial
  intro pwd _
  change wp serving _ _ w
  cases pwd with
  | none => exact refused
  | some pwd =>
  apply wp_ite.mpr
  refine ⟨fun _ => refused, fun _ => ?_⟩
  apply (obeys w).wp_validatePath
  · intro e
    exact refused
  intro v checked
  apply wp_call trivial
  intro st told
  apply wp_ite.mpr
  refine ⟨fun _ => refused, fun isDir => ?_⟩
  cases st with
  | error e => exact absurd rfl isDir
  | ok st =>
  obtain ⟨home, rfl, above, there⟩ := home_of_checked rooted checked told.1 (by
    simpa [statIsDir] using isDir)
  have directory : (serving.next w (.file (.stat (render home))) (.ok st)).tree.get home =
      some .directory := by
    have same := (World.after_looks (c := .stat (render home)) (w := w) trivial (.ok st)).1
    change (w.after (.stat (render home)) (.ok st)).tree.get home = _
    rw [same]
    exact there
  generalize serving.next w (.file (.stat (render home))) (.ok st) = w at directory
  apply wp_bind.mpr
  apply wp_spares (Calls.perform trivial) directory
  intro raised w directory
  cases raised with
  | error e => exact refused
  | ok _ =>
  dsimp only
  generalize sessionFifoPath session.rootPath server.pid = fifoName
  apply wp_bind.mpr
  apply wp_spares (Calls.perform trivial) directory
  intro removed w directory
  apply wp_bind.mpr
  apply wp_spares (Calls.perform trivial) directory
  intro made w directory
  cases made with
  | error e => exact wp_loginFailed rooted
  | ok _ =>
  apply wp_bind.mpr
  apply wp_spares (Calls.perform trivial) directory
  intro opened w directory
  cases opened with
  | error e => exact wp_loginFailed rooted
  | ok nFd =>
  apply wp_bind.mpr
  apply wp_spares (Calls.perform trivial) directory
  intro owned w directory
  cases owned with
  | error e => exact wp_loginFailed rooted
  | ok _ =>
  apply wp_bind.mpr
  apply wp_spares (Calls.perform trivial) directory
  intro owned w directory
  cases owned with
  | error e => exact wp_loginFailed rooted
  | ok _ =>
  apply wp_call trivial
  intro entered _
  cases entered with
  | error e => exact wp_loginFailed rooted
  | ok _ =>
  have inside : serving.next w (.file (.chdir (render home))) (.ok ()) = { w with cwd := some home } :=
    after_chdir directory
  rw [inside]
  apply wp_call trivial
  intro group _
  cases group with
  | error e => exact wp_loginFailed rooted
  | ok _ =>
  apply wp_call trivial
  intro user _
  cases user with
  | error e => exact wp_loginFailed rooted
  | ok _ => exact entered_home rooted above checked.length directory

theorem wp_dispatchLogin {payload : Option CStr} (rooted : Rooted root session)
    (loggedOut : session.loggedIn = false) : wp serving (dispatchLogin server session payload)
      (fun after w' => Rooted root after ∧
        (after.loggedIn = true → ∃ home, Settled root home after ∧ w'.Within home)) w := by
  have waits : ∀ w' : World, Rooted root session ∧
      (session.loggedIn = true → ∃ home, Settled root home session ∧ w'.Within home) := by
    intro w'
    refine ⟨rooted, ?_⟩
    intro inside
    rw [loggedOut] at inside
    cases inside
  unfold dispatchLogin
  apply wp_bind.mpr
  apply wp_any
  intro loginCommand w
  cases loginCommand with
  | none => exact waits w
  | some loginCommand =>
  apply wp_ite.mpr
  refine ⟨fun inside => absurd (loggedOut.symm.trans inside) Bool.false_ne_true, fun _ => ?_⟩
  apply wp_ite.mpr
  constructor
  · intro _
    apply wp_bind.mpr
    exact wp_any fun _ w => waits w
  intro _
  apply wp_bind.mpr
  apply wp_mono (wp_handleLogin rooted loggedOut)
  intro r w entered
  obtain ⟨result, after⟩ := r
  cases result with
  | error errorMsg =>
    apply wp_bind.mpr
    apply wp_any
    intro _ w
    refine ⟨entered.rooted, ?_⟩
    intro inside
    exact absurd (entered.failed rfl) (by simp [inside])
  | ok _ =>
  obtain ⟨home, settled, within⟩ := entered.settled rfl
  apply wp_bind.mpr
  refine wp_unmoved (calls_within rfl) ?_
  intro _ w1 same1
  apply wp_bind.mpr
  refine wp_unmoved (calls_within rfl) ?_
  intro _ w2 same2
  apply wp_bind.mpr
  refine wp_unmoved (calls_within rfl) ?_
  intro found w3 same3
  apply wp_bind.mpr
  refine wp_unmoved (calls_within rfl) ?_
  intro _ w4 same4
  refine ⟨entered.rooted, fun _ => ⟨home, settled, ?_⟩⟩
  exact within.unmoved (((same1.trans same2).trans same3).trans same4)

end login

section runs

variable {server : Server} {root home : Place FileName} {session session' : Session} {w w' : World}
  {packet : Network.Packet}

/-- A client's session: packets are dispatched and notifications passed on, on a file system that
nobody else changes. No packet of a user that is logged in is to replace the home directory. -/
inductive Served (server : Server) : Session → World → Prop
  | start (w : World) : Served server { rootPath := snprintf PATH_MAX server.rootDirectory } w
  | command {session session' : Session} {w w' : World} {packet : Network.Packet} :
      Served server session w → (session.loggedIn = true → ¬Homeward session w packet) →
      Ends serving (dispatch server session packet) w session' w' → Served server session' w'
  | notification {session : Session} {w w' : World} {stillOpen : Bool} : Served server session w →
      Ends serving (receiveNotification session) w stillOpen w' → Served server session w'

/-- The commands of a session that is settled keep to their places, and its working directory stays
inside. -/
theorem wp_settled (settled : Settled root home session) (within : w.Within home)
    (other : ¬Homeward session w packet) :
    wp ((confining home root (Command.ofCode packet.command)).keeping fun w => w.Within home)
      (dispatch server session packet) (fun after w' => after = session ∧ w'.Within home) w := by
  apply wp_keeping (fun w => w.Within home) within ?_ (Confine.wp_dispatch settled within other)
  intro w c r within confined expected
  cases c with
  | file c =>
    have keeps : w.Confined home root (Command.ofCode packet.command) c r := confined r expected
    exact within.after expected.1 fun moves => keeps.reached (.inr moves)
  | _ => exact within

structure Safe (root : Place FileName) (session : Session) (w : World) : Prop where
  rooted : Rooted root session
  settled : session.loggedIn = true → ∃ home, Settled root home session ∧ w.Within home

theorem wp_waiting (rooted : Rooted root session) (loggedOut : session.loggedIn = false) :
    wp serving (dispatch server session packet) (Safe root) w := by
  have waits : ∀ w' : World, Safe root session w' := by
    intro w'
    refine ⟨rooted, ?_⟩
    intro inside
    rw [loggedOut] at inside
    cases inside
  unfold dispatch
  dsimp only
  apply wp_ite.mpr
  constructor
  · intro _
    exact wp_mono (wp_dispatchLogin rooted loggedOut) fun _ _ after => ⟨after.1, after.2⟩
  intro _
  apply wp_ite.mpr
  constructor
  · intro _
    apply wp_bind.mpr
    exact wp_any fun _ w => waits w
  intro _
  apply wp_ite.mpr
  constructor
  · intro _
    apply wp_bind.mpr
    exact wp_any fun _ w => waits w
  · intro inside
    rw [loggedOut] at inside
    exact absurd rfl inside

theorem Served.safe (directory : server.rootDirectory = spell root) (short : (spell root).length < PATH_MAX)
    (served : Served server session w) : Safe root session w := by
  induction served with
  | start w =>
    refine ⟨⟨?_, short⟩, ?_⟩
    · rw [directory]
      exact snprintf_eq_self short
    · intro impossible
      cases impossible
  | @command session session' w w' packet _ other ends ih =>
    by_cases inside : session.loggedIn = true
    · obtain ⟨home, settled, within⟩ := ih.settled inside
      obtain ⟨rfl, within'⟩ := (ends.judge _).of_wp (wp_settled settled within (other inside))
      exact ⟨ih.rooted, fun _ => ⟨home, settled, within'⟩⟩
    · exact ends.of_wp (wp_waiting ih.rooted (by simpa using inside))
  | notification _ ends ih =>
    refine ⟨ih.rooted, ?_⟩
    intro inside
    obtain ⟨home, settled, within⟩ := ih.settled inside
    refine ⟨home, settled, ?_⟩
    exact ends.of_wp (wp_unmoved (calls_within rfl) fun _ _ same => within.unmoved same)

/-- In a session none of whose packets is to replace the home directory, whatever is made, changed,
removed, renamed or entered on the user's behalf lies in the home directory, and so does what is read. -/
theorem session_confined (directory : server.rootDirectory = spell root)
    (short : (spell root).length < PATH_MAX) (served : Served server session w)
    (loggedIn : session.loggedIn = true) : ∃ home, session.homePath = render home ∧ w.Within home ∧
      ∀ packet, ¬Homeward session w packet → ∀ c w',
        Makes serving (dispatch server session packet) w c w' → w'.Within home ∧
          ∀ r, serving.expects w' c r → Keeps home root (Command.ofCode packet.command) w' c r := by
  obtain ⟨home, settled, within⟩ := (served.safe directory short).settled loggedIn
  refine ⟨home, settled.homePath, within, ?_⟩
  intro packet other c w' makes
  obtain ⟨keeps, within'⟩ := (makes.judge _).of_wp (wp_settled settled within other)
  exact ⟨within', keeps⟩

end runs

section homeward

def dotSessions : FileName := ⟨cstr ".sessions", by decide⟩

def temporary : FileName := ⟨cstr ".tempaaaaaa", by decide⟩

def homesDisk : World :=
  { aliceDisk.withVolume (aliceDisk.add [dotSessions, srv] .directory 0o770) with cwd := none }

def grants (w : World) : (c : Call) → c.Reply
  | .user (.getpwnam _) => some { uid := 1001, gid := 1001 }
  | c => w.serves c

def login : Network.Packet where
  command := Command.login.code
  payload := cstr "login alice"

/-- `write .` in the home directory. -/
def writeHome : Network.Packet where
  command := Command.write.code
  payload := cstr "write ."

instance (w : World) (c : Call) (r : c.Reply) : Decidable (serving.expects w c r) :=
  inferInstanceAs (Decidable (posix.expects w c r ∧ inBuffer c r = true))

def makesBeside (c : Call) (w : World) : Bool :=
  decide (c = .file (.mkstemp (cstr "/srv/.tempXXXXXX")) ∧
    serving.expects w (.file (.mkstemp (cstr "/srv/.tempXXXXXX")))
      (.ok w.lowest, cstr "/srv/.tempaaaaaa") ∧
    w.free false (cstr "/srv/.tempaaaaaa") = some [temporary, srv])

theorem alice_enters : ∃ session w, Served Sessions.calmServer session w ∧ session.loggedIn = true ∧
    session.homePath = render [alice, srv] ∧
    (reach serving grants makesBeside 80 (dispatch Sessions.calmServer session writeHome) w).isSome =
      true := by
  have played : (play serving grants 60 (dispatch Sessions.calmServer
      { rootPath := snprintf PATH_MAX Sessions.calmServer.rootDirectory } login) homesDisk).any
      (fun r => decide (r.1.loggedIn = true ∧ r.1.homePath = render [alice, srv] ∧
        (reach serving grants makesBeside 80 (dispatch Sessions.calmServer r.1 writeHome)
          r.2).isSome = true)) = true := by
    decide +kernel
  obtain ⟨session, w, ends, holds⟩ := exists_of_play 60 (fun (session : Session) (w : World) =>
    session.loggedIn = true ∧ session.homePath = render [alice, srv] ∧
      (reach serving grants makesBeside 80 (dispatch Sessions.calmServer session writeHome)
        w).isSome = true) played
  refine ⟨session, w, .command (.start homesDisk) ?_ ends, holds⟩
  intro impossible
  cases impossible

theorem alice_confined : ∃ session w, Served Sessions.calmServer session w ∧
    ∃ home, session.homePath = render home ∧ w.Within home ∧
      ∀ packet, ¬Homeward session w packet → ∀ c w',
        Makes serving (dispatch Sessions.calmServer session packet) w c w' → w'.Within home ∧
          ∀ r, serving.expects w' c r → Keeps home [srv] (Command.ofCode packet.command) w' c r := by
  obtain ⟨session, w, served, loggedIn, -⟩ := alice_enters
  exact ⟨session, w, served, session_confined (by decide) (by decide) served loggedIn⟩

/-- `write .` makes its temporary file in the directory above the user's home. -/
theorem write_home_escapes : ∃ session w, Served Sessions.calmServer session w ∧
    session.loggedIn = true ∧ session.homePath = render [alice, srv] ∧ ∃ c w' r,
      Makes serving (dispatch Sessions.calmServer session writeHome) w c w' ∧
        serving.expects w' c r ∧
          ¬Keeps [alice, srv] [srv] (Command.ofCode writeHome.command) w' c r := by
  obtain ⟨session, w, served, loggedIn, homePath, writes⟩ := alice_enters
  refine ⟨session, w, served, loggedIn, homePath, ?_⟩
  obtain ⟨c, w', makes, beside⟩ := exists_of_reach grants 80 writes
  obtain ⟨rfl, expected, room⟩ := of_decide_eq_true beside
  refine ⟨_, w', _, makes, expected, ?_⟩
  intro keeps
  have inside : [alice, srv] <:+ [temporary, srv] := keeps.reached (.inl (by decide)) _ room
  exact absurd inside (by decide)

end homeward

end Sandbox

end Csap
