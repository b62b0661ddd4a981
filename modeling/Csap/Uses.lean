import Csap.Kernel
import Csap.LocalCalls

/-! What a process uses its descriptors for. It writes to a temporary file of its own, to a fifo, or
to a file that it has locked as a whole; and its locks reach to the end of the file. -/

namespace Csap.Kernel

open Prog

/-- The path a descriptor was opened by, whether that was a temporary file or a session's fifo, and
the lock that was taken through it. -/
structure Use where
  path : CStr
  temp : Bool
  notifies : Bool
  held : Option (LockType × Int)
deriving DecidableEq, Repr

/-- `last` is the lock that was taken last, for as long as the process closes nothing: then it has
not lost it. -/
structure Uses where
  use : Int → Option Use
  last : Option (Int × LockType × Int)

def heldBy (type : LockType) (start : Int) : Option (LockType × Int) :=
  if type = .unlck then none else some (type, start)

namespace Uses

def start : Uses where
  use := fun _ => none
  last := none

def answers (g : Uses) : (c : Call) → c.Reply → Bool
  | .file (.openPath _ _ _), .ok fd | .file (.mkstemp _), (.ok fd, _) => (g.use fd).isNone
  | _, _ => true

def openAs (g : Uses) (fd : Int) (use : Use) : Uses :=
  { g with use := Function.update g.use fd (some use) }

def lock (g : Uses) (fd : Int) (held : Option (LockType × Int)) : Uses where
  use := Function.update g.use fd ((g.use fd).map fun use => { use with held })
  last := held.map fun lock => (fd, lock)

def close (g : Uses) (fd : Int) : Uses where
  use := Function.update g.use fd none
  last := none

def after (g : Uses) : (c : Call) → c.Reply → Uses
  | .file (.openPath path flags _), .ok fd =>
    g.openAs fd { path, temp := false, notifies := decide (flags = notifyFlags), held := none }
  | .file (.mkstemp _), (.ok fd, name) =>
    g.openAs fd { path := name, temp := true, notifies := false, held := none }
  | .file (.close fd), _ => g.close fd
  | .file (.setlk fd type start _), .ok () => g.lock fd (heldBy type start)
  | _, _ => g

def Temp (g : Uses) (fd : Int) : Prop := ∃ use ∈ g.use fd, use.temp = true

def MayWrite (g : Uses) (fd : Int) : Prop :=
  g.Temp fd ∨ (∃ use ∈ g.use fd, use.notifies = true) ∨ g.last = some (fd, .wrlck, 0)

end Uses

def tracking : Typestate Call.Reply Uses where
  allowed g
    | .file (.write fd _) => g.MayWrite fd
    | .file (.openPath _ flags _) => flags.trunc = false
    | .file (.setlk _ _ start len) => 0 ≤ start ∧ len = 0
    | _ => True
  expects g c r := g.answers c r = true
  next := Uses.after

@[reducible] def Proper : Call → Prop
  | .file (.write _ _) => False
  | .file (.openPath _ flags _) => flags.trunc = false
  | .file (.setlk _ _ start len) => 0 ≤ start ∧ len = 0
  | _ => True

instance proper_judged : Judged Proper where
  admits
    | .write => false
    | .setlk toEnd => toEnd
    | .openPath flags => !flags.trunc
    | _ => true
  sound := by
    rintro (c | c | c | c | c | c) <;> cases c <;> simp

section rules

variable {α : Type} {g : Uses} {fd : Int} {c : Call} {p : Sys α} {Q : α → Uses → Prop}

theorem proper_allowed (g : Uses) (c : Call) (proper : Proper c) : tracking.allowed g c := by
  cases c with
  | file c =>
    cases c with
    | write fd data => exact absurd proper id
    | openPath path flags mode => exact proper
    | setlk fd type start len => exact proper
    | _ => trivial
  | _ => trivial

theorem may_lock (type : LockType) : tracking.allowed g (.file (.setlk fd type 0 0)) :=
  ⟨le_refl _, rfl⟩

theorem wp_proper (proper : p.Calls Proper) (hQ : ∀ a g, Q a g) : wp tracking p Q g :=
  proper.wp_free proper_allowed hQ

theorem wp_recvStream {texts : Texts} {offset expectedTotal : Int} {dataCode endCode : UInt8}
    {Q : SysResult Nat × CStr → Uses → Prop} (may : g.MayWrite fd) (hQ : ∀ a g, Q a g) :
    wp tracking (recvStream texts fd offset expectedTotal dataCode endCode) Q g := by
  apply (recvStream_streams texts fd offset expectedTotal dataCode endCode).wp_preserving
    (fun g => g.MayWrite fd) ?_ may (fun a g _ => hQ a g)
  intro g c streams may
  cases c with
  | file c =>
    cases c with
    | write f data =>
      obtain rfl : f = fd := streams
      exact ⟨may, fun _ => may⟩
    | lseek f offset => exact ⟨trivial, fun _ => may⟩
    | _ => exact absurd streams id
  | socket c =>
    cases c with
    | recvFrameInto room => exact ⟨trivial, fun _ => may⟩
    | _ => exact absurd streams id
  | _ => exact absurd streams id

theorem wp_writeAll {buf : CStr} {Q : SysResult Unit → Uses → Prop} (may : g.MayWrite fd)
    (hQ : ∀ a, Q a g) : wp tracking (writeAll fd buf) Q g := by
  apply wp_iterate (fun _ g' => g' = g) rfl
  intro rest g' same
  subst same
  apply wp_ite.mpr
  refine ⟨fun _ => hQ _, fun _ => ?_⟩
  apply wp_call may
  intro written _
  cases written with
  | error e => exact wp_ite.mpr ⟨fun _ => rfl, fun _ => hQ _⟩
  | ok n => exact rfl

theorem wp_notifyPid {root text : CStr} {pid : Int} {Q : SysResult Unit → Uses → Prop}
    (hQ : ∀ a g, Q a g) : wp tracking (notifyPid root pid text) Q g := by
  apply wp_call rfl
  intro opened _
  cases opened with
  | error e => exact hQ _ _
  | ok fd =>
  have may : (tracking.next g (.file (.openPath (sessionFifoPath root pid)
      { access := .wronly, nonblock := true } 0)) (.ok fd)).MayWrite fd := by
    refine .inr (.inl ⟨_, Function.update_self .., ?_⟩)
    exact decide_eq_true (p := notifyFlags = notifyFlags) rfl
  apply wp_bind.mpr
  apply wp_writeAll may
  intro r
  apply wp_call trivial
  intro _ _
  exact hQ _ _

theorem wp_notifyWaiting {server : Server} {rootPath : CStr} {requests : List TransferRequestEntry}
    {Q : Unit → Uses → Prop} (hQ : ∀ a g, Q a g) :
    wp tracking (notifyWaiting server rootPath requests) Q g := by
  induction requests generalizing g with
  | nil => exact hQ _ _
  | cons request rest ih =>
    apply wp_bind.mpr
    exact wp_notifyPid fun _ _ => ih

theorem wp_notifySource {session : Session} {pid : Int} {online : Bool}
    {notification : Notification} {Q : SysResult Unit → Uses → Prop} (hQ : ∀ a g, Q a g) :
    wp tracking (notifySource session pid online notification) Q g := by
  apply wp_ite.mpr
  exact ⟨fun _ => wp_notifyPid hQ, fun _ => hQ _ _⟩

theorem wp_openTarget {texts : Texts} {target : Target} {existed : Bool} :
    wp tracking (openTarget texts target existed)
      (fun r g => ∀ into, r = .ok into → g.Temp into.fd ∨ into.fd = into.lockFd) g := by
  have failed : ∀ {α : Type} {g : Uses} {p : Sys Unit} {e : α}, p.Calls Proper →
      wp tracking p (fun _ g => ∀ into : Receiving, (.error e : Except α Receiving) = .ok into →
        g.Temp into.fd ∨ into.fd = into.lockFd) g := by
    intro α g p e proper
    apply wp_proper proper
    intro _ _ into impossible
    cases impossible
  unfold openTarget
  apply wp_ite.mpr
  constructor
  · intro _
    apply wp_call rfl
    intro opened _
    cases opened with
    | error e => exact wp_bind.mpr (failed (calls_within rfl))
    | ok fd =>
      intro into same
      cases same
      exact .inr rfl
  · intro _
    apply wp_bind.mpr
    have staged : wp tracking (openTempForUpload target.path) (fun r g => ∀ fd, r.1 = .ok fd →
        g.Temp fd) g := by
      have failed : ∀ e : Errno, wp tracking (pure (.error e, []) : Sys (SysResult Int × CStr))
          (fun r g => ∀ fd, r.1 = .ok fd → g.Temp fd) g := by
        intro e fd impossible
        cases impossible
      unfold openTempForUpload
      apply wp_ite.mpr
      refine ⟨fun _ => failed _, fun _ => ?_⟩
      apply wp_call trivial
      intro allocated _
      apply wp_ite.mpr
      refine ⟨fun _ => failed _, fun _ => ?_⟩
      apply wp_ite.mpr
      refine ⟨fun _ => failed _, fun _ => ?_⟩
      refine ⟨trivial, ?_⟩
      intro r _ fd made
      obtain ⟨e | x, name⟩ := r
      · cases made
      · cases made
        exact ⟨_, Function.update_self .., rfl⟩
    apply wp_mono staged
    intro r g temp
    obtain ⟨e | fd, tempPath⟩ := r
    · exact wp_bind.mpr (failed (calls_within rfl))
    apply wp_call rfl
    intro opened unused
    cases opened with
    | error e => exact wp_bind.mpr (failed (calls_within rfl))
    | ok lockFd =>
      intro into same
      cases same
      obtain ⟨use, here, isTemp⟩ := temp fd rfl
      have other : fd ≠ lockFd := by
        rintro rfl
        rw [Option.isNone_iff_eq_none.mp unused] at here
        cases here
      exact .inl ⟨use, (Function.update_of_ne other ..).trans here, isTemp⟩

theorem wp_receiveIntoFile {texts : Texts} {target : Target} {Q : SysResult Nat × CStr → Uses → Prop}
    (hQ : ∀ a g, Q a g) : wp tracking (receiveIntoFile texts target) Q g := by
  have finish : ∀ {g : Uses} {p : Sys Unit} {k : Unit → Sys (SysResult Nat × CStr)},
      p.Calls Proper → (k ()).Calls Proper → wp tracking (p >>= k) Q g := by
    intro g p k first next
    exact wp_proper (Calls.bind first fun _ => next) hQ
  unfold receiveIntoFile acquireWriteLock setLock
  apply wp_call trivial
  intro destStat _
  dsimp only
  apply wp_bind.mpr
  apply wp_mono wp_openTarget
  intro into g opened
  cases into with
  | error e => exact hQ _ _
  | ok into =>
  apply wp_call (may_lock _)
  intro locked _
  cases locked with
  | error e => exact finish (calls_within rfl) (Calls.pure _)
  | ok _ =>
  have may : (tracking.next g (.file (.setlk into.lockFd .wrlck 0 0)) (.ok ())).MayWrite into.fd := by
    rcases opened into rfl with temp | same
    · obtain ⟨use, here, isTemp⟩ := temp
      left
      by_cases same : into.fd = into.lockFd
      · refine ⟨{ use with held := heldBy .wrlck 0 }, ?_, isTemp⟩
        change Function.update g.use into.lockFd _ into.fd = _
        rw [same, Function.update_self, ← same, here]
        rfl
      · exact ⟨use, (Function.update_of_ne same ..).trans here, isTemp⟩
    · rw [same]
      exact .inr (.inr rfl)
  apply wp_bind.mpr
  have sent : wp tracking (sendOk (cstr "Ready to receive data")) (fun _ g' => g'.MayWrite into.fd)
      (tracking.next g (.file (.setlk into.lockFd .wrlck 0 0)) (.ok ())) := by
    unfold sendOk sendPacket
    exact wp_ite.mpr ⟨fun _ => may, fun _ => ⟨trivial, fun _ _ => may⟩⟩
  apply wp_mono sent
  intro _ g may
  apply wp_bind.mpr
  apply wp_recvStream may
  intro received g
  obtain ⟨e | n, msg⟩ := received
  · exact finish (calls_within rfl) (by split <;> exact Calls.pure _)
  apply wp_ite.mpr
  constructor
  · intro _
    exact finish (calls_within rfl) (Calls.pure _)
  · intro _
    apply wp_proper ?_ hQ
    refine Calls.bind (calls_within rfl) ?_
    intro replaced
    split
    · exact Calls.pure _
    · exact calls_within rfl

theorem wp_copyLoop {srcFd destFd : Int} (locked : g.last = some (destFd, .wrlck, 0)) :
    wp tracking (copyLoop srcFd destFd) (fun _ _ => True) g := by
  apply wp_iterate (fun _ g => g.last = some (destFd, .wrlck, 0)) locked
  intro _ g locked
  apply wp_call trivial
  intro data _
  cases data with
  | error e => exact wp_ite.mpr ⟨fun _ => locked, fun _ => trivial⟩
  | ok buffer =>
  apply wp_ite.mpr
  refine ⟨fun _ => trivial, fun _ => ?_⟩
  apply wp_bind.mpr
  apply wp_writeAll (.inr (.inr locked))
  intro written
  cases written with
  | error e => exact trivial
  | ok _ => exact locked

theorem wp_executeTransferCopy {srcPath destPath : CStr} {Q : SysResult Unit → Uses → Prop}
    (hQ : ∀ a g, Q a g) : wp tracking (executeTransferCopy srcPath destPath) Q g := by
  have finish : ∀ {g : Uses} {p : Sys (SysResult Unit)}, p.Calls Proper → wp tracking p Q g :=
    fun proper => wp_proper proper hQ
  unfold executeTransferCopy acquireReadLock acquireWriteLock setLock
  apply wp_call trivial
  intro _ _
  apply wp_call trivial
  intro originalEuid _
  apply wp_call trivial
  intro raised _
  cases raised with
  | error e => exact hQ _ _
  | ok _ =>
  apply wp_call rfl
  intro opened _
  apply wp_call trivial
  intro restored _
  cases restored with
  | error e =>
    cases opened with
    | error e => exact hQ _ _
    | ok srcFd => exact finish (calls_within rfl)
  | ok _ =>
  cases opened with
  | error e => exact hQ _ _
  | ok srcFd =>
  apply wp_call trivial
  intro told _
  cases told with
  | error e => exact finish (calls_within rfl)
  | ok srcStat =>
  apply wp_ite.mpr
  constructor
  · intro _
    exact finish (calls_within rfl)
  intro _
  apply wp_call rfl
  intro created _
  cases created with
  | error e => exact finish (calls_within rfl)
  | ok destFd =>
  apply wp_call (may_lock _)
  intro shared _
  cases shared with
  | error e => exact finish (calls_within rfl)
  | ok _ =>
  apply wp_call (may_lock _)
  intro locked _
  cases locked with
  | error e =>
    apply finish
    apply Calls.bind (Calls.perform ⟨le_refl _, rfl⟩)
    exact fun _ => calls_within rfl
  | ok _ =>
  apply wp_bind.mpr
  apply wp_mono (wp_copyLoop rfl)
  intro copied g _
  apply finish
  apply Calls.bind (Calls.perform ⟨le_refl _, rfl⟩)
  intro _
  apply Calls.bind (Calls.perform ⟨le_refl _, rfl⟩)
  intro _
  refine Calls.bind (calls_within rfl) fun _ => Calls.bind (calls_within rfl) fun _ => ?_
  cases copied with
  | error e => exact calls_within rfl
  | ok _ => exact calls_within rfl

end rules

section sessions

variable {server : Server} {session : Session} {payload : Option CStr} {g : Uses}
  {Q : Unit → Uses → Prop}

theorem wp_dispatchAccept (hQ : ∀ a g, Q a g) : wp tracking (dispatchAccept session payload) Q g := by
  unfold dispatchAccept
  apply wp_bind.mpr
  refine wp_proper (calls_within rfl) ?_
  intro parsed g
  cases parsed with
  | none => exact hQ _ _
  | some acceptCommand =>
  apply wp_ite.mpr
  constructor
  · intro _
    apply wp_bind.mpr
    exact wp_proper (calls_within rfl) hQ
  intro _
  apply wp_bind.mpr
  refine wp_proper (calls_within rfl) ?_
  intro resolved g
  cases resolved with
  | none => exact hQ _ _
  | some fullDestPath =>
  apply wp_bind.mpr
  refine wp_proper (calls_within rfl) ?_
  intro taken g
  cases taken with
  | none => exact hQ _ _
  | some taken =>
  apply wp_bind.mpr
  apply wp_executeTransferCopy
  intro copyResult g
  apply wp_bind.mpr
  apply wp_proper (calls_within rfl)
  intro _ g
  apply wp_bind.mpr
  apply wp_notifySource
  intro notified g
  apply wp_proper ?_ hQ
  cases notified with
  | error e => exact calls_within rfl
  | ok _ =>
    cases copyResult with
    | error e => exact calls_within rfl
    | ok _ => exact calls_within rfl

theorem wp_dispatchReject (hQ : ∀ a g, Q a g) : wp tracking (dispatchReject session payload) Q g := by
  unfold dispatchReject
  apply wp_bind.mpr
  refine wp_proper (calls_within rfl) ?_
  intro parsed g
  cases parsed with
  | none => exact hQ _ _
  | some rejectCommand =>
  apply wp_ite.mpr
  constructor
  · intro _
    apply wp_bind.mpr
    exact wp_proper (calls_within rfl) hQ
  intro _
  apply wp_bind.mpr
  refine wp_proper (calls_within rfl) ?_
  intro taken g
  cases taken with
  | none => exact hQ _ _
  | some taken =>
  apply wp_bind.mpr
  apply wp_notifySource
  intro notified g
  apply wp_proper ?_ hQ
  cases notified with
  | error e => exact calls_within rfl
  | ok _ => exact calls_within rfl

theorem wp_enterRequest {destUser fullSrcPath : CStr} {destUserPid : Int} {destOnline : Bool}
    (hQ : ∀ a g, Q a g) :
    wp tracking (enterRequest session destUser fullSrcPath destUserPid destOnline) Q g := by
  unfold enterRequest
  apply wp_call trivial
  intro newId _
  apply wp_ite.mpr
  constructor
  · intro _
    apply wp_bind.mpr
    exact wp_proper (calls_within rfl) hQ
  intro _
  apply wp_ite.mpr
  refine ⟨fun _ => ?_, fun _ => hQ _ _⟩
  apply wp_bind.mpr
  apply wp_notifyPid
  intro notified g
  cases notified with
  | error e => exact wp_proper (calls_within rfl) hQ
  | ok _ => exact hQ _ _

theorem wp_dispatchTransferReq (hQ : ∀ a g, Q a g) :
    wp tracking (dispatchTransferReq server session payload) Q g := by
  have refused : ∀ {g : Uses} (e : Errno) (reason : CStr), wp tracking (do
      failWith e reason
      return) Q g := by
    intro g e reason
    exact wp_proper (calls_within rfl) hQ
  unfold dispatchTransferReq
  apply wp_bind.mpr
  refine wp_proper (calls_within rfl) ?_
  intro parsed g
  cases parsed with
  | none => exact hQ _ _
  | some transferCommand =>
  apply wp_bind.mpr
  refine wp_proper (calls_within rfl) ?_
  intro resolved g
  cases resolved with
  | none => exact hQ _ _
  | some fullSrcPath =>
  apply wp_call trivial
  intro told _
  cases told with
  | error e => exact wp_proper (calls_within rfl) hQ
  | ok srcSt =>
  apply wp_ite.mpr
  refine ⟨fun _ => refused _ _, fun _ => ?_⟩
  apply wp_call trivial
  intro r _
  obtain ⟨found, dest⟩ := r
  apply wp_ite.mpr
  refine ⟨fun _ => refused _ _, fun _ => ?_⟩
  apply wp_ite.mpr
  refine ⟨fun _ => ?_, fun _ => wp_enterRequest hQ⟩
  apply wp_bind.mpr
  refine wp_proper (calls_within rfl) ?_
  intro userExists g
  apply wp_ite.mpr
  refine ⟨fun _ => refused _ _, fun _ => ?_⟩
  apply wp_ite.mpr
  exact ⟨fun _ => refused _ _, fun _ => wp_enterRequest hQ⟩

theorem wp_receiveTarget {target : Target} (hQ : ∀ a g, Q a g) :
    wp tracking (receiveTarget server target) Q g := by
  apply wp_bind.mpr
  apply wp_receiveIntoFile
  intro received g
  obtain ⟨e | n, msg⟩ := received
  · exact wp_proper (calls_within rfl) hQ
  · exact wp_proper (calls_within rfl) hQ

theorem wp_dispatchUpload (hQ : ∀ a g, Q a g) :
    wp tracking (dispatchUpload server session payload) Q g := by
  apply wp_bind.mpr
  refine wp_proper (calls_within rfl) ?_
  intro parsed g
  cases parsed with
  | none => exact hQ _ _
  | some uploadCommand =>
  apply wp_bind.mpr
  refine wp_proper (calls_within rfl) ?_
  intro resolved g
  cases resolved with
  | none => exact hQ _ _
  | some fullPath => exact wp_receiveTarget hQ

theorem wp_dispatchWrite (hQ : ∀ a g, Q a g) :
    wp tracking (dispatchWrite server session payload) Q g := by
  apply wp_bind.mpr
  refine wp_proper (calls_within rfl) ?_
  intro parsed g
  cases parsed with
  | none => exact hQ _ _
  | some writeCommand =>
  apply wp_bind.mpr
  refine wp_proper (calls_within rfl) ?_
  intro resolved g
  cases resolved with
  | none => exact hQ _ _
  | some fullPath => exact wp_receiveTarget hQ

theorem wp_dispatchLoggedIn {command : Option Command} (hQ : ∀ a g, Q a g) :
    wp tracking (dispatchLoggedIn server session command payload) Q g := by
  unfold dispatchLoggedIn
  split
  · exact wp_dispatchAccept hQ
  · exact wp_dispatchReject hQ
  · exact wp_dispatchTransferReq hQ
  · exact wp_proper (calls_within rfl) hQ
  · exact wp_proper (calls_within rfl) hQ
  · exact wp_proper (calls_within rfl) hQ
  · exact wp_proper (calls_within rfl) hQ
  · exact wp_proper (calls_within rfl) hQ
  · exact wp_proper (calls_within rfl) hQ
  · exact wp_dispatchUpload hQ
  · exact wp_dispatchWrite hQ
  · exact wp_proper (calls_within rfl) hQ
  · exact wp_proper (calls_within rfl) hQ
  · exact wp_proper (calls_within rfl) hQ

theorem wp_dispatchLogin {Q : Session → Uses → Prop} (hQ : ∀ a g, Q a g) :
    wp tracking (dispatchLogin server session payload) Q g := by
  unfold dispatchLogin
  apply wp_bind.mpr
  refine wp_proper (calls_within rfl) ?_
  intro parsed g
  cases parsed with
  | none => exact hQ _ _
  | some loginCommand =>
  apply wp_ite.mpr
  constructor
  · intro _
    exact wp_proper (calls_within rfl) hQ
  intro _
  apply wp_ite.mpr
  constructor
  · intro _
    exact wp_proper (calls_within rfl) hQ
  intro _
  apply wp_bind.mpr
  refine wp_proper (calls_within rfl) ?_
  intro r g
  obtain ⟨result, entered⟩ := r
  cases result with
  | error errorMsg => exact wp_proper (calls_within rfl) hQ
  | ok _ =>
  apply wp_bind.mpr
  refine wp_proper (calls_within rfl) ?_
  intro _ g
  apply wp_call trivial
  intro _ _
  apply wp_call trivial
  intro found _
  obtain ⟨n, requests⟩ := found
  apply wp_bind.mpr
  apply wp_notifyWaiting
  intro _ g
  exact hQ _ _

theorem wp_dispatch {packet : Network.Packet} {Q : Session → Uses → Prop} (hQ : ∀ a g, Q a g) :
    wp tracking (dispatch server session packet) Q g := by
  unfold dispatch
  dsimp only
  apply wp_ite.mpr
  refine ⟨fun _ => wp_dispatchLogin hQ, fun _ => ?_⟩
  apply wp_ite.mpr
  constructor
  · intro _
    exact wp_proper (calls_within rfl) hQ
  intro _
  apply wp_ite.mpr
  constructor
  · intro _
    exact wp_proper (calls_within rfl) hQ
  · intro _
    apply wp_bind.mpr
    apply wp_dispatchLoggedIn
    intro _ g
    exact hQ _ _

theorem wp_sessionLoop {clientSocket : Int} {Q : Session → Uses → Prop} (hQ : ∀ a g, Q a g) :
    wp tracking (sessionLoop server clientSocket session) Q g := by
  apply wp_iterate (fun _ _ => True) trivial
  intro session g _
  apply wp_call trivial
  intro ready _
  cases ready with
  | error e => exact wp_ite.mpr ⟨fun _ => trivial, fun _ => hQ _ _⟩
  | ok ready =>
  have received : wp tracking (if clientSocket ∈ ready then receiveCommand server session
      else pure (some session)) (fun _ _ => True) g := by
    apply wp_ite.mpr
    refine ⟨fun _ => ?_, fun _ => trivial⟩
    apply wp_call trivial
    intro packet _
    cases packet with
    | none => exact trivial
    | some packet =>
      apply wp_bind.mpr
      exact wp_dispatch fun _ _ => trivial
  apply wp_bind.mpr
  apply wp_mono received
  intro r g _
  cases r with
  | none => exact hQ _ _
  | some session =>
  apply wp_ite.mpr
  refine ⟨fun _ => ?_, fun _ => trivial⟩
  apply wp_bind.mpr
  refine wp_proper (calls_within rfl) ?_
  intro stillOpen g
  exact wp_ite.mpr ⟨fun _ => trivial, fun _ => hQ _ _⟩

theorem wp_serveClient (server : Server) (clientSocket : Int) (g : Uses) :
    wp tracking (serveClient server clientSocket) (fun _ _ => True) g := by
  unfold serveClient
  apply wp_bind.mpr
  refine wp_proper (calls_within rfl) ?_
  intro dropped g
  cases dropped with
  | error e => exact wp_proper (calls_within rfl) fun _ _ => trivial
  | ok _ =>
  apply wp_bind.mpr
  unfold handleSession
  apply wp_bind.mpr
  apply wp_sessionLoop
  intro session g
  apply wp_bind.mpr
  apply wp_proper (calls_within rfl)
  intro _ g
  apply wp_proper (calls_within rfl)
  intro _ g
  exact wp_proper (calls_within rfl) fun _ _ => trivial

end sessions

end Csap.Kernel
