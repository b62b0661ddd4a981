import Csap.Sessions

/-! Every command of the server keeps to the protocol of `Sessions`, and so does a
connection from its fork to its end. -/

namespace Csap.Sessions

open Prog Interleaving

theorem local_neutral {root : CStr} {g : Ghost} (idle : g.writing = none) (c : Call)
    (h : Local c) : (protocol root).allowed g c ∧ ∀ r, (protocol root).next g c r = g := by
  refine and_congr_left' (Ghost.allowed_of_idle idle c) |>.mpr ?_
  cases c with
  | file c =>
    cases c with
    | openPath path flags mode =>
      have other : flags ≠ notifyFlags := h
      exact ⟨fun same => absurd same other, fun r => if_neg other⟩
    | write fd data => exact ⟨trivial, fun r => by simp [protocol, Ghost.next, ← idle]⟩
    | _ => exact ⟨trivial, fun _ => rfl⟩
  | socket c =>
    cases c with
    | select fds => exact absurd h id
    | _ => exact ⟨trivial, fun _ => rfl⟩
  | shared c => exact absurd h id
  | enterCopy srcPath destPath => exact absurd h id
  | user c => exact ⟨trivial, fun _ => rfl⟩
  | alloc size => exact ⟨trivial, fun _ => rfl⟩

theorem wp_local {root : CStr} {α : Type} {p : Sys α} {g : Ghost} {Q : α → Ghost → Prop}
    (h : p.Calls Local) (idle : g.writing = none) (hQ : ∀ a, Q a g) : wp (protocol root) p Q g :=
  h.wp (local_neutral idle) hQ

theorem wp_visible {root : CStr} {α : Type} {g : Ghost} {c : Call} {k : c.Reply → Sys α}
    {Q : α → Ghost → Prop} (idle : g.writing = none) (may : g.may root c)
    (next : ∀ r, g.expects c r → wp (protocol root) (k r) Q (g.next c r)) :
    wp (protocol root) (perform c >>= k) Q g :=
  wp_bind.mpr ⟨(Ghost.allowed_of_idle idle c).mpr may, next⟩

section notifications

variable {root : CStr} {g : Ghost}

theorem wp_writeAll {fd : Int} {owed : Owed} {n : Notification} {Q : SysResult Unit → Ghost → Prop}
    (writing : g.writing = some (fd, owed)) (fits : owed.fits n)
    (hQ : ∀ r, Q r { g with writing := none }) :
    wp (protocol root) (writeAll fd n.text) Q g := by
  apply wp_iterate fun remaining g' =>
    (g' = g ∧ remaining = n.text) ∨ g' = { g with writing := none }
  · exact .inl ⟨rfl, rfl⟩
  rintro remaining g' (⟨rfl, rfl⟩ | rfl)
  · have due : (protocol root).allowed g' (.file (.write fd n.text)) := by
      change Ghost.allowed root g' _
      rw [Ghost.allowed, writing]
      exact ⟨n, fits, rfl⟩
    rw [if_neg n.text_ne_nil, wp_bind, wp_perform]
    refine ⟨due, ?_⟩
    rintro (e | written) -
    · simp only [wp_ite]
      exact ⟨fun _ => .inr rfl, fun _ => hQ _⟩
    · exact .inr rfl
  · rw [wp_ite]
    refine ⟨fun _ => hQ _, fun _ => wp_visible rfl trivial ?_⟩
    rintro (e | written) -
    · simp only [wp_ite]
      exact ⟨fun _ => .inr rfl, fun _ => hQ _⟩
    · exact .inr rfl

theorem wp_notifyPid {pid : Int} {fits : Notification → Prop} {rest : List Owed}
    {n : Notification} {Q : SysResult Unit → Ghost → Prop} (owed : g.owed = ⟨pid, fits⟩ :: rest)
    (idle : g.writing = none) (hn : fits n) (hQ : ∀ r, Q r { g with owed := rest }) :
    wp (protocol root) (notifyPid root pid n.text) Q g := by
  refine wp_visible idle (fun _ => ⟨rfl, ⟨pid, fits⟩, rest, owed, rfl⟩) ?_
  rintro (e | fd) -
  · simpa [Ghost.next, notifyFlags, owed] using hQ (.error e)
  · have opened : g.next (.file (.openPath (sessionFifoPath root pid)
        { access := .wronly, nonblock := true } 0)) (.ok fd) =
        { g with owed := rest, writing := some (fd, ⟨pid, fits⟩) } := by
      simp [Ghost.next, notifyFlags, owed]
    rw [opened]
    refine wp_bind.mpr (wp_writeAll rfl hn fun r => ?_)
    refine wp_bind.mpr (wp_local (calls_within rfl) rfl fun _ => ?_)
    have same := hQ r
    rwa [← idle]

theorem wp_notifyWaiting {server : Server} (requests : List TransferRequestEntry)
    {Q : Unit → Ghost → Prop} {g : Ghost}
    (owed : g.owed = requests.map fun e =>
      ⟨server.pid, fun n => n = announcement e.id e.filePathAbsolute⟩)
    (idle : g.writing = none) (hQ : Q () { g with owed := [] }) :
    wp (protocol root) (notifyWaiting server root requests) Q g := by
  induction requests generalizing g with
  | nil =>
    have same : { g with owed := [] } = g := by rw [← show g.owed = [] from owed]
    rw [same] at hQ
    exact hQ
  | cons request rest ih =>
    refine wp_bind.mpr (wp_notifyPid owed idle rfl fun r => ?_)
    exact ih rfl idle hQ

theorem wp_executeTransferCopy {srcPath destPath : CStr} {Q : SysResult Unit → Ghost → Prop}
    (copyable : g.copyable = some srcPath) (idle : g.writing = none)
    (hQ : ∀ r, Q r { g with copyable := none }) :
    wp (protocol root) (executeTransferCopy srcPath destPath) Q g := by
  refine wp_visible idle copyable fun _ _ => wp_local ?_ idle hQ
  unfold releaseLock
  repeat' with_reducible first
    | exact calls_within rfl
    | refine Calls.iterate fun _ => ?_
    | refine Calls.bind ?_ fun _ => ?_
    | split

end notifications

/-- Between two commands: the ghost state says what the session record says. -/
structure Settled (server : Server) (root : CStr) (session : Session) (g : Ghost) : Prop where
  pid_eq : g.pid = server.pid
  root_eq : session.rootPath = root
  user_eq : g.user = if session.loggedIn then some session.user else none
  user_fits : session.loggedIn → session.user.length ≤ 31
  alive : g.ended = false
  asked : g.asking = false
  owed : g.owed = []
  writing : g.writing = none
  sought : g.taken ≠ none → g.found ≠ none

theorem Settled.loggedOut {server : Server} {root : CStr} {session session' : Session} {g : Ghost}
    (h : Settled server root session g) (root_eq : session'.rootPath = session.rootPath)
    (before : session.loggedIn = false) (after : session'.loggedIn = false) :
    Settled server root session' g where
  pid_eq := h.pid_eq
  root_eq := root_eq.trans h.root_eq
  user_eq := by rw [h.user_eq, before, after]; rfl
  user_fits := by simp [after]
  alive := h.alive
  asked := h.asked
  owed := h.owed
  writing := h.writing
  sought := h.sought

/-- At the start of a command nothing is left of the one before. -/
structure Fresh (server : Server) (root : CStr) (session : Session) (g : Ghost) : Prop
    extends Settled server root session g where
  taken : g.taken = none
  found : g.found = none

section commands

variable {server : Server} {root : CStr} {session : Session} {g : Ghost}

structure LoginOutcome (session : Session) (username : CStr)
    (r : Except CStr Unit × Session) : Prop where
  root_eq : r.2.rootPath = session.rootPath
  failed : ∀ msg, r.1 = .error msg → r.2.loggedIn = false
  succeeded : r.1 = .ok () → r.2.loggedIn = true ∧ r.2.user = snprintf 32 username

/-- Whoever looks on, `handle_login` leaves one of these outcomes. -/
theorem handleLogin_outcome {Ghost : Type} {T : Typestate Call.Reply Ghost} {username : CStr}
    {Q : Except CStr Unit × Session → Ghost → Prop} {g : Ghost} (J : Ghost → Prop)
    (step : ∀ g c, Local c → J g → T.allowed g c ∧ ∀ r, J (T.next g c r)) (start : J g)
    (before : session.loggedIn = false)
    (hQ : ∀ r g, J g → LoginOutcome session username r → Q r g) :
    wp T (handleLogin server session username) Q g := by
  have quiet : ∀ {α : Type} {p : Sys α} {R : α → Ghost → Prop} {g : Ghost}, J g → p.Calls Local →
      (∀ a g, J g → R a g) → wp T p R g :=
    fun here calls hR => calls.wp_preserving J step here hR
  have refused : ∀ g msg, J g → Q (errText 255 msg, session) g := fun g msg here =>
    hQ _ g here ⟨rfl, fun _ _ => before, by simp [errText]⟩
  have aborted : ∀ nFd fifoName msg g, J g →
      wp T (loginFailed server session nFd fifoName msg) Q g := by
    intro nFd fifoName msg g here
    refine wp_bind.mpr (quiet here (calls_within rfl) fun _ g here => ?_)
    refine wp_bind.mpr (quiet here (calls_within rfl) fun _ g here => ?_)
    refine wp_bind.mpr (quiet here (calls_within rfl) fun _ g here => ?_)
    refine wp_bind.mpr (quiet here (calls_within rfl) fun _ g here => ?_)
    exact hQ _ g here ⟨rfl, fun _ _ => rfl, by simp [errText]⟩
  unfold handleLogin
  repeat' with_reducible first
    | exact wp_pure.mpr (refused _ _ ‹_›)
    | exact aborted _ _ _ _ ‹_›
    | refine wp_bind.mpr (quiet ‹_› (calls_within rfl) fun _ _ _ => ?_)
    | split
  exact hQ _ _ ‹_› ⟨rfl, by simp, fun _ => ⟨rfl, rfl⟩⟩

theorem wp_handleLogin {username : CStr} {Q : Except CStr Unit × Session → Ghost → Prop}
    (idle : g.writing = none) (before : session.loggedIn = false)
    (hQ : ∀ r, LoginOutcome session username r → Q r g) :
    wp (protocol root) (handleLogin server session username) Q g := by
  refine handleLogin_outcome (· = g) ?_ rfl before ?_
  · rintro _ c mine rfl
    exact local_neutral idle c mine
  · rintro r _ rfl outcome
    exact hQ r outcome

theorem wp_dispatchLogin {payload : Option CStr} (h : Fresh server root session g) :
    wp (protocol root) (dispatchLogin server session payload) (Settled server root) g := by
  have idle := h.writing
  refine wp_bind.mpr (wp_local (calls_within rfl) idle fun parsed => ?_)
  split
  · rename_i loginCommand
    rw [wp_ite]
    refine ⟨fun _ => wp_bind.mpr (wp_local (calls_within rfl) idle fun _ => h.toSettled), ?_⟩
    intro loggedOut
    rw [wp_ite]
    refine ⟨fun _ => wp_bind.mpr (wp_local (calls_within rfl) idle fun _ => h.toSettled), ?_⟩
    intro short
    have out : session.loggedIn = false := by simpa using loggedOut
    refine wp_bind.mpr (wp_handleLogin idle out fun r outcome => ?_)
    obtain ⟨result, entered⟩ := r
    cases result with
    | error msg =>
      refine wp_bind.mpr (wp_local (calls_within rfl) idle fun _ => ?_)
      exact h.toSettled.loggedOut outcome.root_eq out (outcome.failed msg rfl)
    | ok =>
      obtain ⟨loggedIn, user⟩ : entered.loggedIn = true ∧ entered.user = _ := outcome.succeeded rfl
      have fits : entered.user.length ≤ 31 := by
        have := snprintf_length_lt loginCommand.buf (show 0 < 32 by decide)
        have name : entered.user.length = (snprintf 32 loginCommand.buf).length := by rw [← user]
        omega
      have root' : entered.rootPath = root := outcome.root_eq.trans h.root_eq
      refine wp_bind.mpr (wp_local (calls_within rfl) idle fun _ => ?_)
      have unnamed : g.user = none := by rw [h.user_eq, out]; rfl
      refine wp_visible idle ⟨unnamed, h.pid_eq.symm, fits⟩ fun _ _ => ?_
      refine wp_visible idle ⟨rfl, rfl, h.taken, h.owed, rfl⟩ fun found _ => ?_
      simp only [root']
      refine wp_bind.mpr (wp_notifyWaiting found.2 ?_ idle ?_)
      · simp [Ghost.next, h.pid_eq]
      · exact ⟨h.pid_eq, root', by simp [Ghost.next, loggedIn], fun _ => fits, h.alive,
          rfl, rfl, idle, fun taken => absurd h.taken taken⟩
  · exact h.toSettled

/-- While a taken request is being answered: the notification to its source is owed if the
source was seen online. -/
structure Answering (server : Server) (root : CStr) (session : Session) (e : TransferRequestEntry)
    (pid : Int) (online : Bool) (g : Ghost) : Prop where
  settled : Settled server root session { g with owed := [] }
  taken : g.taken = some e
  owed : g.owed = if online then [⟨pid, Resolves e.id⟩] else []

theorem Answering.wp_notifySource {e : TransferRequestEntry} {pid : Int} {online : Bool}
    {n : Notification} {Q : SysResult Unit → Ghost → Prop}
    (h : Answering server root session e pid online g) (hn : Resolves e.id n)
    (hQ : ∀ r, Q r { g with owed := [] }) :
    wp (protocol root) (notifySource session pid online n) Q g := by
  have owed := h.owed
  have root_eq := h.settled.root_eq
  rw [notifySource, root_eq]
  split
  · rename_i seen
    rw [if_pos seen] at owed
    exact wp_notifyPid owed h.settled.writing hn hQ
  · rename_i unseen
    rw [if_neg unseen] at owed
    have same := hQ (.ok ())
    rwa [← owed] at same

theorem wp_takeRequest {id : Int} {st : RequestStatus} {reason : CStr}
    {Q : Option (TransferRequestEntry × Int × Bool) → Ghost → Prop}
    (h : Fresh server root session g) (loggedIn : session.loggedIn = true)
    (resolves : st = .accepted ∨ st = .rejected)
    (refused : ∀ g', Settled server root session g' → Q none g')
    (hQ : ∀ e pid online g', Answering server root session e pid online g' → e.id = id →
      (st = .accepted → g'.copyable = some e.filePathAbsolute) → Q (some (e, pid, online)) g') :
    wp (protocol root) (takeRequest session id st reason) Q g := by
  have idle := h.writing
  have user_eq : g.user = some session.user := by rw [h.user_eq, if_pos loggedIn]
  refine wp_visible idle ⟨user_eq, h.taken, h.found, h.owed, resolves⟩ ?_
  rintro ⟨rc, out⟩ expected
  by_cases failed : rc < 0
  · have same : g.next (.shared (.requestTake id session.user st)) (rc, out) = g :=
      if_pos failed
    rw [same]
    simp only [if_pos failed]
    exact wp_bind.mpr (wp_local (calls_within rfl) idle fun _ => refused g h.toSettled)
  obtain ⟨e, rfl, he⟩ := expected (not_lt.mp failed)
  set g1 : Ghost :=
    { g with
      taken := some e
      copyable := if st = .accepted then some e.filePathAbsolute else none } with hg1
  have taken : g.next (.shared (.requestTake id session.user st)) (rc, some e) =
      g1 :=
    if_neg failed
  have settled : ∀ found, Settled server root session { g1.lookedUp found with owed := [] } :=
    fun _ => ⟨h.pid_eq, h.root_eq, h.user_eq, h.user_fits, h.alive, h.asked, rfl, idle, by
      simp [Ghost.lookedUp]⟩
  rw [taken]
  simp only [if_neg failed, Option.getD_some]
  have asked : ∀ e', g1.taken = some e' → e.sourceUsername = e'.sourceUsername := by
    intro e' same
    cases same
    rfl
  refine wp_visible idle ⟨asked, h.found, h.owed⟩ ?_
  rintro ⟨found, source⟩ -
  by_cases lost : found ≤ 0
  · have none : g1.next (.shared (.sessionFind e.sourceUsername)) (found, source) =
        { g1.lookedUp none with owed := [] } := by
      simp [Ghost.next, Ghost.lookedUp, not_lt.mpr lost, hg1, h.owed]
    rw [none]
    simp only [if_pos lost]
    exact wp_bind.mpr (wp_local (calls_within rfl) idle fun _ => refused _ (settled _))
  · have seen : g1.next (.shared (.sessionFind e.sourceUsername)) (found, source) =
        g1.lookedUp source := by
      simp [Ghost.next, not_le.mp lost]
    rw [seen]
    simp only [if_neg lost]
    refine hQ e _ _ _ ⟨settled _, rfl, ?_⟩ he fun accepted => if_pos accepted
    rcases source with _ | ⟨pid, _ | _⟩ <;> simp [Ghost.lookedUp, hg1, h.owed]

theorem wp_dispatchReject {payload : Option CStr} (h : Fresh server root session g)
    (loggedIn : session.loggedIn = true) :
    wp (protocol root) (dispatchReject session payload) (fun _ => Settled server root session)
      g := by
  have idle := h.writing
  refine wp_bind.mpr (wp_local (calls_within rfl) idle fun parsed => ?_)
  split
  · rename_i rejectCommand
    dsimp only
    rw [wp_ite]
    refine ⟨fun _ => wp_bind.mpr (wp_local (calls_within rfl) idle fun _ => h.toSettled), ?_⟩
    intro _
    refine wp_bind.mpr (wp_takeRequest h loggedIn (.inr rfl) (fun g' settled => settled) ?_)
    intro e pid online g' answering he _
    refine wp_bind.mpr (answering.wp_notifySource (resolves_reject _) fun r => ?_)
    refine wp_local ?_ answering.settled.writing fun _ => answering.settled
    split
    · exact calls_within rfl
    · exact calls_within rfl
  · exact h.toSettled

theorem wp_answerAccept {e : TransferRequestEntry} {pid : Int} {online : Bool}
    {baseName destPath : CStr} {copyResult : SysResult Unit}
    (h : Answering server root session e pid online g) :
    wp (protocol root) (answerAccept session e pid online baseName destPath copyResult)
      (fun _ => Settled server root session) g := by
  refine wp_bind.mpr (h.wp_notifySource ?_ fun r => ?_)
  · split
    · exact resolves_fail _ _
    · exact resolves_accept _ _
  · refine wp_local ?_ h.settled.writing fun _ => h.settled
    split
    · exact calls_within rfl
    · split
      · exact calls_within rfl
      · exact calls_within rfl

theorem wp_acceptCopy {id : Int} {destPath : CStr} {e : TransferRequestEntry} {pid : Int}
    {online : Bool} (h : Answering server root session e pid online g) (he : e.id = id)
    (copyable : g.copyable = some e.filePathAbsolute) :
    wp (protocol root) (acceptCopy session id destPath e pid online)
      (fun _ => Settled server root session) g := by
  have idle : g.writing = none := h.settled.writing
  refine wp_bind.mpr (wp_executeTransferCopy copyable idle fun copyResult => ?_)
  have copied : Answering server root session e pid online { g with copyable := none } :=
    ⟨⟨h.settled.pid_eq, h.settled.root_eq, h.settled.user_eq, h.settled.user_fits,
      h.settled.alive, h.settled.asked, rfl, idle, h.settled.sought⟩, h.taken, h.owed⟩
  rw [wp_bind, wp_when]
  refine ⟨fun _ => ?_, fun _ => wp_answerAccept copied⟩
  exact wp_visible idle ⟨rfl, e, h.taken, he⟩ fun _ _ => wp_answerAccept copied

theorem wp_dispatchAccept {payload : Option CStr} (h : Fresh server root session g)
    (loggedIn : session.loggedIn = true) :
    wp (protocol root) (dispatchAccept session payload) (fun _ => Settled server root session)
      g := by
  have idle := h.writing
  refine wp_bind.mpr (wp_local (calls_within rfl) idle fun parsed => ?_)
  split
  · rename_i acceptCommand
    dsimp only
    rw [wp_ite]
    refine ⟨fun _ => wp_bind.mpr (wp_local (calls_within rfl) idle fun _ => h.toSettled), ?_⟩
    intro _
    refine wp_bind.mpr (wp_local (calls_within rfl) idle fun resolved => ?_)
    split
    · refine wp_bind.mpr (wp_takeRequest h loggedIn (.inl rfl) (fun g' settled => settled) ?_)
      intro e pid online g' answering he copyable
      exact wp_acceptCopy answering he (copyable rfl)
    · exact h.toSettled
  · exact h.toSettled

theorem wp_enterRequest {destUser srcPath : CStr} {pid : Int} {online : Bool}
    (h : Settled server root session g) (loggedIn : session.loggedIn = true)
    (untaken : g.taken = none)
    (found : ∀ pid', g.found = some (some (pid', true)) ↔ online = true ∧ pid' = pid) :
    wp (protocol root) (enterRequest session destUser srcPath pid online)
      (fun _ => Settled server root session) g := by
  have idle := h.writing
  have user_eq : g.user = some session.user := by rw [h.user_eq, if_pos loggedIn]
  refine wp_visible idle ⟨user_eq, h.alive, untaken, h.owed⟩ fun newId _ => ?_
  rw [wp_ite]
  constructor
  · intro failed
    have same : g.next (.shared (.requestAdd session.user destUser srcPath)) newId =
        g :=
      if_pos failed
    rw [same]
    exact wp_bind.mpr (wp_local (calls_within rfl) idle fun _ => h)
  · intro added
    cases online with
    | true =>
      have next : g.next (.shared (.requestAdd session.user destUser srcPath))
          newId = { g with owed := [⟨pid, fun n => n = announcement newId srcPath⟩] } := by
        have seen := (found pid).mpr ⟨rfl, rfl⟩
        simp [Ghost.next, added, seen]
      have settled : Settled server root session { g with owed := [] } :=
        ⟨h.pid_eq, h.root_eq, h.user_eq, h.user_fits, h.alive, h.asked, rfl, idle, h.sought⟩
      rw [next, if_pos rfl, h.root_eq]
      refine wp_bind.mpr (wp_notifyPid rfl idle rfl fun r => ?_)
      refine wp_local ?_ idle fun _ => settled
      split
      · exact calls_within rfl
      · exact Calls.pure _
    | false =>
      have next : g.next (.shared (.requestAdd session.user destUser srcPath))
          newId = g := by
        simp only [Ghost.next, if_neg added]
        split
        · rename_i pid' seen
          cases ((found pid').mp seen).1
        · rfl
      rw [next]
      exact h

theorem wp_dispatchTransferReq {payload : Option CStr} (h : Fresh server root session g)
    (loggedIn : session.loggedIn = true) :
    wp (protocol root) (dispatchTransferReq server session payload)
      (fun _ => Settled server root session) g := by
  have idle := h.writing
  refine wp_bind.mpr (wp_local (calls_within rfl) idle fun parsed => ?_)
  split
  · rename_i transferCommand
    dsimp only
    refine wp_bind.mpr (wp_local (calls_within rfl) idle fun resolved => ?_)
    split
    · refine wp_bind.mpr (wp_local (calls_within rfl) idle fun srcSt => ?_)
      split
      · exact wp_local (calls_within rfl) idle fun _ => h.toSettled
      · rw [wp_ite]
        refine ⟨fun _ => wp_bind.mpr (wp_local (calls_within rfl) idle fun _ => h.toSettled), ?_⟩
        intro _
        have unasked : ∀ e, g.taken = some e → transferCommand.buf2 = e.sourceUsername := by
          simp [h.taken]
        refine wp_visible idle ⟨unasked, h.found, h.owed⟩ ?_
        rintro ⟨found, dest⟩ -
        set g1 : Ghost := g.lookedUp (if 0 < found then dest else none) with hg1
        have looked : g.next (.shared (.sessionFind transferCommand.buf2))
            (found, dest) = g1 :=
          rfl
        have settled : Settled server root session g1 := by
          have owed : g1.owed = [] := by simp [hg1, Ghost.lookedUp, h.taken, h.owed]
          exact ⟨h.pid_eq, h.root_eq, h.user_eq, h.user_fits, h.alive, h.asked, owed, idle, by
            simp [hg1, Ghost.lookedUp]⟩
        rw [looked]
        dsimp only
        rw [wp_ite]
        refine ⟨fun _ => wp_bind.mpr (wp_local (calls_within rfl) idle fun _ => settled), ?_⟩
        intro _
        rw [wp_ite]
        constructor
        · intro offline
          refine wp_bind.mpr (wp_local (calls_within rfl) idle fun userExists => ?_)
          rw [wp_ite]
          refine ⟨fun _ => wp_bind.mpr (wp_local (calls_within rfl) idle fun _ => settled), ?_⟩
          intro _
          rw [wp_ite]
          refine ⟨fun _ => wp_bind.mpr (wp_local (calls_within rfl) idle fun _ => settled), ?_⟩
          intro _
          refine wp_enterRequest settled loggedIn h.taken fun pid' => ?_
          simp only [Bool.false_eq_true, false_and, iff_false, hg1, Ghost.lookedUp,
            Option.some.injEq]
          intro seen
          split at seen
          · rename_i positive
            rw [seen] at offline
            simp at offline
            omega
          · cases seen
        · intro online
          refine wp_enterRequest settled loggedIn h.taken fun pid' => ?_
          have positive : 0 < found := by omega
          rcases dest with _ | ⟨destPid, _ | _⟩
          · simp at online
          · simp at online
          · simp [hg1, Ghost.lookedUp, positive, eq_comm]
    · exact h.toSettled
  · exact h.toSettled

theorem wp_dispatchLoggedIn {command : Option Command} {payload : Option CStr}
    (h : Fresh server root session g) (loggedIn : session.loggedIn = true) :
    wp (protocol root) (dispatchLoggedIn server session command payload)
      (fun _ => Settled server root session) g := by
  have alone : ∀ {p : Sys Unit}, p.Calls Local →
      wp (protocol root) p (fun _ => Settled server root session) g :=
    fun isOwn => wp_local isOwn h.writing fun _ => h.toSettled
  unfold dispatchLoggedIn
  split
  · exact wp_dispatchAccept h loggedIn
  · exact wp_dispatchReject h loggedIn
  · exact wp_dispatchTransferReq h loggedIn
  · exact alone (calls_within rfl)
  · exact alone (calls_within rfl)
  · exact alone (calls_within rfl)
  · exact wp_local (calls_within rfl) h.writing fun _ => h.toSettled
  · exact alone (calls_within rfl)
  · exact alone (calls_within rfl)
  · exact alone (calls_within rfl)
  · exact alone (calls_within rfl)
  · exact alone (calls_within rfl)
  · exact alone (calls_within rfl)
  · exact alone (calls_within rfl)

theorem wp_dispatch {packet : Network.Packet} (h : Fresh server root session g) :
    wp (protocol root) (dispatch server session packet) (Settled server root) g := by
  unfold dispatch
  dsimp only
  split
  · exact wp_dispatchLogin h
  split
  · exact wp_bind.mpr (wp_local (calls_within rfl) h.writing fun _ => h.toSettled)
  split
  · exact wp_bind.mpr (wp_local (calls_within rfl) h.writing fun _ => h.toSettled)
  · rename_i loggedIn
    exact wp_bind.mpr (wp_mono (wp_dispatchLoggedIn h (by simpa using loggedIn)) fun _ _ settled =>
      settled)

theorem wp_sessionLoop {clientSocket : Int} (h : Settled server root session g) :
    wp (protocol root) (sessionLoop server clientSocket session) (Settled server root) g := by
  apply wp_iterate (Settled server root)
  · exact h
  intro session g h
  have fresh : Fresh server root session
      { g with taken := none, found := none, copyable := none } :=
    ⟨⟨h.pid_eq, h.root_eq, h.user_eq, h.user_fits, h.alive, h.asked, h.owed, h.writing, by simp⟩, rfl, rfl⟩
  refine wp_visible h.writing ⟨h.owed, h.sought, h.asked⟩ ?_
  rintro (e | ready) -
  · dsimp only
    split
    · exact fresh.toSettled
    · exact fresh.toSettled
  dsimp only
  rw [wp_bind]
  have received : wp (protocol root)
      (if clientSocket ∈ ready then receiveCommand server session else pure (some session))
      (fun received => Settled server root (received.getD session))
      { g with taken := none, found := none, copyable := none } := by
    rw [wp_ite]
    refine ⟨fun _ => ?_, fun _ => fresh.toSettled⟩
    refine wp_visible h.writing trivial ?_
    rintro (_ | packet) -
    · exact fresh.toSettled
    · exact wp_bind.mpr (wp_dispatch fresh)
  refine wp_mono received ?_
  rintro (_ | session) g settled
  · exact settled
  dsimp only
  split
  · refine wp_bind.mpr (wp_local (calls_within rfl) settled.writing fun stillOpen => ?_)
    split
    · exact settled
    · exact settled
  · exact settled

/-- A connection keeps to the protocol from its fork to its end, and has failed its requests then. -/
theorem wp_serveClient (server : Server) (clientSocket : Int) :
    wp (protocol (snprintf PATH_MAX server.rootDirectory)) (serveClient server clientSocket)
      (fun _ g => g.Left) { pid := server.pid } := by
  refine wp_bind.mpr (wp_local (calls_within rfl) rfl fun dropped => ?_)
  split
  · exact wp_local (calls_within rfl) rfl fun _ named => absurd rfl named
  have connected : Settled server (snprintf PATH_MAX server.rootDirectory)
      { rootPath := snprintf PATH_MAX server.rootDirectory } { pid := server.pid } :=
    ⟨rfl, rfl, rfl, by simp, rfl, rfl, rfl, rfl, by simp⟩
  refine wp_bind.mpr (wp_bind.mpr (wp_mono (wp_sessionLoop connected) fun session g settled => ?_))
  have closing : ∀ g : Ghost, g.writing = none → g.Left →
      wp (protocol (snprintf PATH_MAX server.rootDirectory))
        (when (0 ≤ session.notifyFd) do
          let _ ← fileCall (.close session.notifyFd)
          let _ ← userCall (.seteuid 0)
          let _ ← fileCall (.unlink (sessionFifoPath session.rootPath server.pid)))
        (fun _ => wp (protocol (snprintf PATH_MAX server.rootDirectory))
          (do let _ ← fileCall (.close clientSocket)) fun _ g => g.Left) g := by
    intro g idle left
    exact wp_local (calls_within rfl) idle fun _ => wp_local (calls_within rfl) idle fun _ => left
  rw [wp_bind, wp_when]
  constructor
  swap
  · intro loggedOut
    refine closing g settled.writing fun named => ?_
    rw [settled.user_eq, if_neg loggedOut] at named
    exact absurd rfl named
  intro loggedIn
  have may : g.may (snprintf PATH_MAX server.rootDirectory)
      (.shared (.requestsSetFailed session.user)) := by
    change g.user = some session.user
    rw [settled.user_eq, if_pos loggedIn]
  rw [wp_bind]
  exact wp_visible settled.writing may fun _ _ => closing _ settled.writing fun _ => rfl

end commands

end Csap.Sessions
