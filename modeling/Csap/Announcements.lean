import Csap.Routing

/-! When a request reaches its destination. The sender looks the destination up, adds
the request and notifies the session it saw; a session that logs in announces the
requests it finds waiting. A request added between the two is announced by neither. -/

namespace Csap.Sessions

open Interleaving

def Collected (log : Log) (pid : Int) (user : CStr) : Prop :=
  ∃ e ∈ log, e.act.pid = pid ∧ ∃ max, e.act.call = .shared (.requestsForDest user max)

/-- A login of the user was answered, and has gone on to add the session. -/
def LoggedIn (log : Log) (pid : Int) (user : CStr) : Prop :=
  ∃ e ∈ log, e.act.pid = pid ∧ ∃ p, e.act.call = .shared (.sessionAdd user p)

/-- A command that made such a call has run to completion. -/
def Finished (c : Config) (pid : Int) (cause : Event → Prop) : Prop :=
  (∃ fds k, c.procs pid = .call (.socket (.select fds)) k) ∨ ∀ e ∈ command pid c.log, ¬ cause e

def AddsRequest (id : Int) (e : Event) : Prop :=
  ∃ src dst path, e.act = ⟨e.act.pid, .shared (.requestAdd src dst path), id⟩

def CollectsRequests (e : Event) : Prop :=
  ∃ user max, e.act.call = .shared (.requestsForDest user max)

def LogsIn (e : Event) : Prop :=
  (∃ user pid, e.act.call = .shared (.sessionAdd user pid)) ∨ CollectsRequests e

def NotifyFailed (log : Log) : Prop :=
  ∃ pid path, Refused (own pid log) pid path ∨
    ∃ data r, Sends (own pid log) pid path data r ∧ r ≠ .ok data.length

def Delivered (log : Log) (path data : CStr) : Prop :=
  ∃ pid, Sends (own pid log) pid path data (.ok data.length)

/-- A request that still waits for a user was announced to every session of that user that is logged
in and open, once the commands of both sides have finished and no notification failed. -/
def Announced (root : CStr) (c : Config) : Prop :=
  ∀ slot entry pid, PendingAt c.state.mem slot entry → LoggedIn c.log pid entry.destUsername →
    Open c.log c.state pid →
    Finished c (c.state.issuer slot) (AddsRequest entry.id) → Finished c pid LogsIn →
    ¬ NotifyFailed c.log →
    ∃ name, Delivered c.log (sessionFifoPath root pid) (Notification.req entry.id name).text

/-- A request is added only if each open session of its destination that has already asked for
waiting requests is the one the sender's lookup saw; and that question gets its answer. -/
def SeesReceivers (before : Log) (e : Event) : Prop :=
  (∀ src dst path, e.act.call = .shared (.requestAdd src dst path) →
    addSlot e.choice.sem e.before.mem ≠ none →
      0 ≤ e.before.mem.pendingRequestsTable.nextId ∧
      ∀ pid, Collected before pid (usernameField dst) → Open before e.before pid →
        ∃ l ∈ command e.act.pid before, l.act.call = .shared (.sessionFind dst) ∧
          l.choice.sem = .ok () ∧ SessionOf l.before.mem dst pid) ∧
  ∀ user max, e.act.call = .shared (.requestsForDest user max) →
    (∃ slot entry, PendingAt e.before.mem slot entry ∧ entry.destUsername = user) →
      e.choice.sem = .ok ()

/-- The process owes the session an announcement of the request in its current command, or has
attempted it. -/
def OnItsWay (root : CStr) (log : Log) (sender pid id : Int) (cause : Event → Prop) : Prop :=
  ∃ o : Owed, o.pid = pid ∧ (∀ n, o.fits n → ∃ name, n = .req id name) ∧
    ((Owes root log sender o ∧ ∃ e ∈ command sender log, cause e) ∨
      Attempted root (own sender log) sender o)

section runs

variable {root : CStr} {s t : State} {log : Log} {e : Event} {sender pid id : Int}
  {cause : Event → Prop}

theorem OnItsWay.append (h : OnItsWay root log sender pid id cause)
    (trace : Trace (protocol root) init machine s log e.before)
    (allowed : (protocol root).allowed (ghostOf (protocol root) init e.act.pid log) e.act.call) :
    OnItsWay root (log ++ [e]) sender pid id cause := by
  obtain ⟨o, target, fits, progress⟩ := h
  refine ⟨o, target, fits, ?_⟩
  rcases progress with ⟨owes, e', member, because⟩ | attempted
  · rcases owes_append trace allowed owes with owes' | attempted
    · refine .inl ⟨owes', e', ?_, because⟩
      rw [command_append]
      by_cases same : e.act.pid = sender
      · rw [if_neg (not_not.mpr same)]
        by_cases waits : isSelect e.act.call = true
        · -- nothing is owed when the process waits
          exfalso
          subst same
          obtain ⟨⟨who, q, r⟩, choice, before, after⟩ := e
          cases q with
          | socket q =>
            cases q with
            | select fds =>
              obtain ⟨idle, none, -⟩ := Ghost.may_of_allowed allowed (by simp)
              rcases owes with owed | ⟨fd, writing⟩
              · rw [none] at owed
                cases owed
              · rw [idle] at writing
                cases writing
            | _ => cases waits
          | _ => cases waits
        · rw [if_neg waits]
          exact List.mem_append_left _ member
      · rwa [if_pos same]
    · exact .inr (attempted.mono (command_suffix sender _).isInfix)
  · exact .inr (attempted.mono (own_extends sender log e).isInfix)

theorem found_next {g : Ghost} {c : Call} (r : c.Reply) (waits : isSelect c = false)
    (other : ∀ user, c ≠ .shared (.sessionFind user)) : (g.next c r).found = g.found := by
  unfold Ghost.next
  repeat' split
  all_goals first | rfl | exact absurd rfl (other _) | cases waits

theorem found_of_lookup (trace : Trace (protocol root) init machine s log t) {user : CStr}
    {l : Event} (member : l ∈ command sender log) (lookup : l.act.call = .shared (.sessionFind user))
    (sem : l.choice.sem = .ok ()) (listed : SessionOf l.before.mem user pid) :
    (ghostOf (protocol root) init sender log).found = some (some (pid, true)) := by
  induction trace with
  | nil => cases member
  | @snoc log t t' who q choice r old allowed expected done ih =>
    rw [command_append] at member
    rw [ghostOf_append]
    by_cases same : who = sender
    · subst same
      rw [if_pos rfl]
      rw [if_neg (not_not.mpr rfl)] at member
      split at member
      · cases member
      rename_i waits
      rcases List.mem_append.mp member with before | new
      · have known := ih before
        have other : ∀ user', q ≠ .shared (.sessionFind user') := by
          rintro user' rfl
          have unsought := (Ghost.may_of_allowed allowed (by simp)).2.2.1
          rw [known] at unsought
          cases unsought
        exact (found_next r (by simpa using waits) other).trans known
      · obtain rfl := List.mem_singleton.mp new
        cases lookup
        have found : shmSessionFind choice.sem t.mem user = r :=
          congrArg Prod.fst (machine_shared done)
        rw [show choice.sem = .ok () from sem, shmSessionFind_of_sessionOf listed] at found
        subst found
        rfl
    · rw [if_neg same]
      rw [if_pos same] at member
      exact ih member

theorem login_next {g : Ghost} {c : Call} (r : c.Reply) (other : ∀ user pid, c ≠ .shared (.sessionAdd user pid))
    (later : ∀ user max, c ≠ .shared (.requestsForDest user max)) :
    (g.next c r).asking = g.asking ∧ (g.next c r).user = g.user := by
  unfold Ghost.next
  repeat' split
  all_goals first | exact ⟨rfl, rfl⟩ | exact absurd rfl (other _ _) | exact absurd rfl (later _ _)

/-- A session that has logged in collects the requests of its user before its next command. -/
theorem collected_of_loggedIn (trace : Trace (protocol root) init machine s log t) {user : CStr}
    (loggedIn : LoggedIn log pid user) : Collected log pid user ∨
      (ghostOf (protocol root) init pid log).asking = true ∧
      (ghostOf (protocol root) init pid log).user = some user ∧ ∃ e ∈ command pid log, LogsIn e := by
  induction trace with
  | nil =>
    obtain ⟨_, impossible, _⟩ := loggedIn
    cases impossible
  | @snoc log t t' who q choice r old allowed expected done ih =>
    have keep : Collected log pid user → Collected (log ++ [⟨⟨who, q, r⟩, choice, t, t'⟩]) pid user := by
      rintro ⟨e, member, same, asks⟩
      exact ⟨e, List.mem_append_left _ member, same, asks⟩
    rw [ghostOf_append]
    obtain ⟨e, member, mine, p, adds⟩ := loggedIn
    rcases List.mem_append.mp member with before | new
    · rcases ih ⟨e, before, mine, p, adds⟩ with collected | ⟨asking, named, e', inside, login⟩
      · exact .inl (keep collected)
      by_cases same : who = pid
      · subst same
        rw [if_pos rfl, command_append, if_neg (not_not.mpr rfl)]
        by_cases collects : ∃ user max, q = .shared (.requestsForDest user max)
        · -- only of its own user
          obtain ⟨user', max, rfl⟩ := collects
          have own := (Ghost.may_of_allowed allowed (by simp)).2.1
          rw [named] at own
          cases own
          exact .inl ⟨_, List.mem_append_right _ (List.mem_singleton.mpr rfl), rfl, max, rfl⟩
        by_cases adds' : ∃ user pid, q = .shared (.sessionAdd user pid)
        · obtain ⟨user', pid', rfl⟩ := adds'
          have unnamed := (Ghost.may_of_allowed allowed (by simp)).2.1
          rw [named] at unnamed
          cases unnamed
        have waits : ¬ isSelect q = true := by
          intro waits
          cases q with
          | socket q =>
            cases q with
            | select fds =>
              have settled := (Ghost.may_of_allowed allowed (by simp)).2.2.2
              rw [asking] at settled
              cases settled
            | _ => cases waits
          | _ => cases waits
        obtain ⟨stays, names⟩ := login_next (g := ghostOf (protocol root) init who log) r
          (fun user pid same => adds' ⟨user, pid, same⟩) (fun user max same => collects ⟨user, max, same⟩)
        rw [if_neg waits]
        exact .inr ⟨stays.trans asking, names.trans named, e', List.mem_append_left _ inside, login⟩
      · rw [if_neg same, command_append, if_pos same]
        exact .inr ⟨asking, named, e', inside, login⟩
    · obtain rfl := List.mem_singleton.mp new
      cases mine
      cases adds
      rw [if_pos rfl]
      exact .inr ⟨rfl, rfl, _, mem_command_append log _ rfl, .inl ⟨_, _, rfl⟩⟩

theorem onItsWay_of_collect {slot : Nat} {entry : TransferRequestEntry}
    (made : Made e) (pending : PendingAt e.before.mem slot entry)
    (collects : ∃ max, e.act.call = .shared (.requestsForDest entry.destUsername max))
    (allowed : (protocol root).allowed (ghostOf (protocol root) init e.act.pid log) e.act.call)
    (sem : e.choice.sem = .ok ()) :
    OnItsWay root (log ++ [e]) e.act.pid e.act.pid entry.id CollectsRequests := by
  have inside : isSelect e.act.call = false → e ∈ command e.act.pid (log ++ [e]) :=
    mem_command_append log e
  obtain ⟨⟨who, q, r⟩, choice, before, after⟩ := e
  obtain ⟨max, rfl⟩ := collects
  obtain ⟨-, -, rfl, -⟩ := Ghost.may_of_allowed allowed (by simp)
  have found : shmRequestsForDest choice.sem before.mem entry.destUsername MAX_ENTRIES = r :=
    congrArg Prod.fst (machine_shared made)
  have listed : entry ∈ r.2 := by
    rw [← found, show choice.sem = .ok () from sem]
    have few : (before.mem.pendingRequestsTable.live.filter (·.waitsFor entry.destUsername)).length ≤
        MAX_ENTRIES :=
      (List.length_filter_le _ _).trans ((SlotTable.length_live _).trans_le
        before.mem.pendingRequestsTable.count_le)
    simp only [shmRequestsForDest, Int.toNat_natCast]
    rw [List.take_of_length_le few]
    refine List.mem_filter.mpr ⟨List.mem_of_getElem? pending.1, ?_⟩
    exact decide_eq_true ⟨pending.2, rfl⟩
  refine ⟨⟨who, fun n => n = announcement entry.id entry.filePathAbsolute⟩, rfl,
    fun n same => ⟨_, same⟩, .inl ⟨.inl ?_, _, inside rfl, entry.destUsername, _, rfl⟩⟩
  rw [ghostOf_append, if_pos rfl]
  change _ ∈ r.2.map _
  exact List.mem_map.mpr ⟨entry, listed, by simp⟩

theorem onItsWay_of_add {src dst path : CStr} (positive : 0 ≤ id) (act : e.act = ⟨e.act.pid, .shared (.requestAdd src dst path), id⟩)
    (found : (ghostOf (protocol root) init e.act.pid log).found = some (some (pid, true))) :
    OnItsWay root (log ++ [e]) e.act.pid pid id (AddsRequest id) := by
  have inside : isSelect e.act.call = false → e ∈ command e.act.pid (log ++ [e]) :=
    mem_command_append log e
  obtain ⟨⟨who, q, r⟩, choice, before, after⟩ := e
  cases act
  refine ⟨⟨pid, fun n => n = announcement id path⟩, rfl, fun n same => ⟨_, same⟩,
    .inl ⟨.inl ?_, _, inside rfl, src, dst, path, rfl⟩⟩
  have found' : (ghostOf (protocol root) init who log).found = some (some (pid, true)) := found
  rw [ghostOf_append, if_pos rfl]
  change _ ∈ ((ghostOf (protocol root) init who log).next (.shared (.requestAdd src dst path)) id).owed
  simp [Ghost.next, not_lt.mpr positive, found']

/-- Every pending request is on its way to the open sessions that have asked for theirs. -/
theorem trace_onItsWay (trace : Trace (protocol root) init machine setupState log t)
    (sees : Every SeesReceivers log) :
    ∀ {slot entry pid}, PendingAt t.mem slot entry → Collected log pid entry.destUsername →
      Open log t pid →
      OnItsWay root log (t.issuer slot) pid entry.id (AddsRequest entry.id) ∨
        OnItsWay root log pid pid entry.id CollectsRequests := by
  induction trace with
  | nil => exact fun pending => by cases pending.1
  | @snoc log t t' who q choice r old allowed expected done ih =>
    intro slot entry pid pending collected still
    obtain ⟨earlier, added, collects⟩ := every_append.mp sees
    have made : Made ⟨⟨who, q, r⟩, choice, t, t'⟩ := done
    have before := still.of_append made
    rcases pendingAt_of_made made allowed pending with
      ⟨waited, same⟩ | ⟨issued, free, next, src, dst, path, act, -, dest, -⟩
    · dsimp only at same
      rw [same]
      by_cases asked : Collected log pid entry.destUsername
      · exact (ih earlier waited asked before).imp (·.append old allowed) (·.append old allowed)
      · obtain ⟨e, member, own, max, collect⟩ := collected
        rcases List.mem_append.mp member with previous | new
        · exact absurd ⟨e, previous, own, max, collect⟩ asked
        · obtain rfl := List.mem_singleton.mp new
          subst own
          have sem := collects _ _ collect ⟨slot, entry, waited, rfl⟩
          exact .inr (onItsWay_of_collect made waited ⟨max, collect⟩ allowed sem)
    · dsimp only at issued
      rw [issued]
      cases act
      obtain ⟨positive, seen⟩ := added src dst path rfl (by simp [free])
      have asked : Collected log pid (usernameField dst) := by
        obtain ⟨e, member, own, max, collect⟩ := collected
        rcases List.mem_append.mp member with previous | new
        · exact ⟨e, previous, own, max, by rw [collect, dest]⟩
        · obtain rfl := List.mem_singleton.mp new
          cases collect
      obtain ⟨l, inside, lookup, sem, listed⟩ := seen pid asked before
      refine .inl (onItsWay_of_add ?_ rfl (found_of_lookup old inside lookup sem listed))
      rw [next]
      exact positive

end runs

theorem collected_of_finished {root : CStr} {s : State} {c : Config} {pid : Int} {user : CStr}
    (disciplined : Disciplined (protocol root) init c)
    (trace : Trace (protocol root) init machine s c.log c.state) (loggedIn : LoggedIn c.log pid user)
    (finished : Finished c pid LogsIn) : Collected c.log pid user := by
  rcases collected_of_loggedIn trace loggedIn with collected | ⟨asking, -, e, inside, login⟩
  · exact collected
  · exfalso
    rcases finished with ⟨fds, k, waits⟩ | passed
    · have keeps := disciplined pid
      rw [waits] at keeps
      have settled := (Ghost.may_of_allowed keeps.1 (by simp)).2.2.2
      rw [asking] at settled
      cases settled
    · exact passed e inside login

theorem delivered_of_onItsWay {root : CStr} {c : Config} {sender pid id : Int}
    {cause : Event → Prop} (disciplined : Disciplined (protocol root) init c)
    (way : OnItsWay root c.log sender pid id cause) (finished : Finished c sender cause)
    (fine : ¬ NotifyFailed c.log) :
    ∃ name, Delivered c.log (sessionFifoPath root pid) (Notification.req id name).text := by
  obtain ⟨o, rfl, fits, ⟨owes, e, member, because⟩ | attempted⟩ := way
  · exfalso
    rcases finished with ⟨fds, k, waits⟩ | passed
    · have keeps := disciplined sender
      rw [waits] at keeps
      obtain ⟨idle, none, -⟩ := Ghost.may_of_allowed keeps.1 (by simp)
      rcases owes with owed | ⟨fd, writing⟩
      · rw [none] at owed
        cases owed
      · rw [idle] at writing
        cases writing
    · exact passed e member because
  · rcases attempted with ⟨n, r, fit, sends⟩ | refused
    · obtain ⟨name, rfl⟩ := fits n fit
      refine ⟨name, sender, ?_⟩
      by_cases whole : r = .ok (Notification.req id name).text.length
      · rwa [whole] at sends
      · exact absurd ⟨sender, _, .inr ⟨_, r, sends, whole⟩⟩ fine
    · exact absurd ⟨sender, _, .inl refused⟩ fine

/-- No notification is lost in a run in which the senders see the receivers that have already asked
for their requests. -/
theorem requests_announced {server : Server} {mainPid : Int} {clientSocket : Int → Int}
    {c : Config} (h : Reaches machine (start server mainPid clientSocket) c)
    (sees : Every SeesReceivers c.log) : Announced (rootOf server) c := by
  obtain ⟨concludes, trace⟩ := server_trace h
  intro slot entry pid pending loggedIn still sent login fine
  have collected := collected_of_finished concludes.disciplined trace loggedIn login
  have asked : Finished c pid CollectsRequests :=
    login.imp_right fun passed e inside collects => passed e inside (.inr collects)
  rcases trace_onItsWay trace sees pending collected still with way | way
  · exact delivered_of_onItsWay concludes.disciplined way sent fine
  · exact delivered_of_onItsWay concludes.disciplined way asked fine

section examples

/-- A decidable form of `SeesReceivers`. -/
def seesReceivers (before : Log) (e : Event) : Bool :=
  match e.act.call with
  | .shared (.requestAdd _ dst _) =>
    0 ≤ e.before.mem.pendingRequestsTable.nextId && before.all fun e' =>
      match e'.act.call with
      | .shared (.requestsForDest user _) => user ≠ usernameField dst ||
        (command e.act.pid before).any fun l => l.act.call = .shared (.sessionFind dst) &&
          l.choice.sem = .ok () && isSessionOf l.before.mem dst e'.act.pid
      | _ => true
  | .shared (.requestsForDest _ _) => e.choice.sem = .ok ()
  | _ => true

theorem seesReceivers_sound (before : Log) (e : Event) (h : seesReceivers before e = true) :
    SeesReceivers before e := by
  constructor
  · intro src dst path adds _
    rw [seesReceivers, adds] at h
    obtain ⟨positive, all⟩ := Bool.and_eq_true_iff.mp h
    refine ⟨of_decide_eq_true positive, ?_⟩
    rintro pid ⟨e', member, rfl, max, collects⟩ -
    have seen := List.all_eq_true.mp all e' member
    simpa [collects, List.any_eq_true, isSessionOf_iff, and_assoc] using seen
  · intro user max collects _
    rw [seesReceivers, collects] at h
    exact of_decide_eq_true h

/-- The request of `acceptedTransfer`, before Bob accepts it. -/
theorem requests_announced_online :
    ∃ c, Reaches machine (start calmServer 1 fun _ => 3) c ∧
      c.state.mem.pendingRequestsTable.live.map (·.status) = [.pending] ∧
      Announced (rootOf calmServer) c := by
  have ran : (run machine (acceptedTransfer.take 3) (start calmServer 1 fun _ => 3)).any
      (fun c => decide (c.state.mem.pendingRequestsTable.live.map (·.status) = [.pending] ∧
        everyFrom seesReceivers [] c.log = true)) = true := by
    decide +kernel
  obtain ⟨c, reaches, pending, sees⟩ := exists_of_run _ ran
  exact ⟨c, reaches, pending,
    requests_announced reaches (every_of_everyFrom seesReceivers_sound sees)⟩

def isNotifyOpen : Call → Bool
  | .file (.openPath _ flags _) => flags = notifyFlags
  | _ => false

theorem no_notices {log : Log} (h : ∀ e ∈ log, isNotifyOpen e.act.call = false) :
    ¬ NotifyFailed log ∧ ∀ path data, ¬ Delivered log path data := by
  have unopened : ∀ pid path r, ⟨pid, notifyOpen path, r⟩ ∉ own pid log := by
    intro pid path r member
    obtain ⟨e, inside, act⟩ := List.mem_map.mp member
    have closed := h e (List.mem_filter.mp inside).1
    rw [act] at closed
    simp [isNotifyOpen, notifyOpen] at closed
  have unsent : ∀ pid path data r, ¬ Sends (own pid log) pid path data r := by
    rintro pid path data r ⟨fd, sent⟩
    exact unopened pid path _ (sent.subset List.mem_cons_self)
  constructor
  · rintro ⟨pid, path, ⟨err, refused⟩ | ⟨data, r, sends, -⟩⟩
    · exact unopened pid path _ refused
    · exact unsent pid path data r sends
  · rintro path data ⟨pid, sends⟩
    exact unsent pid path data _ sends

def waits (c : Config) (pid : Int) : Bool :=
  match c.procs pid with
  | .call (.socket (.select _)) _ => true
  | _ => false

theorem finished_of_waits {c : Config} {pid : Int} (h : waits c pid = true)
    (cause : Event → Prop) : Finished c pid cause := by
  unfold waits at h
  split at h
  · rename_i fds k at_select
    exact .inl ⟨fds, k, at_select⟩
  · cases h

/-- Bob logs in between Alice's lookup, which does not find him, and her request. -/
def loginInBetween : List (Int × Choice × Nat) :=
  [(2, calm (cstr "alice") (line .login "login alice"), 23),
    (2, calm (cstr "alice") (line .transferReq "transfer_request note bob"), 6),
    (3, calm (cstr "bob") (line .login "login bob"), 23),
    (2, calm (cstr "alice") none, 4)]

abbrev LeftWaiting (c : Config) : Prop :=
  c.state.mem.pendingRequestsTable.live[0]? = some {
      id := 1
      sourceUsername := cstr "alice"
      destUsername := cstr "bob"
      filePathAbsolute := cstr "/srv/alice/note" } ∧
    (∃ e ∈ c.log, e.act.pid = 3 ∧ e.act.call = .shared (.sessionAdd (cstr "bob") 3)) ∧
    c.state.gone 3 = false ∧ (∀ e ∈ c.log, e.act.pid = 3 → isTeardown e.act.call = false) ∧
    c.state.issuer 0 = 2 ∧ waits c 2 = true ∧ waits c 3 = true ∧
    ∀ e ∈ c.log, isNotifyOpen e.act.call = false

theorem request_not_announced :
    ¬ ∀ (server : Server) (mainPid : Int) (clientSocket : Int → Int) (c : Config),
      Reaches machine (start server mainPid clientSocket) c → Announced (rootOf server) c := by
  intro everywhere
  have ran : (run machine loginInBetween (start calmServer 1 fun _ => 3)).any
      (fun c => decide (LeftWaiting c)) = true := by
    decide +kernel
  obtain ⟨c, reaches, pending, ⟨e, member, own, adds⟩, present, alive, issued, sender, receiver,
    unopened⟩ := exists_of_run _ ran
  obtain ⟨fine, undelivered⟩ := no_notices unopened
  obtain ⟨name, delivered⟩ := everywhere _ _ _ c reaches 0 _ 3 ⟨pending, rfl⟩
    ⟨e, member, own, 3, adds⟩ ⟨present, not_ended alive⟩
    (finished_of_waits (by rwa [issued]) _) (finished_of_waits receiver _) fine
  exact undelivered _ _ delivered

end examples

end Csap.Sessions
