import Csap.RequestHistory
import Csap.RequestTable

/-! How often a request can be resolved, over all interleavings of sessions. The
table stands for a map of pending requests (`RequestTable`); what the map holds is
tied to the log here, so that a request that was taken, or failed by the end of its
source, is known never to come back under its id. -/

namespace Csap.Sessions

open Interleaving RequestTable

/-- A call of `shm_request_add` that returned the id. -/
def Adds (e : Event) (id : Int) (src dst path : CStr) : Prop :=
  e.act = ⟨e.act.pid, .shared (.requestAdd src dst path), id⟩ ∧ 0 ≤ id

/-- A teardown that failed the requests of a user. -/
def FailsRequestsOf (e : Event) (user : CStr) : Prop :=
  ∃ failed, e.act = ⟨e.act.pid, .shared (.requestsSetFailed user), failed⟩ ∧ 0 ≤ failed

def isAdd (e : Event) : Bool :=
  match e.act with
  | ⟨_, .shared (.requestAdd _ _ _), id⟩ => 0 ≤ id
  | _ => false

def adds (log : Log) : Nat := log.countP isAdd

theorem Adds.isAdd {e : Event} {id : Int} {src dst path : CStr} (h : Adds e id src dst path) :
    isAdd e = true := by
  rw [Sessions.isAdd, h.1]
  exact decide_eq_true h.2

structure Recorded (log : Log) (a : PendingMap) : Prop where
  card : a.issued.card = adds log
  issued : ∀ e ∈ log, ∀ {id src dst path}, Adds e id src dst path → id ∈ a.issued
  taken : ∀ e ∈ log, ∀ {id user st out}, Takes e id user st out →
    id ∈ a.issued ∧ ∀ q ∈ a.requests, q.id ≠ id
  origin : ∀ q ∈ a.requests, ∃ before add after src dst path,
    log = before ++ add :: after ∧ Adds add q.id src dst path ∧ q.source = usernameField src ∧
      q.dest = usernameField dst ∧ q.path = snprintf PATH_MAX path ∧
      ∀ e ∈ after, ¬ FailsRequestsOf e q.source

theorem recorded_nil : Recorded [] .empty where
  card := rfl
  issued := by simp
  taken := by simp
  origin := by simp [PendingMap.empty]

section calls

variable {root : CStr} {g : Ghost} {log : Log} {e : Event} {a a' : PendingMap}

theorem Recorded.shrink (h : Recorded log a) (noAdd : isAdd e = false)
    (noTake : ∀ {id user st out}, ¬ Takes e id user st out) (issued : a'.issued = a.issued)
    (requests : ∀ q ∈ a'.requests, q ∈ a.requests ∧ ¬ FailsRequestsOf e q.source) :
    Recorded (log ++ [e]) a' where
  card := by simp [issued, h.card, adds, noAdd]
  issued := by
    intro e' member id src dst path added
    rcases List.mem_append.mp member with old | new
    · rw [issued]
      exact h.issued e' old added
    · rw [List.mem_singleton.mp new] at added
      rw [added.isAdd] at noAdd
      cases noAdd
  taken := by
    intro e' member id user st out took
    rcases List.mem_append.mp member with old | new
    · obtain ⟨known, absent⟩ := h.taken e' old took
      exact ⟨issued ▸ known, fun q hq => absent q (requests q hq).1⟩
    · rw [List.mem_singleton.mp new] at took
      exact absurd took noTake
  origin := by
    intro q hq
    obtain ⟨old, kept⟩ := requests q hq
    obtain ⟨before, add, after, src, dst, path, split, added, source, dest, file, alive⟩ :=
      h.origin q old
    refine ⟨before, add, after ++ [e], src, dst, path, by simp [split], added, source, dest, file,
      fun e' member => ?_⟩
    rcases List.mem_append.mp member with old | new
    · exact alive e' old
    · rwa [List.mem_singleton.mp new]

theorem shmRequestAdd_truncated (sem : SemResult) (mem : SharedMemory) (src dst path : CStr) :
    shmRequestAdd sem mem src dst path =
      shmRequestAdd sem mem (usernameField src) (usernameField dst) (snprintf PATH_MAX path) := by
  simp only [shmRequestAdd, usernameField, snprintf_snprintf]

theorem Recorded.add (h : Recorded log a) {id : Int} {src dst path : CStr}
    (added : Adds e id src dst path) (fresh : id ∉ a.issued)
    (issued : a'.issued = insert id a.issued)
    (requests : a'.requests =
      insert ⟨id, usernameField src, usernameField dst, snprintf PATH_MAX path⟩ a.requests) :
    Recorded (log ++ [e]) a' where
  card := by simp [issued, Finset.card_insert_of_notMem fresh, h.card, adds, added.isAdd]
  issued := by
    intro e' member id' src' dst' path' added'
    rw [issued]
    rcases List.mem_append.mp member with old | new
    · exact Finset.mem_insert_of_mem (h.issued e' old added')
    · rw [List.mem_singleton.mp new] at added'
      have same := added.1.symm.trans added'.1
      cases same
      exact Finset.mem_insert_self _ _
  taken := by
    intro e' member id' user st out took
    rcases List.mem_append.mp member with old | new
    · obtain ⟨known, absent⟩ := h.taken e' old took
      refine ⟨issued ▸ Finset.mem_insert_of_mem known, fun q hq same => ?_⟩
      rw [requests] at hq
      rcases Finset.mem_insert.mp hq with rfl | hq
      · subst same
        exact fresh known
      · exact absent q hq same
    · rw [List.mem_singleton.mp new] at took
      obtain ⟨rc, act, -⟩ := took
      rw [added.1] at act
      cases act
  origin := by
    intro q hq
    rw [requests] at hq
    rcases Finset.mem_insert.mp hq with rfl | hq
    · exact ⟨log, e, [], src, dst, path, rfl, added, rfl, rfl, rfl, by simp⟩
    · obtain ⟨before, add, after, src', dst', path', split, added', source, dest, file, alive⟩ :=
        h.origin q hq
      refine ⟨before, add, after ++ [e], src', dst', path', by simp [split], added', source, dest,
        file, fun e' member => ?_⟩
      rcases List.mem_append.mp member with old | new
      · exact alive e' old
      · rw [List.mem_singleton.mp new]
        rintro ⟨n, act, -⟩
        rw [added.1] at act
        cases act

theorem Recorded.take (h : Recorded log a) {id : Int} {user : CStr} {st : RequestStatus}
    {out : Option TransferRequestEntry} {q : Request} (took : Takes e id user st out)
    (pending : q ∈ a.requests) (same : q.id = id) (issued : a'.issued = a.issued)
    (requests : a'.requests = a.requests.erase q) : Recorded (log ++ [e]) a' where
  card := by
    obtain ⟨rc, act, -⟩ := took
    have noAdd : isAdd e = false := by
      rw [isAdd, act]
    simp [issued, h.card, adds, noAdd]
  issued := by
    intro e' member id' src' dst' path' added'
    rw [issued]
    rcases List.mem_append.mp member with old | new
    · exact h.issued e' old added'
    · rw [List.mem_singleton.mp new] at added'
      obtain ⟨rc, act, -⟩ := took
      rw [added'.1] at act
      cases act
  taken := by
    intro e' member id' user' st' out' took'
    rw [issued]
    rcases List.mem_append.mp member with old | new
    · obtain ⟨known, absent⟩ := h.taken e' old took'
      exact ⟨known, fun r hr => absent r (Finset.mem_of_mem_erase (requests ▸ hr))⟩
    · rw [List.mem_singleton.mp new] at took'
      obtain ⟨rc, act, -⟩ := took
      obtain ⟨rc', act', -⟩ := took'
      rw [act] at act'
      cases act'
      obtain ⟨before, add, after, src, dst, path, split, added, -⟩ := h.origin q pending
      refine ⟨same ▸ h.issued add (by simp [split]) added, fun r hr other => ?_⟩
      rw [requests] at hr
      obtain ⟨different, hr⟩ := Finset.mem_erase.mp hr
      exact different (a.unique r hr q pending (other.trans same.symm))
  origin := by
    intro r hr
    obtain ⟨before, add, after, src, dst, path, split, added, source, dest, file, alive⟩ :=
      h.origin r (Finset.mem_of_mem_erase (requests ▸ hr))
    refine ⟨before, add, after ++ [e], src, dst, path, by simp [split], added, source, dest, file,
      fun e' member => ?_⟩
    rcases List.mem_append.mp member with old | new
    · exact alive e' old
    · rw [List.mem_singleton.mp new]
      obtain ⟨rc, act, -⟩ := took
      rintro ⟨n, act', -⟩
      rw [act] at act'
      cases act'

/-- The map follows a call: an id it adds is new, and a request it takes was in the map. -/
structure Follows (log : Log) (e : Event) (a : PendingMap) : Prop where
  map : ∃ a', Represents e.after.mem a' ∧ Recorded (log ++ [e]) a'
  fresh : ∀ {id src dst path}, Adds e id src dst path → id ∉ a.issued
  pending : ∀ {id user st out}, Takes e id user st out →
    ∃ entry, out = some entry ∧ request entry ∈ a.requests ∧ entry.id = id ∧
      entry.destUsername = user

theorem Recorded.follows (h : Recorded log a) (represents : Represents e.after.mem a')
    (noAdd : isAdd e = false) (noTake : ∀ {id user st out}, ¬ Takes e id user st out)
    (issued : a'.issued = a.issued)
    (requests : ∀ q ∈ a'.requests, q ∈ a.requests ∧ ¬ FailsRequestsOf e q.source) :
    Follows log e a where
  map := ⟨a', represents, h.shrink noAdd noTake issued requests⟩
  fresh added := by
    rw [added.isAdd] at noAdd
    cases noAdd
  pending took := absurd took noTake

theorem represents_congr {mem mem' : SharedMemory} (h : Represents mem a)
    (same : mem'.pendingRequestsTable = mem.pendingRequestsTable) : Represents mem' a := by
  obtain ⟨wf, requests⟩ := h
  constructor
  · rwa [same]
  · rwa [same]

theorem follows_add {pid : Int} {src dst path : CStr} {choice : Choice} {s s' : State}
    (represents : Represents s.mem a) (h : Recorded log a)
    (budget : 0 ≤ (shmRequestAdd choice.sem s.mem src dst path).1 → adds log + 1 < 2 ^ 31 - 1)
    (after : s'.mem = (shmRequestAdd choice.sem s.mem src dst path).2) :
    Follows log ⟨⟨pid, .shared (.requestAdd src dst path),
      (shmRequestAdd choice.sem s.mem src dst path).1⟩, choice, s, s'⟩ a := by
  have noTake : ∀ {c s' r id user st out}, ¬ Takes ⟨⟨pid, .shared (.requestAdd src dst path), r⟩,
      c, s, s'⟩ id user st out := by
    rintro c s' r id user st out ⟨rc, act, -⟩
    cases act
  have unfailed : ∀ {c s' r user}, ¬ FailsRequestsOf ⟨⟨pid, .shared (.requestAdd src dst path), r⟩,
      c, s, s'⟩ user := by
    rintro c s' r user ⟨n, act, -⟩
    cases act
  have refused : ∀ {r : Int}, r < 0 → Represents s'.mem a →
      Follows log ⟨⟨pid, .shared (.requestAdd src dst path), r⟩, choice, s, s'⟩ a :=
    fun negative kept => h.follows kept (decide_eq_false (not_le.mpr negative)) noTake rfl
      fun q hq => ⟨hq, unfailed⟩
  rw [shmRequestAdd_truncated] at budget after ⊢
  rcases sem : choice.sem with err | done
  · rw [sem] at after
    exact refused err.neg_lt_zero (after ▸ represents)
  · rw [sem] at budget after
    have fits : (RequestOp.add (usernameField src) (usernameField dst) (snprintf PATH_MAX path)).Fits :=
      ⟨Nat.le_of_lt_succ (snprintf_length_lt _ (by decide)),
        Nat.le_of_lt_succ (snprintf_length_lt _ (by decide)), snprintf_length_lt _ (by decide)⟩
    obtain ⟨a', accepts, represents'⟩ := add_step represents fits (by rwa [h.card])
    simp only [PendingMap.Accepts, RequestOp.run, ← after] at accepts represents'
    split at accepts
    · obtain ⟨rc, rfl⟩ := accepts
      exact refused (by rw [rc]; exact ENOMEM.neg_lt_zero) represents'
    · obtain ⟨positive, fresh, issued, requests⟩ := accepts
      refine ⟨⟨a', represents', h.add ⟨rfl, positive.le⟩ fresh issued requests⟩, ?_, ?_⟩
      · rintro id src' dst' path' ⟨act, -⟩
        cases act
        exact fresh
      · intro id user st out took
        exact absurd took noTake

theorem follows_take {pid id : Int} {user : CStr} {st : RequestStatus} {choice : Choice} {s : State}
    (represents : Represents s.mem a) (h : Recorded log a) (resolves : st = .accepted ∨ st = .rejected) :
    let taken := shmRequestTake choice.sem s.mem id user st
    Follows log ⟨⟨pid, .shared (.requestTake id user st), (taken.1, taken.2.1)⟩, choice, s,
      { s with mem := taken.2.2 }⟩ a := by
  intro taken
  have unfailed : ∀ {c s' r user'}, ¬ FailsRequestsOf
      ⟨⟨pid, .shared (.requestTake id user st), r⟩, c, s, s'⟩ user' := by
    rintro c s' r user' ⟨n, act, -⟩
    cases act
  have refused : taken.1 < 0 → Represents taken.2.2 a → Follows log
      ⟨⟨pid, .shared (.requestTake id user st), (taken.1, taken.2.1)⟩, choice, s,
        { s with mem := taken.2.2 }⟩ a := by
    intro negative kept
    refine h.follows kept rfl ?_ rfl fun q hq => ⟨hq, unfailed⟩
    rintro id' user' st' out' ⟨rc, act, success⟩
    cases act
    exact absurd negative (not_lt.mpr success)
  have status : takeStatus (decide (st = .accepted)) = st := by
    rcases resolves with rfl | rfl <;> rfl
  rcases sem : choice.sem with err | done
  · have failed : taken = (err.neg, none, s.mem) := by simp [taken, sem, shmRequestTake]
    refine refused (by rw [failed]; exact err.neg_lt_zero) ?_
    rw [failed]
    exact represents
  · obtain ⟨a', accepts, represents'⟩ := take_step represents id user (decide (st = .accepted))
    have ran : shmRequestTake (.ok ()) s.mem id user st = taken := by simp only [taken, sem]
    simp only [PendingMap.Accepts, RequestOp.run, status, ran] at accepts represents'
    split at accepts
    · obtain ⟨rc, issued, e, out, -, member, idOf, dest, requests⟩ := accepts
      have out' : taken.2.1 = some e := by
        cases copied : taken.2.1 with
        | none => simp [copied] at out
        | some e' => simpa [copied] using out
      refine ⟨⟨a', represents', ?_⟩, ?_, ?_⟩
      · exact h.take ⟨taken.1, rfl, rc.ge⟩ member idOf issued requests
      · rintro id' src dst path ⟨act, -⟩
        cases act
      · rintro id' user' st' out'' ⟨rc', act, -⟩
        cases act
        exact ⟨e, out', member, idOf, dest⟩
    · obtain ⟨negative, -, rfl⟩ := accepts
      exact refused negative represents'

theorem follows_set {pid id : Int} {choice : Choice} {s : State}
    (represents : Represents s.mem a) (h : Recorded log a) :
    let set := shmRequestSet choice.sem s.mem id .failed
    Follows log ⟨⟨pid, .shared (.requestSet id .failed), set.1⟩, choice, s,
      { s with mem := set.2 }⟩ a := by
  intro set
  have noTake : ∀ {id' user st out}, ¬ Takes ⟨⟨pid, .shared (.requestSet id .failed), set.1⟩,
      choice, s, { s with mem := set.2 }⟩ id' user st out := by
    rintro id' user st out ⟨rc, act, -⟩
    cases act
  have unfailed : ∀ {user}, ¬ FailsRequestsOf ⟨⟨pid, .shared (.requestSet id .failed), set.1⟩,
      choice, s, { s with mem := set.2 }⟩ user := by
    rintro user ⟨n, act, -⟩
    cases act
  rcases sem : choice.sem with err | done
  · have failed : set.2 = s.mem := by simp [set, sem, shmRequestSet]
    exact h.follows (failed ▸ represents) rfl noTake rfl fun q hq => ⟨hq, unfailed⟩
  · obtain ⟨a', ⟨issued, requests⟩, represents'⟩ := fail_step represents id
    have ran : shmRequestSet (.ok ()) s.mem id .failed = set := by simp only [set, sem]
    simp only [RequestOp.run, ran] at represents'
    refine h.follows represents' rfl noTake issued fun q hq => ⟨?_, unfailed⟩
    rw [requests] at hq
    exact Finset.mem_of_mem_filter q hq

theorem follows_setFailed {pid : Int} {user : CStr} {choice : Choice} {s : State}
    (represents : Represents s.mem a) (h : Recorded log a) :
    let failed := shmRequestsSetFailed choice.sem s.mem user
    Follows log ⟨⟨pid, .shared (.requestsSetFailed user), failed.1⟩, choice, s,
      { s with mem := failed.2 }⟩ a := by
  intro failed
  have noTake : ∀ {id user' st out}, ¬ Takes
      ⟨⟨pid, .shared (.requestsSetFailed user), failed.1⟩, choice, s, { s with mem := failed.2 }⟩
      id user' st out := by
    rintro id user' st out ⟨rc, act, -⟩
    cases act
  rcases sem : choice.sem with err | done
  · have refused : failed = (err.neg, s.mem) := by simp [failed, sem, shmRequestsSetFailed]
    refine h.follows ?_ rfl noTake rfl fun q hq => ⟨hq, ?_⟩
    · rw [refused]
      exact represents
    · rintro ⟨n, act, success⟩
      rw [refused] at act
      cases act
      exact absurd err.neg_lt_zero (not_lt.mpr success)
  · obtain ⟨a', ⟨-, issued, requests⟩, represents'⟩ := setFailed_step represents user
    have ran : shmRequestsSetFailed (.ok ()) s.mem user = failed := by simp only [failed, sem]
    simp only [RequestOp.run, ran] at represents'
    refine h.follows represents' rfl noTake issued fun q hq => ?_
    rw [requests] at hq
    obtain ⟨member, other⟩ := Finset.mem_filter.mp hq
    refine ⟨member, ?_⟩
    rintro ⟨n, act, -⟩
    cases act
    exact other rfl

theorem follows_same (represents : Represents e.before.mem a) (h : Recorded log a)
    (same : e.after.mem.pendingRequestsTable = e.before.mem.pendingRequestsTable)
    (noAdd : isAdd e = false) (noTake : ∀ {id user st out}, ¬ Takes e id user st out)
    (unfailed : ∀ user, ¬ FailsRequestsOf e user) : Follows log e a :=
  h.follows (represents_congr represents same) noAdd noTake rfl fun q hq => ⟨hq, unfailed q.source⟩

theorem follows_of_made (made : Made e) (allowed : g.allowed root e.act.call)
    (represents : Represents e.before.mem a) (h : Recorded log a)
    (budget : adds (log ++ [e]) < 2 ^ 31 - 1) : Follows log e a := by
  obtain ⟨⟨pid, q, r⟩, choice, s, s'⟩ := e
  cases q with
  | shared q =>
    have result := machine_shared made
    have may := (Ghost.may_of_allowed allowed (by simp)).2
    cases q with
    | requestAdd src dst path =>
      simp only [execShared, Prod.mk.injEq] at result
      obtain ⟨rfl, rfl⟩ := result
      refine follows_add represents h (fun success => ?_) rfl
      simpa [adds, isAdd, success] using budget
    | requestTake id user st =>
      simp only [execShared, Prod.mk.injEq] at result
      obtain ⟨rfl, rfl⟩ := result
      exact follows_take represents h may.2.2.2.2
    | requestSet id st =>
      simp only [execShared, Prod.mk.injEq] at result
      obtain ⟨rfl, rfl⟩ := result
      obtain rfl := may.1
      exact follows_set represents h
    | requestsSetFailed user =>
      simp only [execShared, Prod.mk.injEq] at result
      obtain ⟨rfl, rfl⟩ := result
      exact follows_setFailed represents h
    | sessionAdd user pid' =>
      simp only [execShared, Prod.mk.injEq] at result
      obtain ⟨-, rfl⟩ := result
      refine follows_same represents h (shmSessionAdd_requests _ _ _ _) rfl ?_ ?_
      · rintro id user st out ⟨rc, act, -⟩
        cases act
      · rintro user ⟨n, act, -⟩
        cases act
    | sessionsCollectStale =>
      simp only [execShared, Prod.mk.injEq] at result
      obtain ⟨-, rfl⟩ := result
      refine follows_same represents h (shmSessionsCollectStale_requests _ _ _) rfl ?_ ?_
      · rintro id user st out ⟨rc, act, -⟩
        cases act
      · rintro user ⟨n, act, -⟩
        cases act
    | sessionFind user =>
      simp only [execShared, Prod.mk.injEq] at result
      obtain ⟨-, rfl⟩ := result
      refine follows_same represents h rfl rfl ?_ ?_
      · rintro id user st out ⟨rc, act, -⟩
        cases act
      · rintro user ⟨n, act, -⟩
        cases act
    | requestsForDest user max =>
      simp only [execShared, Prod.mk.injEq] at result
      obtain ⟨-, rfl⟩ := result
      refine follows_same represents h rfl rfl ?_ ?_
      · rintro id user st out ⟨rc, act, -⟩
        cases act
      · rintro user ⟨n, act, -⟩
        cases act
  | _ =>
    have same := machine_other (by simp) made
    simp only at same
    subst same
    refine follows_same represents h rfl rfl ?_ ?_
    · rintro id user st out ⟨rc, act, -⟩
      cases act
    · rintro user ⟨n, act, -⟩
      cases act

end calls

section runs

variable {root : CStr} {log : Log} {t : State} {pid : Int}

theorem trace_recorded
    (trace : Trace (protocol root) init machine setupState log t)
    (budget : adds log < 2 ^ 31 - 1) : ∃ a, Represents t.mem a ∧ Recorded log a := by
  induction trace with
  | nil => exact ⟨.empty, ⟨wellFormed_setup, rfl⟩, recorded_nil⟩
  | @snoc log t t' who q choice r old allowed expected done ih =>
    have fewer : adds log ≤ adds (log ++ [⟨⟨who, q, r⟩, choice, t, t'⟩]) := by simp [adds]
    obtain ⟨a, represents, recorded⟩ := ih (by omega)
    have made : Made ⟨⟨who, q, r⟩, choice, t, t'⟩ := done
    exact (follows_of_made made allowed represents recorded budget).map

/-- The process entered itself in the session table under this name. -/
def LoggedInAs (log : Log) (pid : Int) (user : CStr) : Prop :=
  ∃ e ∈ log, e.act.pid = pid ∧ e.act.call = .shared (.sessionAdd user pid)

theorem loggedInAs_of_user {user : CStr} {s : State} (trace : Trace (protocol root) init machine s log t)
    (h : (ghostOf (protocol root) init pid log).user = some user) : LoggedInAs log pid user := by
  induction trace with
  | nil => cases h
  | @snoc log t t' who q choice r old allowed expected done ih =>
    rw [ghostOf_append] at h
    have earlier : LoggedInAs log pid user →
        LoggedInAs (log ++ [⟨⟨who, q, r⟩, choice, t, t'⟩]) pid user := by
      rintro ⟨e, member, login⟩
      exact ⟨e, List.mem_append_left _ member, login⟩
    split at h
    · rename_i same
      subst same
      rcases user_of_next h with before | ⟨entered, rfl⟩
      · exact earlier (ih before)
      · have own : entered = (ghostOf (protocol root) init who log).pid :=
          (Ghost.may_of_allowed allowed (by simp)).2.2.1
        rw [ghostOf_pid] at own
        subst own
        exact ⟨_, List.mem_append_right _ List.mem_cons_self, rfl, rfl⟩
    · exact earlier (ih h)

def Within : Call → Prop
  | .socket (.select _) | .shared (.requestTake _ _ _) | .enterCopy _ _ => False
  | _ => True

/-- The process took the request to accept it, and has not copied its file since, taken another
request or waited for its client. -/
def Accepting (log : Log) (pid id : Int) (entry : TransferRequestEntry) : Prop :=
  ∃ before t after user, log = before ++ t :: after ∧ t.act.pid = pid ∧
    Takes t id user .accepted (some entry) ∧ ∀ e ∈ after, e.act.pid = pid → Within e.act.call

theorem Accepting.append {id : Int} {entry : TransferRequestEntry} {e : Event}
    (h : Accepting log pid id entry) (within : e.act.pid = pid → Within e.act.call) :
    Accepting (log ++ [e]) pid id entry := by
  obtain ⟨before, t, after, user, split, own, took, busy⟩ := h
  refine ⟨before, t, after ++ [e], user, by simp [split], own, took, fun e' member => ?_⟩
  rcases List.mem_append.mp member with old | new
  · exact busy e' old
  · rwa [List.mem_singleton.mp new]

theorem within_next {g : Ghost} {c : Call} (r : c.Reply) (within : Within c) :
    (g.next c r).taken = g.taken ∧ (g.next c r).copyable = g.copyable := by
  unfold Ghost.next
  repeat' split
  all_goals first | exact ⟨rfl, rfl⟩ | exact within.elim

theorem accepting_of_copyable {s : State} {path : CStr}
    (trace : Trace (protocol root) init machine s log t)
    (h : (ghostOf (protocol root) init pid log).copyable = some path) :
    ∃ id entry, (ghostOf (protocol root) init pid log).taken = some entry ∧
      entry.filePathAbsolute = path ∧ Accepting log pid id entry := by
  induction trace with
  | nil => cases h
  | @snoc log t t' who q choice r old allowed expected done ih =>
    rw [ghostOf_append] at h ⊢
    split at h
    · rename_i same
      subst same
      rw [if_pos rfl]
      by_cases within : Within q
      · obtain ⟨sameTaken, sameCopyable⟩ := within_next r within
        obtain ⟨id, entry, taken, file, accepting⟩ := ih (sameCopyable ▸ h)
        exact ⟨id, entry, sameTaken.trans taken, file, accepting.append fun _ => within⟩
      have untaken : ∀ {id user st}, q = .shared (.requestTake id user st) →
          (ghostOf (protocol root) init who log).taken = none := by
        rintro id user st rfl
        exact (Ghost.may_of_allowed allowed (by simp)).2.2.1
      cases q with
      | shared q =>
        cases q with
        | requestTake id user st =>
          change (Ghost.next _ _ _).copyable = some path at h
          change ∃ id entry, (Ghost.next _ _ _).taken = some entry ∧ _
          simp only [Ghost.next] at h ⊢
          split at h
          · obtain ⟨id, entry, taken, -⟩ := ih h
            rw [untaken rfl] at taken
            cases taken
          · rename_i success
            simp only at h
            split at h
            · rename_i accepted
              subst accepted
              obtain ⟨entry, out, file⟩ := Option.map_eq_some_iff.mp h
              rw [if_neg success]
              refine ⟨id, entry, out, file, log, _, [], user, rfl, rfl, ⟨r.1, ?_, not_lt.mp success⟩,
                by simp⟩
              rw [← out]
            · cases h
        | _ => exact absurd trivial within
      | socket q =>
        cases q with
        | select fds => cases h
        | _ => exact absurd trivial within
      | enterCopy srcPath destPath => cases h
      | _ => exact absurd trivial within
    · rename_i other
      rw [if_neg other]
      obtain ⟨id, entry, taken, file, accepting⟩ := ih h
      exact ⟨id, entry, taken, file, accepting.append fun same => absurd same other⟩

end runs

/-- Every request is resolved at most once, by its destination, while its source is there, and its
file is copied at most once. -/
structure AtMostOneResolution (log : Log) : Prop where
  added_once {before e after id src dst path} :
    log = before ++ e :: after → Adds e id src dst path →
    ∀ e' ∈ after, ∀ src' dst' path', ¬ Adds e' id src' dst' path'
  added_before_taken {before t after id user st out} :
    log = before ++ t :: after → Takes t id user st out →
    ∃ e ∈ before, ∃ src dst path, Adds e id src dst path
  taken_once {before t after id user st out} :
    log = before ++ t :: after → Takes t id user st out →
    ∀ t' ∈ after, ∀ user' st' out', ¬ Takes t' id user' st' out'
  taken_by_destination {before e mid t after id src dst path user st out} :
    log = before ++ e :: mid ++ t :: after → Adds e id src dst path → Takes t id user st out →
    LoggedInAs (before ++ e :: mid) t.act.pid dst
  not_taken_once_failed {before e mid d after id src dst path} :
    log = before ++ e :: mid ++ d :: after → Adds e id src dst path → FailsRequestsOf d src →
    ∀ t ∈ after, ∀ user st out, ¬ Takes t id user st out
  copied_as_recorded {before e after srcPath destPath} :
    log = before ++ e :: after → e.act.call = .enterCopy srcPath destPath →
    ∃ id entry, Accepting before e.act.pid id entry ∧
      ∃ add ∈ before, ∃ src dst path, Adds add id src dst path ∧ srcPath = snprintf PATH_MAX path
  copied_once {before e mid e' after id entry entry' srcPath destPath srcPath' destPath'} :
    log = before ++ e :: mid ++ e' :: after →
    e.act.call = .enterCopy srcPath destPath → e'.act.call = .enterCopy srcPath' destPath' →
    Accepting before e.act.pid id entry → ¬ Accepting (before ++ e :: mid) e'.act.pid id entry'

section resolutions

variable {root : CStr} {log : Log} {t : State}

/-- The map at each event of a run. -/
theorem every_follows
    (trace : Trace (protocol root) init machine setupState log t)
    (budget : adds log < 2 ^ 31 - 1) :
    Every (fun before e => ∃ a, Recorded before a ∧ Follows before e a) log := by
  intro before e after split
  obtain ⟨earlier, allowed, -, made⟩ := trace.every before e after split
  have fewer : adds (before ++ [e]) ≤ adds log := by
    simp only [split, adds, List.countP_append, List.countP_cons, List.countP_nil]
    omega
  have less : adds before ≤ adds (before ++ [e]) := by simp [adds]
  obtain ⟨a, represents, recorded⟩ := trace_recorded earlier (by omega)
  exact ⟨a, recorded, follows_of_made made allowed represents recorded (by omega)⟩

theorem added_once
    (trace : Trace (protocol root) init machine setupState log t)
    (budget : adds log < 2 ^ 31 - 1) {before after : Log} {e : Event} {id : Int}
    {src dst path : CStr} (split : log = before ++ e :: after) (added : Adds e id src dst path) :
    ∀ e' ∈ after, ∀ src' dst' path', ¬ Adds e' id src' dst' path' := by
  intro e' member src' dst' path' again
  obtain ⟨mid, rest, rfl⟩ := List.append_of_mem member
  obtain ⟨a, recorded, follows⟩ :=
    every_follows trace budget (before ++ e :: mid) e' rest (by simp [split])
  exact follows.fresh again (recorded.issued e (by simp) added)

theorem taken_cases
    (trace : Trace (protocol root) init machine setupState log t)
    (budget : adds log < 2 ^ 31 - 1) {before after : Log} {e : Event} {id : Int} {user : CStr}
    {st : RequestStatus} {out : Option TransferRequestEntry} (split : log = before ++ e :: after)
    (took : Takes e id user st out) :
    (∀ e' ∈ before, ∀ user' st' out', ¬ Takes e' id user' st' out') ∧
      ∃ earlier add later src dst path, before = earlier ++ add :: later ∧
        Adds add id src dst path ∧ user = usernameField dst ∧
        (∀ d ∈ later, ¬ FailsRequestsOf d (usernameField src)) ∧
        ∃ entry, out = some entry ∧ entry.filePathAbsolute = snprintf PATH_MAX path := by
  obtain ⟨a, recorded, follows⟩ := every_follows trace budget before e after split
  obtain ⟨entry, rfl, pending, rfl, rfl⟩ := follows.pending took
  obtain ⟨earlier, add, later, src, dst, path, split', added, source, dest, file, alive⟩ :=
    recorded.origin _ pending
  refine ⟨fun e' member user' st' out' took' => ?_, earlier, add, later, src, dst, path, split',
    added, dest, fun d member => ?_, entry, rfl, file⟩
  · exact (recorded.taken e' member took').2 _ pending rfl
  · rw [← source]
    exact alive d member

theorem added_eq
    (trace : Trace (protocol root) init machine setupState log t)
    (budget : adds log < 2 ^ 31 - 1) {before after before' after' : Log} {e e' : Event} {id : Int}
    {src dst path src' dst' path' : CStr} (split : log = before ++ e :: after)
    (split' : log = before' ++ e' :: after') (added : Adds e id src dst path)
    (added' : Adds e' id src' dst' path') :
    before = before' ∧ after = after' ∧ src = src' ∧ dst = dst' ∧ path = path' := by
  rcases split_cases (split.symm.trans split') with
    ⟨rfl, rfl, rfl⟩ | ⟨mid, -, rfl⟩ | ⟨mid, -, rfl⟩
  · have act := added.1.symm.trans added'.1
    cases act
    exact ⟨rfl, rfl, rfl, rfl, rfl⟩
  · exact absurd added' (added_once trace budget split added e' (by simp) _ _ _)
  · exact absurd added (added_once trace budget split' added' e (by simp) _ _ _)

theorem sender_fits {before after : Log} {e : Event} {id : Int} {src dst path : CStr} {s : State}
    (trace : Trace (protocol root) init machine s log t) (split : log = before ++ e :: after)
    (added : Adds e id src dst path) : usernameField src = src := by
  obtain ⟨earlier, allowed, -, -⟩ := trace.every before e after split
  rw [added.1] at allowed
  have name := (Ghost.may_of_allowed allowed (by simp)).2.1
  exact snprintf_eq_self (by have := user_fits earlier name; omega)

theorem taken_once
    (trace : Trace (protocol root) init machine setupState log t)
    (budget : adds log < 2 ^ 31 - 1) {before after : Log} {e : Event} {id : Int} {user : CStr}
    {st : RequestStatus} {out : Option TransferRequestEntry} (split : log = before ++ e :: after)
    (took : Takes e id user st out) :
    ∀ e' ∈ after, ∀ user' st' out', ¬ Takes e' id user' st' out' := by
  intro e' member user' st' out' again
  obtain ⟨mid, rest, rfl⟩ := List.append_of_mem member
  have later : log = (before ++ e :: mid) ++ e' :: rest := by simp [split]
  exact (taken_cases trace budget later again).1 e (by simp) _ _ _ took

theorem taken_by_destination
    (trace : Trace (protocol root) init machine setupState log t)
    (budget : adds log < 2 ^ 31 - 1) {before mid after : Log} {add e : Event} {id : Int}
    {src dst path user : CStr} {st : RequestStatus} {out : Option TransferRequestEntry}
    (split : log = before ++ add :: mid ++ e :: after) (added : Adds add id src dst path)
    (took : Takes e id user st out) : LoggedInAs (before ++ add :: mid) e.act.pid dst := by
  obtain ⟨-, earlier, add', later, src', dst', path', found, added', dest, -⟩ :=
    taken_cases trace budget split took
  have first : log = before ++ add :: (mid ++ e :: after) := by simp [split]
  have second : log = earlier ++ add' :: (later ++ e :: after) := by simp [split, found]
  obtain ⟨-, -, -, rfl, -⟩ := added_eq trace budget first second added added'
  obtain ⟨known, allowed, -, -⟩ := trace.every _ e after split
  obtain ⟨rc, act, -⟩ := took
  rw [act] at allowed
  have name := (Ghost.may_of_allowed allowed (by simp)).2.1
  have short := user_fits known name
  have same : usernameField dst = dst := by
    rw [dest, usernameField, snprintf, List.length_take] at short
    exact snprintf_eq_self (by omega)
  rw [dest, same] at name
  exact loggedInAs_of_user known name

theorem not_taken_once_failed
    (trace : Trace (protocol root) init machine setupState log t)
    (budget : adds log < 2 ^ 31 - 1) {before mid after : Log} {add d : Event} {id : Int}
    {src dst path : CStr} (split : log = before ++ add :: mid ++ d :: after)
    (added : Adds add id src dst path) (failed : FailsRequestsOf d src) :
    ∀ e ∈ after, ∀ user st out, ¬ Takes e id user st out := by
  intro e member user st out took
  obtain ⟨between, rest, rfl⟩ := List.append_of_mem member
  have here : log = (before ++ add :: (mid ++ d :: between)) ++ e :: rest := by simp [split]
  obtain ⟨-, earlier, add', later, src', dst', path', found, added', -, alive, -⟩ :=
    taken_cases trace budget here took
  have first : log = before ++ add :: (mid ++ d :: between ++ e :: rest) := by simp [split]
  have second : log = earlier ++ add' :: (later ++ e :: rest) := by
    rw [here, found]
    simp
  obtain ⟨-, same, rfl, -, -⟩ := added_eq trace budget first second added added'
  have inside : later = mid ++ d :: between := (List.append_cancel_right same).symm
  apply alive d (by simp [inside])
  rwa [sender_fits trace first added]

theorem copied_as_recorded
    (trace : Trace (protocol root) init machine setupState log t)
    (budget : adds log < 2 ^ 31 - 1) {before after : Log} {e : Event} {srcPath destPath : CStr}
    (split : log = before ++ e :: after) (copies : e.act.call = .enterCopy srcPath destPath) :
    ∃ id entry, Accepting before e.act.pid id entry ∧
      ∃ add ∈ before, ∃ src dst path, Adds add id src dst path ∧ srcPath = snprintf PATH_MAX path := by
  obtain ⟨known, allowed, -, -⟩ := trace.every before e after split
  rw [copies] at allowed
  have copyable := (Ghost.may_of_allowed allowed (by simp)).2
  obtain ⟨id, entry, -, file, accepting⟩ := accepting_of_copyable known copyable
  refine ⟨id, entry, accepting, ?_⟩
  obtain ⟨earlier, t, later, user, rfl, -, took, -⟩ := accepting
  have here : log = earlier ++ t :: (later ++ e :: after) := by simp [split]
  obtain ⟨-, first, add, rest, src, dst, path, rfl, added, -, -, entry', same, recorded⟩ :=
    taken_cases trace budget here took
  cases same
  exact ⟨add, by simp, src, dst, path, added, by rw [← file, recorded]⟩

theorem copied_once
    (trace : Trace (protocol root) init machine setupState log t)
    (budget : adds log < 2 ^ 31 - 1) {before mid after : Log} {e e' : Event} {id : Int}
    {entry entry' : TransferRequestEntry} {srcPath destPath : CStr}
    (split : log = before ++ e :: mid ++ e' :: after)
    (copies : e.act.call = .enterCopy srcPath destPath)
    (accepting : Accepting before e.act.pid id entry) :
    ¬ Accepting (before ++ e :: mid) e'.act.pid id entry' := by
  rintro ⟨earlier', t', later', user', found', own', took', busy⟩
  obtain ⟨earlier, t, later, user, rfl, own, took, -⟩ := accepting
  have first : log = earlier ++ t :: (later ++ e :: mid ++ e' :: after) := by simp [split]
  have second : log = earlier' ++ t' :: (later' ++ e' :: after) := by
    rw [split, found']
    simp
  -- the two takes are one, so the first copy lies between it and the second
  rcases split_cases (first.symm.trans second) with ⟨-, rfl, rest⟩ | ⟨_, -, rest⟩ | ⟨_, -, rest⟩
  · have inside : later' = later ++ e :: mid := (List.append_cancel_right rest).symm
    have within := busy e (by simp [inside]) (by rw [← own', own])
    rw [copies] at within
    exact within
  · exact taken_once trace budget first took t' (by simp [rest]) _ _ _ took'
  · exact taken_once trace budget second took' t (by simp [rest]) _ _ _ took

end resolutions

/-- In every run of the server with fewer than `2^31 - 1` requests. -/
theorem requests_resolved_at_most_once {server : Server} {mainPid : Int}
    {clientSocket : Int → Int} {c : Config}
    (h : Reaches machine (start server mainPid clientSocket) c) (budget : adds c.log < 2 ^ 31 - 1) :
    AtMostOneResolution c.log := by
  have trace := (server_trace h).2
  exact
    { added_once := added_once trace budget
      added_before_taken := fun split took => by
        obtain ⟨-, earlier, add, later, src, dst, path, rfl, added, -⟩ :=
          taken_cases trace budget split took
        exact ⟨add, by simp, src, dst, path, added⟩
      taken_once := taken_once trace budget
      taken_by_destination := taken_by_destination trace budget
      not_taken_once_failed := not_taken_once_failed trace budget
      copied_as_recorded := copied_as_recorded trace budget
      copied_once := fun split copies _ => copied_once trace budget split copies }

theorem requests_resolved_at_most_once_accept :
    ∃ c, Reaches machine (start calmServer 1 fun _ => 3) c ∧
      .enterCopy (cstr "/srv/alice/note") (cstr "/srv/bob/inbox/note") ∈ c.log.map (·.act.call) ∧
      AtMostOneResolution c.log := by
  have ran : (run machine acceptedTransfer (start calmServer 1 fun _ => 3)).any (fun c => decide
      (.enterCopy (cstr "/srv/alice/note") (cstr "/srv/bob/inbox/note") ∈ c.log.map (·.act.call) ∧
        adds c.log < 2 ^ 31 - 1)) = true := by
    decide +kernel
  obtain ⟨c, reaches, copied, budget⟩ := exists_of_run _ ran
  exact ⟨c, reaches, copied, requests_resolved_at_most_once reaches budget⟩

end Csap.Sessions
