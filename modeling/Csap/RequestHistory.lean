import Csap.ServerRuns

/-! The requests along a run: what a call can do to the slots, and that the process
which issued a request is logged in under its source. -/

namespace Csap.Sessions

open Interleaving

/-- The entry in a slot is a request that waits for its destination. -/
def PendingAt (mem : SharedMemory) (slot : Nat) (entry : TransferRequestEntry) : Prop :=
  mem.pendingRequestsTable.live[slot]? = some entry ∧ entry.status = .pending

def Made (e : Event) : Prop :=
  machine e.act.pid e.act.call e.choice e.before = some (e.act.reply, e.after)

/-- A call of `shm_request_take` that succeeded. -/
def Takes (e : Event) (id : Int) (user : CStr) (st : RequestStatus)
    (out : Option TransferRequestEntry) : Prop :=
  ∃ rc, e.act = ⟨e.act.pid, .shared (.requestTake id user st), (rc, out)⟩ ∧ 0 ≤ rc

def isTake (id : Int) (e : Event) : Bool :=
  match e.act with
  | ⟨_, .shared (.requestTake id' _ _), (rc, _)⟩ => id' = id ∧ 0 ≤ rc
  | _ => false

theorem isTake_iff {id : Int} {e : Event} :
    isTake id e = true ↔ ∃ user st out, Takes e id user st out := by
  constructor
  · intro h
    obtain ⟨⟨pid, q, r⟩, choice, s, s'⟩ := e
    unfold isTake at h
    split at h
    · rename_i who id' user st rc out act
      cases act
      obtain ⟨rfl, success⟩ := of_decide_eq_true h
      exact ⟨user, st, out, rc, rfl, success⟩
    · cases h
  · rintro ⟨user, st, out, rc, act, success⟩
    rw [isTake, act]
    exact decide_eq_true ⟨rfl, success⟩

section steps

variable {root : CStr} {g : Ghost} {e : Event} {slot : Nat} {entry : TransferRequestEntry}

theorem pendingAt_add {sem : SemResult} {mem : SharedMemory} {src dst path : CStr}
    (h : PendingAt (shmRequestAdd sem mem src dst path).2 slot entry) :
    (addSlot sem mem ≠ some slot ∧ PendingAt mem slot entry) ∨
    (addSlot sem mem = some slot ∧ (shmRequestAdd sem mem src dst path).1 = entry.id ∧
      entry.id = mem.pendingRequestsTable.nextId ∧
      entry.sourceUsername = usernameField src ∧ entry.destUsername = usernameField dst ∧
      entry.filePathAbsolute = snprintf PATH_MAX path) := by
  revert h
  unfold shmRequestAdd addSlot
  split
  · intro h
    exact .inl ⟨by simp, h⟩
  · dsimp only
    split
    · rename_i slots stored
      obtain ⟨i, free, new, old⟩ := SlotTable.getElem?_store stored
      rintro ⟨found, pending⟩
      by_cases same : slot = i
      · subst same
        rw [new] at found
        cases found
        exact .inr ⟨free, rfl, rfl, rfl, rfl, rfl⟩
      · rw [old slot same] at found
        rw [free]
        exact .inl ⟨fun wrote => same (Option.some.inj wrote).symm, found, pending⟩
    · rename_i full
      intro h
      rw [SlotTable.freeSlot_of_store_none full]
      exact .inl ⟨by simp, h⟩

theorem pendingAt_put {mem : SharedMemory} {i : Nat} {new : TransferRequestEntry}
    (resolved : new.status ≠ .pending)
    (h : PendingAt { mem with pendingRequestsTable :=
      ⟨mem.pendingRequestsTable.put i new, mem.pendingRequestsTable.nextId⟩ } slot entry) :
    PendingAt mem slot entry := by
  obtain ⟨found, pending⟩ := h
  simp only [SlotTable.live_put, List.getElem?_set] at found
  split at found
  · split at found
    · cases found
      exact absurd pending resolved
    · cases found
  · exact ⟨found, pending⟩

theorem pendingAt_take {sem : SemResult} {mem : SharedMemory} {id : Int} {user : CStr}
    {st : RequestStatus} (resolves : st ≠ .pending)
    (h : PendingAt (shmRequestTake sem mem id user st).2.2 slot entry) :
    PendingAt mem slot entry := by
  revert h
  unfold shmRequestTake
  split
  · exact fun h => h
  · dsimp only
    split
    · exact fun h => h
    · split
      · exact fun h => h
      · split
        · exact fun h => h
        · exact pendingAt_put resolves

theorem pendingAt_set {sem : SemResult} {mem : SharedMemory} {id : Int} {st : RequestStatus}
    (resolves : st ≠ .pending) (h : PendingAt (shmRequestSet sem mem id st).2 slot entry) :
    PendingAt mem slot entry := by
  revert h
  unfold shmRequestSet
  split
  · exact fun h => h
  · dsimp only
    split
    · exact fun h => h
    · exact pendingAt_put resolves

theorem getElem?_setFailed (mem : SharedMemory) (user : CStr) (slot : Nat) :
    (shmRequestsSetFailed (.ok ()) mem user).2.pendingRequestsTable.live[slot]? =
      (mem.pendingRequestsTable.live[slot]?).map fun e =>
        if e.sentBy user then { e with status := .failed } else e := by
  simp [shmRequestsSetFailed]

theorem pendingAt_setFailed {sem : SemResult} {mem : SharedMemory} {user : CStr}
    (h : PendingAt (shmRequestsSetFailed sem mem user).2 slot entry) :
    PendingAt mem slot entry ∧ (sem = .ok () → entry.sourceUsername ≠ user) := by
  cases sem with
  | error err => exact ⟨h, by simp⟩
  | ok =>
    obtain ⟨found, pending⟩ := h
    rw [getElem?_setFailed, Option.map_eq_some_iff] at found
    obtain ⟨old, found, rfl⟩ := found
    split at pending
    · cases pending
    · rename_i other
      rw [if_neg other]
      refine ⟨⟨found, pending⟩, fun _ same => other ?_⟩
      simp [TransferRequestEntry.sentBy, pending, same]

theorem shmSessionAdd_requests (sem : SemResult) (mem : SharedMemory) (user : CStr) (pid : Int) :
    (shmSessionAdd sem mem user pid).2.pendingRequestsTable = mem.pendingRequestsTable := by
  unfold shmSessionAdd
  split
  · rfl
  · dsimp only
    split <;> rfl

theorem shmSessionsCollectStale_requests (sem : SemResult) (alive : Int → Bool)
    (mem : SharedMemory) :
    (shmSessionsCollectStale sem alive mem).2.pendingRequestsTable = mem.pendingRequestsTable := by
  unfold shmSessionsCollectStale
  split <;> rfl

theorem PendingAt.setFailed {mem : SharedMemory} (pending : PendingAt mem slot entry)
    (sem : SemResult) (user : CStr) :
    (shmRequestsSetFailed sem mem user).2.pendingRequestsTable.live[slot]? =
      some (if sem = .ok () ∧ entry.sourceUsername = user then { entry with status := .failed }
        else entry) := by
  cases sem with
  | error err => simpa [shmRequestsSetFailed] using pending.1
  | ok =>
    rw [getElem?_setFailed, pending.1]
    simp [TransferRequestEntry.sentBy, pending.2]

/-- A pending request was pending before the call already, or is what the call added. -/
theorem pendingAt_of_made (made : Made e) (allowed : g.allowed root e.act.call)
    (h : PendingAt e.after.mem slot entry) :
    (PendingAt e.before.mem slot entry ∧ e.after.issuer slot = e.before.issuer slot) ∨
    (e.after.issuer slot = e.act.pid ∧ addSlot e.choice.sem e.before.mem = some slot ∧
      entry.id = e.before.mem.pendingRequestsTable.nextId ∧ ∃ src dst path,
        e.act = ⟨e.act.pid, .shared (.requestAdd src dst path), entry.id⟩ ∧
        entry.sourceUsername = usernameField src ∧ entry.destUsername = usernameField dst ∧
        entry.filePathAbsolute = snprintf PATH_MAX path) := by
  obtain ⟨⟨pid, q, r⟩, choice, s, s'⟩ := e
  cases q with
  | shared q =>
    have result := machine_shared made
    cases q with
    | requestAdd src dst path =>
      simp only [execShared, Prod.mk.injEq] at result
      obtain ⟨rfl, rfl⟩ := result
      rcases pendingAt_add h with ⟨other, old⟩ | ⟨wrote, id, next, source, dest, file⟩
      · exact .inl ⟨old, if_neg other⟩
      · exact .inr ⟨if_pos wrote, wrote, next, src, dst, path, by rw [← id], source, dest, file⟩
    | requestTake id user st =>
      simp only [execShared, Prod.mk.injEq] at result
      obtain ⟨-, rfl⟩ := result
      have may := (Ghost.may_of_allowed allowed (by simp)).2
      have resolves : st ≠ .pending := by
        rcases may.2.2.2.2 with rfl | rfl <;> decide
      exact .inl ⟨pendingAt_take resolves h, rfl⟩
    | requestSet id st =>
      simp only [execShared, Prod.mk.injEq] at result
      obtain ⟨-, rfl⟩ := result
      have may := (Ghost.may_of_allowed allowed (by simp)).2
      have resolves : st ≠ .pending := by
        rw [may.1]
        decide
      exact .inl ⟨pendingAt_set resolves h, rfl⟩
    | requestsSetFailed user =>
      simp only [execShared, Prod.mk.injEq] at result
      obtain ⟨-, rfl⟩ := result
      exact .inl ⟨(pendingAt_setFailed h).1, rfl⟩
    | sessionAdd user sessionPid =>
      simp only [execShared, Prod.mk.injEq] at result
      obtain ⟨-, rfl⟩ := result
      rw [PendingAt, shmSessionAdd_requests] at h
      exact .inl ⟨h, rfl⟩
    | sessionsCollectStale =>
      simp only [execShared, Prod.mk.injEq] at result
      obtain ⟨-, rfl⟩ := result
      rw [PendingAt, shmSessionsCollectStale_requests] at h
      exact .inl ⟨h, rfl⟩
    | sessionFind user =>
      simp only [execShared, Prod.mk.injEq] at result
      obtain ⟨-, rfl⟩ := result
      exact .inl ⟨h, rfl⟩
    | requestsForDest user max =>
      simp only [execShared, Prod.mk.injEq] at result
      obtain ⟨-, rfl⟩ := result
      exact .inl ⟨h, rfl⟩
  | _ =>
    have same := machine_other (by simp) made
    simp only at same
    subst same
    exact .inl ⟨h, rfl⟩

end steps

section users

variable {root : CStr} {s t : State} {log : Log} {pid : Int} {user : CStr}

theorem user_of_next {g : Ghost} {c : Call} {r : c.Reply} (h : (g.next c r).user = some user) :
    g.user = some user ∨ ∃ pid, c = .shared (.sessionAdd user pid) := by
  unfold Ghost.next at h
  repeat' split at h
  case h_2 =>
    cases h
    exact .inr ⟨_, rfl⟩
  all_goals exact .inl h

theorem user_next {g : Ghost} {c : Call} (allowed : g.allowed root c) (r : c.Reply)
    (h : g.user = some user) : (g.next c r).user = some user := by
  unfold Ghost.next
  repeat' split
  case h_2 =>
    have unnamed : g.user = none := (Ghost.may_of_allowed allowed (by simp)).2.1
    rw [h] at unnamed
    cases unnamed
  all_goals exact h

theorem pid_next (g : Ghost) (c : Call) (r : c.Reply) : (g.next c r).pid = g.pid := by
  unfold Ghost.next
  repeat' split
  all_goals rfl

@[simp] theorem ghostOf_pid (pid : Int) (log : Log) :
    (ghostOf (protocol root) init pid log).pid = pid := by
  induction log using List.reverseRecOn with
  | nil => rfl
  | append_singleton log e ih =>
    rw [ghostOf_append]
    split
    · exact (pid_next _ _ _).trans ih
    · exact ih

theorem ghostOf_user_append {e : Event}
    (allowed : (protocol root).allowed (ghostOf (protocol root) init e.act.pid log) e.act.call)
    (h : (ghostOf (protocol root) init pid log).user = some user) :
    (ghostOf (protocol root) init pid (log ++ [e])).user = some user := by
  rw [ghostOf_append]
  split
  · rename_i same
    subst same
    exact user_next allowed _ h
  · exact h

theorem user_fits (trace : Trace (protocol root) init machine s log t)
    (h : (ghostOf (protocol root) init pid log).user = some user) : user.length ≤ 31 := by
  induction trace with
  | nil => cases h
  | @snoc log t t' who q choice r old allowed expected done ih =>
    rw [ghostOf_append] at h
    split at h
    · rename_i same
      subst same
      rcases user_of_next h with before | ⟨pid, rfl⟩
      · exact ih before
      · exact (Ghost.may_of_allowed allowed (by simp)).2.2.2
    · exact ih h

theorem issuer_user {slot : Nat} {entry : TransferRequestEntry}
    (trace : Trace (protocol root) init machine setupState log t)
    (h : PendingAt t.mem slot entry) :
    (ghostOf (protocol root) init (t.issuer slot) log).user = some entry.sourceUsername := by
  induction trace with
  | nil => cases h.1
  | @snoc log t t' who q choice r old allowed expected done ih =>
    have made : Made ⟨⟨who, q, r⟩, choice, t, t'⟩ := done
    rcases pendingAt_of_made made allowed h with
      ⟨before, same⟩ | ⟨own, -, -, src, dst, path, act, source, -, -⟩
    · dsimp only at same
      rw [same]
      exact ghostOf_user_append allowed (ih before)
    · dsimp only at own
      rw [own]
      apply ghostOf_user_append allowed
      cases act
      have name : (ghostOf (protocol root) init who log).user = some src :=
        (Ghost.may_of_allowed allowed (by simp)).2.1
      rw [source, usernameField, snprintf_eq_self (by have := user_fits old name; omega)]
      exact name

end users

end Csap.Sessions
