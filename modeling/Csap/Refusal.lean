import Csap.Acceptance

/-! What `transfer_request` leaves in the table when it answers with an error. The
request is entered before its destination is notified, and stays pending if that
fails; and an id that has become negative is taken for an error although the
request was entered. -/

namespace Csap.Sessions

open Prog

/-- The others leave alone the requests that process `pid` has issued. -/
def SameIssued (pid : Int) (s t : State) : Prop :=
  ∀ slot, slot < s.mem.pendingRequestsTable.count → s.issuer slot = pid → t.issuer slot = pid ∧
    t.mem.pendingRequestsTable.live[slot]? = s.mem.pendingRequestsTable.live[slot]?

instance (pid : Int) : DecidableRel (SameIssued pid) :=
  fun s t => inferInstanceAs (Decidable (∀ slot, slot < s.mem.pendingRequestsTable.count →
    s.issuer slot = pid → t.issuer slot = pid ∧
      t.mem.pendingRequestsTable.live[slot]? = s.mem.pendingRequestsTable.live[slot]?))

theorem SameIssued.refl (pid : Int) (s : State) : SameIssued pid s s :=
  fun _ _ issued => ⟨issued, rfl⟩

theorem SameIssued.trans {pid : Int} {s t u : State} (first : SameIssued pid s t)
    (next : SameIssued pid t u) : SameIssued pid s u := by
  intro slot bound issued
  obtain ⟨issued', same⟩ := first slot bound issued
  have bound' : slot < t.mem.pendingRequestsTable.count := by
    rw [← SlotTable.length_live] at bound ⊢
    exact (List.getElem?_eq_some_iff.mp (same.trans (List.getElem?_eq_getElem bound))).1
  obtain ⟨issued'', same'⟩ := next slot bound' issued'
  exact ⟨issued'', same'.trans same⟩

def stores (slot : Nat) : Seen → Prop
  | ⟨.shared (.requestAdd _ _ _), _, (found, choice), _, _⟩ =>
    addSlot choice.sem found.mem = some slot
  | _ => False

def errAnswer : Seen → Prop
  | ⟨.socket (.sendPacket command _), sent, _, _, _⟩ => command = RSP_ERR ∧ 0 ≤ sent
  | _ => False

instance (slot : Nat) : DecidablePred (stores slot)
  | ⟨.shared (.requestAdd _ _ _), _, (found, choice), _, _⟩ =>
    inferInstanceAs (Decidable (addSlot choice.sem found.mem = some slot))
  | ⟨.shared (.sessionAdd _ _), _, _, _, _⟩ | ⟨.shared (.sessionFind _), _, _, _, _⟩
  | ⟨.shared .sessionsCollectStale, _, _, _, _⟩ | ⟨.shared (.requestTake _ _ _), _, _, _, _⟩
  | ⟨.shared (.requestSet _ _), _, _, _, _⟩ | ⟨.shared (.requestsSetFailed _), _, _, _, _⟩
  | ⟨.shared (.requestsForDest _ _), _, _, _, _⟩ | ⟨.file _, _, _, _, _⟩ | ⟨.user _, _, _, _, _⟩
  | ⟨.socket _, _, _, _, _⟩ | ⟨.alloc _, _, _, _, _⟩ | ⟨.enterCopy _ _, _, _, _, _⟩ => isFalse id

instance : DecidablePred errAnswer
  | ⟨.socket (.sendPacket command _), sent, _, _, _⟩ =>
    inferInstanceAs (Decidable (command = RSP_ERR ∧ 0 ≤ sent))
  | ⟨.socket (.select _), _, _, _, _⟩ | ⟨.socket .recvPacket, _, _, _, _⟩
  | ⟨.socket (.recvFrameInto _), _, _, _, _⟩ | ⟨.file _, _, _, _, _⟩ | ⟨.user _, _, _, _, _⟩
  | ⟨.shared _, _, _, _, _⟩ | ⟨.alloc _, _, _, _, _⟩ | ⟨.enterCopy _ _, _, _, _, _⟩ => isFalse id

def answerLost : Seen → Prop
  | ⟨.alloc _, allocated, _, _, _⟩ => allocated = false
  | ⟨.socket (.sendPacket _ _), sent, _, _, _⟩ => sent < 0
  | _ => False

def notifyError : Seen → Option Errno
  | ⟨.file (.openPath _ flags _), .error e, _, _, _⟩ => if flags = notifyFlags then some e else none
  | ⟨.file (.write _ _), .error e, _, _, _⟩ => if e = EINTR then none else some e
  | _ => none

def notifyReason : CStr := cstr "Failed to notify destination user about transfer request"

/-- The answer that reports the error fits a packet, as it does for every number of `errno.h`. -/
def Reportable (e : Errno) : Prop :=
  (errPayload e.code notifyReason).length ≤ Network.MAX_PAYLOAD_SIZE

def PendingIn (slot : Nat) (mem : SharedMemory) : Prop :=
  ∃ e, mem.pendingRequestsTable.live[slot]? = some e ∧ e.status = .pending

instance (slot : Nat) (mem : SharedMemory) : Decidable (PendingIn slot mem) :=
  decidable_of_iff ((mem.pendingRequestsTable.live[slot]?).any (·.status = .pending))
    (by simp [PendingIn, Option.any_eq_true])

/-- If the command was answered with an error, no request it entered is still pending. -/
def NothingLeft (log : List Seen) (t : State) : Prop :=
  (∃ h ∈ log, errAnswer h) → ∀ h ∈ log, ∀ slot, stores slot h → ¬ PendingIn slot t.mem

/-- A request was entered only under an id that is not negative and with its destination notified,
or no answer could be given. -/
def Announceable (log : List Seen) : Prop :=
  ∀ h ∈ log, ∀ slot, stores slot h →
    (0 ≤ h.choice.1.mem.pendingRequestsTable.nextId ∧
      ∀ h ∈ log, ∀ e, notifyError h = some e → ¬ Reportable e) ∨ ∃ h ∈ log, answerLost h

def Idle (h : Seen) : Prop :=
  (∀ slot, ¬ stores slot h) ∧ ¬ errAnswer h ∧ ¬ answerLost h ∧ notifyError h = none

section command

variable {pid : Int} {s t : State} {log rest : List Seen}

abbrev requesting (pid : Int) : Handler Call.Reply State (State × Choice) :=
  among (SameIssued pid) pid

theorem nothingLeft_unstored (h : ∀ h ∈ log, ∀ slot, ¬ stores slot h) :
    NothingLeft log t ↔ Announceable log :=
  ⟨fun _ e member slot stored => absurd stored (h e member slot),
    fun _ _ e member slot stored => absurd stored (h e member slot)⟩

theorem not_stores_of_aside {h : Seen} (quiet : Aside h.call) (slot : Nat) : ¬ stores slot h := by
  obtain ⟨c, r, choice, s, t⟩ := h
  cases c with
  | shared q => exact quiet.elim
  | _ => exact id

theorem aside_keeps {α : Type} {p : Sys α} {a : α} (h : p.Calls Aside)
    (ran : Returns (requesting pid) p s rest a t) :
    (∀ h ∈ rest, ∀ slot, ¬ stores slot h) ∧ SameIssued pid s t := by
  have kept : Ensures (requesting pid) p (fun _ log t =>
      (∀ h ∈ log, ∀ slot, ¬ stores slot h) ∧ SameIssued pid s t) [] s :=
    h.ensures (SameIssued pid) (SameIssued.refl pid) (fun _ _ _ first next => first.trans next)
      (fun c choice s r t quiet done => among_unshared (aside_unshared quiet) done)
      fun rest a t quiet same => ⟨fun h member => not_stores_of_aside (quiet h member), same⟩
  exact kept rest a t ran

theorem aside_unstored {p : Sys Unit} (h : p.Calls Aside)
    (old : ∀ h ∈ log, ∀ slot, ¬ stores slot h) :
    Ensures (requesting pid) p (fun _ log t => NothingLeft log t ↔ Announceable log) log s := by
  intro rest _ t ran
  obtain ⟨later, -⟩ := aside_keeps h ran
  exact nothingLeft_unstored (List.forall_mem_append.mpr ⟨old, later⟩)

theorem failWith_run {err : Errno} {reason : CStr}
    (ran : Returns (requesting pid) (failWith err reason) s rest () t) :
    (∀ h ∈ rest, notifyError h = none) ∧
      ((∃ h ∈ rest, errAnswer h) ↔
        (errPayload err.code reason).length ≤ Network.MAX_PAYLOAD_SIZE ∧
          ¬ ∃ h ∈ rest, answerLost h) := by
  have ensures : Ensures (requesting pid) (failWith err reason) (fun _ log _ =>
      (∀ h ∈ log, notifyError h = none) ∧
        ((∃ h ∈ log, errAnswer h) ↔
          (errPayload err.code reason).length ≤ Network.MAX_PAYLOAD_SIZE ∧
            ¬ ∃ h ∈ log, answerLost h)) [] s := by
    unfold failWith sendErr
    rw [ensures_bind, ensures_bind, ensures_perform]
    intro choice allocated u _
    cases allocated with
    | false =>
      rw [if_neg Bool.false_ne_true, ensures_pure, ensures_pure]
      refine ⟨List.forall_mem_singleton.mpr rfl, ?_, ?_⟩
      · rintro ⟨h, member, answered⟩
        cases List.mem_singleton.mp member
        exact answered.elim
      · rintro ⟨-, kept⟩
        exact absurd ⟨_, List.mem_singleton_self _, rfl⟩ kept
    | true =>
      rw [if_pos rfl, sendPacket]
      split
      · rename_i long
        rw [ensures_pure, ensures_pure]
        refine ⟨List.forall_mem_singleton.mpr rfl, ?_, ?_⟩
        · rintro ⟨h, member, answered⟩
          cases List.mem_singleton.mp member
          exact answered.elim
        · rintro ⟨fits, -⟩
          exact absurd fits (not_le.mpr long)
      · rename_i fits
        rw [ensures_perform]
        intro choice' sent v _
        rw [ensures_pure]
        have answered : errAnswer ⟨.socket (.sendPacket RSP_ERR (errPayload err.code reason)), sent,
          choice', u, v⟩ ↔ 0 ≤ sent := and_iff_right rfl
        have lost : answerLost ⟨.socket (.sendPacket RSP_ERR (errPayload err.code reason)), sent,
          choice', u, v⟩ ↔ sent < 0 := Iff.rfl
        simp only [List.nil_append, List.singleton_append, List.forall_mem_cons,
          List.exists_mem_cons_iff, List.not_mem_nil, false_and, exists_false, or_false, answered,
          lost]
        refine ⟨⟨rfl, rfl, by simp⟩, ?_⟩
        simp only [errAnswer, answerLost, false_or, not_lt.mp fits, true_and, not_lt,
          Bool.true_eq_false]
  exact ensures rest () t ran

/-- What `write_all` and `notify_pid` log: no answer, and the errors of notifications from `es`. -/
def Notifying (es : List Errno) (log : List Seen) : Prop :=
  (∀ h ∈ log, ¬ errAnswer h ∧ ¬ answerLost h) ∧ log.filterMap notifyError = es

theorem Notifying.append {es es' : List Errno} (h : Notifying es log) (h' : Notifying es' rest) :
    Notifying (es ++ es') (log ++ rest) :=
  ⟨List.forall_mem_append.mpr ⟨h.1, h'.1⟩, by rw [List.filterMap_append, h.2, h'.2]⟩

theorem notifying_file {h : Seen} {c : FileCall} (file : h.call = .file c) :
    Notifying (notifyError h).toList [h] := by
  obtain ⟨q, r, choice, s, t⟩ := h
  cases file
  refine ⟨List.forall_mem_singleton.mpr ⟨fun h => h, fun h => h⟩, ?_⟩
  rw [List.filterMap_cons, List.filterMap_nil]
  split <;> simp [*]

def errorOf : SysResult Unit → List Errno
  | .ok () => []
  | .error e => [e]

theorem writeAll_run {fd : Int} {buf : CStr} {r : SysResult Unit}
    (ran : Returns (requesting pid) (writeAll fd buf) s rest r t) :
    Notifying (errorOf r) rest := by
  have ensures : Ensures (requesting pid) (writeAll fd buf)
      (fun r log _ => Notifying (errorOf r) log) [] s := by
    refine ensures_iterate (fun _ log _ => Notifying [] log) ⟨by simp, rfl⟩ fun remaining log s h => ?_
    split
    · exact ensures_pure.mpr h
    · rw [ensures_bind, ensures_perform]
      intro choice r t _
      have here := h.append (notifying_file (show Happened.call ⟨.file (.write fd remaining), r,
        choice, s, t⟩ = _ from rfl))
      rcases r with e | written
      · by_cases interrupted : e = EINTR
        · simpa [interrupted, notifyError] using here
        · simpa [interrupted, notifyError, errorOf] using here
      · exact ensures_pure.mpr here
  exact ensures rest r t ran

theorem notifyPid_run {root text : CStr} {dest : Int} {r : SysResult Unit}
    (ran : Returns (requesting pid) (notifyPid root dest text) s rest r t) :
    Notifying (errorOf r) rest := by
  have ensures : Ensures (requesting pid) (notifyPid root dest text)
      (fun r log _ => Notifying (errorOf r) log) [] s := by
    unfold notifyPid
    simp only [ensures_bind]
    rw [ensures_perform]
    intro choice opened u _
    have first := notifying_file (show Happened.call ⟨.file (.openPath (sessionFifoPath root dest)
      notifyFlags 0), opened, choice, s, u⟩ = _ from rfl)
    rcases opened with e | fd
    · exact ensures_pure.mpr first
    · rw [ensures_bind]
      intro later r v wrote
      rw [ensures_bind, ensures_perform]
      intro choice' closed w _
      rw [ensures_pure]
      have last := notifying_file (show Happened.call ⟨.file (.close fd), closed, choice', v, w⟩ = _
        from rfl)
      have whole := (first.append (writeAll_run wrote)).append last
      simp only [notifyError, Option.toList_none, List.nil_append, List.append_nil] at whole
      exact whole
  exact ensures rest r t ran

theorem add_done {user dest path : CStr} {choice : State × Choice} {newId : Int} {slot : Nat}
    (done : requesting pid (.shared (.requestAdd user dest path)) choice s = some (newId, t))
    (stored : addSlot choice.2.sem choice.1.mem = some slot) :
    newId = choice.1.mem.pendingRequestsTable.nextId ∧ PendingIn slot t.mem ∧
      t.issuer slot = pid ∧ slot < t.mem.pendingRequestsTable.count := by
  obtain ⟨-, result⟩ := among_shared done
  simp only [execShared, Prod.mk.injEq] at result
  obtain ⟨rfl, rfl⟩ := result
  have issued : (if addSlot choice.2.sem choice.1.mem = some slot then pid
      else choice.1.issuer slot) = pid := if_pos stored
  unfold shmRequestAdd
  cases sem : choice.2.sem with
  | error err =>
    rw [sem] at stored
    cases stored
  | ok =>
    rw [sem] at stored issued
    dsimp only
    split
    · rename_i slots store
      obtain ⟨i, free, here, -⟩ := SlotTable.getElem?_store store
      cases free.symm.trans stored
      refine ⟨rfl, ⟨_, here, rfl⟩, issued, ?_⟩
      have bound := (List.getElem?_eq_some_iff.mp here).1
      rwa [SlotTable.length_live] at bound
    · rename_i full
      cases (SlotTable.freeSlot_of_store_none full).symm.trans stored

section stored

variable {added : Seen} {slot : Nat}

theorem nothingLeft_stored (idle : ∀ h ∈ log, Idle h) (stored : stores slot added)
    (silent : ¬ errAnswer added) (left : PendingIn slot t.mem) :
    NothingLeft (log ++ added :: rest) t ↔ ¬ ∃ h ∈ rest, errAnswer h := by
  constructor
  · rintro nothing ⟨h, member, answered⟩
    exact nothing ⟨h, by simp [member], answered⟩ added (by simp) slot stored left
  · rintro unanswered ⟨h, member, answered⟩
    simp only [List.mem_append, List.mem_cons] at member
    rcases member with old | rfl | new
    · exact absurd answered (idle h old).2.1
    · exact absurd answered silent
    · exact absurd ⟨h, new, answered⟩ unanswered

theorem announceable_stored (idle : ∀ h ∈ log, Idle h) (stored : stores slot added)
    (silent : ¬ answerLost added ∧ notifyError added = none)
    (later : ∀ h ∈ rest, ∀ slot, ¬ stores slot h) :
    Announceable (log ++ added :: rest) ↔
      (0 ≤ added.choice.1.mem.pendingRequestsTable.nextId ∧
        ∀ e ∈ rest.filterMap notifyError, ¬ Reportable e) ∨ ∃ h ∈ rest, answerLost h := by
  have errors : (∀ h ∈ log ++ added :: rest, ∀ e, notifyError h = some e → ¬ Reportable e) ↔
      ∀ e ∈ rest.filterMap notifyError, ¬ Reportable e := by
    simp only [List.forall_mem_append, List.forall_mem_cons, List.mem_filterMap]
    constructor
    · rintro ⟨-, -, fine⟩ e ⟨h, member, error⟩
      exact fine h member e error
    · intro fine
      refine ⟨fun h member e error => ?_, fun e error => ?_, fun h member e error => ?_⟩
      · cases (idle h member).2.2.2.symm.trans error
      · cases silent.2.symm.trans error
      · exact fine e ⟨h, member, error⟩
  have losses : (∃ h ∈ log ++ added :: rest, answerLost h) ↔ ∃ h ∈ rest, answerLost h := by
    constructor
    · rintro ⟨h, member, lost⟩
      simp only [List.mem_append, List.mem_cons] at member
      rcases member with old | rfl | new
      · exact absurd lost (idle h old).2.2.1
      · exact absurd lost silent.1
      · exact ⟨h, new, lost⟩
    · rintro ⟨h, member, lost⟩
      exact ⟨h, by simp [member], lost⟩
  constructor
  · intro announceable
    have here := announceable added (by simp) slot stored
    rwa [errors, losses] at here
  · intro fine h member slot' stored'
    rw [errors, losses]
    simp only [List.mem_append, List.mem_cons] at member
    rcases member with old | rfl | new
    · exact absurd stored' ((idle h old).1 slot')
    · exact fine
    · exact absurd stored' (later h new slot')

/-- After an add nothing is left unless there was something to report and it was reported. -/
theorem stored_iff (A : Prop) (idle : ∀ h ∈ log, Idle h) (stored : stores slot added)
    (silent : ¬ errAnswer added ∧ ¬ answerLost added ∧ notifyError added = none)
    (left : PendingIn slot t.mem) (later : ∀ h ∈ rest, ∀ slot, ¬ stores slot h)
    (fine : (0 ≤ added.choice.1.mem.pendingRequestsTable.nextId ∧
      ∀ e ∈ rest.filterMap notifyError, ¬ Reportable e) ↔ ¬ A)
    (answer : (∃ h ∈ rest, errAnswer h) ↔ A ∧ ¬ ∃ h ∈ rest, answerLost h) :
    NothingLeft (log ++ added :: rest) t ↔ Announceable (log ++ added :: rest) := by
  rw [nothingLeft_stored idle stored silent.1 left,
    announceable_stored idle stored silent.2 later, fine, answer, not_and_or, not_not]

end stored

theorem announce_ensures {added : Seen} {slot : Nat} {newId : Int} (session : Session)
    (fullSrcPath : CStr) (destUserPid : Int) (destOnline : Bool) (idle : ∀ h ∈ log, Idle h)
    (stored : stores slot added)
    (silent : ¬ errAnswer added ∧ ¬ answerLost added ∧ notifyError added = none)
    (entered : newId = added.choice.1.mem.pendingRequestsTable.nextId)
    (left : ∀ t, SameIssued pid s t → PendingIn slot t.mem) :
    Ensures (requesting pid) (do
      if newId < 0 then
        failWith ENOMEM (cstr "Failed to add transfer request")
        return
      if destOnline then
        let baseName := pathBasename (NAME_MAX + 1) fullSrcPath
        match ← notifyPid session.rootPath destUserPid (Notification.req newId baseName).text with
        | .error e => failWith e (cstr "Failed to notify destination user about transfer request")
        | .ok () => return
      else return) (fun _ log t => NothingLeft log t ↔ Announceable log) (log ++ [added]) s := by
  split
  · rename_i negative
    rw [ensures_bind]
    intro rest _ t ran
    obtain ⟨later, kept⟩ := aside_keeps (calls_within rfl) ran
    obtain ⟨-, answer⟩ := failWith_run ran
    rw [ensures_pure, List.append_assoc, List.singleton_append]
    refine stored_iff _ idle stored silent (left t kept) later ?_ answer
    rw [← entered]
    exact iff_of_false (fun fine => absurd fine.1 (not_le.mpr negative)) (not_not.mpr (by decide))
  · rename_i positive
    have fine : ∀ {errors : List Errno}, (0 ≤ added.choice.1.mem.pendingRequestsTable.nextId ∧
        ∀ e ∈ errors, ¬ Reportable e) ↔ ∀ e ∈ errors, ¬ Reportable e := by
      intro errors
      rw [← entered]
      exact and_iff_right (not_lt.mp positive)
    split
    · rw [ensures_bind]
      intro rest r t ran
      obtain ⟨later, kept⟩ := aside_keeps (calls_within rfl) ran
      obtain ⟨unanswered, errors⟩ := notifyPid_run ran
      cases r with
      | ok done =>
        rw [ensures_pure, List.append_assoc, List.singleton_append]
        refine stored_iff False idle stored silent (left t kept) later ?_ ?_
        · rw [fine, errors]
          simp [errorOf]
        · simp only [false_and, iff_false]
          rintro ⟨h, member, answered⟩
          exact (unanswered h member).1 answered
      | error e =>
        intro rest' _ u ran'
        obtain ⟨later', kept'⟩ := aside_keeps (calls_within rfl) ran'
        obtain ⟨errors', answer⟩ := failWith_run ran'
        rw [List.append_assoc, List.append_assoc, List.singleton_append]
        refine stored_iff (Reportable e) idle stored silent (left u (kept.trans kept'))
          (List.forall_mem_append.mpr ⟨later, later'⟩) ?_ ?_
        · have none : rest'.filterMap notifyError = [] := List.filterMap_eq_nil_iff.mpr errors'
          rw [fine, List.filterMap_append, errors, none]
          simp [errorOf]
        · have none : ∀ P : Seen → Prop, (∀ h ∈ rest, ¬ P h) →
              ((∃ h ∈ rest ++ rest', P h) ↔ ∃ h ∈ rest', P h) := by
            intro P never
            constructor
            · rintro ⟨h, member, holds⟩
              rcases List.mem_append.mp member with old | new
              · exact absurd holds (never h old)
              · exact ⟨h, new, holds⟩
            · rintro ⟨h, member, holds⟩
              exact ⟨h, List.mem_append_right _ member, holds⟩
          rw [none _ fun h member => (unanswered h member).1,
            none _ fun h member => (unanswered h member).2]
          exact answer
    · rw [ensures_pure]
      refine stored_iff False idle stored silent (left s (SameIssued.refl pid s)) (by simp) ?_ (by simp)
      rw [fine]
      simp

theorem enterRequest_ensures (session : Session) (destUser fullSrcPath : CStr) (destUserPid : Int)
    (destOnline : Bool) (idle : ∀ h ∈ log, Idle h) :
    Ensures (requesting pid) (enterRequest session destUser fullSrcPath destUserPid destOnline)
      (fun _ log t => NothingLeft log t ↔ Announceable log) log s := by
  unfold enterRequest
  rw [ensures_bind, ensures_perform]
  intro choice newId u done
  cases stored : addSlot choice.2.sem choice.1.mem with
  | none =>
    have none : ∀ slot', ¬ stores slot' ⟨_, newId, choice, s, u⟩ := by
      intro slot' stored'
      cases stored.symm.trans stored'
    refine aside_unstored ?_ ?_
    · repeat' with_reducible first
        | exact calls_within rfl
        | refine Calls.bind ?_ fun _ => ?_
        | split
    · exact List.forall_mem_append.mpr
        ⟨fun h member => (idle h member).1, List.forall_mem_singleton.mpr none⟩
  | some slot =>
    obtain ⟨entered, ⟨entry, here, pending⟩, issued, bound⟩ := add_done done stored
    have here' : stores slot ⟨_, newId, choice, s, u⟩ := stored
    refine announce_ensures session fullSrcPath destUserPid destOnline idle here' ?_ entered ?_
    · exact ⟨fun h => h, fun h => h, rfl⟩
    · exact fun t kept => ⟨entry, (kept slot bound issued).2.trans here, pending⟩

theorem failed_ensures {α : Type} {p : Sys Unit} {P : List Seen → Prop} :
    Ensures (requesting pid) (do p; return (none : Option α)) (fun r log _ => r ≠ none → P log) log
      s := by
  rw [ensures_bind]
  intro rest r t _
  exact ensures_pure.mpr fun some => (some rfl).elim

theorem cmdParse_idle {line : CStr} {command : Cmd}
    (ran : Returns (requesting pid) (cmdParse (some line)) s rest (some command) t) :
    ∀ h ∈ rest, Idle h := by
  have ensures : Ensures (requesting pid) (cmdParse (some line))
      (fun r log _ => r ≠ none → ∀ h ∈ log, Idle h) [] s := by
    unfold cmdParse parseCommand
    simp only [ensures_bind, ensures_perform]
    intro choice copied u _
    cases copied with
    | false =>
      rw [if_neg Bool.false_ne_true, ensures_pure]
      exact failed_ensures
    | true =>
      rw [if_pos rfl, ensures_pure]
      split
      · exact failed_ensures
      · refine ensures_pure.mpr fun _ => List.forall_mem_singleton.mpr ?_
        exact ⟨fun _ h => h, fun h => h, Bool.noConfusion, rfl⟩
  exact ensures rest _ t ran (by simp)

theorem cmdResolve_idle {path root fullPath : CStr}
    (ran : Returns (requesting pid) (cmdResolve path root) s rest (some fullPath) t) :
    ∀ h ∈ rest, Idle h := by
  have resolved : ∀ {path : CStr} {r choice s t}, Idle ⟨.file (.realpath path), r, choice, s, t⟩ :=
    ⟨fun _ h => h, fun h => h, fun h => h, rfl⟩
  have copied : ∀ {size : Nat} {choice s t}, Idle ⟨.alloc size, true, choice, s, t⟩ :=
    ⟨fun _ h => h, fun h => h, nofun, rfl⟩
  have ensures : Ensures (requesting pid) (cmdResolve path root)
      (fun r log _ => r ≠ none → ∀ h ∈ log, Idle h) [] s := by
    unfold cmdResolve validatePath
    rw [ensures_bind]
    dsimp only
    rw [ensures_bind, ensures_perform]
    intro choice r u _
    rcases r with err | validatedPath
    · dsimp only
      split
      · rw [ensures_pure]
        exact failed_ensures
      · rw [ensures_bind, ensures_perform]
        intro choice₂ pathCopy u₂ _
        rw [ensures_bind, ensures_perform]
        intro choice₃ pathCopy2 u₃ _
        split
        · rw [ensures_pure]
          exact failed_ensures
        · rename_i allocated
          simp only [Bool.or_eq_true, Bool.not_eq_true', not_or, Bool.not_eq_false] at allocated
          obtain ⟨rfl, rfl⟩ := allocated
          rw [ensures_bind, ensures_perform]
          intro choice₄ parent u₄ _
          rcases parent with err | resolvedParent
          · rw [ensures_pure]
            exact failed_ensures
          · dsimp only
            split
            · rw [ensures_pure]
              exact failed_ensures
            · rw [ensures_ite]
              refine ⟨fun _ => ?_, fun _ => ?_⟩
              · rw [ensures_pure]
                exact failed_ensures
              · rw [ensures_pure]
                refine ensures_pure.mpr fun _ => ?_
                simp only [List.forall_mem_append, List.forall_mem_singleton]
                exact ⟨⟨⟨⟨by simp, resolved⟩, copied⟩, copied⟩, resolved⟩
    · dsimp only
      split
      · rw [ensures_pure]
        exact ensures_pure.mpr fun _ => List.forall_mem_singleton.mpr resolved
      · rw [ensures_pure]
        exact failed_ensures
  exact ensures rest _ t ran (by simp)

def Mute : Call → Prop
  | .user _ | .file (.stat _) | .shared (.sessionFind _) => True
  | _ => False

instance mute_judged : Judged Mute where
  admits
    | .stat | .geteuid | .seteuid | .setegid | .getpwnam | .getpwuid | .getgrgid | .runExec
    | .sessionFind => true
    | _ => false
  sound := by
    rintro (c | c | c | c | c | c) <;> cases c <;> simp [Mute]

theorem idle_of_mute {h : Seen} (mute : Mute h.call) : Idle h := by
  obtain ⟨c, r, choice, s, t⟩ := h
  cases c with
  | user c => exact ⟨fun _ h => h, fun h => h, fun h => h, rfl⟩
  | file c =>
    cases c with
    | stat path => exact ⟨fun _ h => h, fun h => h, fun h => h, rfl⟩
    | _ => exact mute.elim
  | shared c =>
    cases c with
    | sessionFind user => exact ⟨fun _ h => h, fun h => h, fun h => h, rfl⟩
    | _ => exact mute.elim
  | _ => exact mute.elim

theorem mute_run {α : Type} {p : Sys α} {a : α} (h : p.Calls Mute)
    (ran : Returns (requesting pid) p s rest a t) : ∀ h ∈ rest, Idle h := by
  have ensures : Ensures (requesting pid) p (fun _ log _ => ∀ h ∈ log, Idle h) [] s :=
    h.ensures (fun _ _ => True) (fun _ => trivial) (fun _ _ _ _ _ => trivial)
      (fun _ _ _ _ _ _ _ => trivial) fun rest _ _ mute _ h member => idle_of_mute (mute h member)
  exact ensures rest a t ran

theorem transferReq_ensures (server : Server) (session : Session) (line : CStr) :
    Ensures (requesting pid) (dispatchTransferReq server session (some line))
      (fun _ log t => NothingLeft log t ↔ Announceable log) [] s := by
  unfold dispatchTransferReq
  rw [ensures_bind]
  intro log₁ command t₁ parsed
  have parse_unstored := (aside_keeps (calls_within rfl) parsed).1
  rcases command with _ | command
  · exact ensures_pure.mpr (nothingLeft_unstored parse_unstored)
  dsimp only
  rw [ensures_bind]
  intro log₂ fullSrcPath t₂ resolved
  have resolve_unstored := (aside_keeps (calls_within rfl) resolved).1
  rcases fullSrcPath with _ | fullSrcPath
  · exact ensures_pure.mpr
      (nothingLeft_unstored (List.forall_mem_append.mpr ⟨parse_unstored, resolve_unstored⟩))
  dsimp only
  have idle : ∀ h ∈ [] ++ log₁ ++ log₂, Idle h :=
    List.forall_mem_append.mpr ⟨cmdParse_idle parsed, cmdResolve_idle resolved⟩
  generalize [] ++ log₁ ++ log₂ = log at idle
  have failing : ∀ {log : List Seen} {t : State} {e : Errno} {reason : CStr},
      (∀ h ∈ log, Idle h) → Ensures (requesting pid) (failWith e reason)
        (fun _ log t => NothingLeft log t ↔ Announceable log) log t := fun idle =>
    aside_unstored (calls_within rfl) fun h member => (idle h member).1
  rw [ensures_bind]
  intro log₃ srcStat t₃ stated
  have idle₃ := List.forall_mem_append.mpr ⟨idle, mute_run (calls_within rfl) stated⟩
  rcases srcStat with e | srcSt
  · exact failing idle₃
  dsimp only
  split
  · rw [ensures_bind]
    exact (failing idle₃).mono fun _ _ _ same => ensures_pure.mpr same
  rw [ensures_bind]
  intro log₄ found t₄ looked
  have idle₄ := List.forall_mem_append.mpr ⟨idle₃, mute_run (calls_within rfl) looked⟩
  obtain ⟨found, dest⟩ := found
  dsimp only
  split
  · rw [ensures_bind]
    exact (failing idle₄).mono fun _ _ _ same => ensures_pure.mpr same
  split
  · rw [ensures_bind]
    intro log₅ userExists t₅ checked
    have idle₅ := List.forall_mem_append.mpr ⟨idle₄, mute_run (calls_within rfl) checked⟩
    split
    · rw [ensures_bind]
      exact (failing idle₅).mono fun _ _ _ same => ensures_pure.mpr same
    split
    · rw [ensures_bind]
      exact (failing idle₅).mono fun _ _ _ same => ensures_pure.mpr same
    · exact enterRequest_ensures session _ _ _ _ idle₅
  · exact enterRequest_ensures session _ _ _ _ idle₄

theorem cmdParse_none {command : Cmd}
    (ran : Returns (requesting pid) (cmdParse none) s rest (some command) t) : False := by
  have ensures : Ensures (requesting pid) (cmdParse none) (fun r _ _ => r ≠ none → False) [] s := by
    unfold cmdParse parseCommand
    rw [ensures_bind]
    exact ensures_pure.mpr failed_ensures
  exact ensures rest _ t ran (by simp)

/-- When `transfer_request` was answered with an error none of its requests is still pending,
exactly if every request it entered had a valid id and was announced, or the answer was lost. -/
theorem refused_leaves_nothing {server : Server} {session : Session} {payload : Option CStr}
    (ran : Returns (requesting pid) (dispatchTransferReq server session payload) s log () t) :
    NothingLeft log t ↔ Announceable log := by
  cases payload with
  | some line => exact transferReq_ensures server session line log () t ran
  | none =>
    obtain ⟨command, u, before, after, rfl, parsed, later⟩ := returns_bind.mp ran
    cases command with
    | none =>
      obtain ⟨rfl, -, -⟩ := returns_pure.mp later
      rw [List.append_nil]
      exact nothingLeft_unstored (aside_keeps (calls_within rfl) parsed).1
    | some command => exact (cmdParse_none parsed).elim

end command

def reachable : State where
  mem := (shmSessionAdd (.ok ()) setupShmem (cstr "bob") 3).2
  gone := fun _ => false
  issuer := fun _ => 0

def aliceSession : Session where
  loggedIn := true
  user := cstr "alice"
  uid := 1001
  homePath := cstr "/srv/alice"
  rootPath := cstr "/srv"
  notifyFd := 6

def requestLine : CStr := cstr "transfer_request note bob"

theorem refused_leaves_nothing_announced : ∃ log, ∃ t : State, PendingIn 0 t.mem ∧
    (NothingLeft log t ↔ Announceable log) := by
  have executed : (execute (requesting 2) (fun _ s => (s, calm (cstr "alice") none)) 40
      (dispatchTransferReq calmServer aliceSession (some requestLine)) reachable).any
      (fun r => decide (PendingIn 0 r.2.2.mem)) = true := by
    decide +kernel
  obtain ⟨log, _, t, ran, pending⟩ := exists_of_execute 40
    (fun _ _ (t : State) => PendingIn 0 t.mem) executed
  exact ⟨log, t, pending, refused_leaves_nothing ran⟩

def unreachable : Choice :=
  let calm := calm (cstr "alice") none
  { calm with
    reply := fun
      | .file (.openPath _ _ _) => .error ENOENT
      | c => calm.reply c }

/-- Alice is told that her request failed, but Bob can still accept it. -/
theorem refused_request_pending : ∃ log, ∃ t : State,
    Returns (requesting 2) (dispatchTransferReq calmServer aliceSession (some requestLine)) reachable
      log () t ∧ ¬ NothingLeft log t := by
  have executed : (execute (requesting 2) (fun _ s => (s, unreachable)) 40
      (dispatchTransferReq calmServer aliceSession (some requestLine)) reachable).any
      (fun r => decide (PendingIn 0 r.2.2.mem ∧ (∃ h ∈ r.1, errAnswer h) ∧
        ∃ h ∈ r.1, stores 0 h)) = true := by
    decide +kernel
  obtain ⟨log, _, t, ran, pending, answered, h, member, stored⟩ := exists_of_execute 40
    (fun log _ (t : State) => PendingIn 0 t.mem ∧ (∃ h ∈ log, errAnswer h) ∧
      ∃ h ∈ log, stores 0 h) executed
  exact ⟨log, t, ran, fun nothing => nothing answered h member 0 stored pending⟩

end Csap.Sessions
