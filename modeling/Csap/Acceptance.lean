import Csap.Alone

/-! What `accept` leaves in the table. The status of a request is set to ACCEPTED
when it is taken, before its source is looked up and before the file is copied;
of the exits that follow, only a failed copy sets it back. -/

namespace Csap.Sessions

open Prog

/-- The entry that the functions of `sh_mem.c` find for an id. -/
def recorded (id : Int) (mem : SharedMemory) : Option TransferRequestEntry :=
  (mem.pendingRequestsTable.first fun e => e.id = id).map (·.2)

def SameRequest (id : Int) (s t : State) : Prop := recorded id t.mem = recorded id s.mem

instance (id : Int) : DecidableRel (SameRequest id) :=
  fun s t => inferInstanceAs (Decidable (recorded id t.mem = recorded id s.mem))

section table

variable {sem : SemResult} {mem : SharedMemory} {id : Int} {e : TransferRequestEntry}

theorem recorded_eq_some (h : recorded id mem = some e) :
    ∃ i, mem.pendingRequestsTable.first (fun e => e.id = id) = some (i, e) ∧ e.id = id := by
  obtain ⟨⟨i, a⟩, first, rfl⟩ := Option.map_eq_some_iff.mp h
  obtain ⟨before, after, split, same, -, -⟩ := SlotTable.first_eq_some first
  exact ⟨i, first, of_decide_eq_true same⟩

theorem recorded_take (h : recorded id mem = some e) (user : CStr) (st : RequestStatus) :
    ((shmRequestTake sem mem id user st).1 < 0 ∧ (shmRequestTake sem mem id user st).2.2 = mem) ∨
      e.status = .pending ∧ ∃ mem', recorded id mem' = some { e with status := st } ∧
        shmRequestTake sem mem id user st = (0, some { e with status := st }, mem') := by
  obtain ⟨i, first, same⟩ := recorded_eq_some h
  unfold shmRequestTake
  cases sem with
  | error err => exact .inl ⟨err.neg_lt_zero, rfl⟩
  | ok =>
    simp only [first]
    split
    · exact .inl ⟨EACCES.neg_lt_zero, rfl⟩
    · split
      · exact .inl ⟨EALREADY.neg_lt_zero, rfl⟩
      · rename_i pending
        refine .inr ⟨not_not.mp pending, _, ?_, rfl⟩
        rw [recorded, SlotTable.first_put first (by simpa using same)]
        rfl

theorem recorded_set (h : recorded id mem = some e) (st : RequestStatus) :
    recorded id (shmRequestSet sem mem id st).2 =
      some (if sem = .ok () then { e with status := st } else e) := by
  obtain ⟨i, first, same⟩ := recorded_eq_some h
  unfold shmRequestSet
  cases sem with
  | error err => simpa using h
  | ok =>
    simp only [first, if_true]
    rw [recorded, SlotTable.first_put first (by simpa using same)]
    rfl

end table

/-- The calls of `accept` and `transfer_request` that its outcome does not depend on. -/
def Aside : Call → Prop
  | .shared _ | .enterCopy _ _ => False
  | _ => True

instance aside_judged : Judged Aside :=
  .avoiding (.enterCopy :: sharedKinds) <| by
    rintro (c | c | c | c | c | c) <;> cases c <;> simp [Aside]

theorem aside_unshared {c : Call} (h : Aside c) : Unshared c := by
  rintro q rfl
  exact h

def takes : Seen → Prop
  | ⟨.shared (.requestTake _ _ .accepted), r, _, _, _⟩ => 0 ≤ r.1
  | _ => False

/-- The semaphore was not obtained for a lookup, or no entry has the name. -/
def lookupFails : Seen → Prop
  | ⟨.shared (.sessionFind user), _, (found, choice), _, _⟩ =>
    choice.sem ≠ .ok () ∨ ∀ e ∈ found.mem.sessionTable.live, e.username ≠ user
  | _ => False

def setFails : Seen → Prop
  | ⟨.shared (.requestSet _ _), _, (_, choice), _, _⟩ => choice.sem ≠ .ok ()
  | _ => False

def entersCopy : Seen → Prop
  | ⟨.enterCopy _ _, _, _, _, _⟩ => True
  | _ => False

instance : DecidablePred entersCopy
  | ⟨.enterCopy _ _, _, _, _, _⟩ => isTrue trivial
  | ⟨.file _, _, _, _, _⟩ | ⟨.user _, _, _, _, _⟩ | ⟨.socket _, _, _, _, _⟩
  | ⟨.shared _, _, _, _, _⟩ | ⟨.alloc _, _, _, _, _⟩ => isFalse id

/-- `execute_transfer_copy` ran and returned 0. -/
def Copied (H : Handler Call.Reply State (State × Choice)) (log : List Seen) : Prop :=
  ∃ src dest before during after s t, log = before ++ during ++ after ∧
    Returns H (executeTransferCopy src dest) s during (.ok ()) t

/-- What the status of the request should be once the command has been answered. -/
structure Consistent (H : Handler Call.Reply State (State × Choice)) (log : List Seen)
    (status : RequestStatus) : Prop where
  accepted_iff : status = .accepted ↔ Copied H log
  untaken : ¬ Copied H log → (∀ h ∈ log, ¬ takes h) → status = .pending
  failed : ¬ Copied H log → (∃ h ∈ log, takes h) → status = .failed

def Plain (h : Seen) : Prop := ¬ takes h ∧ ¬ lookupFails h ∧ ¬ setFails h ∧ ¬ entersCopy h

theorem plain_of_aside {h : Seen} (quiet : Aside h.call) : Plain h := by
  obtain ⟨c, r, choice, s, t⟩ := h
  cases c with
  | shared q => exact quiet.elim
  | enterCopy src dest => exact quiet.elim
  | _ => exact ⟨id, id, id, id⟩

section command

variable {pid id : Int} {s t : State} {log rest : List Seen} {e : TransferRequestEntry}

abbrev accepting (id pid : Int) : Handler Call.Reply State (State × Choice) :=
  among (SameRequest id) pid

theorem aside_run {α : Type} {p : Sys α} {a : α} (h : p.Calls Aside)
    (ran : Returns (accepting id pid) p s rest a t) :
    (∀ h ∈ rest, Plain h) ∧ recorded id t.mem = recorded id s.mem := by
  have kept : Ensures (accepting id pid) p (fun _ log t =>
      (∀ h ∈ log, Plain h) ∧ recorded id t.mem = recorded id s.mem) [] s :=
    h.ensures (SameRequest id) (fun _ => rfl) (fun _ _ _ first next => next.trans first)
      (fun c choice s r t quiet done => among_unshared (aside_unshared quiet) done)
      fun rest a t quiet same => ⟨fun h member => plain_of_aside (quiet h member), same⟩
  exact kept rest a t ran

theorem aside_ensures {α : Type} {p : Sys α} {Q : α → List Seen → State → Prop}
    (h : p.Calls Aside)
    (hQ : ∀ rest a t, (∀ h ∈ rest, Plain h) → recorded id t.mem = recorded id s.mem →
      Q a (log ++ rest) t) : Ensures (accepting id pid) p Q log s := by
  intro rest a t ran
  obtain ⟨plain, same⟩ := aside_run h ran
  exact hQ rest a t plain same

theorem copy_run {src dest : CStr} {r : SysResult Unit}
    (ran : Returns (accepting id pid) (executeTransferCopy src dest) s rest r t) :
    recorded id t.mem = recorded id s.mem ∧ ∃ first later, rest = first :: later ∧
      first.call = .enterCopy src dest ∧ ∀ h ∈ later, Plain h := by
  have body : Ensures (accepting id pid) (executeTransferCopy src dest) (fun _ log t =>
      recorded id t.mem = recorded id s.mem ∧ ∃ first later, log = first :: later ∧
        first.call = .enterCopy src dest ∧ ∀ h ∈ later, Plain h) [] s := by
    unfold executeTransferCopy releaseLock
    rw [ensures_bind, ensures_perform]
    intro choice _ u done
    have same : SameRequest id s u := among_unshared (fun _ same => by cases same) done
    apply aside_ensures
    · repeat' with_reducible first
        | exact calls_within rfl
        | refine Calls.bind ?_ fun _ => ?_
        | split
    · intro later a v plain kept
      exact ⟨kept.trans same, _, later, rfl, rfl, plain⟩
  exact body rest r t ran

theorem enters_of_call {h : Seen} {src dest : CStr} (same : h.call = .enterCopy src dest) :
    entersCopy h ∧ ¬ takes h ∧ ¬ lookupFails h ∧ ¬ setFails h := by
  obtain ⟨c, r, choice, s, t⟩ := h
  cases same
  exact ⟨trivial, fun h => h, fun h => h, fun h => h⟩

theorem copied_iff {src dest : CStr} {r : SysResult Unit} {before during after : List Seen}
    (ran : Returns (accepting id pid) (executeTransferCopy src dest) s during r t)
    (earlier : ∀ h ∈ before, ¬ entersCopy h) (later : ∀ h ∈ after, ¬ entersCopy h) :
    Copied (accepting id pid) (before ++ during ++ after) ↔ r = .ok () := by
  constructor
  · rintro ⟨src', dest', before', during', after', s', t', same, ran'⟩
    obtain ⟨-, first, tail, rfl, call, plain⟩ := copy_run ran
    obtain ⟨-, first', tail', rfl, call', plain'⟩ := copy_run ran'
    simp only [List.append_assoc, List.cons_append] at same
    rcases Interleaving.split_cases same with ⟨-, rfl, rest⟩ | ⟨mid, -, rest⟩ | ⟨mid, rfl, -⟩
    · cases call.symm.trans call'
      exact (ran.deterministic ran' (congrArg (first :: ·) rest)).2
    · have enters := (enters_of_call call').1
      have member : first' ∈ tail ++ after := by simp [rest]
      rcases List.mem_append.mp member with inside | inside
      · exact absurd enters (plain first' inside).2.2.2
      · exact absurd enters (later first' inside)
    · exact absurd (enters_of_call call').1 (earlier first' (by simp))
  · rintro rfl
    exact ⟨src, dest, before, during, after, s, t, rfl, ran⟩

theorem not_copied (h : ∀ h ∈ log, ¬ entersCopy h) : ¬ Copied (accepting id pid) log := by
  rintro ⟨src, dest, before, during, after, s, t, rfl, ran⟩
  obtain ⟨-, first, later, rfl, call, -⟩ := copy_run ran
  exact h first (by simp) (enters_of_call call).1

/-- What `accept` makes of the request `e`, and the status it leaves. -/
inductive Outcome (H : Handler Call.Reply State (State × Choice)) (e : TransferRequestEntry)
    (log : List Seen) : RequestStatus → Prop
  | untaken : (∀ h ∈ log, Plain h) → Outcome H e log e.status
  | lost : e.status = .pending → (∃ h ∈ log, lookupFails h) → (∀ h ∈ log, ¬ entersCopy h) →
      Outcome H e log .accepted
  | copied : e.status = .pending → (∃ h ∈ log, takes h) →
      (∀ h ∈ log, ¬ lookupFails h ∧ ¬ setFails h) → Copied H log → Outcome H e log .accepted
  | failed : e.status = .pending → (∃ h ∈ log, takes h) →
      (∀ h ∈ log, ¬ lookupFails h ∧ ¬ setFails h) → ¬ Copied H log → Outcome H e log .failed
  | unrepaired : e.status = .pending → (∃ h ∈ log, setFails h) → ¬ Copied H log →
      Outcome H e log .accepted

/-- The request was open to be accepted, and what the command needed of the tables was there. -/
def Unhindered (e : TransferRequestEntry) (log : List Seen) : Prop :=
  e.status = .pending ∧ ∀ h ∈ log, ¬ lookupFails h ∧ ¬ setFails h

theorem Outcome.consistent_iff {status : RequestStatus}
    (h : Outcome (accepting id pid) e log status) :
    Consistent (accepting id pid) log status ↔ Unhindered e log := by
  cases h with
  | untaken plain =>
    have uncopied : ¬ Copied (accepting id pid) _ :=
      not_copied fun h member => (plain h member).2.2.2
    constructor
    · intro consistent
      exact ⟨consistent.untaken uncopied fun h member => (plain h member).1,
        fun h member => ⟨(plain h member).2.1, (plain h member).2.2.1⟩⟩
    · rintro ⟨pending, -⟩
      refine ⟨by simp [pending, uncopied], fun _ _ => pending, fun _ ⟨h, member, took⟩ => ?_⟩
      exact absurd took (plain h member).1
  | lost pending lookup uncopied =>
    obtain ⟨h, member, fails⟩ := lookup
    constructor
    · intro consistent
      exact absurd (consistent.accepted_iff.mp rfl) (not_copied uncopied)
    · intro unhindered
      exact absurd fails (unhindered.2 h member).1
  | copied pending took fine copied =>
    refine ⟨fun _ => ⟨pending, fine⟩, fun _ => ⟨by simp [copied], ?_, ?_⟩⟩
    · exact fun uncopied => absurd copied uncopied
    · exact fun uncopied => absurd copied uncopied
  | failed pending took fine uncopied =>
    refine ⟨fun _ => ⟨pending, fine⟩, fun _ => ⟨by simp [uncopied], ?_, fun _ _ => rfl⟩⟩
    obtain ⟨h, member, took⟩ := took
    exact fun _ untaken => absurd took (untaken h member)
  | unrepaired pending sets uncopied =>
    obtain ⟨h, member, fails⟩ := sets
    constructor
    · intro consistent
      exact absurd (consistent.accepted_iff.mp rfl) uncopied
    · intro unhindered
      exact absurd fails (unhindered.2 h member).2

def Leaves (pid id : Int) (e : TransferRequestEntry) (log : List Seen) (t : State) : Prop :=
  ∃ e', recorded id t.mem = some e' ∧ Outcome (accepting id pid) e log e'.status

theorem leaves_untaken (plain : ∀ h ∈ log, Plain h) (same : recorded id t.mem = some e) :
    Leaves pid id e log t :=
  ⟨e, same, .untaken plain⟩

theorem set_done {choice : State × Choice} {st : RequestStatus} {r : Int}
    (here : recorded id s.mem = some e)
    (done : accepting id pid (.shared (.requestSet id st)) choice s = some (r, t)) :
    recorded id t.mem = some (if choice.2.sem = .ok () then { e with status := st } else e) := by
  obtain ⟨kept, result⟩ := among_shared done
  have same : recorded id choice.1.mem = some e := Eq.trans kept here
  simp only [execShared, Prod.mk.injEq] at result
  obtain ⟨-, rfl⟩ := result
  exact recorded_set same st

theorem acceptCopy_ensures (session : Session) (fullDestPath : CStr)
    (requestCopy : TransferRequestEntry) (sourceUserPid : Int) (sourceUserOnline : Bool)
    (pending : e.status = .pending) (took : ∃ h ∈ log, takes h)
    (fine : ∀ h ∈ log, ¬ lookupFails h ∧ ¬ setFails h) (earlier : ∀ h ∈ log, ¬ entersCopy h)
    (accepted : recorded id s.mem = some { e with status := .accepted }) :
    Ensures (accepting id pid)
      (acceptCopy session id fullDestPath requestCopy sourceUserPid sourceUserOnline)
      (fun _ => Leaves pid id e) log s := by
  unfold acceptCopy
  rw [ensures_bind]
  intro during r t ran
  obtain ⟨same, first, later, rfl, call, plain⟩ := copy_run ran
  obtain ⟨-, -, finds, sets⟩ := enters_of_call call
  have still : recorded id t.mem = some { e with status := .accepted } := same.trans accepted
  have fine' : ∀ h ∈ log ++ first :: later, ¬ lookupFails h ∧ ¬ setFails h := by
    simp only [List.forall_mem_append, List.forall_mem_cons]
    exact ⟨fine, ⟨finds, sets⟩, fun h member => ⟨(plain h member).2.1, (plain h member).2.2.1⟩⟩
  rw [ensures_bind]
  cases r with
  | ok done =>
    rw [Prog.when, if_neg (by simp [Except.isOk, Except.toBool]), ensures_pure]
    refine aside_ensures (calls_within rfl) fun rest _ u plain' kept => ?_
    have copied := copied_iff ran earlier (fun h member => (plain' h member).2.2.2)
    refine ⟨_, kept.trans still, .copied pending ?_ ?_ (copied.mpr rfl)⟩
    · obtain ⟨h, member, takes⟩ := took
      exact ⟨h, by simp [member], takes⟩
    · simp only [List.forall_mem_append] at fine' ⊢
      exact ⟨fine', fun h member => ⟨(plain' h member).2.1, (plain' h member).2.2.1⟩⟩
  | error err =>
    rw [Prog.when, if_pos (by simp [Except.isOk, Except.toBool]), ensures_bind, ensures_perform]
    intro choice r u done
    have set := set_done still done
    rw [ensures_pure]
    refine aside_ensures (calls_within rfl) fun rest _ v plain' kept => ?_
    have later' : ∀ h ∈ (⟨_, r, choice, t, u⟩ : Seen) :: rest, ¬ entersCopy h :=
      List.forall_mem_cons.mpr ⟨fun h => h, fun h member => (plain' h member).2.2.2⟩
    have uncopied := mt (copied_iff ran earlier later').mp (by simp)
    simp only [List.append_assoc, List.singleton_append] at uncopied ⊢
    by_cases obtained : choice.2.sem = .ok ()
    · rw [if_pos obtained] at set
      refine ⟨_, kept.trans set, .failed pending ?_ ?_ uncopied⟩
      · obtain ⟨h, member, takes⟩ := took
        exact ⟨h, by simp [member], takes⟩
      · simp only [List.forall_mem_append, List.forall_mem_cons] at fine' ⊢
        refine ⟨fine'.1, fine'.2, ⟨fun h => h, fun h => h obtained⟩, ?_⟩
        exact fun h member => ⟨(plain' h member).2.1, (plain' h member).2.2.1⟩
    · rw [if_neg obtained] at set
      have failed : setFails ⟨_, r, choice, t, u⟩ := obtained
      exact ⟨_, kept.trans set, .unrepaired pending ⟨_, by simp, failed⟩ uncopied⟩

theorem cmdParse_some {H : Handler Call.Reply State (State × Choice)} {line : CStr} {command : Cmd}
    (ran : Returns H (cmdParse (some line)) s log (some command) t) :
    parseLine line = .ok command := by
  have yields : Ensures H (cmdParse (some line))
      (fun r _ _ => ∀ command, r = some command → parseLine line = .ok command) [] s := by
    unfold cmdParse parseCommand
    simp only [ensures_bind, ensures_perform]
    intro choice copied u done
    split
    · rw [ensures_pure]
      split
      · rw [ensures_bind]
        intro rest r v _
        simp
      · rename_i out parsed
        rw [ensures_pure]
        rintro _ ⟨⟩
        exact parsed
    · rw [ensures_pure, ensures_bind]
      intro rest r v _
      simp
  exact yields log _ t ran command rfl

theorem find_done {choice : State × Choice} {user : CStr} {r : Int × Option (Int × Bool)}
    (done : accepting id pid (.shared (.sessionFind user)) choice s = some (r, t)) :
    recorded id t.mem = recorded id s.mem ∧
      (lookupFails ⟨.shared (.sessionFind user), r, choice, s, t⟩ ↔ r.1 ≤ 0) := by
  obtain ⟨kept, result⟩ := among_shared done
  simp only [execShared, Prod.mk.injEq] at result
  obtain ⟨rfl, rfl⟩ := result
  refine ⟨kept, ?_⟩
  simp only [lookupFails, shmSessionFind]
  cases choice.2.sem with
  | error err => simp [err.neg_lt_zero.le]
  | ok =>
    cases first : choice.1.mem.sessionTable.first (fun e => e.username = user) with
    | none =>
      have absent := SlotTable.first_eq_none.mp first
      simpa using absent
    | some slot =>
      obtain ⟨i, entry⟩ := slot
      obtain ⟨before, after, split, name, -, -⟩ := SlotTable.first_eq_some first
      have name : entry.username = user := of_decide_eq_true name
      have live : entry ∈ choice.1.mem.sessionTable.live := by simp [split]
      simp only [ne_eq, not_true_eq_false, false_or]
      constructor
      · intro absent
        exact absurd name (absent entry live)
      · intro le
        exact absurd le (by decide)

theorem take_done {choice : State × Choice} {user : CStr} {r : Int × Option TransferRequestEntry}
    (here : recorded id s.mem = some e)
    (done : accepting id pid (.shared (.requestTake id user .accepted)) choice s = some (r, t)) :
    (r.1 < 0 ∧ recorded id t.mem = some e) ∨
      r.1 = 0 ∧ e.status = .pending ∧ recorded id t.mem = some { e with status := .accepted } := by
  obtain ⟨kept, result⟩ := among_shared done
  have same : recorded id choice.1.mem = some e := Eq.trans kept here
  simp only [execShared, Prod.mk.injEq] at result
  obtain ⟨rfl, rfl⟩ := result
  rcases recorded_take same user .accepted with ⟨failed, unchanged⟩ | ⟨pending, mem, new, took⟩
  · refine .inl ⟨failed, ?_⟩
    rw [unchanged]
    exact same
  · refine .inr ?_
    rw [took]
    exact ⟨rfl, pending, new⟩

/-- From the take on: the request is taken and its source looked up, then the file is copied. -/
theorem takeAndCopy_ensures (session : Session) (fullDestPath : CStr)
    (here : recorded id s.mem = some e) (plain : ∀ h ∈ log, Plain h) :
    Ensures (accepting id pid) (do
      let some (requestCopy, sourceUserPid, sourceUserOnline) ←
        takeRequest session id .accepted (cstr "Failed to accept request") | return
      acceptCopy session id fullDestPath requestCopy sourceUserPid sourceUserOnline)
      (fun _ => Leaves pid id e) log s := by
  have old : ∀ h ∈ log, ¬ lookupFails h ∧ ¬ setFails h ∧ ¬ entersCopy h := fun h member =>
    (plain h member).2
  unfold takeRequest
  simp only [ensures_bind]
  rw [ensures_perform]
  intro choice r t took
  rcases take_done here took with ⟨failed, same⟩ | ⟨zero, pending, accepted⟩
  · have untaken : Plain ⟨_, r, choice, s, t⟩ := ⟨not_le.mpr failed, fun h => h, fun h => h, fun h => h⟩
    rw [if_pos failed, ensures_bind]
    refine aside_ensures (calls_within rfl) fun rest _ u quiet kept => ?_
    rw [ensures_pure, ensures_pure]
    refine leaves_untaken ?_ (kept.trans same)
    simp only [List.forall_mem_append, List.forall_mem_singleton]
    exact ⟨⟨plain, untaken⟩, quiet⟩
  · rw [if_neg (by omega)]
    simp only [ensures_bind]
    rw [ensures_perform]
    intro choice' found u looked
    obtain ⟨kept, lost⟩ := find_done looked
    split
    · rename_i absent
      rw [ensures_bind]
      refine aside_ensures (calls_within rfl) fun rest _ v quiet kept' => ?_
      rw [ensures_pure, ensures_pure]
      refine ⟨_, (kept'.trans kept).trans accepted, .lost pending ⟨_, by simp, lost.mpr absent⟩ ?_⟩
      simp only [List.forall_mem_append, List.forall_mem_singleton]
      exact ⟨⟨⟨fun h member => (old h member).2.2, fun h => h⟩, fun h => h⟩,
        fun h member => (quiet h member).2.2.2⟩
    · rename_i present
      rw [ensures_pure]
      refine acceptCopy_ensures session fullDestPath _ _ _ pending ?_ ?_ ?_ (kept.trans accepted)
      · have done : takes ⟨_, r, choice, s, t⟩ := zero.ge
        exact ⟨_, by simp, done⟩
      · simp only [List.forall_mem_append, List.forall_mem_singleton]
        exact ⟨⟨fun h member => ⟨(old h member).1, (old h member).2.1⟩, fun h => h, fun h => h⟩,
          mt lost.mp present, fun h => h⟩
      · simp only [List.forall_mem_append, List.forall_mem_singleton]
        exact ⟨⟨fun h member => (old h member).2.2, fun h => h⟩, fun h => h⟩

theorem accept_leaves (session : Session) {line : CStr} {command : Cmd}
    (parsed : parseLine line = .ok command) (here : recorded (atoi command.buf2) s.mem = some e) :
    Ensures (accepting (atoi command.buf2) pid) (dispatchAccept session (some line))
      (fun _ => Leaves pid (atoi command.buf2) e) [] s := by
  unfold dispatchAccept
  rw [ensures_bind]
  intro rest found t ran
  obtain ⟨plain, same⟩ := aside_run (calls_within rfl) ran
  cases found with
  | none => exact ensures_pure.mpr (leaves_untaken plain (same.trans here))
  | some command' =>
    cases (cmdParse_some ran).symm.trans parsed
    have still := same.trans here
    dsimp only
    split
    · refine aside_ensures (calls_within rfl) fun rest' _ u plain' same' => ?_
      refine leaves_untaken ?_ (same'.trans still)
      exact List.forall_mem_append.mpr ⟨plain, plain'⟩
    · rw [ensures_bind]
      refine aside_ensures (calls_within rfl) fun rest' r u plain' same' => ?_
      have before : ∀ h ∈ [] ++ rest ++ rest', Plain h := List.forall_mem_append.mpr ⟨plain, plain'⟩
      cases r with
      | none => exact ensures_pure.mpr (leaves_untaken before (same'.trans still))
      | some fullDestPath =>
        exact takeAndCopy_ensures session fullDestPath (same'.trans still) before

/-- Once `accept` has been answered, the status of the request tells whether the file was copied
exactly if the request was pending, its source was found and a failed copy could be recorded. -/
theorem accept_consistent {session : Session} {line : CStr} {command : Cmd}
    (parsed : parseLine line = .ok command) (here : recorded (atoi command.buf2) s.mem = some e)
    (ran : Returns (accepting (atoi command.buf2) pid) (dispatchAccept session (some line)) s log ()
      t) :
    ∃ e', recorded (atoi command.buf2) t.mem = some e' ∧
      (Consistent (accepting (atoi command.buf2) pid) log e'.status ↔ Unhindered e log) := by
  obtain ⟨e', left, outcome⟩ := accept_leaves session parsed here log () t ran
  exact ⟨e', left, outcome.consistent_iff⟩

end command

def requested : State where
  mem := (shmRequestAdd (.ok ()) (shmSessionAdd (.ok ()) setupShmem (cstr "alice") 2).2 (cstr "alice")
    (cstr "bob") (cstr "/srv/alice/note")).2
  gone := fun _ => false
  issuer := fun _ => 2

def bobSession : Session where
  loggedIn := true
  user := cstr "bob"
  uid := 1002
  homePath := cstr "/srv/bob"
  rootPath := cstr "/srv"
  notifyFd := 6

def acceptLine : CStr := cstr "accept inbox 1"

def acceptCommand : Cmd where
  code := .accept
  argc := 2
  buf := cstr "inbox"
  buf2 := cstr "1"

def calmly (_ : Call) (s : State) : State × Choice := (s, calm (cstr "bob") none)

theorem accept_consistent_copied : ∃ log, ∃ t : State, ∃ e', recorded 1 t.mem = some e' ∧ e'.status = .accepted ∧
    ∃ e, recorded 1 requested.mem = some e ∧
      (Consistent (accepting 1 3) log e'.status ↔ Unhindered e log) := by
  have parsed : parseLine acceptLine = .ok acceptCommand := by decide
  obtain ⟨e, here⟩ := Option.isSome_iff_exists.mp
    (show (recorded (atoi acceptCommand.buf2) requested.mem).isSome = true by decide)
  have executed : (execute (accepting (atoi acceptCommand.buf2) 3) calmly 40
      (dispatchAccept bobSession (some acceptLine)) requested).any
      (fun r => decide ((recorded 1 r.2.2.mem).map (·.status) = some .accepted)) = true := by
    decide +kernel
  obtain ⟨log, _, t, ran, accepted⟩ := exists_of_execute 40
    (fun _ _ (t : State) => (recorded 1 t.mem).map (·.status) = some .accepted) executed
  obtain ⟨e', left, iff⟩ := accept_consistent parsed here ran
  refine ⟨log, t, e', left, ?_, e, here, iff⟩
  have status : (recorded 1 t.mem).map (·.status) = some e'.status :=
    congrArg (Option.map (·.status)) left
  exact Option.some.inj (status.symm.trans accepted)

/-- Alice's process was killed and her session collected; her request is still there. -/
def abandoned : State :=
  { requested with
    mem := (shmSessionsCollectStale (.ok ()) (fun pid => pid ≠ 2) requested.mem).2 }

/-- Bob's `accept` is answered with an error and copies nothing, but the request is ACCEPTED. -/
theorem accepted_without_copy : ∃ log, ∃ t : State, ∃ e', Returns (accepting 1 3)
    (dispatchAccept bobSession (some acceptLine)) abandoned log () t ∧
    recorded 1 t.mem = some e' ∧ ¬ Consistent (accepting 1 3) log e'.status := by
  have executed : (execute (accepting 1 3) calmly 40 (dispatchAccept bobSession (some acceptLine))
      abandoned).any (fun r => decide ((recorded 1 r.2.2.mem).map (·.status) = some .accepted ∧
        ∀ h ∈ r.1, ¬ entersCopy h)) = true := by
    decide +kernel
  obtain ⟨log, _, t, ran, accepted, uncopied⟩ := exists_of_execute 40
    (fun log _ (t : State) => (recorded 1 t.mem).map (·.status) = some .accepted ∧
      ∀ h ∈ log, ¬ entersCopy h) executed
  obtain ⟨e', left, status⟩ := Option.map_eq_some_iff.mp accepted
  refine ⟨log, t, e', ran, left, fun consistent => ?_⟩
  exact not_copied uncopied (consistent.accepted_iff.mp status)

end Csap.Sessions
