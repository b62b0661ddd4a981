import Csap.SharedMemory
import Mathlib.Data.Finset.Card
import Mathlib.Data.Finset.Image
import Mathlib.Data.List.Nodup

/-! The transfer request table as a finite map of pending requests. Slots are
recycled as soon as their entry is resolved, and a resolved entry keeps its id
until then; what makes the table a map is that the ids of the used slots are
distinct and below `nextId`. -/

namespace Csap.RequestTable
open SlotTable

/-- What a pending entry stands for. -/
structure Request where
  id : Int
  source : CStr
  dest : CStr
  path : CStr
deriving DecidableEq, Repr

def request (e : TransferRequestEntry) : Request :=
  ⟨e.id, e.sourceUsername, e.destUsername, e.filePathAbsolute⟩

def pendingEntries (t : PendingRequestsTable) : List TransferRequestEntry := t.inUse TransferRequestEntry.resolved

def pendingRequests (t : PendingRequestsTable) : Finset Request :=
  ((pendingEntries t).map request).toFinset

theorem mem_pendingEntries {t : PendingRequestsTable} {e : TransferRequestEntry} :
    e ∈ pendingEntries t ↔ e ∈ t.live ∧ e.status = .pending := by
  simp [pendingEntries, inUse, TransferRequestEntry.resolved]

theorem mem_pendingRequests {t : PendingRequestsTable} {q : Request} :
    q ∈ pendingRequests t ↔ ∃ e ∈ t.live, e.status = .pending ∧ request e = q := by
  simp [pendingRequests, mem_pendingEntries, and_assoc]

/-- The ids of used slots are distinct, and every id ever issued is below `nextId`. -/
structure WellFormed (t : PendingRequestsTable) (issued : Finset Int) : Prop where
  ids_nodup : (t.live.map (·.id)).Nodup
  id_issued : ∀ e ∈ t.live, e.id ∈ issued
  issued_pos : ∀ id ∈ issued, 0 < id
  issued_lt : ∀ id ∈ issued, id < t.nextId
  next_eq : t.nextId = issued.card + 1

theorem wellFormed_setup : WellFormed setupShmem.pendingRequestsTable ∅ where
  ids_nodup := by simp [setupShmem]
  id_issued := by simp [setupShmem]
  issued_pos := by simp
  issued_lt := by simp
  next_eq := rfl

section table

variable {t t' : PendingRequestsTable} {issued : Finset Int}

theorem WellFormed.eq_of_id (h : WellFormed t issued) {a b : TransferRequestEntry}
    (ha : a ∈ t.live) (hb : b ∈ t.live) (id : a.id = b.id) : a = b :=
  List.inj_on_of_nodup_map h.ids_nodup ha hb id

theorem WellFormed.request_nodup (h : WellFormed t issued) (p : TransferRequestEntry → Bool) :
    ((t.live.filter p).map request).Nodup := by
  refine List.Nodup.map_on (fun a ha b hb same => ?_) (h.ids_nodup.of_map.filter _)
  exact h.eq_of_id (List.mem_of_mem_filter ha) (List.mem_of_mem_filter hb)
    (congrArg Request.id same)

theorem WellFormed.card_pendingRequests (h : WellFormed t issued) :
    (pendingRequests t).card = (pendingEntries t).length := by
  rw [pendingRequests, pendingEntries, inUse, List.toFinset_card_of_nodup (h.request_nodup _),
    List.length_map]

theorem WellFormed.unique (h : WellFormed t issued) {p q : Request}
    (hp : p ∈ pendingRequests t) (hq : q ∈ pendingRequests t) (id : p.id = q.id) : p = q := by
  obtain ⟨a, ha, -, rfl⟩ := mem_pendingRequests.mp hp
  obtain ⟨b, hb, -, rfl⟩ := mem_pendingRequests.mp hq
  rw [h.eq_of_id ha hb id]

theorem WellFormed.of_ids (h : WellFormed t issued) (next : t'.nextId = t.nextId)
    (ids : t'.live.map (·.id) = t.live.map (·.id)) : WellFormed t' issued where
  ids_nodup := ids ▸ h.ids_nodup
  id_issued e he := by
    have found : e.id ∈ t.live.map (·.id) := ids ▸ List.mem_map_of_mem he
    obtain ⟨a, ha, id⟩ := List.mem_map.mp found
    exact id ▸ h.id_issued a ha
  issued_pos := h.issued_pos
  issued_lt id hid := next ▸ h.issued_lt id hid
  next_eq := next.trans h.next_eq

theorem WellFormed.nextId_not_issued (h : WellFormed t issued) : t.nextId ∉ issued :=
  fun member => lt_irrefl _ (h.issued_lt _ member)

theorem WellFormed.store (h : WellFormed t issued) {entry : TransferRequestEntry}
    {slots : SlotTable TransferRequestEntry MAX_ENTRIES}
    (stored : t.store TransferRequestEntry.resolved entry = some slots)
    (id : entry.id = t.nextId) : WellFormed ⟨slots, t.nextId + 1⟩ (insert t.nextId issued) where
  ids_nodup := by
    have fresh : ∀ e ∈ t.live, e.id ≠ t.nextId := fun e he same =>
      h.nextId_not_issued (same ▸ h.id_issued e he)
    have nodup := h.ids_nodup
    rcases store_eq_some stored with ⟨before, e, after, split, -, split'⟩ | ⟨-, split'⟩
    · simp only [split, List.map_append, List.map_cons, List.nodup_middle, List.nodup_cons,
        List.mem_append, List.mem_cons] at nodup fresh
      simp only [split', List.map_append, List.map_cons, List.nodup_middle, List.nodup_cons, id]
      refine ⟨fun member => ?_, nodup.2⟩
      rw [← List.map_append] at member
      obtain ⟨b, hb, same⟩ := List.mem_map.mp member
      rcases List.mem_append.mp hb with hb | hb
      · exact fresh b (.inl hb) same
      · exact fresh b (.inr (.inr hb)) same
    · simp only [split', List.map_append, List.map_cons, List.map_nil, id]
      refine nodup.append (by simp) fun i hi hi' => ?_
      obtain ⟨b, hb, rfl⟩ := List.mem_map.mp hi
      exact fresh b hb (List.mem_singleton.mp hi')
  id_issued e he := by
    have old : e = entry ∨ e ∈ t.live := by
      rcases store_eq_some stored with ⟨before, b, after, split, -, split'⟩ | ⟨-, split'⟩
      · simp only [split', List.mem_append, List.mem_cons] at he
        simp only [split, List.mem_append, List.mem_cons]
        tauto
      · simp only [split', List.mem_append, List.mem_singleton] at he
        tauto
    rcases old with rfl | he
    · simp [id]
    · exact Finset.mem_insert_of_mem (h.id_issued e he)
  issued_pos i hi := by
    have next := h.next_eq
    rcases Finset.mem_insert.mp hi with rfl | hi
    · omega
    · exact h.issued_pos i hi
  issued_lt i hi := by
    rcases Finset.mem_insert.mp hi with rfl | hi
    · exact Int.lt_add_one_of_le le_rfl
    · exact lt_trans (h.issued_lt i hi) (Int.lt_add_one_of_le le_rfl)
  next_eq := by
    rw [Finset.card_insert_of_notMem h.nextId_not_issued, h.next_eq]
    push_cast
    rfl

theorem WellFormed.id_ne (h : WellFormed t issued) {before after : List TransferRequestEntry}
    {e b : TransferRequestEntry} (split : t.live = before ++ e :: after)
    (hb : b ∈ before ∨ b ∈ after) : b.id ≠ e.id := by
  have nodup := h.ids_nodup
  simp only [split, List.map_append, List.map_cons, List.nodup_middle, List.nodup_cons] at nodup
  intro same
  apply nodup.1
  rw [← List.map_append, ← same]
  exact List.mem_map_of_mem (List.mem_append.mpr hb)

theorem WellFormed.requests_resolve (h : WellFormed t issued)
    {before after : List TransferRequestEntry} {e e' : TransferRequestEntry}
    (split : t.live = before ++ e :: after) (split' : t'.live = before ++ e' :: after)
    (resolved : e'.status ≠ .pending) :
    pendingRequests t' = (pendingRequests t).filter fun q => q.id ≠ e.id := by
  ext q
  simp only [mem_pendingRequests, Finset.mem_filter, split, split', List.mem_append, List.mem_cons]
  constructor
  · rintro ⟨b, hb, pending, rfl⟩
    rcases hb with hb | rfl | hb
    · exact ⟨⟨b, .inl hb, pending, rfl⟩, h.id_ne split (.inl hb)⟩
    · exact absurd pending resolved
    · exact ⟨⟨b, .inr (.inr hb), pending, rfl⟩, h.id_ne split (.inr hb)⟩
  · rintro ⟨⟨b, hb, pending, rfl⟩, other⟩
    rcases hb with hb | rfl | hb
    · exact ⟨b, .inl hb, pending, rfl⟩
    · exact absurd rfl other
    · exact ⟨b, .inr (.inr hb), pending, rfl⟩

end table

/-- The abstract table: pending requests with distinct ids, and the ids issued so far. -/
structure PendingMap where
  requests : Finset Request
  issued : Finset Int
  unique : ∀ p ∈ requests, ∀ q ∈ requests, p.id = q.id → p = q

def PendingMap.empty : PendingMap := ⟨∅, ∅, by simp⟩

def PendingMap.keep (a : PendingMap) (p : Request → Prop) [DecidablePred p] : PendingMap where
  requests := a.requests.filter p
  issued := a.issued
  unique q hq r hr := a.unique q (Finset.mem_of_mem_filter q hq) r (Finset.mem_of_mem_filter r hr)

inductive RequestOp
  | add (src dest path : CStr)
  | take (id : Int) (user : CStr) (accept : Bool)
  | fail (id : Int)
  | setFailed (user : CStr)
  | forDest (user : CStr) (max : Int)

structure Reply where
  rc : Int
  out : List TransferRequestEntry := []

def takeStatus (accept : Bool) : RequestStatus := if accept then .accepted else .rejected

def RequestOp.run (op : RequestOp) (sem : SemResult) (mem : SharedMemory) : Reply × SharedMemory :=
  match op with
  | .add src dest path =>
    let r := shmRequestAdd sem mem src dest path
    (⟨r.1, []⟩, r.2)
  | .take id user accept =>
    let r := shmRequestTake sem mem id user (takeStatus accept)
    (⟨r.1, r.2.1.toList⟩, r.2.2)
  | .fail id =>
    let r := shmRequestSet sem mem id .failed
    (⟨r.1, []⟩, r.2)
  | .setFailed user =>
    let r := shmRequestsSetFailed sem mem user
    (⟨r.1, []⟩, r.2)
  | .forDest user max =>
    let r := shmRequestsForDest sem mem user max
    (⟨r.1, r.2⟩, mem)

/-- Names and paths that fit their fields, as the callers pass them. -/
def RequestOp.Fits : RequestOp → Prop
  | .add src dest path => src.length ≤ 32 ∧ dest.length ≤ 32 ∧ path.length < PATH_MAX
  | _ => True

def PendingMap.Accepts (a : PendingMap) : RequestOp → Reply → PendingMap → Prop
  | .add src dest path, r, a' =>
    if a.requests.card = MAX_ENTRIES then r.rc = ENOMEM.neg ∧ a' = a
    else 0 < r.rc ∧ r.rc ∉ a.issued ∧ a'.issued = insert r.rc a.issued ∧
      a'.requests = insert ⟨r.rc, src, dest, path⟩ a.requests
  | .take id user accept, r, a' =>
    if ∃ q ∈ a.requests, q.id = id ∧ q.dest = user then
      r.rc = 0 ∧ a'.issued = a.issued ∧ ∃ e, r.out = [e] ∧ e.status = takeStatus accept ∧
        request e ∈ a.requests ∧ e.id = id ∧ e.destUsername = user ∧
        a'.requests = a.requests.erase (request e)
    else r.rc < 0 ∧ r.out = [] ∧ a' = a
  | .fail id, _, a' =>
    a'.issued = a.issued ∧ a'.requests = a.requests.filter fun q => q.id ≠ id
  | .setFailed user, r, a' =>
    r.rc = (a.requests.filter fun q => q.source = user).card ∧ a'.issued = a.issued ∧
      a'.requests = a.requests.filter fun q => q.source ≠ user
  | .forDest user max, r, a' =>
    let waiting := a.requests.filter fun q => q.dest = user
    a' = a ∧ r.rc = r.out.length ∧ r.out.length = min max.toNat waiting.card ∧
      (r.out.map request).Nodup ∧ ∀ e ∈ r.out, e.status = .pending ∧ request e ∈ waiting

/-- A failed `semop` is reported and touches nothing. -/
def PendingMap.Step (a : PendingMap) (sem : SemResult) (op : RequestOp) (r : Reply)
    (a' : PendingMap) : Prop :=
  match sem with
  | .error e => r = ⟨e.neg, []⟩ ∧ a' = a
  | .ok () => a.Accepts op r a'

/-- The table in `mem` holds exactly the map `a`. -/
structure Represents (mem : SharedMemory) (a : PendingMap) : Prop where
  wellFormed : WellFormed mem.pendingRequestsTable a.issued
  requests : pendingRequests mem.pendingRequestsTable = a.requests

section steps

variable {mem : SharedMemory} {a : PendingMap}

/-- The map a well-formed table stands for. -/
def pendingMap {t : PendingRequestsTable} {issued : Finset Int} (h : WellFormed t issued) :
    PendingMap where
  requests := pendingRequests t
  issued := issued
  unique _ hp _ hq id := h.unique hp hq id

theorem add_step (h : Represents mem a) {src dest path : CStr}
    (fits : (RequestOp.add src dest path).Fits)
    (budget : 0 ≤ (shmRequestAdd (.ok ()) mem src dest path).1 → a.issued.card + 1 < 2 ^ 31 - 1) :
    ∃ a', a.Accepts (.add src dest path) ((RequestOp.add src dest path).run (.ok ()) mem).1 a' ∧
      Represents ((RequestOp.add src dest path).run (.ok ()) mem).2 a' := by
  obtain ⟨srcFits, destFits, pathFits⟩ := fits
  obtain ⟨wf, requests⟩ := h
  simp only [RequestOp.run, shmRequestAdd, usernameField, snprintf_eq_self pathFits,
    snprintf_eq_self (show src.length < 33 by omega),
    snprintf_eq_self (show dest.length < 33 by omega)] at budget ⊢
  set t := mem.pendingRequestsTable
  set entry : TransferRequestEntry := ⟨t.nextId, src, dest, path, .pending⟩
  have card : a.requests.card = (pendingEntries t).length := requests ▸ wf.card_pendingRequests
  have next := wf.next_eq
  cases stored : t.store TransferRequestEntry.resolved entry with
  | none =>
    have full : a.requests.card = MAX_ENTRIES := card.trans (store_eq_none.mp stored)
    refine ⟨a, ?_, wf, requests⟩
    simp [PendingMap.Accepts, full]
  | some slots =>
    simp only [stored] at budget ⊢
    have room : a.requests.card ≠ MAX_ENTRIES := fun full => by
      rw [card] at full
      rw [store_eq_none.mpr full] at stored
      cases stored
    have below := budget (by omega)
    have wrap : int32 (t.nextId + 1) = t.nextId + 1 := by
      rw [int32, Int.bmod_eq_of_le] <;> omega
    have wf' := wf.store stored rfl
    simp only [wrap]
    refine ⟨pendingMap wf', ?_, wf', rfl⟩
    simp only [PendingMap.Accepts, room, if_false]
    refine ⟨by omega, wf.nextId_not_issued, rfl, ?_⟩
    have bag := (inUse_store stored rfl).map request
    calc
      pendingRequests ⟨slots, t.nextId + 1⟩
        = (request entry :: (pendingEntries t).map request).toFinset :=
          List.toFinset_eq_of_perm _ _ bag
      _ = insert (request entry) (pendingRequests t) := List.toFinset_cons
      _ = _ := by rw [requests]; rfl

theorem Represents.resolve (h : Represents mem a) {p : TransferRequestEntry → Bool} {i : Nat}
    {e e' : TransferRequestEntry} (found : mem.pendingRequestsTable.first p = some (i, e))
    (id : e'.id = e.id) (resolved : e'.status ≠ .pending) :
    Represents { mem with pendingRequestsTable :=
      ⟨mem.pendingRequestsTable.put i e', mem.pendingRequestsTable.nextId⟩ }
      (a.keep fun q => q.id ≠ e.id) := by
  obtain ⟨before, after, split, -, -, put⟩ := first_eq_some found
  constructor
  · exact h.wellFormed.of_ids rfl (by simp [put e', split, id])
  · exact (h.wellFormed.requests_resolve split (put e') resolved).trans
      (by rw [h.requests]; rfl)

theorem take_step (h : Represents mem a) (id : Int) (user : CStr) (accept : Bool) :
    ∃ a', a.Accepts (.take id user accept) ((RequestOp.take id user accept).run (.ok ()) mem).1 a' ∧
      Represents ((RequestOp.take id user accept).run (.ok ()) mem).2 a' := by
  have wf := h.wellFormed
  have requests := h.requests
  simp only [RequestOp.run, shmRequestTake]
  set t := mem.pendingRequestsTable
  cases found : t.first (fun e => e.id = id) with
  | none =>
    have absent : ¬ ∃ q ∈ a.requests, q.id = id ∧ q.dest = user := by
      rintro ⟨q, hq, same, -⟩
      rw [← requests] at hq
      obtain ⟨e, he, -, rfl⟩ := mem_pendingRequests.mp hq
      exact of_decide_eq_false (first_eq_none.mp found e he) same
    refine ⟨a, ?_, wf, requests⟩
    simp [PendingMap.Accepts, absent, Errno.neg_lt_zero]
  | some slot =>
    obtain ⟨i, e⟩ := slot
    obtain ⟨before, after, split, he, -, put⟩ := first_eq_some found
    have live : e ∈ t.live := by simp [split]
    have idOf : e.id = id := by simpa using he
    have only : ∀ q ∈ a.requests, q.id = id → q = request e ∧ e.status = .pending := by
      intro q hq same
      rw [← requests] at hq
      obtain ⟨b, hb, pending, rfl⟩ := mem_pendingRequests.mp hq
      have eq := wf.eq_of_id hb live (same.trans idOf.symm)
      exact ⟨by rw [eq], eq ▸ pending⟩
    simp only
    split_ifs with dest status
    · have absent : ¬ ∃ q ∈ a.requests, q.id = id ∧ q.dest = user := by
        rintro ⟨q, hq, same, sameDest⟩
        rw [(only q hq same).1] at sameDest
        exact dest sameDest
      refine ⟨a, ?_, wf, requests⟩
      simp [PendingMap.Accepts, absent, Errno.neg_lt_zero]
    · have absent : ¬ ∃ q ∈ a.requests, q.id = id ∧ q.dest = user := by
        rintro ⟨q, hq, same, -⟩
        exact status (only q hq same).2
      refine ⟨a, ?_, wf, requests⟩
      simp [PendingMap.Accepts, absent, Errno.neg_lt_zero]
    · rw [not_not] at dest status
      have member : request e ∈ a.requests :=
        requests ▸ mem_pendingRequests.mpr ⟨e, live, status, rfl⟩
      have present : ∃ q ∈ a.requests, q.id = id ∧ q.dest = user := ⟨_, member, idOf, dest⟩
      have resolved : takeStatus accept ≠ .pending := by cases accept <;> simp [takeStatus]
      refine ⟨_, ?_, h.resolve found rfl resolved⟩
      rw [PendingMap.Accepts, if_pos present]
      refine ⟨rfl, rfl, _, rfl, rfl, member, idOf, dest, ?_⟩
      ext q
      simp only [PendingMap.keep, Finset.mem_filter, Finset.mem_erase]
      constructor
      · rintro ⟨hq, other⟩
        exact ⟨fun same => other (by rw [same]; rfl), hq⟩
      · rintro ⟨other, hq⟩
        exact ⟨hq, fun same => other (only q hq (same.trans idOf)).1⟩

theorem fail_step (h : Represents mem a) (id : Int) :
    ∃ a', a.Accepts (.fail id) ((RequestOp.fail id).run (.ok ()) mem).1 a' ∧
      Represents ((RequestOp.fail id).run (.ok ()) mem).2 a' := by
  simp only [RequestOp.run, shmRequestSet]
  cases found : mem.pendingRequestsTable.first (fun e => e.id = id) with
  | none =>
    refine ⟨a, ⟨rfl, ?_⟩, h⟩
    rw [Finset.filter_true_of_mem]
    intro q hq same
    rw [← h.requests] at hq
    obtain ⟨e, he, -, rfl⟩ := mem_pendingRequests.mp hq
    exact of_decide_eq_false (first_eq_none.mp found e he) same
  | some slot =>
    obtain ⟨i, e⟩ := slot
    obtain ⟨-, -, -, he, -⟩ := first_eq_some found
    have idOf : e.id = id := of_decide_eq_true he
    have kept : ({ e with status := .failed } : TransferRequestEntry).id = e.id := rfl
    refine ⟨a.keep fun q => q.id ≠ e.id, ⟨rfl, ?_⟩, h.resolve found kept (by simp)⟩
    rw [← idOf]
    rfl

theorem setFailed_step (h : Represents mem a) (user : CStr) :
    ∃ a', a.Accepts (.setFailed user) ((RequestOp.setFailed user).run (.ok ()) mem).1 a' ∧
      Represents ((RequestOp.setFailed user).run (.ok ()) mem).2 a' := by
  have wf := h.wellFormed
  simp only [RequestOp.run, shmRequestsSetFailed]
  set t := mem.pendingRequestsTable
  have sent : ((t.live.filter (·.sentBy user)).map request).toFinset =
      a.requests.filter fun q => q.source = user := by
    ext q
    simp only [← h.requests, List.mem_toFinset, List.mem_map, List.mem_filter, Finset.mem_filter,
      mem_pendingRequests, TransferRequestEntry.sentBy, decide_eq_true_eq]
    constructor
    · rintro ⟨e, ⟨he, pending, source⟩, rfl⟩
      exact ⟨⟨e, he, pending, rfl⟩, source⟩
    · rintro ⟨⟨e, he, pending, rfl⟩, source⟩
      exact ⟨e, ⟨he, pending, source⟩, rfl⟩
  refine ⟨a.keep fun q => q.source ≠ user, ⟨?_, rfl, rfl⟩, wf.of_ids rfl ?_, ?_⟩
  · rw [← sent, List.toFinset_card_of_nodup (wf.request_nodup _), List.length_map,
      ← List.countP_eq_length_filter]
  · rw [live_mapLive, List.map_map]
    apply List.map_congr_left
    intro e _
    simp only [Function.comp]
    split_ifs <;> rfl
  · ext q
    simp only [PendingMap.keep, ← h.requests, Finset.mem_filter, mem_pendingRequests, live_mapLive,
      List.mem_map]
    constructor
    · rintro ⟨_, ⟨e, he, rfl⟩, pending, rfl⟩
      by_cases hs : e.sentBy user = true
      · rw [if_pos hs] at pending
        cases pending
      · rw [if_neg hs] at pending ⊢
        have other : e.sourceUsername ≠ user := fun source => hs (decide_eq_true ⟨pending, source⟩)
        exact ⟨⟨e, he, pending, rfl⟩, other⟩
    · rintro ⟨⟨e, he, pending, rfl⟩, other⟩
      have hs : ¬ e.sentBy user = true := fun sent => other (of_decide_eq_true sent).2
      exact ⟨e, ⟨e, he, if_neg hs⟩, pending, rfl⟩

theorem forDest_step (h : Represents mem a) (user : CStr) (max : Int) :
    a.Accepts (.forDest user max) ((RequestOp.forDest user max).run (.ok ()) mem).1 a := by
  have wf := h.wellFormed
  simp only [RequestOp.run, shmRequestsForDest]
  set t := mem.pendingRequestsTable
  have waiting : ((t.live.filter (·.waitsFor user)).map request).toFinset =
      a.requests.filter fun q => q.dest = user := by
    ext q
    simp only [← h.requests, List.mem_toFinset, List.mem_map, List.mem_filter, Finset.mem_filter,
      mem_pendingRequests, TransferRequestEntry.waitsFor, decide_eq_true_eq]
    constructor
    · rintro ⟨e, ⟨he, pending, dest⟩, rfl⟩
      exact ⟨⟨e, he, pending, rfl⟩, dest⟩
    · rintro ⟨⟨e, he, pending, rfl⟩, dest⟩
      exact ⟨e, ⟨he, pending, dest⟩, rfl⟩
  have nodup := wf.request_nodup (·.waitsFor user)
  refine ⟨rfl, rfl, ?_, ?_, fun e he => ?_⟩
  · rw [List.length_take, ← waiting, List.toFinset_card_of_nodup nodup, List.length_map]
  · exact nodup.sublist ((List.take_sublist _ _).map request)
  · have member := List.mem_of_mem_take he
    have pending := of_decide_eq_true (List.mem_filter.mp member).2
    rw [← waiting]
    exact ⟨pending.1, List.mem_toFinset.mpr (List.mem_map_of_mem member)⟩

end steps

def added : List (SemResult × RequestOp) → SharedMemory → Nat
  | [], _ => 0
  | (sem, .add src dest path) :: rest, mem =>
    let r := shmRequestAdd sem mem src dest path
    (if 0 ≤ r.1 then 1 else 0) + added rest r.2
  | (sem, op) :: rest, mem => added rest (op.run sem mem).2

/-- The table and the map run in step: before every operation they hold the same requests, and
the map allows the answer the table gives. -/
inductive RefinedRun : SharedMemory → PendingMap → List (SemResult × RequestOp) → Prop
  | done {mem : SharedMemory} {a : PendingMap} :
      pendingRequests mem.pendingRequestsTable = a.requests → RefinedRun mem a []
  | step {mem : SharedMemory} {a a' : PendingMap} {sem : SemResult} {op : RequestOp}
      {rest : List (SemResult × RequestOp)} :
      pendingRequests mem.pendingRequestsTable = a.requests →
      a.Step sem op (op.run sem mem).1 a' → RefinedRun (op.run sem mem).2 a' rest →
      RefinedRun mem a ((sem, op) :: rest)

theorem run_error (op : RequestOp) (e : Errno) (mem : SharedMemory) :
    op.run (.error e) mem = (⟨e.neg, []⟩, mem) := by
  cases op <;> rfl

theorem issued_card_step {a a' : PendingMap} {sem : SemResult} {op : RequestOp} {r : Reply}
    (h : a.Step sem op r a') (other : ∀ src dest path, op ≠ .add src dest path) :
    a'.issued = a.issued := by
  cases sem with
  | error e => exact congrArg PendingMap.issued h.2
  | ok =>
    cases op with
    | add src dest path => exact absurd rfl (other src dest path)
    | take id user accept =>
      simp only [PendingMap.Step, PendingMap.Accepts] at h
      split_ifs at h
      · exact h.2.1
      · rw [h.2.2]
    | fail id => exact h.1
    | setFailed user => exact h.2.1
    | forDest user max => exact congrArg PendingMap.issued h.1

theorem represents_step {mem : SharedMemory} {a : PendingMap} (h : Represents mem a)
    (sem : SemResult) (op : RequestOp) (fits : op.Fits)
    (budget : a.issued.card + added [(sem, op)] mem < 2 ^ 31 - 1) :
    ∃ a', a.Step sem op (op.run sem mem).1 a' ∧ Represents (op.run sem mem).2 a' := by
  cases sem with
  | error e =>
    rw [run_error]
    exact ⟨a, ⟨rfl, rfl⟩, h⟩
  | ok =>
    cases op with
    | add src dest path =>
      refine add_step h fits fun success => ?_
      simp only [added, success, if_true] at budget
      omega
    | take id user accept => exact take_step h id user accept
    | fail id => exact fail_step h id
    | setFailed user => exact setFailed_step h user
    | forDest user max => exact ⟨a, forDest_step h user max, h⟩

theorem issued_card_add {mem : SharedMemory} {a a' : PendingMap} {sem : SemResult}
    {src dest path : CStr}
    (h : a.Step sem (.add src dest path) ((RequestOp.add src dest path).run sem mem).1 a') :
    a'.issued.card = a.issued.card + added [(sem, .add src dest path)] mem := by
  cases sem with
  | error e =>
    have failed : ¬ 0 ≤ e.neg := not_le.mpr e.neg_lt_zero
    simp only [PendingMap.Step] at h
    simp [added, shmRequestAdd, failed, h.2]
  | ok =>
    simp only [PendingMap.Step, PendingMap.Accepts, RequestOp.run] at h
    simp only [added]
    by_cases full : a.requests.card = MAX_ENTRIES
    · rw [if_pos full] at h
      rw [if_neg (by rw [h.1]; exact not_le.mpr ENOMEM.neg_lt_zero), h.2]
      rfl
    · rw [if_neg full] at h
      rw [if_pos h.1.le, h.2.2.1, Finset.card_insert_of_notMem h.2.1]

/-- Every run of the table's operations is a run of the map. -/
theorem table_refines_map {mem : SharedMemory} {a : PendingMap} (h : Represents mem a)
    (ops : List (SemResult × RequestOp)) (fits : ∀ op ∈ ops, op.2.Fits)
    (budget : a.issued.card + added ops mem < 2 ^ 31 - 1) : RefinedRun mem a ops := by
  induction ops generalizing mem a with
  | nil => exact .done h.requests
  | cons first rest ih =>
    obtain ⟨sem, op⟩ := first
    have split : added ((sem, op) :: rest) mem =
        added [(sem, op)] mem + added rest (op.run sem mem).2 := by
      cases op <;> simp [added, RequestOp.run]
    obtain ⟨a', step, h'⟩ := represents_step h sem op (fits _ List.mem_cons_self) (by omega)
    refine .step h.requests step (ih h' (fun o ho => fits o (List.mem_cons_of_mem _ ho)) ?_)
    have card : a'.issued.card = a.issued.card + added [(sem, op)] mem := by
      cases op with
      | add src dest path => exact issued_card_add step
      | _ =>
        rw [issued_card_step step (by simp)]
        rfl
    omega

/-- From the segment as it is set up, for any operations on names and paths that fit. -/
theorem request_table_refines_map (ops : List (SemResult × RequestOp))
    (fits : ∀ op ∈ ops, op.2.Fits) (budget : added ops setupShmem < 2 ^ 31 - 1) :
    RefinedRun setupShmem .empty ops :=
  table_refines_map ⟨wellFormed_setup, rfl⟩ ops fits (by simpa [PendingMap.empty] using budget)

theorem request_table_refines_map_accept :
    RefinedRun setupShmem .empty
      [(.ok (), .add (cstr "marco") (cstr "raffaele") (cstr "/srv/marco/temp.txt")),
        (.ok (), .take 1 (cstr "raffaele") true), (.error EINVAL, .setFailed (cstr "marco"))] :=
  request_table_refines_map _ (by simp [RequestOp.Fits]; decide) (by decide)

end Csap.RequestTable
