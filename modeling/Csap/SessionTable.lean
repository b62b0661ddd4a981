import Csap.SharedMemory
import Mathlib.Data.Multiset.MapFold

/-! The session table as a bag of sessions. `shm_session_find` does not look at
`in_use`: it relies on a cleared entry having no name, and on a session having
one. A slot in the middle of the table is reused, and a user may have several
sessions. -/

namespace Csap.SessionTable
open SlotTable

/-- A session that was added and not collected since; `ended` once its process has died. -/
structure Recorded where
  user : CStr
  pid : Int
  ended : Bool := false
deriving DecidableEq, Repr

abbrev Bag := Multiset Recorded

def Recorded.key (s : Recorded) : CStr × Int := (s.user, s.pid)

def Recorded.exited (pid : Int) (s : Recorded) : Recorded :=
  if s.pid = pid then { s with ended := true } else s

@[simp] theorem Recorded.exited_key (pid : Int) (s : Recorded) : (s.exited pid).key = s.key := by
  unfold exited
  split <;> rfl

def key (e : SessionEntry) : CStr × Int := (e.username, e.pid)

def free (e : SessionEntry) : Bool := !e.inUse

/-- The sessions the table shows, with multiplicity. -/
def sessions (t : SessionTable) : Multiset (CStr × Int) := ((t.inUse free).map key : List _)

/-- The table, and the processes that `kill(pid, 0)` still finds. -/
structure World where
  mem : SharedMemory
  alive : Int → Bool

inductive Op
  | fork (pid : Int)
  | exit (pid : Int)
  | add (sem : SemResult) (user : CStr) (pid : Int)
  | collect (sem : SemResult)

def World.step (w : World) : Op → Int × World
  | .fork pid => (pid, { w with alive := Function.update w.alive pid true })
  | .exit pid => (0, { w with alive := Function.update w.alive pid false })
  | .add sem user pid =>
    let r := shmSessionAdd sem w.mem user pid
    (r.1, { w with mem := r.2 })
  | .collect sem =>
    let r := shmSessionsCollectStale sem w.alive w.mem
    (r.1, { w with mem := r.2 })

/-- What the operations mean: a bag of bounded size that forgets ended sessions when told to. -/
def Bag.step (b : Bag) : Op → Int × Bag
  | .fork pid => (pid, b)
  | .exit pid => (0, b.map (Recorded.exited pid))
  | .add (.error e) _ _ | .collect (.error e) => (e.neg, b)
  | .add (.ok ()) user pid =>
    if Multiset.card b = MAX_ENTRIES then (ENOMEM.neg, b) else (0, { user, pid } ::ₘ b)
  | .collect (.ok ()) => (0, b.filter fun s => s.ended = false)

/-- A session belongs to a live process, and no process gets the number of a recorded one. -/
def Op.Valid (w : World) (b : Bag) : Op → Prop
  | .fork pid => 0 < pid ∧ ∀ s ∈ b, s.pid ≠ pid
  | .add _ user pid => user ≠ [] ∧ user.length ≤ 32 ∧ w.alive pid = true
  | .exit _ | .collect _ => True

/-- The table and the bag after the same operations, from an empty table. -/
inductive Reached : World → Bag → Prop
  | setup : Reached ⟨setupShmem, fun _ => false⟩ 0
  | step {w : World} {b : Bag} (op : Op) : Reached w b → op.Valid w b →
      Reached (w.step op).2 (Bag.step b op).2

structure Invariant (w : World) (b : Bag) : Prop where
  sessions_eq : sessions w.mem.sessionTable = b.map Recorded.key
  named : ∀ e ∈ w.mem.sessionTable.live, e.inUse = true → e.username ≠ []
  cleared : ∀ e ∈ w.mem.sessionTable.live, e.inUse = false → e.username = []
  ended_iff : ∀ s ∈ b, s.ended = !w.alive s.pid

section invariant

variable {w : World} {b : Bag}

theorem mem_sessions {t : SessionTable} {k : CStr × Int} :
    k ∈ sessions t ↔ ∃ e ∈ t.live, e.inUse = true ∧ key e = k := by
  simp [sessions, inUse, free, and_assoc]

theorem Invariant.card (h : Invariant w b) :
    (w.mem.sessionTable.inUse free).length = Multiset.card b := by
  have same := congrArg Multiset.card h.sessions_eq
  simpa [sessions] using same

theorem Invariant.add (h : Invariant w b) {user : CStr} {pid : Int} (named : user ≠ [])
    (fits : user.length ≤ 32) (alive : w.alive pid = true) :
    (w.step (.add (.ok ()) user pid)).1 = (Bag.step b (.add (.ok ()) user pid)).1 ∧
      Invariant (w.step (.add (.ok ()) user pid)).2 (Bag.step b (.add (.ok ()) user pid)).2 := by
  have field : usernameField user = user := snprintf_eq_self (by omega)
  simp only [World.step, shmSessionAdd, field, Bag.step]
  set entry : SessionEntry := { username := user, pid, inUse := true }
  cases stored : w.mem.sessionTable.store (fun e => !e.inUse) entry with
  | none =>
    have full : Multiset.card b = MAX_ENTRIES := h.card.symm.trans (store_eq_none.mp stored)
    rw [if_pos full]
    exact ⟨rfl, h⟩
  | some slots =>
    have room : Multiset.card b ≠ MAX_ENTRIES := by
      intro full
      have none : w.mem.sessionTable.store (fun e => !e.inUse) entry = none :=
        store_eq_none.mpr (h.card.trans full)
      rw [none] at stored
      cases stored
    rw [if_neg room]
    have member : ∀ e ∈ slots.live, e = entry ∨ e ∈ w.mem.sessionTable.live := by
      intro e he
      rcases store_eq_some stored with ⟨before, a, after, split, -, split'⟩ | ⟨-, split'⟩
      · simp only [split', List.mem_append, List.mem_cons] at he
        simp only [split, List.mem_append, List.mem_cons]
        tauto
      · simp only [split', List.mem_append, List.mem_singleton] at he
        tauto
    refine ⟨rfl, ?_, ?_, ?_, ?_⟩
    · have bag := (inUse_store stored rfl).map key
      calc
        sessions slots
          = ((key entry :: (w.mem.sessionTable.inUse free).map key : List _) :
              Multiset (CStr × Int)) := Multiset.coe_eq_coe.mpr bag
        _ = key entry ::ₘ sessions w.mem.sessionTable := rfl
        _ = _ := by rw [h.sessions_eq, Multiset.map_cons]; rfl
    · intro e he used
      rcases member e he with rfl | old
      · exact named
      · exact h.named e old used
    · intro e he unused
      rcases member e he with rfl | old
      · cases unused
      · exact h.cleared e old unused
    · intro s hs
      rcases Multiset.mem_cons.mp hs with rfl | old
      · simp [alive]
      · exact h.ended_iff s old

theorem Invariant.collect (h : Invariant w b) :
    Invariant (w.step (.collect (.ok ()))).2 (Bag.step b (.collect (.ok ()))).2 := by
  simp only [World.step, shmSessionsCollectStale, Bag.step]
  constructor
  · have table : ∀ l : List SessionEntry,
        ((l.map fun e => if e.inUse && !w.alive e.pid then { pid := -1 } else e).filter
          fun e => !free e).map key =
        ((l.filter fun e => !free e).map key).filter fun k => decide (w.alive k.2 = true) := by
      intro l
      induction l with
      | nil => rfl
      | cons e l ih =>
        rcases e with ⟨username, pid, _ | _⟩
        · simpa [free] using ih
        · by_cases live : w.alive pid = true
          · simpa [free, key, live] using ih
          · simpa [free, key, live] using ih
    have bag : (b.filter fun s => s.ended = false).map Recorded.key =
        (b.map Recorded.key).filter fun k => w.alive k.2 := by
      rw [Multiset.filter_map]
      refine congrArg _ (Multiset.filter_congr fun s hs => ?_)
      simp [h.ended_iff s hs, Recorded.key]
    rw [bag, ← h.sessions_eq]
    simp only [sessions, inUse, live_mapLive, Multiset.filter_coe]
    exact congrArg _ (table _)
  · intro e he used
    rw [live_mapLive] at he
    obtain ⟨old, ho, rfl⟩ := List.mem_map.mp he
    split at used
    · cases used
    · rename_i kept
      rw [if_neg kept]
      exact h.named old ho used
  · intro e he unused
    rw [live_mapLive] at he
    obtain ⟨old, ho, rfl⟩ := List.mem_map.mp he
    split at unused
    · rename_i dead
      rw [if_pos dead]
    · rename_i kept
      rw [if_neg kept]
      exact h.cleared old ho unused
  · intro s hs
    exact h.ended_iff s (Multiset.mem_of_mem_filter hs)

/-- The table answers an operation as the bag does, and still shows the bag then. -/
theorem Invariant.step (h : Invariant w b) {op : Op} (valid : op.Valid w b) :
    (w.step op).1 = (Bag.step b op).1 ∧ Invariant (w.step op).2 (Bag.step b op).2 := by
  cases op with
  | fork pid =>
    refine ⟨rfl, h.sessions_eq, h.named, h.cleared, fun s hs => ?_⟩
    simp only [World.step, Function.update_of_ne (valid.2 s hs)]
    exact h.ended_iff s hs
  | exit pid =>
    refine ⟨rfl, ?_, h.named, h.cleared, fun s hs => ?_⟩
    · simp only [World.step, Bag.step, Multiset.map_map, Function.comp_def, Recorded.exited_key]
      exact h.sessions_eq
    · obtain ⟨old, ho, rfl⟩ := Multiset.mem_map.mp hs
      simp only [World.step, Recorded.exited]
      split
      · rename_i same
        simp [same]
      · rename_i other
        rw [Function.update_of_ne other]
        exact h.ended_iff old ho
  | add sem user pid =>
    cases sem with
    | error e => exact ⟨rfl, h⟩
    | ok => exact h.add valid.1 valid.2.1 valid.2.2
  | collect sem =>
    cases sem with
    | error e => exact ⟨rfl, h⟩
    | ok => exact ⟨rfl, h.collect⟩

theorem Reached.invariant (h : Reached w b) : Invariant w b := by
  induction h with
  | setup => exact ⟨rfl, by simp [setupShmem], by simp [setupShmem], by simp⟩
  | step op _ valid ih => exact (ih.step valid).2

theorem Invariant.find_some (h : Invariant w b) {user : CStr} {pid : Int} {online : Bool}
    (named : user ≠ []) (found : shmSessionFind (.ok ()) w.mem user = (1, some (pid, online))) :
    online = true ∧ (user, pid) ∈ b.map Recorded.key := by
  simp only [shmSessionFind] at found
  split at found
  · rename_i i e first
    obtain ⟨before, after, split, name, -, -⟩ := first_eq_some first
    have live : e ∈ w.mem.sessionTable.live := by simp [split]
    have name : e.username = user := of_decide_eq_true name
    cases found
    cases used : e.inUse with
    | false => exact absurd (name.symm.trans (h.cleared e live used)) named
    | true =>
      refine ⟨rfl, ?_⟩
      rw [← h.sessions_eq]
      exact mem_sessions.mpr ⟨e, live, used, by rw [key, name]⟩
  · cases found

theorem Invariant.exists_find (h : Invariant w b) {user : CStr} (pid : Int)
    (recorded : (user, pid) ∈ b.map Recorded.key) :
    ∃ pid, shmSessionFind (.ok ()) w.mem user = (1, some (pid, true)) := by
  rw [← h.sessions_eq] at recorded
  obtain ⟨e, live, used, same⟩ := mem_sessions.mp recorded
  obtain ⟨rfl, -⟩ := Prod.mk.inj same
  cases first : w.mem.sessionTable.first (fun a => a.username = e.username) with
  | none =>
    have absent := first_eq_none.mp first e live
    simp at absent
  | some slot =>
    obtain ⟨i, a⟩ := slot
    have found : shmSessionFind (.ok ()) w.mem e.username = (1, some (a.pid, a.inUse)) := by
      simp [shmSessionFind, first]
    have online := (h.find_some (h.named e live used) found).1
    exact ⟨a.pid, by rw [found, online]⟩

end invariant

/-- What the table in `w` tells about the sessions in `b`. -/
structure Refines (w : World) (b : Bag) : Prop where
  sessions_eq : sessions w.mem.sessionTable = b.map Recorded.key
  count_le : w.mem.sessionTable.count ≤ MAX_ENTRIES
  add_full : ∀ user pid, (Op.add (.ok ()) user pid).Valid w b →
    ((shmSessionAdd (.ok ()) w.mem user pid).1 = ENOMEM.neg ↔
      (w.mem.sessionTable.inUse free).length = MAX_ENTRIES)
  add_failed : ∀ user pid, (shmSessionAdd (.ok ()) w.mem user pid).1 ≠ 0 →
    (shmSessionAdd (.ok ()) w.mem user pid).2 = w.mem
  replies : ∀ op : Op, op.Valid w b → (w.step op).1 = (Bag.step b op).1
  find_online : ∀ user, (∃ pid, shmSessionFind (.ok ()) w.mem user = (1, some (pid, true))) ↔
    ∃ e ∈ w.mem.sessionTable.live, e.inUse = true ∧ e.username = user
  find_pid : ∀ user pid, shmSessionFind (.ok ()) w.mem user = (1, some (pid, true)) →
    ∃ e ∈ w.mem.sessionTable.live, e.inUse = true ∧ e.username = user ∧ e.pid = pid
  collected_alive : ∀ user pid online, user ≠ [] →
    shmSessionFind (.ok ()) (w.step (.collect (.ok ()))).2.mem user = (1, some (pid, online)) →
    online = true ∧ w.alive pid = true ∧ { user, pid } ∈ b
  collected_found : ∀ s ∈ b, s.ended = false →
    ∃ pid, shmSessionFind (.ok ()) (w.step (.collect (.ok ()))).2.mem s.user =
      (1, some (pid, true))

/-- Whatever was added, died and was collected, the table shows the bag of the sessions added and
not collected. -/
theorem session_table_refines_bag {w : World} {b : Bag} (h : Reached w b) : Refines w b := by
  have inv := h.invariant
  have collected := inv.collect
  have find_pid : ∀ user pid, shmSessionFind (.ok ()) w.mem user = (1, some (pid, true)) →
      ∃ e ∈ w.mem.sessionTable.live, e.inUse = true ∧ e.username = user ∧ e.pid = pid := by
    intro user pid found
    simp only [shmSessionFind] at found
    split at found
    · rename_i i e first
      obtain ⟨before, after, split, name, -, -⟩ := first_eq_some first
      simp only [Prod.mk.injEq, Option.some.injEq, true_and] at found
      exact ⟨e, by simp [split], found.2, of_decide_eq_true name, found.1⟩
    · cases found
  refine
    { sessions_eq := inv.sessions_eq
      count_le := w.mem.sessionTable.count_le
      add_full := fun user pid valid => ?_
      add_failed := fun user pid failed => ?_
      replies := fun op valid => (inv.step valid).1
      find_online := fun user => ⟨fun ⟨pid, found⟩ => ?_, fun ⟨e, live, used, name⟩ => ?_⟩
      find_pid
      collected_alive := fun user pid online named found => ?_
      collected_found := fun s hs running => ?_ }
  · have reply := (inv.step valid).1
    simp only [World.step, Bag.step] at reply
    rw [reply, inv.card]
    split
    · simpa
    · rename_i room
      simp only [room, iff_false]
      exact ENOMEM.neg_lt_zero.ne'
  · simp only [shmSessionAdd] at failed ⊢
    split at failed
    · exact absurd rfl failed
    · rfl
  · obtain ⟨e, live, used, name, -⟩ := find_pid user pid found
    exact ⟨e, live, used, name⟩
  · subst name
    refine inv.exists_find e.pid ?_
    rw [← inv.sessions_eq]
    exact mem_sessions.mpr ⟨e, live, used, rfl⟩
  · obtain ⟨rfl, recorded⟩ := collected.find_some named found
    obtain ⟨s, hs, same⟩ := Multiset.mem_map.mp recorded
    obtain ⟨rfl, rfl⟩ := Prod.mk.inj same
    obtain ⟨old, running⟩ := Multiset.mem_filter.mp hs
    have alive := inv.ended_iff s old
    rw [running] at alive
    refine ⟨rfl, by simpa using alive.symm, ?_⟩
    rw [← running]
    exact old
  · refine collected.exists_find s.pid ?_
    exact Multiset.mem_map.mpr ⟨s, Multiset.mem_filter.mpr ⟨hs, running⟩, rfl⟩

/-- One of the two sessions of a user has died. -/
theorem session_table_refines_bag_exit : ∃ w b, Refines w b ∧ w.alive 7 = false ∧
    b = {{ user := cstr "alice", pid := 8 }, { user := cstr "alice", pid := 7, ended := true }} := by
  refine ⟨_, _, session_table_refines_bag (((((Reached.setup.step (.fork 7) ?_).step
    (.add (.ok ()) (cstr "alice") 7) ?_).step (.fork 8) ?_).step
    (.add (.ok ()) (cstr "alice") 8) ?_).step (.exit 7) trivial), by decide, by decide⟩
  · exact ⟨by decide, by decide⟩
  · exact ⟨by decide, by decide, by decide⟩
  · exact ⟨by decide, by decide⟩
  · exact ⟨by decide, by decide, by decide⟩

/-- The empty name matches a cleared entry, whose pid is nobody's. -/
theorem cleared_entry_found : ∃ w b, Reached w b ∧ ∃ user pid online,
    shmSessionFind (.ok ()) (w.step (.collect (.ok ()))).2.mem user = (1, some (pid, online)) ∧
      w.alive pid = false := by
  refine ⟨_, _, ((Reached.setup.step (.fork 7) ?_).step (.add (.ok ()) (cstr "alice") 7) ?_).step
    (.exit 7) trivial, [], -1, false, by decide, by decide⟩
  · exact ⟨by decide, by decide⟩
  · exact ⟨by decide, by decide, by decide⟩

end Csap.SessionTable
