import Csap.Semaphore

/-! What a function does to the segment while it has the semaphore is what the model of the tables
says it does at once. -/

namespace Csap.Semaphore

open Prog (wp iterate)

/-- A process that has the semaphore knows what is in the segment. -/
def accessing (alive : Int → Bool) : Typestate Access.Reply SharedMemory where
  allowed _ _ := True
  expects mem a r := r = (exec alive mem a).1
  next mem a _ := (exec alive mem a).2

section loops

variable {alive : Int → Bool} {mem : SharedMemory} {α : Type} {capacity : Nat}
  {t : SlotTable α capacity} {count : Shm Nat} {entry : Nat → Shm α}

theorem wp_access {a : Access} {Q : a.Reply → SharedMemory → Prop}
    (h : Q (exec alive mem a).1 (exec alive mem a).2) : wp (accessing alive) (access a) Q mem := by
  refine ⟨trivial, ?_⟩
  rintro _ rfl
  exact h

/-- `count` and `entry` read the table `t`, which `mem` holds. -/
structure Reads (alive : Int → Bool) (mem : SharedMemory) (count : Shm Nat) (entry : Nat → Shm α)
    (t : SlotTable α capacity) : Prop where
  counts : ∀ Q : Nat → SharedMemory → Prop, Q t.count mem → wp (accessing alive) count Q mem
  entries : ∀ i a, t.live[i]? = some a → ∀ Q : α → SharedMemory → Prop, Q a mem →
    wp (accessing alive) (entry i) Q mem

theorem reads_sessions (alive : Int → Bool) (mem : SharedMemory) :
    Reads alive mem (access .sessionCount) (fun i => access (.session i)) mem.sessionTable where
  counts _ h := wp_access h
  entries i a here Q h := by
    apply wp_access
    change Q (mem.sessionTable.entries.getD i {}) mem
    rwa [SlotTable.getD_entries here]

theorem reads_requests (alive : Int → Bool) (mem : SharedMemory) :
    Reads alive mem (access .requestCount) (fun i => access (.request i))
      mem.pendingRequestsTable.toSlotTable where
  counts _ h := wp_access h
  entries i a here Q h := by
    apply wp_access
    change Q (mem.pendingRequestsTable.entries.getD i {}) mem
    rwa [SlotTable.getD_entries here]

theorem wp_search {p : α → Bool} {Q : Option (Nat × α) → SharedMemory → Prop}
    (reads : Reads alive mem count entry t) (found : Q (t.first p) mem) :
    wp (accessing alive) (search count entry p) Q mem := by
  unfold search
  apply Prog.wp_iterate fun i g => g = mem ∧ i ≤ t.count ∧ ∀ b ∈ t.live.take i, p b = false
  · refine ⟨rfl, Nat.zero_le _, ?_⟩
    intro b none
    cases none
  intro i g inv
  obtain ⟨rfl, bound, before⟩ := inv
  apply Prog.wp_bind.mpr
  apply reads.counts
  apply Prog.wp_ite.mpr
  refine ⟨fun more => ?_, fun last => ?_⟩
  · obtain ⟨a, here⟩ := SlotTable.exists_live more
    apply Prog.wp_bind.mpr
    apply reads.entries i a here
    apply Prog.wp_ite.mpr
    refine ⟨fun holds => ?_, fun other => ?_⟩
    · rw [SlotTable.first_of_take before here holds] at found
      exact found
    · refine ⟨rfl, more, ?_⟩
      intro b member
      rw [SlotTable.take_succ here, List.mem_append, List.mem_singleton] at member
      rcases member with old | rfl
      · exact before b old
      · exact Bool.eq_false_iff.mpr other
  · have all : t.live.take i = t.live := by
      apply List.take_of_length_le
      rw [SlotTable.length_live]
      exact not_lt.mp last
    rw [all] at before
    rw [SlotTable.first_eq_none.mpr before] at found
    exact found

/-- The loop that visits every entry. `holding` puts a table into the segment. -/
theorem wp_sweep (holding : SlotTable α capacity → SharedMemory) (f : α → α) (c : α → Bool)
    {visit : Nat → α → Shm Bool} {Q : Nat → SharedMemory → Prop}
    (reads : ∀ t, Reads alive (holding t) count entry t)
    (visits : ∀ (t : SlotTable α capacity) i a, t.live[i]? = some a → wp (accessing alive) (visit i a)
      (fun changed g => changed = c a ∧ g = holding (t.put i (f a))) (holding t))
    (hQ : Q (t.live.countP c) (holding (t.mapLive f))) :
    wp (accessing alive) (sweep count entry visit) Q (holding t) := by
  unfold sweep
  apply Prog.wp_iterate fun loop g => g = holding (t.mapTo f loop.1) ∧ loop.1 ≤ t.count ∧
    loop.2 = (t.live.take loop.1).countP c
  · refine ⟨?_, Nat.zero_le _, rfl⟩
    rw [SlotTable.mapTo_zero]
  intro loop g inv
  obtain ⟨i, n⟩ := loop
  obtain ⟨rfl, bound, sum⟩ := inv
  apply Prog.wp_bind.mpr
  apply (reads _).counts
  apply Prog.wp_ite.mpr
  refine ⟨fun more => ?_, fun last => ?_⟩
  · obtain ⟨a, here⟩ := SlotTable.exists_live (show i < t.count from more)
    apply Prog.wp_bind.mpr
    apply (reads _).entries i a (SlotTable.live_mapTo here)
    apply Prog.wp_bind.mpr
    apply Prog.wp_mono (visits _ i a (SlotTable.live_mapTo here))
    rintro changed g ⟨rfl, rfl⟩
    refine ⟨?_, more, ?_⟩
    · rw [SlotTable.put_mapTo here]
    · change (if c a = true then n + 1 else n) = _
      rw [SlotTable.take_succ here, List.countP_append, List.countP_singleton, ← sum]
      split_ifs <;> rfl
  · have end_ : i = t.count := le_antisymm bound (not_lt.mp last)
    have all : t.live.take i = t.live := by
      apply List.take_of_length_le
      rw [SlotTable.length_live, end_]
    change Q n (holding (t.mapTo f i))
    have total : n = t.live.countP c := by
      rw [← all]
      exact sum
    rw [total, end_, SlotTable.mapTo_count]
    exact hQ

end loops

/-- What a call on the tables does at once, as `Sessions.execShared` has it. -/
def atomic (sem : SemResult) (alive : Int → Bool) (mem : SharedMemory) :
    (c : SharedCall) → c.Reply × SharedMemory
  | .sessionAdd user pid => Csap.shmSessionAdd sem mem user pid
  | .sessionFind user => (Csap.shmSessionFind sem mem user, mem)
  | .sessionsCollectStale => Csap.shmSessionsCollectStale sem alive mem
  | .requestAdd srcUser destUser absPath => Csap.shmRequestAdd sem mem srcUser destUser absPath
  | .requestTake id destUser newStatus =>
    let r := Csap.shmRequestTake sem mem id destUser newStatus
    ((r.1, r.2.1), r.2.2)
  | .requestSet id st => Csap.shmRequestSet sem mem id st
  | .requestsSetFailed user => Csap.shmRequestsSetFailed sem mem user
  | .requestsForDest user max => (Csap.shmRequestsForDest sem mem user max, mem)

/-- A function that does under the semaphore what the call does at once, or nothing without it. -/
def Section (c : SharedCall) (p : Sem c.Reply) : Prop := ∃ failed body, p = locked failed body ∧
  (∀ e alive mem, atomic (.error e) alive mem c = (failed e, mem)) ∧ ∀ alive mem,
    wp (accessing alive) body (fun r mem' => atomic (.ok ()) alive mem c = (r, mem')) mem

section bodies

variable {alive : Int → Bool} {mem : SharedMemory}

theorem wp_sessions {p : SessionEntry → Bool} {Q : Option (Nat × SessionEntry) → SharedMemory → Prop}
    (h : Q (mem.sessionTable.first p) mem) : wp (accessing alive) (searchSessions p) Q mem :=
  wp_search (reads_sessions alive mem) h

theorem wp_requests {p : TransferRequestEntry → Bool}
    {Q : Option (Nat × TransferRequestEntry) → SharedMemory → Prop}
    (h : Q (mem.pendingRequestsTable.first p) mem) : wp (accessing alive) (searchRequests p) Q mem :=
  wp_search (reads_requests alive mem) h

theorem sessionAdd_section (user : CStr) (pid : Int) :
    Section (.sessionAdd user pid) (shmSessionAdd user pid) := by
  refine ⟨_, _, rfl, fun _ _ _ => rfl, ?_⟩
  intro alive mem
  apply Prog.wp_bind.mpr
  apply wp_sessions
  cases found : mem.sessionTable.first (fun e => !e.inUse) with
  | some slot =>
    apply Prog.wp_bind.mpr
    apply wp_access
    apply Prog.wp_pure.mpr
    simp only [atomic, Csap.shmSessionAdd, SlotTable.store_reuse found]
    rfl
  | none =>
    apply Prog.wp_bind.mpr
    apply wp_access
    apply Prog.wp_ite.mpr
    refine ⟨fun room => ?_, fun full => ?_⟩
    · apply Prog.wp_bind.mpr
      apply wp_access
      apply Prog.wp_bind.mpr
      apply wp_access
      apply Prog.wp_pure.mpr
      simp only [atomic, Csap.shmSessionAdd, SlotTable.store_grow found room, ← SlotTable.resize_put room]
      rfl
    · apply Prog.wp_pure.mpr
      simp only [atomic, Csap.shmSessionAdd, SlotTable.store_refuse found full]
      rfl

theorem sessionFind_section (user : CStr) : Section (.sessionFind user) (shmSessionFind user) := by
  refine ⟨_, _, rfl, fun _ _ _ => rfl, ?_⟩
  intro alive mem
  apply Prog.wp_bind.mpr
  apply wp_sessions
  cases found : mem.sessionTable.first (fun e => decide (e.username = user)) with
  | some slot =>
    apply Prog.wp_pure.mpr
    simp only [atomic, Csap.shmSessionFind, found]
  | none =>
    apply Prog.wp_pure.mpr
    simp only [atomic, Csap.shmSessionFind, found]

theorem requestTake_section (id : Int) (destUser : CStr) (newStatus : RequestStatus) :
    Section (.requestTake id destUser newStatus) (shmRequestTake id destUser newStatus) := by
  refine ⟨_, _, rfl, fun _ _ _ => rfl, ?_⟩
  intro alive mem
  apply Prog.wp_bind.mpr
  apply wp_requests
  cases found : mem.pendingRequestsTable.first (fun e => decide (e.id = id)) with
  | none =>
    apply Prog.wp_pure.mpr
    simp only [atomic, Csap.shmRequestTake, found]
  | some slot =>
    obtain ⟨i, entry⟩ := slot
    apply Prog.wp_ite.mpr
    refine ⟨fun other => ?_, fun mine => ?_⟩
    · apply Prog.wp_pure.mpr
      simp only [atomic, Csap.shmRequestTake, found, if_pos other]
    apply Prog.wp_ite.mpr
    refine ⟨fun handled => ?_, fun pending => ?_⟩
    · apply Prog.wp_pure.mpr
      simp only [atomic, Csap.shmRequestTake, found, if_neg mine, if_pos handled]
    · apply Prog.wp_bind.mpr
      apply wp_access
      apply Prog.wp_bind.mpr
      apply wp_access
      apply Prog.wp_pure.mpr
      have written : (exec alive (exec alive mem (.setRequest i { entry with status := newStatus })).2
          (.request i)).1 = { entry with status := newStatus } :=
        SlotTable.getD_put (SlotTable.first_lt found)
      rw [written]
      simp only [atomic, Csap.shmRequestTake, found, if_neg mine, if_neg pending]
      rfl

theorem requestSet_section (id : Int) (st : RequestStatus) :
    Section (.requestSet id st) (shmRequestSet id st) := by
  refine ⟨_, _, rfl, fun _ _ _ => rfl, ?_⟩
  intro alive mem
  apply Prog.wp_bind.mpr
  apply wp_requests
  cases found : mem.pendingRequestsTable.first (fun e => decide (e.id = id)) with
  | none =>
    apply Prog.wp_pure.mpr
    simp only [atomic, Csap.shmRequestSet, found]
  | some slot =>
    apply Prog.wp_bind.mpr
    apply wp_access
    apply Prog.wp_pure.mpr
    simp only [atomic, Csap.shmRequestSet, found]
    rfl

theorem requestAdd_section (srcUser destUser absPath : CStr) :
    Section (.requestAdd srcUser destUser absPath) (shmRequestAdd srcUser destUser absPath) := by
  refine ⟨_, _, rfl, fun _ _ _ => rfl, ?_⟩
  intro alive mem
  apply Prog.wp_bind.mpr
  apply wp_requests
  cases found : mem.pendingRequestsTable.first TransferRequestEntry.resolved with
  | some slot =>
    apply Prog.wp_bind.mpr
    apply Prog.wp_pure.mpr
    apply Prog.wp_bind.mpr
    apply wp_access
    apply Prog.wp_bind.mpr
    apply wp_access
    apply Prog.wp_bind.mpr
    apply wp_access
    apply Prog.wp_pure.mpr
    simp only [atomic, Csap.shmRequestAdd, SlotTable.store_reuse found]
    rfl
  | none =>
    apply Prog.wp_bind.mpr
    apply wp_access
    apply Prog.wp_ite.mpr
    refine ⟨fun room => ?_, fun full => ?_⟩
    · apply Prog.wp_bind.mpr
      apply wp_access
      apply Prog.wp_bind.mpr
      apply Prog.wp_pure.mpr
      apply Prog.wp_bind.mpr
      apply wp_access
      apply Prog.wp_bind.mpr
      apply wp_access
      apply Prog.wp_bind.mpr
      apply wp_access
      apply Prog.wp_pure.mpr
      simp only [atomic, Csap.shmRequestAdd, SlotTable.store_grow found room, ← SlotTable.put_resize room]
      rfl
    · apply Prog.wp_bind.mpr
      apply Prog.wp_pure.mpr
      apply Prog.wp_pure.mpr
      simp only [atomic, Csap.shmRequestAdd, SlotTable.store_refuse found full]
      rfl

theorem sessionsCollectStale_section : Section .sessionsCollectStale shmSessionsCollectStale := by
  refine ⟨_, _, rfl, fun _ _ _ => rfl, ?_⟩
  intro alive mem
  apply Prog.wp_bind.mpr
  apply wp_sweep (fun t => { mem with sessionTable := t })
    (fun e => if e.inUse && !alive e.pid then { pid := -1 } else e) (fun e => e.inUse && !alive e.pid)
    (fun t => reads_sessions alive _)
  · intro t i e here
    have left : t.put i e = t := SlotTable.put_self here
    apply Prog.wp_ite.mpr
    refine ⟨fun free => ?_, fun used => ?_⟩
    · apply Prog.wp_pure.mpr
      have unused : e.inUse = false := by simpa using free
      simp only [unused, Bool.false_and, Bool.false_eq_true, if_false, left]
      exact ⟨trivial, trivial⟩
    have inUse : e.inUse = true := by simpa using used
    apply Prog.wp_bind.mpr
    apply wp_access
    apply Prog.wp_ite.mpr
    refine ⟨fun found => ?_, fun ended => ?_⟩
    · apply Prog.wp_pure.mpr
      have runs : alive e.pid = true := found
      simp only [inUse, runs, Bool.not_true, Bool.and_false, Bool.false_eq_true, if_false, left]
      exact ⟨trivial, rfl⟩
    · have gone : alive e.pid = false := Bool.eq_false_iff.mpr ended
      apply Prog.wp_bind.mpr
      apply wp_access
      apply Prog.wp_bind.mpr
      apply wp_access
      apply Prog.wp_pure.mpr
      simp only [inUse, gone, Bool.not_false, Bool.and_true, if_true]
      rw [← SlotTable.put_put]
      exact ⟨trivial, rfl⟩
  · rfl

theorem requestsSetFailed_section (user : CStr) :
    Section (.requestsSetFailed user) (shmRequestsSetFailed user) := by
  refine ⟨_, _, rfl, fun _ _ _ => rfl, ?_⟩
  intro alive mem
  apply Prog.wp_bind.mpr
  apply wp_sweep (fun t => { mem with
      pendingRequestsTable := ⟨t, mem.pendingRequestsTable.nextId⟩ })
    (fun e => if e.sentBy user then { e with status := .failed } else e) (fun e => e.sentBy user)
    (fun t => reads_requests alive _)
  · intro t i e here
    have left : t.put i e = t := SlotTable.put_self here
    apply Prog.wp_ite.mpr
    refine ⟨fun sent => ?_, fun other => ?_⟩
    · apply Prog.wp_bind.mpr
      apply wp_access
      apply Prog.wp_pure.mpr
      simp only [sent, if_true]
      exact ⟨trivial, rfl⟩
    · have not : e.sentBy user = false := Bool.eq_false_iff.mpr other
      apply Prog.wp_pure.mpr
      simp only [not, Bool.false_eq_true, if_false, left]
      exact ⟨trivial, trivial⟩
  · rfl

theorem copied_succ {w : TransferRequestEntry → Bool} {t : SlotTable TransferRequestEntry capacity} {i n : Nat}
    {e : TransferRequestEntry} (here : t.live[i]? = some e)
    (room : (((t.live.take i).filter w).take n).length < n) :
    ((t.live.take (i + 1)).filter w).take n =
      if w e then ((t.live.take i).filter w).take n ++ [e] else ((t.live.take i).filter w).take n := by
  have few : ((t.live.take i).filter w).length < n := by
    rw [List.length_take] at room
    omega
  rw [SlotTable.take_succ here, List.filter_append, List.filter_singleton]
  split_ifs with waits
  · rw [waits, cond_true, List.take_of_length_le few.le, List.take_of_length_le]
    rw [List.length_append]
    exact few
  · rw [Bool.eq_false_iff.mpr waits, cond_false, List.append_nil]

theorem requestsForDest_section (user : CStr) (max : Int) :
    Section (.requestsForDest user max) (shmRequestsForDest user max) := by
  refine ⟨_, _, rfl, fun _ _ _ => rfl, ?_⟩
  intro alive mem
  have reads := reads_requests alive mem
  apply Prog.wp_bind.mpr
  apply Prog.wp_iterate fun loop g => g = mem ∧ loop.1 ≤ mem.pendingRequestsTable.count ∧
    loop.2 = ((mem.pendingRequestsTable.live.take loop.1).filter (·.waitsFor user)).take max.toNat
  · refine ⟨rfl, Nat.zero_le _, ?_⟩
    rw [List.take_zero, List.filter_nil, List.take_nil]
  intro loop g inv
  obtain ⟨i, out⟩ := loop
  obtain ⟨rfl, bound, found⟩ := inv
  dsimp only at bound found
  apply Prog.wp_bind.mpr
  apply wp_access
  apply Prog.wp_ite.mpr
  refine ⟨fun more => ?_, fun last => ?_⟩
  · obtain ⟨e, here⟩ := SlotTable.exists_live (show i < g.pendingRequestsTable.count from more.1)
    have few : out.length < max.toNat := by
      have fewer := more.2
      omega
    apply Prog.wp_bind.mpr
    apply reads.entries i e here
    refine ⟨rfl, more.1, ?_⟩
    change (if e.waitsFor user = true then out ++ [e] else out) = _
    rw [found] at few
    rw [copied_succ here few, ← found]
  · have all : out = (g.pendingRequestsTable.live.filter (·.waitsFor user)).take max.toNat := by
      by_cases more : i < g.pendingRequestsTable.count
      · have many : max.toNat ≤ out.length := by
          have full : ¬ (out.length : Int) < max := fun room => last ⟨more, room⟩
          omega
        have enough : max.toNat ≤
            ((g.pendingRequestsTable.live.take i).filter (·.waitsFor user)).length := by
          rw [found, List.length_take] at many
          omega
        conv_rhs => rw [← List.take_append_drop i g.pendingRequestsTable.live]
        rw [List.filter_append, List.take_append_of_le_length enough]
        exact found
      · have whole : g.pendingRequestsTable.live.take i = g.pendingRequestsTable.live := by
          apply List.take_of_length_le
          rw [SlotTable.length_live]
          exact not_lt.mp more
        rw [found, whole]
    apply Prog.wp_pure.mpr
    simp only [atomic, Csap.shmRequestsForDest, ← all]
    rfl

end bodies

end Csap.Semaphore
