import Csap.RequestHistory

/-! Notifications in the log of a run: opening a session's fifo and the write that
follows. A notification that a process owes is attempted before the process waits for
its client again. -/

namespace Csap.Sessions

open Interleaving

def isSelect : Call → Bool
  | .socket (.select _) => true
  | _ => false

/-- What a process did since it last waited for its client. -/
def command (pid : Int) (log : Log) : Log :=
  log.foldl (fun events e =>
    if e.act.pid ≠ pid then events else if isSelect e.act.call then [] else events ++ [e]) []

def own (pid : Int) (log : Log) : List Action := (log.filter (·.act.pid = pid)).map (·.act)

/-- How `notify_pid` opens a fifo. -/
def notifyOpen (path : CStr) : Call := .file (.openPath path notifyFlags 0)

/-- The process opened the fifo and then made a write of `data` to it, which replied `r`. -/
def Sends (acts : List Action) (pid : Int) (path data : CStr) (r : SysResult Nat) : Prop :=
  ∃ fd, [⟨pid, notifyOpen path, .ok fd⟩, ⟨pid, .file (.write fd data), r⟩] <:+: acts

def Refused (acts : List Action) (pid : Int) (path : CStr) : Prop :=
  ∃ err, ⟨pid, notifyOpen path, .error err⟩ ∈ acts

def Attempted (root : CStr) (acts : List Action) (pid : Int) (o : Owed) : Prop :=
  (∃ n r, o.fits n ∧ Sends acts pid (sessionFifoPath root o.pid) n.text r) ∨
    Refused acts pid (sessionFifoPath root o.pid)

theorem Attempted.mono {root : CStr} {acts acts' : List Action} {pid : Int} {o : Owed}
    (h : Attempted root acts pid o) (inside : acts <:+: acts') : Attempted root acts' pid o := by
  rcases h with ⟨n, r, fits, fd, sent⟩ | ⟨err, refused⟩
  · exact .inl ⟨n, r, fits, fd, sent.trans inside⟩
  · exact .inr ⟨err, inside.subset refused⟩

section commands

variable (pid : Int) (log : Log) (e : Event)

theorem command_append : command pid (log ++ [e]) =
    if e.act.pid ≠ pid then command pid log
    else if isSelect e.act.call then [] else command pid log ++ [e] := by
  simp [command]

theorem mem_command_append (waits : isSelect e.act.call = false) :
    e ∈ command e.act.pid (log ++ [e]) := by
  simp [command_append, waits]

theorem own_append : own pid (log ++ [e]) =
    own pid log ++ if e.act.pid = pid then [e.act] else [] := by
  by_cases same : e.act.pid = pid <;> simp [own, same]

theorem own_extends : own pid log <+: own pid (log ++ [e]) := by
  rw [own_append]
  exact List.prefix_append _ _

theorem command_suffix : (command pid log).map (·.act) <:+ own pid log := by
  induction log using List.reverseRecOn with
  | nil => exact List.suffix_rfl
  | append_singleton log e ih =>
    rw [command_append, own_append]
    by_cases same : e.act.pid = pid
    · by_cases select : isSelect e.act.call = true
      · simp [same, select]
      · simp only [same, select, ne_eq, not_true, if_false, if_true, List.map_append,
          List.map_cons, List.map_nil, Bool.false_eq_true]
        obtain ⟨before, done⟩ := ih
        exact ⟨before, by rw [← List.append_assoc, done]⟩
    · simpa [same] using ih

end commands

/-- The process still has to write the notification, or is about to. -/
def Owes (root : CStr) (log : Log) (pid : Int) (o : Owed) : Prop :=
  o ∈ (ghostOf (protocol root) init pid log).owed ∨
    ∃ fd, (ghostOf (protocol root) init pid log).writing = some (fd, o)

section owed

variable {root : CStr} {s t : State} {log : Log} {pid : Int}

theorem writing_of_next (who : Int) {g : Ghost} {c : Call} {r : c.Reply} {fd : Int} {o : Owed}
    (h : (g.next c r).writing = some (fd, o)) :
    g.writing = some (fd, o) ∨ ∃ path mode rest, g.owed = o :: rest ∧
      (⟨who, c, r⟩ : Action) = ⟨who, .file (.openPath path notifyFlags mode), .ok fd⟩ := by
  unfold Ghost.next at h
  repeat' split at h
  all_goals first | exact .inl h | cases h
  rename_i path flags mode same _ _ rest owed
  subst same
  exact .inr ⟨path, mode, rest, owed, rfl⟩

theorem writing_last (trace : Trace (protocol root) init machine s log t) {fd : Int} {o : Owed}
    (h : (ghostOf (protocol root) init pid log).writing = some (fd, o)) :
    ∃ acts, (command pid log).map (·.act) =
      acts ++ [⟨pid, notifyOpen (sessionFifoPath root o.pid), .ok fd⟩] := by
  induction trace with
  | nil => cases h
  | @snoc log t t' who q choice r old allowed expected done ih =>
    rw [ghostOf_append] at h
    rw [command_append]
    split at h
    · rename_i same
      subst same
      rcases writing_of_next who h with before | ⟨path, mode, rest, owed, act⟩
      · -- only the write itself could follow, and it ends `writing`
        have allowed' : Ghost.allowed root _ q := allowed
        rw [Ghost.allowed, before] at allowed'
        obtain ⟨n, -, rfl⟩ := allowed'
        cases h
      · cases act
        obtain ⟨-, may⟩ := Ghost.may_of_allowed allowed (by simp)
        obtain ⟨rfl, first, rest', owed', rfl⟩ := may rfl
        rw [owed] at owed'
        cases owed'
        exact ⟨(command who log).map (·.act), by simp [isSelect, notifyOpen]⟩
    · rename_i other
      rw [if_pos other]
      exact ih h

theorem owed_next (who : Int) {g : Ghost} {c : Call} (allowed : g.allowed root c) (r : c.Reply)
    {o : Owed} (h : o ∈ g.owed) :
    (o ∈ (g.next c r).owed ∨ ∃ fd, (g.next c r).writing = some (fd, o)) ∨
      ∃ path err, (⟨who, c, r⟩ : Action) = ⟨who, notifyOpen path, .error err⟩ ∧
        path = sessionFifoPath root o.pid := by
  have owes : g.owed ≠ [] := List.ne_nil_of_mem h
  cases c with
  | file c =>
    cases c with
    | openPath path flags mode =>
      by_cases notify : flags = notifyFlags
      · subst notify
        obtain ⟨rfl, first, rest, owed, rfl⟩ := (Ghost.may_of_allowed allowed (by simp)).2 rfl
        rw [owed] at h
        rcases r with err | fd
        · rcases List.mem_cons.mp h with rfl | later
          · exact .inr ⟨_, err, rfl, rfl⟩
          · exact .inl (.inl (by simpa [Ghost.next, owed] using later))
        · rcases List.mem_cons.mp h with rfl | later
          · exact .inl (.inr ⟨fd, by simp [Ghost.next, owed]⟩)
          · exact .inl (.inl (by simpa [Ghost.next, owed] using later))
      · exact .inl (.inl (by simpa [Ghost.next, notify] using h))
    | _ => exact .inl (.inl h)
  | socket c =>
    cases c with
    | select fds => exact absurd (Ghost.may_of_allowed allowed (by simp)).2.1 owes
    | _ => exact .inl (.inl h)
  | shared c =>
    cases c with
    | requestAdd src dst path =>
      exact absurd (Ghost.may_of_allowed allowed (by simp)).2.2.2.2 owes
    | sessionFind user => exact absurd (Ghost.may_of_allowed allowed (by simp)).2.2.2 owes
    | requestsForDest user max =>
      exact absurd (Ghost.may_of_allowed allowed (by simp)).2.2.2.2.1 owes
    | requestTake id user st =>
      exact absurd (Ghost.may_of_allowed allowed (by simp)).2.2.2.2.1 owes
    | _ => exact .inl (.inl h)
  | _ => exact .inl (.inl h)

/-- An owed notification stays owed until it is attempted, within the same command. -/
theorem owes_append {e : Event} {o : Owed}
    (trace : Trace (protocol root) init machine s log e.before)
    (allowed : (protocol root).allowed (ghostOf (protocol root) init e.act.pid log) e.act.call)
    (h : Owes root log pid o) :
    Owes root (log ++ [e]) pid o ∨
      Attempted root ((command pid (log ++ [e])).map (·.act)) pid o := by
  obtain ⟨⟨who, q, r⟩, choice, before, after⟩ := e
  unfold Owes
  rw [ghostOf_append, command_append]
  by_cases same : who = pid
  · subst same
    simp only [if_true, ne_eq, not_true, if_false]
    set g := ghostOf (protocol root) init who log
    have allowed' : Ghost.allowed root g q := allowed
    rcases h with owed | ⟨fd, writing⟩
    · rcases owed_next who allowed' r owed with kept | ⟨path, err, act, rfl⟩
      · exact .inl kept
      · cases act
        exact .inr (.inr ⟨err, by simp [isSelect, notifyOpen]⟩)
    · rw [Ghost.allowed, writing] at allowed'
      obtain ⟨n, fits, rfl⟩ := allowed'
      obtain ⟨acts, last⟩ := writing_last trace writing
      refine .inr (.inl ⟨n, r, fits, fd, ?_⟩)
      simp only [isSelect, Bool.false_eq_true, if_false, List.map_append, last, List.append_assoc]
      exact (List.suffix_append _ _).isInfix
  · simp only [same, if_false]
    exact .inl h

end owed

end Csap.Sessions
