import Csap.Uses

/-! Runs of the server's processes on the file system they share: what each knows of its descriptors
and of its last lock is so. -/

namespace Csap.Kernel

open Interleaving RecordLocks

abbrev Event := Interleaving.Event Call.Reply Int State Choice

/-- What is known of a process agrees with what the kernel has of it. -/
structure Fits (g : Uses) (s : State) (pid : Int) : Prop where
  opened : ∀ fd, g.use fd = none ↔ s.fds pid fd = none
  last : ∀ fd type start, g.last = some (fd, type, start) → s.fds pid fd ≠ none ∧
    ∀ ino, s.inoOf pid fd = some ino → ⟨pid, ino, decide (type = .wrlck), ⟨start, none⟩⟩ ∈ s.locks

section fits

variable {g : Uses} {s : State} {pid other : Int} {c : Call} {r : c.Reply} {fd : Int} {ino : Nat}

theorem fits_start (pid : Int) (volume : Volume) (cwd : Int → Option (FileTree.Place FileName)) :
    Fits Uses.start (boot volume cwd) pid := by
  constructor
  · intro fd
    exact ⟨fun _ => rfl, fun _ => rfl⟩
  · intro fd type start impossible
    cases impossible

theorem locking_other {c : FileCall} {r : c.Reply} {record : Record Int Nat}
    (held : record ∈ s.locks) (apart : record.owner ≠ other) : record ∈ s.locking other c r := by
  have kept : ∀ ino, ¬ (record.owner = other ∧ record.file = ino) := fun ino same => apart same.1
  cases c with
  | setlk fd type start len =>
    cases r with
    | error e => cases type <;> exact held
    | ok done =>
      cases here : s.inoOf other fd with
      | none => cases type <;> simpa only [State.locking, here, Option.elim_none] using held
      | some ino =>
        cases type with
        | unlck =>
          simp only [State.locking, here, Option.elim_some]
          exact mem_release held (kept ino)
        | rdlck =>
          simp only [State.locking, here, Option.elim_some]
          exact List.mem_cons_of_mem _ (mem_release held (kept ino))
        | wrlck =>
          simp only [State.locking, here, Option.elim_some]
          exact List.mem_cons_of_mem _ (mem_release held (kept ino))
  | close fd =>
    cases here : s.inoOf other fd with
    | none => simpa only [State.locking, here, Option.elim_none] using held
    | some ino =>
      simp only [State.locking, here, Option.elim_some]
      exact mem_abandon held (kept ino)
  | _ => exact held

theorem next_fds_other (apart : pid ≠ other) (fd : Int) : (s.next other c r).fds pid fd = s.fds pid fd := by
  cases c with
  | file c =>
    change Function.update s.fds other _ pid fd = _
    rw [Function.update_of_ne apart]
  | _ => rfl

theorem Fits.elsewhere (fits : Fits g s pid) (apart : pid ≠ other) : Fits g (s.next other c r) pid := by
  constructor
  · intro fd
    rw [next_fds_other apart]
    exact fits.opened fd
  · intro fd type start last
    obtain ⟨isOpen, locked⟩ := fits.last fd type start last
    rw [next_fds_other apart]
    refine ⟨isOpen, ?_⟩
    intro ino here
    rw [next_inoOf apart] at here
    cases c with
    | file c => exact locking_other (locked ino here) apart
    | _ => exact locked ino here

theorem next_target {c : FileCall} {r : c.Reply} (fd : Int) :
    ((s.next pid (.file c) r).view pid).target fd = ((s.view pid).after c r).target fd := by
  unfold World.target
  change (Function.update s.fds pid _ pid fd).map _ = _
  rw [Function.update_self]

theorem fds_eq_none : s.fds pid fd = none ↔ (s.view pid).target fd = none :=
  (World.target_eq_none (w := s.view pid)).symm

theorem use_opened {c : FileCall} {r : c.Reply} (made : World.opened c r = some fd) :
    (g.after (.file c) r).use fd ≠ none := by
  have known : ∀ use, (g.openAs fd use).use fd ≠ none := by
    intro use
    change Function.update g.use fd (some use) fd ≠ none
    rw [Function.update_self]
    exact Option.some_ne_none use
  cases c with
  | openPath path flags mode =>
    cases r with
    | error e => cases made
    | ok x =>
      cases made
      exact known _
  | mkstemp template =>
    obtain ⟨e | x, name⟩ := r
    · cases made
    · cases made
      exact known _
  | _ => cases made

theorem use_after {c : FileCall} {r : c.Reply} (made : World.opened c r ≠ some fd)
    (kept : c ≠ .close fd) : (g.after (.file c) r).use fd = none ↔ g.use fd = none := by
  have other : ∀ x use, fd ≠ x → ((g.openAs x use).use fd = none ↔ g.use fd = none) := by
    intro x use apart
    change Function.update g.use x _ fd = none ↔ _
    rw [Function.update_of_ne apart]
  cases c with
  | openPath path flags mode =>
    cases r with
    | error e => exact Iff.rfl
    | ok x => exact other x _ fun same => made (congrArg some same.symm)
  | mkstemp template =>
    obtain ⟨e | x, name⟩ := r
    · exact Iff.rfl
    · exact other x _ fun same => made (congrArg some same.symm)
  | close x =>
    have apart : fd ≠ x := by
      rintro rfl
      exact kept rfl
    change Function.update g.use x none fd = none ↔ _
    rw [Function.update_of_ne apart]
  | setlk x type start len =>
    cases r with
    | error e => exact Iff.rfl
    | ok done =>
      change Function.update g.use x _ fd = none ↔ _
      by_cases here : fd = x
      · rw [here, Function.update_self, Option.map_eq_none_iff]
      · rw [Function.update_of_ne here]
  | _ => exact Iff.rfl

theorem opened_own {c : FileCall} {r : c.Reply} (opened : ∀ fd, g.use fd = none ↔ s.fds pid fd = none)
    (told : (s.view pid).Answers c r) (fd : Int) :
    (g.after (.file c) r).use fd = none ↔ (s.next pid (.file c) r).fds pid fd = none := by
  rw [fds_eq_none, next_target]
  by_cases made : World.opened c r = some fd
  · exact iff_of_false (use_opened made) (World.target_opened told made)
  by_cases closes : c = .close fd
  · subst closes
    rw [World.target_close]
    exact iff_of_true (Function.update_self ..) rfl
  · rw [World.target_after fd made closes, use_after made closes, opened fd, fds_eq_none]

theorem Fits.own (fits : Fits g s pid) (answered : s.answers pid c r = true)
    (may : tracking.allowed g c) : Fits (g.after c r) (s.next pid c r) pid := by
  cases c with
  | file c =>
    obtain ⟨told, -⟩ := answers_file answered
    refine ⟨opened_own fits.opened told, ?_⟩
    -- where the locks are what they were, the last one is still there
    have kept : (g.after (.file c) r).last = g.last → (∀ fd, c ≠ .close fd) →
        s.locking pid c r = s.locks → ∀ fd type start,
        (g.after (.file c) r).last = some (fd, type, start) →
          (s.next pid (.file c) r).fds pid fd ≠ none ∧ ∀ ino,
            (s.next pid (.file c) r).inoOf pid fd = some ino →
              ⟨pid, ino, decide (type = .wrlck), ⟨start, none⟩⟩ ∈ (s.next pid (.file c) r).locks := by
      intro same closes locks fd type start last
      rw [same] at last
      obtain ⟨isOpen, locked⟩ := fits.last fd type start last
      have made : World.opened c r ≠ some fd := fun made => isOpen (World.unused_opened told made)
      rw [Ne, fds_eq_none, next_target, World.target_after fd made (closes fd), ← fds_eq_none]
      refine ⟨isOpen, ?_⟩
      intro ino here
      rw [next_inoOf_self, World.inoOf_after fd made (closes fd)] at here
      change _ ∈ s.locking pid c r
      rw [locks]
      exact locked ino here
    cases c with
    | close x =>
      intro fd type start last
      cases last
    | setlk x type start len =>
      cases r with
      | error e => exact kept rfl (fun _ => by simp) (by cases type <;> rfl)
      | ok done =>
        have endless : region start len = ⟨start, none⟩ := by
          unfold region
          rw [if_pos may.2]
        have locked : ∀ ino, s.inoOf pid x = some ino → type ≠ .unlck →
            ⟨pid, ino, decide (type = .wrlck), ⟨start, none⟩⟩ ∈ s.locking pid (.setlk x type start len)
              (.ok done) := by
          intro ino here locks
          rw [← endless]
          cases type with
          | unlck => exact absurd rfl locks
          | rdlck =>
            simp only [State.locking, here, Option.elim_some]
            exact List.mem_cons_self
          | wrlck =>
            simp only [State.locking, here, Option.elim_some]
            exact List.mem_cons_self
        intro fd type' start' last
        have took : type ≠ .unlck ∧ (x, type, start) = (fd, type', start') := by
          change (heldBy type start).map _ = _ at last
          unfold heldBy at last
          split_ifs at last with unlocks
          · cases last
          · exact ⟨unlocks, Option.some.inj last⟩
        obtain ⟨locks, same⟩ := took
        cases same
        rw [Ne, fds_eq_none, next_target]
        refine ⟨?_, ?_⟩
        · rw [World.target_after x (by simp [World.opened]) (by simp), ← fds_eq_none]
          exact told
        · intro ino here
          rw [next_inoOf_self, World.inoOf_after x (by simp [World.opened]) (by simp)] at here
          exact locked ino here locks
    | openPath path flags mode =>
      cases r with
      | error e => exact kept rfl (fun _ => by simp) rfl
      | ok x => exact kept rfl (fun _ => by simp) rfl
    | mkstemp template =>
      obtain ⟨e | x, name⟩ := r
      · exact kept rfl (fun _ => by simp) rfl
      · exact kept rfl (fun _ => by simp) rfl
    | _ => exact kept rfl (fun _ => by simp) rfl
  | _ => exact fits

end fits

abbrev usesOf (pid : Int) (log : List Event) : Uses := ghostOf tracking (fun _ => Uses.start) pid log

structure Tracked (log : List Event) (s : State) : Prop where
  sane : Sane s
  fits : ∀ pid, Fits (usesOf pid log) s pid

section runs

variable {volume : Volume} {cwd : Int → Option (FileTree.Place FileName)} {log : List Event}
  {s s' : State} {pid : Int} {c : Call} {r : c.Reply} {choice : Choice}

theorem Tracked.snoc (h : Tracked log s) (may : tracking.allowed (usesOf pid log) c)
    (done : machine pid c choice s = some (r, s')) :
    Tracked (log ++ [⟨⟨pid, c, r⟩, choice, s, s'⟩]) s' := by
  obtain ⟨answered, rfl⟩ := machine_eq_some done
  refine ⟨h.sane.next answered, ?_⟩
  intro other
  rw [usesOf, ghostOf_append]
  by_cases same : pid = other
  · subst same
    rw [if_pos rfl]
    exact (h.fits pid).own answered may
  · rw [if_neg same]
    exact (h.fits other).elsewhere (Ne.symm same)

theorem tracked (trace : Trace tracking (fun _ => Uses.start) machine (boot volume cwd) log s) :
    Tracked log s := by
  induction trace with
  | nil => exact ⟨boot_sane volume cwd, fun pid => fits_start pid volume cwd⟩
  | snoc _ may _ done ih => exact ih.snoc may done

theorem meets (volume : Volume) (cwd : Int → Option (FileTree.Place FileName)) :
    Meets machine tracking (fun _ => Uses.start) (boot volume cwd) := by
  intro log t t' pid q choice r trace may done
  have known := ((tracked trace).fits pid).opened
  obtain ⟨answered, -⟩ := machine_eq_some done
  cases q with
  | file c =>
    obtain ⟨told, -⟩ := answers_file answered
    have unused : ∀ fd, World.opened c r = some fd → ((usesOf pid log).use fd).isNone = true := by
      intro fd made
      rw [Option.isNone_iff_eq_none, known fd]
      exact World.unused_opened told made
    cases c with
    | openPath path flags mode =>
      cases r with
      | error e => exact rfl
      | ok fd => exact unused fd rfl
    | mkstemp template =>
      obtain ⟨e | fd, name⟩ := r
      · exact rfl
      · exact unused fd rfl
    | _ => exact rfl
  | _ => exact rfl

/-- One process for each connection, on a file system that they share. -/
def start (server : Server) (clientSocket : Int → Int) (volume : Volume)
    (cwd : Int → Option (FileTree.Place FileName)) : Config Call.Reply Int State Choice where
  state := boot volume cwd
  procs := fun pid => serveClient { server with pid } (clientSocket pid)
  log := []

theorem trace_of_reaches {server : Server} {clientSocket : Int → Int}
    {c : Config Call.Reply Int State Choice}
    (reached : Reaches machine (start server clientSocket volume cwd) c) :
    Trace tracking (fun _ => Uses.start) machine (boot volume cwd) c.log c.state := by
  have disciplined : Disciplined tracking (fun _ => Uses.start)
      (start server clientSocket volume cwd) :=
    fun pid => wp_serveClient { server with pid } (clientSocket pid) Uses.start
  exact (disciplined.reaches (meets volume cwd) rfl reached).2

end runs

end Csap.Kernel
