import Csap.Snapshots
import Csap.Writing

/-! A command that changes a file in place has locked all of it: between its lock and its unlocking
nobody else has a lock on the file or changes a byte of it. -/

namespace Csap.Kernel

open Prog Interleaving RecordLocks

section solid

variable {s s' : State} {pid : Int} {c : Call} {r : c.Reply}

theorem solid_next {g : Uses} (solid : Solid s.locks) (may : tracking.allowed g c) :
    Solid (s.next pid c r).locks := by
  cases c with
  | file c =>
    change Solid (s.locking pid c r)
    cases c with
    | setlk fd type start len =>
      cases r with
      | error e => cases type <;> exact solid
      | ok done =>
        have endless : region start len = ⟨start, none⟩ := by
          unfold region
          rw [if_pos may.2]
        have has : (Region.mk start none).Solid := Region.solid_of_endless may.1
        cases here : s.inoOf pid fd with
        | none => cases type <;> simpa only [State.locking, here, Option.elim_none] using solid
        | some ino =>
          cases type with
          | unlck =>
            simp only [State.locking, here, Option.elim_some, endless]
            exact solid_release solid rfl
          | rdlck =>
            simp only [State.locking, here, Option.elim_some, endless]
            exact solid_acquire solid rfl has
          | wrlck =>
            simp only [State.locking, here, Option.elim_some, endless]
            exact solid_acquire solid rfl has
    | close fd =>
      cases here : s.inoOf pid fd with
      | none => simpa only [State.locking, here, Option.elim_none] using solid
      | some ino =>
        simp only [State.locking, here, Option.elim_some]
        intro record member
        exact solid record (List.mem_filter.mp member).1
    | _ => exact solid
  | _ => exact solid

theorem solid_locks {volume : Volume} {cwd : Int → Option (FileTree.Place FileName)} {log : List Event}
    (trace : Trace tracking (fun _ => Uses.start) machine (boot volume cwd) log s) : Solid s.locks := by
  induction trace with
  | nil =>
    intro record member
    cases member
  | snoc _ may _ done ih =>
    obtain ⟨-, rfl⟩ := machine_eq_some done
    exact solid_next ih may

end solid

structure WriteLocked (log : List Event) (s : State) (pid fd : Int) (ino : Nat) : Prop where
  last : (usesOf pid log).last = some (fd, .wrlck, 0)
  plain : ∃ use, (usesOf pid log).use fd = some use ∧ use.temp = false
  here : s.inoOf pid fd = some ino

def Alone (s : State) (pid : Int) (ino : Nat) : Prop := ∀ r ∈ s.locks, r.file = ino → r.owner = pid

section alone

variable {log : List Event} {s : State} {pid other fd : Int} {ino : Nat} {c : Call} {r : c.Reply}

theorem WriteLocked.record (h : WriteLocked log s pid fd ino) (known : Tracked log s) :
    ⟨pid, ino, true, ⟨0, none⟩⟩ ∈ s.locks :=
  ((known.fits pid).last fd .wrlck 0 h.last).2 ino h.here

theorem WriteLocked.alone (h : WriteLocked log s pid fd ino) (known : Tracked log s)
    (solid : Solid s.locks) : Alone s pid ino := by
  intro r member same
  by_contra apart
  have clash := known.sane.sound r member _ (h.record known) apart same (solid r member).meets
  cases clash.2

theorem WriteLocked.unwritten (h : WriteLocked log s pid fd ino) (known : Tracked log s)
    (separate : Separate log s) (solid : Solid s.locks) (apart : pid ≠ other) {x : Int}
    (may : (usesOf other log).MayWrite x) : s.inoOf other x ≠ some ino := by
  intro there
  obtain ⟨use, mine, plain⟩ := h.plain
  rcases may with temp | ⟨use', theirs, notifies⟩ | last
  · exact (separate pid fd use ino mine h.here).1 plain ⟨other, x, temp, there⟩
  · rw [(separate other x use' ino theirs there).2] at notifies
    cases notifies
  · have writes := ((known.fits other).last x .wrlck 0 last).2 ino there
    exact apart (h.alone known solid _ writes rfl).symm

theorem WriteLocked.content (h : WriteLocked log s pid fd ino) (known : Tracked log s)
    (separate : Separate log s) (solid : Solid s.locks) (apart : pid ≠ other)
    (may : tracking.allowed (usesOf other log) c) :
    ((s.next other c r).volume.files ino).content = (s.volume.files ino).content := by
  cases c with
  | file c =>
    apply World.content_after (w := s.view other) (known.sane.used pid fd ino h.here)
    · rintro x data rfl
      exact h.unwritten known separate solid apart may
    · rintro path flags mode rfl
      exact may
  | _ => rfl

end alone

def Takes (pid fd : Int) (e : Event) : Prop := e.act = ⟨pid, .file (.setlk fd .wrlck 0 0), .ok ()⟩

/-- The call gives the lock back that was taken through the descriptor. -/
def GivesBack (pid fd : Int) (e : Event) : Prop :=
  ∃ start len r, e.act = ⟨pid, .file (.setlk fd .unlck start len), r⟩

def Undisturbed (pid : Int) (ino : Nat) (e : Event) : Prop :=
  Alone e.before pid ino ∧ (e.act.pid ≠ pid →
    (e.after.volume.files ino).content = (e.before.volume.files ino).content)

/-- Since the command has locked the file, nobody else has had a part in what is in it. -/
def Changed (recent : List Event) (pid fd : Int) (ino start : Nat) (data now : CStr) : Prop :=
  ∃ past taken since, recent = past ++ taken :: since ∧ Takes pid fd taken ∧
    now = overwrite (taken.after.volume.files ino).content start data ∧
    ∀ e ∈ since, Undisturbed pid ino e

/-- The command has had the file to itself from its lock to its unlocking, and has changed it as it
was told to. -/
def Applied (during : List Event) (pid fd : Int) (ino start : Nat) (data : CStr) : Prop :=
  ∃ first given rest, during = first ++ given :: rest ∧ GivesBack pid fd given ∧
    Alone given.before pid ino ∧
    Changed first pid fd ino start data (given.before.volume.files ino).content

section changed

variable {recent : List Event} {pid fd : Int} {ino start : Nat} {data now : CStr} {e : Event}

theorem Changed.snoc (h : Changed recent pid fd ino start data now) (calm : Undisturbed pid ino e) :
    Changed (recent ++ [e]) pid fd ino start data now := by
  obtain ⟨past, taken, since, rfl, takes, whole, own⟩ := h
  refine ⟨past, taken, since ++ [e], by simp, takes, whole, ?_⟩
  intro e' member
  rcases List.mem_append.mp member with old | new
  · exact own e' old
  · rw [List.mem_singleton.mp new]
    exact calm

theorem Changed.more (h : Changed recent pid fd ino start data now) (next : CStr) :
    Changed recent pid fd ino start (data ++ next) (overwrite now (start + data.length) next) := by
  obtain ⟨past, taken, since, split, takes, rfl, own⟩ := h
  exact ⟨past, taken, since, split, takes, overwrite_append _ _ _ _, own⟩

theorem Applied.snoc (h : Applied recent pid fd ino start data) :
    Applied (recent ++ [e]) pid fd ino start data := by
  obtain ⟨first, given, rest, rfl, gives, alone, changed⟩ := h
  exact ⟨first, given, rest ++ [e], by simp, gives, alone, changed⟩

theorem Named.cases {path : CStr} (h : Named pid path fd ino (recent ++ [e])) :
    Named pid path fd ino recent ∨
      (∃ flags mode, e.act = ⟨pid, .file (.openPath path flags mode), .ok fd⟩) ∧
        e.after.inoOf pid fd = some ino := by
  obtain ⟨e', member, opens⟩ := h
  rcases List.mem_append.mp member with old | new
  · exact .inl ⟨e', old, opens⟩
  · rw [List.mem_singleton.mp new] at opens
    exact .inr opens

end changed

structure InPlace (log recent : List Event) (s : State) (pid : Int) (offset : Nat) (g : Writing)
    (ino : Nat) : Prop where
  locked : WriteLocked log s pid g.fd ino
  here : ∃ access, s.fds pid g.fd = some ⟨some ino, g.pos, access⟩
  changed : Changed recent pid g.fd ino offset g.written (s.volume.files ino).content

structure Advance (log recent : List Event) (s : State) (pid : Int) (target : Target) (g : Writing) :
    Prop where
  fresh : g.phase = .start ∨ g.phase = .opened → g.pos = 0 ∧ g.written = []
  start : g.phase = .start → ∀ fd ino, ¬ Named pid target.path fd ino recent
  opened : g.phase = .opened → (∃ use, (usesOf pid log).use g.fd = some use ∧ use.temp = false) ∧
    (∃ ino access, s.fds pid g.fd = some ⟨ino, 0, access⟩) ∧
    ∀ fd ino, Named pid target.path fd ino recent → fd = g.fd ∧ s.inoOf pid g.fd = some ino
  locked : g.phase = .locked → ∀ fd ino, Named pid target.path fd ino recent →
    fd = g.fd ∧ InPlace log recent s pid target.offset.toNat g ino
  done : g.phase = .done → ∀ fd ino, Named pid target.path fd ino recent →
    Applied recent pid fd ino target.offset.toNat g.written

section steps

variable {log recent : List Event} {s : State} {pid other : Int} {target : Target} {g : Writing}
  {ino : Nat} {c : Call} {r : c.Reply} {choice : Choice}

theorem InPlace.elsewhere {offset : Nat} (h : InPlace log recent s pid offset g ino) (apart : pid ≠ other)
    (known : Tracked log s) (separate : Separate log s) (solid : Solid s.locks)
    (may : tracking.allowed (usesOf other log) c) :
    InPlace (log ++ [⟨⟨other, c, r⟩, choice, s, s.next other c r⟩])
      (recent ++ [⟨⟨other, c, r⟩, choice, s, s.next other c r⟩]) (s.next other c r) pid offset g ino := by
  have uses : usesOf pid (log ++ [⟨⟨other, c, r⟩, choice, s, s.next other c r⟩]) = usesOf pid log := by
    rw [usesOf, ghostOf_append, if_neg (Ne.symm apart)]
  have content := h.locked.content (r := r) known separate solid apart may
  refine ⟨⟨?_, ?_, ?_⟩, ?_, ?_⟩
  · rw [uses]
    exact h.locked.last
  · rw [uses]
    exact h.locked.plain
  · rw [next_inoOf apart]
    exact h.locked.here
  · rw [next_fds_other apart]
    exact h.here
  · rw [content]
    exact h.changed.snoc ⟨h.locked.alone known solid, fun _ => content⟩

theorem Named.of_other {path : CStr} {fd : Int} {s' : State} (apart : pid ≠ other)
    (h : Named pid path fd ino (recent ++ [⟨⟨other, c, r⟩, choice, s, s'⟩])) :
    Named pid path fd ino recent := by
  rcases h.cases with old | ⟨⟨flags, mode, same⟩, -⟩
  · exact old
  · cases same
    exact absurd rfl apart

theorem Advance.elsewhere (h : Advance log recent s pid target g) (apart : pid ≠ other)
    (known : Tracked log s) (separate : Separate log s) (solid : Solid s.locks)
    (may : tracking.allowed (usesOf other log) c) :
    Advance (log ++ [⟨⟨other, c, r⟩, choice, s, s.next other c r⟩])
      (recent ++ [⟨⟨other, c, r⟩, choice, s, s.next other c r⟩]) (s.next other c r) pid target g := by
  refine ⟨h.fresh, ?_, ?_, ?_, ?_⟩
  · intro start fd ino named
    exact h.start start fd ino (named.of_other apart)
  · intro opened
    obtain ⟨plain, here, names⟩ := h.opened opened
    rw [usesOf, ghostOf_append, if_neg (Ne.symm apart), next_fds_other apart, next_inoOf apart]
    exact ⟨plain, here, fun fd ino named => names fd ino (named.of_other apart)⟩
  · intro locked fd ino named
    obtain ⟨same, inPlace⟩ := h.locked locked fd ino (named.of_other apart)
    exact ⟨same, inPlace.elsewhere apart known separate solid may⟩
  · intro done fd ino named
    exact (h.done done fd ino (named.of_other apart)).snoc

theorem Named.of_own {path : CStr} {fd : Int} {s' : State} (quiet : ∀ flags mode, c ≠ .file (.openPath path flags mode))
    (h : Named pid path fd ino (recent ++ [⟨⟨pid, c, r⟩, choice, s, s'⟩])) :
    Named pid path fd ino recent := by
  rcases h.cases with old | ⟨⟨flags, mode, same⟩, -⟩
  · exact old
  · cases same
    exact absurd rfl (quiet flags mode)

theorem Advance.of_start (phase : g.phase = .start) (fresh : g.pos = 0 ∧ g.written = [])
    (unnamed : ∀ fd ino, ¬ Named pid target.path fd ino recent) : Advance log recent s pid target g := by
  refine ⟨fun _ => fresh, fun _ => unnamed, ?_, ?_, ?_⟩ <;> intro other <;> rw [phase] at other <;>
    cases other

theorem Advance.of_opened (phase : g.phase = .opened) (fresh : g.pos = 0 ∧ g.written = [])
    (plain : ∃ use, (usesOf pid log).use g.fd = some use ∧ use.temp = false)
    (here : ∃ ino access, s.fds pid g.fd = some ⟨ino, 0, access⟩)
    (names : ∀ fd ino, Named pid target.path fd ino recent → fd = g.fd ∧ s.inoOf pid g.fd = some ino) :
    Advance log recent s pid target g := by
  refine ⟨fun _ => fresh, ?_, fun _ => ⟨plain, here, names⟩, ?_, ?_⟩ <;> intro other <;>
    rw [phase] at other <;> cases other

theorem Advance.of_locked (phase : g.phase = .locked)
    (inPlace : ∀ fd ino, Named pid target.path fd ino recent →
      fd = g.fd ∧ InPlace log recent s pid target.offset.toNat g ino) :
    Advance log recent s pid target g := by
  refine ⟨?_, ?_, ?_, fun _ => inPlace, ?_⟩
  · rintro (other | other) <;> rw [phase] at other <;> cases other
  all_goals
    intro other
    rw [phase] at other
    cases other

theorem Advance.of_done (phase : g.phase = .done)
    (applied : ∀ fd ino, Named pid target.path fd ino recent →
      Applied recent pid fd ino target.offset.toNat g.written) : Advance log recent s pid target g := by
  refine ⟨?_, ?_, ?_, ?_, fun _ => applied⟩
  · rintro (other | other) <;> rw [phase] at other <;> cases other
  all_goals
    intro other
    rw [phase] at other
    cases other

theorem Advance.of_failed (phase : g.phase = .failed) : Advance log recent s pid target g := by
  refine ⟨?_, ?_, ?_, ?_, ?_⟩
  · rintro (other | other) <;> rw [phase] at other <;> cases other
  all_goals
    intro other
    rw [phase] at other
    cases other

theorem Advance.openPath {name : CStr} {flags : OpenFlags} {mode : Nat} {r : SysResult Int}
    (h : Advance log recent s pid target g)
    (answered : s.answers pid (.file (.openPath name flags mode)) r = true)
    (may : g.may target (.file (.openPath name flags mode)) = true) :
    Advance (log ++ [⟨⟨pid, .file (.openPath name flags mode), r⟩, choice, s,
        s.next pid (.file (.openPath name flags mode)) r⟩])
      (recent ++ [⟨⟨pid, .file (.openPath name flags mode), r⟩, choice, s,
        s.next pid (.file (.openPath name flags mode)) r⟩])
      (s.next pid (.file (.openPath name flags mode)) r) pid target
      (g.handle (.openPath name flags mode) r) := by
  obtain ⟨⟨phase, -⟩, -⟩ : (g.phase = .start ∧ name = target.path) ∧ flags ≠ notifyFlags := by
    simpa [Writing.may] using may
  have fresh := h.fresh (.inl phase)
  have unnamed := h.start phase
  cases r with
  | error e =>
    apply Advance.of_start phase fresh
    intro fd ino named
    rcases named.cases with old | ⟨⟨flags, mode, same⟩, -⟩
    · exact unnamed fd ino old
    · cases same
  | ok fd =>
    obtain ⟨told, -⟩ := answers_file answered
    obtain ⟨ino, here⟩ := open_fds fd mode told.2
    have opened : (g.handle (.openPath name flags mode) (.ok fd)).phase = .opened := rfl
    apply Advance.of_opened opened fresh
    · refine ⟨{ path := name, temp := false, notifies := decide (flags = notifyFlags), held := none }, ?_, rfl⟩
      rw [usesOf, ghostOf_append, if_pos rfl]
      exact Function.update_self ..
    · exact ⟨ino, flags.access, (next_fds fd).trans here⟩
    · intro fd' ino' named
      rcases named.cases with old | ⟨⟨flags, mode, same⟩, led⟩
      · exact absurd old (unnamed fd' ino')
      · cases same
        exact ⟨rfl, led⟩

theorem Advance.takes {fd start len : Int} {r : SysResult Unit}
    (h : Advance log recent s pid target g)
    (may : g.may target (.file (.setlk fd .wrlck start len)) = true) :
    Advance (log ++ [⟨⟨pid, .file (.setlk fd .wrlck start len), r⟩, choice, s,
        s.next pid (.file (.setlk fd .wrlck start len)) r⟩])
      (recent ++ [⟨⟨pid, .file (.setlk fd .wrlck start len), r⟩, choice, s,
        s.next pid (.file (.setlk fd .wrlck start len)) r⟩])
      (s.next pid (.file (.setlk fd .wrlck start len)) r) pid target
      (g.handle (.setlk fd .wrlck start len) r) := by
  obtain ⟨⟨⟨phase, rfl⟩, rfl⟩, rfl⟩ : ((g.phase = .opened ∧ fd = g.fd) ∧ start = 0) ∧ len = 0 := by
    simpa [Writing.may] using may
  have fresh := h.fresh (.inr phase)
  obtain ⟨⟨use, plain, kept⟩, ⟨opened, access, here⟩, names⟩ := h.opened phase
  cases r with
  | error e =>
    apply Advance.of_opened phase fresh
    · rw [usesOf, ghostOf_append, if_pos rfl]
      exact ⟨use, plain, kept⟩
    · exact ⟨opened, access, (next_fds _).trans here⟩
    · intro fd ino named
      rw [next_inoOf_self]
      exact names fd ino (named.of_own (by simp))
  | ok done =>
    have locked : (g.handle (.setlk g.fd .wrlck 0 0) (.ok done)).phase = .locked := rfl
    apply Advance.of_locked locked
    intro fd ino named
    obtain ⟨rfl, found⟩ := names fd ino (named.of_own (by simp))
    have same : opened = some ino := (World.inoOf_eq here).symm.trans found
    refine ⟨rfl, ⟨?_, ?_, ?_⟩, ?_, ?_⟩
    · rw [usesOf, ghostOf_append, if_pos rfl]
      rfl
    · rw [usesOf, ghostOf_append, if_pos rfl]
      refine ⟨{ use with held := heldBy .wrlck 0 }, ?_, kept⟩
      change Function.update (usesOf pid log).use g.fd _ g.fd = _
      rw [Function.update_self, plain]
    · rw [next_inoOf_self]
      exact found
    · refine ⟨access, (next_fds _).trans ?_⟩
      change _ = some (⟨some ino, g.pos, access⟩ : Opened)
      rw [fresh.1, ← same]
      exact here
    · refine ⟨recent, _, [], rfl, rfl, ?_, ?_⟩
      · change _ = overwrite _ _ g.written
        rw [fresh.2, overwrite_nil]
      · intro e member
        cases member

theorem Advance.gives {fd start len : Int} {r : SysResult Unit}
    (h : Advance log recent s pid target g) (known : Tracked log s) (solid : Solid s.locks)
    (may : g.may target (.file (.setlk fd .unlck start len)) = true) :
    Advance (log ++ [⟨⟨pid, .file (.setlk fd .unlck start len), r⟩, choice, s,
        s.next pid (.file (.setlk fd .unlck start len)) r⟩])
      (recent ++ [⟨⟨pid, .file (.setlk fd .unlck start len), r⟩, choice, s,
        s.next pid (.file (.setlk fd .unlck start len)) r⟩])
      (s.next pid (.file (.setlk fd .unlck start len)) r) pid target
      (g.handle (.setlk fd .unlck start len) r) := by
  have left : g.handle (.setlk fd .unlck start len) r =
      { g with phase := if g.phase = .locked then .done else .failed } := by
    cases r <;> rfl
  rw [left]
  obtain ⟨phase, own⟩ : (g.phase = .opened ∨ g.phase = .locked) ∧ fd = g.fd := by
    simpa [Writing.may] using may
  rcases phase with opened | locked
  · rw [if_neg (by rw [opened]; decide)]
    exact Advance.of_failed rfl
  · rw [if_pos locked]
    apply Advance.of_done rfl
    intro fd' ino named
    obtain ⟨rfl, inPlace⟩ := h.locked locked fd' ino (named.of_own (by simp))
    exact ⟨recent, _, [], rfl, ⟨start, len, r, by rw [own]⟩, inPlace.locked.alone known solid, inPlace.changed⟩

theorem InPlace.own {offset : Nat} {g' : Writing} (h : InPlace log recent s pid offset g ino)
    (known : Tracked log s) (solid : Solid s.locks) (uses : (usesOf pid log).after c r = usesOf pid log)
    (same : g'.fd = g.fd)
    (here : ∃ access, (s.next pid c r).fds pid g.fd = some ⟨some ino, g'.pos, access⟩)
    (changed : Changed recent pid g.fd ino offset g'.written
      ((s.next pid c r).volume.files ino).content) :
    InPlace (log ++ [⟨⟨pid, c, r⟩, choice, s, s.next pid c r⟩])
      (recent ++ [⟨⟨pid, c, r⟩, choice, s, s.next pid c r⟩]) (s.next pid c r) pid offset g' ino := by
  have uses : usesOf pid (log ++ [⟨⟨pid, c, r⟩, choice, s, s.next pid c r⟩]) = usesOf pid log := by
    rw [usesOf, ghostOf_append, if_pos rfl]
    exact uses
  refine ⟨⟨?_, ?_, ?_⟩, ?_, ?_⟩
  · rw [uses, same]
    exact h.locked.last
  · rw [uses, same]
    exact h.locked.plain
  · obtain ⟨access, here⟩ := here
    rw [same]
    exact World.inoOf_eq (w := (s.next pid c r).view pid) here
  · rw [same]
    exact here
  · rw [same]
    exact changed.snoc ⟨h.locked.alone known solid, fun other => absurd rfl other⟩

theorem Advance.lseek {fd position : Int} {r : SysResult Int}
    (h : Advance log recent s pid target g) (known : Tracked log s) (solid : Solid s.locks)
    (may : g.may target (.file (.lseek fd position)) = true) :
    Advance (log ++ [⟨⟨pid, .file (.lseek fd position), r⟩, choice, s,
        s.next pid (.file (.lseek fd position)) r⟩])
      (recent ++ [⟨⟨pid, .file (.lseek fd position), r⟩, choice, s,
        s.next pid (.file (.lseek fd position)) r⟩])
      (s.next pid (.file (.lseek fd position)) r) pid target (g.handle (.lseek fd position) r) := by
  obtain ⟨phase, rfl⟩ : g.phase = .locked ∧ fd = g.fd := by
    simpa [Writing.may] using may
  have part : ∀ fd ino, Named pid target.path fd ino (recent ++ [⟨⟨pid, .file (.lseek g.fd position), r⟩,
      choice, s, s.next pid (.file (.lseek g.fd position)) r⟩]) →
      fd = g.fd ∧ InPlace log recent s pid target.offset.toNat g ino :=
    fun fd ino named => h.locked phase fd ino (named.of_own (by simp))
  cases r with
  | error e =>
    apply Advance.of_locked phase
    intro fd ino named
    obtain ⟨same, inPlace⟩ := part fd ino named
    obtain ⟨access, here⟩ := inPlace.here
    exact ⟨same, inPlace.own known solid rfl rfl ⟨access, (next_fds _).trans here⟩ inPlace.changed⟩
  | ok position' =>
    have locked : (g.handle (.lseek g.fd position) (.ok position')).phase = .locked := phase
    apply Advance.of_locked locked
    intro fd ino named
    obtain ⟨same, inPlace⟩ := part fd ino named
    obtain ⟨access, here⟩ := inPlace.here
    refine ⟨same, inPlace.own known solid rfl rfl ⟨access, (next_fds _).trans ?_⟩ inPlace.changed⟩
    simp only [World.after, World.seek, World.setFd_fds, Function.update_self]
    exact congrArg (Option.map _) here

theorem Advance.write {fd : Int} {data : CStr} {r : SysResult Nat}
    (h : Advance log recent s pid target g) (known : Tracked log s) (solid : Solid s.locks)
    (may : g.may target (.file (.write fd data)) = true) :
    Advance (log ++ [⟨⟨pid, .file (.write fd data), r⟩, choice, s, s.next pid (.file (.write fd data)) r⟩])
      (recent ++ [⟨⟨pid, .file (.write fd data), r⟩, choice, s, s.next pid (.file (.write fd data)) r⟩])
      (s.next pid (.file (.write fd data)) r) pid target (g.handle (.write fd data) r) := by
  obtain ⟨⟨phase, rfl⟩, place⟩ :
      (g.phase = .locked ∧ fd = g.fd) ∧ g.pos = target.offset.toNat + g.written.length := by
    simpa [Writing.may] using may
  have part : ∀ fd ino, Named pid target.path fd ino (recent ++ [⟨⟨pid, .file (.write g.fd data), r⟩,
      choice, s, s.next pid (.file (.write g.fd data)) r⟩]) →
      fd = g.fd ∧ InPlace log recent s pid target.offset.toNat g ino :=
    fun fd ino named => h.locked phase fd ino (named.of_own (by simp))
  cases r with
  | error e =>
    apply Advance.of_locked phase
    intro fd ino named
    obtain ⟨same, inPlace⟩ := part fd ino named
    obtain ⟨access, here⟩ := inPlace.here
    exact ⟨same, inPlace.own known solid rfl rfl ⟨access, (next_fds _).trans here⟩ inPlace.changed⟩
  | ok written =>
    have locked : (g.handle (.write g.fd data) (.ok written)).phase = .locked := phase
    apply Advance.of_locked locked
    intro fd ino named
    obtain ⟨same, inPlace⟩ := part fd ino named
    obtain ⟨access, here⟩ := inPlace.here
    have content : ((s.next pid (.file (.write g.fd data)) (.ok written)).volume.files ino).content =
        overwrite (s.volume.files ino).content (target.offset.toNat + g.written.length)
          (data.take written) := by
      change (((s.view pid).after (.write g.fd data) (.ok written)).files ino).content = _
      rw [World.after_write here, ← place, World.setFd_toVolume, World.withVolume_toVolume, Volume.setFile_self]
      rfl
    refine ⟨same, inPlace.own known solid rfl rfl ⟨access, (next_fds _).trans ?_⟩ ?_⟩
    · rw [World.after_write here, World.setFd_fds, Function.update_self]
      rfl
    · rw [content]
      exact inPlace.changed.more _

theorem Advance.aside {s' : State} (h : Advance log recent s pid target g)
    (quiet : ∀ flags mode, c ≠ .file (.openPath target.path flags mode)) (unopened : g.phase ≠ .opened)
    (unlocked : g.phase ≠ .locked) : Advance (log ++ [⟨⟨pid, c, r⟩, choice, s, s'⟩])
      (recent ++ [⟨⟨pid, c, r⟩, choice, s, s'⟩]) s' pid target g := by
  refine ⟨h.fresh, ?_, fun opened => absurd opened unopened, fun locked => absurd locked unlocked, ?_⟩
  · intro start fd ino named
    exact h.start start fd ino (named.of_own quiet)
  · intro done fd ino named
    exact (h.done done fd ino (named.of_own quiet)).snoc

theorem Advance.socket {c : SocketCall} {r : c.Reply} (h : Advance log recent s pid target g)
    (known : Tracked log s) (solid : Solid s.locks) :
    Advance (log ++ [⟨⟨pid, .socket c, r⟩, choice, s, s⟩]) (recent ++ [⟨⟨pid, .socket c, r⟩, choice, s, s⟩])
      s pid target (g.after target (.socket c) r) := by
  have same : (g.after target (.socket c) r).phase = g.phase ∧ (g.after target (.socket c) r).fd = g.fd ∧
      (g.after target (.socket c) r).pos = g.pos ∧ (g.after target (.socket c) r).written = g.written := by
    cases c with
    | recvFrameInto size => exact ⟨rfl, rfl, rfl, rfl⟩
    | _ => exact ⟨rfl, rfl, rfl, rfl⟩
  generalize g.after target (.socket c) r = g' at same
  obtain ⟨phase, fd, pos, written⟩ := same
  have uses : usesOf pid (log ++ [⟨⟨pid, .socket c, r⟩, choice, s, s⟩]) = usesOf pid log := by
    rw [usesOf, ghostOf_append, if_pos rfl]
    rfl
  refine ⟨?_, ?_, ?_, ?_, ?_⟩
  · rw [phase, pos, written]
    exact h.fresh
  · rw [phase]
    intro start fd ino named
    exact h.start start fd ino (named.of_own (by simp))
  · rw [phase, fd, uses]
    intro opened
    obtain ⟨plain, here, names⟩ := h.opened opened
    exact ⟨plain, here, fun fd ino named => names fd ino (named.of_own (by simp))⟩
  · rw [phase]
    intro locked fd' ino named
    obtain ⟨same, inPlace⟩ := h.locked locked fd' ino (named.of_own (by simp))
    refine ⟨same.trans fd.symm, inPlace.own known solid rfl fd ?_ ?_⟩
    · rw [pos]
      exact inPlace.here
    · rw [written]
      exact inPlace.changed
  · rw [phase, written]
    intro done fd ino named
    exact (h.done done fd ino (named.of_own (by simp))).snoc

/-- The command's own calls carry it on. -/
theorem Advance.own (h : Advance log recent s pid target g) (known : Tracked log s)
    (solid : Solid s.locks) (answered : s.answers pid c r = true) (may : g.may target c = true) :
    Advance (log ++ [⟨⟨pid, c, r⟩, choice, s, s.next pid c r⟩])
      (recent ++ [⟨⟨pid, c, r⟩, choice, s, s.next pid c r⟩]) (s.next pid c r) pid target
      (g.after target c r) := by
  cases c with
  | file c =>
    cases c with
    | stat path =>
      have phase : g.phase = .start := of_decide_eq_true may
      exact h.aside (by simp) (by rw [phase]; decide) (by rw [phase]; decide)
    | openPath name flags mode => exact h.openPath answered may
    | setlk fd type start len =>
      cases type with
      | rdlck => cases may
      | wrlck => exact h.takes may
      | unlck => exact h.gives known solid may
    | lseek fd position => exact h.lseek known solid may
    | write fd data => exact h.write known solid may
    | close fd =>
      have phase : g.phase = .done ∨ g.phase = .failed := by
        simpa [Writing.may] using may
      apply h.aside (by simp)
      · rcases phase with done | failed
        · rw [done]
          decide
        · rw [failed]
          decide
      · rcases phase with done | failed
        · rw [done]
          decide
        · rw [failed]
          decide
    | unlink path =>
      have phase : g.phase ≠ .opened ∧ g.phase ≠ .locked := by
        simpa [Writing.may] using may
      exact h.aside (by simp) phase.1 phase.2
    | _ => cases may
  | socket c => exact h.socket known solid
  | _ => cases may

end steps

theorem counts_of_answers {s : State} {pid : Int} {c : Call} {r : c.Reply}
    (answered : s.answers pid c r = true) : counts c r = true := by
  cases c with
  | file c =>
    obtain ⟨told, -⟩ := answers_file answered
    cases c with
    | openPath path flags mode =>
      cases r with
      | error e => rfl
      | ok fd => exact decide_eq_true told.1.1
    | lseek fd offset =>
      cases r with
      | error e => rfl
      | ok position => exact decide_eq_true told.2.2
    | write fd data =>
      cases r with
      | error e => rfl
      | ok written => exact decide_eq_true told.2
    | _ => rfl
  | _ => rfl

/-- What a command has been sent for its file, after some of a run. -/
structure Storing (past recent : List Event) (s : State) (pid : Int) (target : Target) (g : Writing) :
    Prop where
  advance : Advance (past ++ recent) recent s pid target g
  data : g.data = (callsOf pid recent).flatMap fun x => arrived target x.1 x.2

/-- A write in place is made as a whole: in any run of the server's processes in which temporary files
are left to the uploads that make them, a command that changes a file in place and succeeds has locked
the file it opened, and until it unlocked it nobody else had a lock on that file or changed a byte of
it; what the command has made of it is what had arrived, from the offset on. -/
theorem writes_are_whole {server : Server} {clientSocket : Int → Int} {volume : Volume}
    {cwd : Int → Option (FileTree.Place FileName)} {c : Config Call.Reply Int State Choice}
    (reached : Reaches machine (start server clientSocket volume cwd) c) (apart : Every Apart c.log)
    {before during : List Event} (split : c.log = before ++ during) {texts : Texts} {pid : Int}
    {target : Target} (inPlace : 0 ≤ target.offset) {n : Nat} {msg : CStr}
    (ran : (receiveIntoFile texts target).Follows (callsOf pid during) (.ok n, msg)) {fd : Int} {ino : Nat}
    (named : Named pid target.path fd ino during) :
    n = ((callsOf pid during).flatMap fun x => arrived target x.1 x.2).length ∧
      Applied during pid fd ino target.offset.toNat
        ((callsOf pid during).flatMap fun x => arrived target x.1 x.2) := by
  have trace := trace_of_reaches reached
  have moments := moments trace apart
  rw [split] at moments
  have results := follow (fun recent g => ∀ s, Trace tracking (fun _ => Uses.start) machine
    (boot volume cwd) (before ++ recent) s → Storing before recent s pid target g)
    ran (wp_writeInPlace texts inPlace) ?_ ?_ ?_
  · obtain ⟨g, succeeds, storing⟩ := results
    obtain ⟨done, written, count⟩ := succeeds n rfl
    obtain ⟨advance, data⟩ := storing c.state (split ▸ trace)
    rw [← data]
    refine ⟨count, ?_⟩
    rw [← written]
    exact advance.done done fd ino named
  · intro s trace
    refine ⟨Advance.of_start rfl ⟨rfl, rfl⟩ ?_, rfl⟩
    rintro fd ino ⟨e, member, -⟩
    cases member
  · intro recent e after g place mine holds may
    have moment := moments (before ++ recent) e after (by rw [place, List.append_assoc])
    have storing := holds e.before moment.trace
    refine ⟨counts_of_answers moment.answered, ?_⟩
    intro t trace
    rw [← List.append_assoc] at trace
    rw [trace.ends_after]
    refine ⟨?_, ?_⟩
    · rw [← List.append_assoc]
      obtain ⟨⟨who, q, r⟩, choice, s, s'⟩ := e
      obtain rfl : s' = s.next who q r := moment.next
      cases mine
      exact storing.advance.own (tracked moment.trace) (solid_locks moment.trace) moment.answered may
    · rw [callsOf_snoc, if_pos mine, List.flatMap_append, ← storing.data, List.flatMap_singleton]
      exact Writing.after_data _ _
  · intro recent e after g place other holds
    have moment := moments (before ++ recent) e after (by rw [place, List.append_assoc])
    have storing := holds e.before moment.trace
    intro t trace
    rw [← List.append_assoc] at trace
    rw [trace.ends_after]
    refine ⟨?_, ?_⟩
    · rw [← List.append_assoc]
      obtain ⟨⟨who, q, r⟩, choice, s, s'⟩ := e
      obtain rfl : s' = s.next who q r := moment.next
      exact storing.advance.elsewhere (Ne.symm other) (tracked moment.trace) moment.separate
        (solid_locks moment.trace) moment.allowed
    · rw [callsOf_snoc, if_neg other]
      exact storing.data

section played

def opensOn (pid : Int) (path : CStr) : Event → Option (Int × Nat)
  | ⟨⟨who, .file (.openPath name _ _), .ok fd⟩, _, _, s'⟩ =>
    if who = pid ∧ name = path then (s'.inoOf pid fd).map fun ino => (fd, ino) else none
  | _ => none

theorem named_of_opensOn {pid fd : Int} {path : CStr} {ino : Nat} {log : List Event} {e : Event}
    (member : e ∈ log) (h : opensOn pid path e = some (fd, ino)) : Named pid path fd ino log := by
  refine ⟨e, member, ?_⟩
  unfold opensOn at h
  split at h
  · rename_i who name flags mode fd' choice s s'
    split_ifs at h with same
    obtain ⟨rfl, rfl⟩ := same
    obtain ⟨ino', led, pair⟩ := Option.map_eq_some_iff.mp h
    cases pair
    exact ⟨⟨flags, mode, rfl⟩, led⟩
  · cases h

def refused (packet : Option Network.Packet) : Choice
  | _, .file (.setlk _ _ _ _) => .error EAGAIN
  | w, c => answering packet w c

open Sandbox in
/-- Alice has two sessions. While one changes two bytes of `note`, the other would read it, and is
refused. -/
def writeAndRead : List (Int × Choice × Nat) :=
  [(7, answering (some login), 24), (8, answering (some login), 24),
    (8, answering (some ⟨Command.write.code, cstr "write -offset=1 note"⟩), 9),
    (8, answering (some ⟨Command.writeData.code, cstr "XY"⟩), 5),
    (7, refused (some ⟨Command.read.code, cstr "read note"⟩), 8), (8, answering none, 3)]

def noteAt (offset : Int) : Target where
  path := cstr "/srv/alice/note"
  offset := offset
  dataCode := Command.writeData.code
  endCode := Command.writeEnd.code

theorem note_written : ∃ c before during n msg fd ino, Reaches machine homesStart c ∧
    c.log = before ++ during ∧
    (receiveIntoFile Sessions.calmServer.texts (noteAt 1)).Follows (callsOf 8 during) (.ok n, msg) ∧
    Named 8 (noteAt 1).path fd ino during ∧
    n = ((callsOf 8 during).flatMap fun x => arrived (noteAt 1) x.1 x.2).length ∧
    Applied during 8 fd ino 1 ((callsOf 8 during).flatMap fun x => arrived (noteAt 1) x.1 x.2) := by
  have ran : (run machine writeAndRead homesStart).any (fun c =>
      decide (everyFrom apart [] c.log = true ∧
        (∃ e ∈ c.log.drop 47, opensOn 8 (noteAt 1).path e = some (1, 2)) ∧
        follow 60 (receiveIntoFile Sessions.calmServer.texts (noteAt 1)) (callsOf 8 (c.log.drop 47)) =
          some (.ok 2, []))) = true := by
    decide +kernel
  obtain ⟨c, reached, separate, ⟨e, member, opens⟩, follows⟩ := exists_of_run _ ran
  have split : c.log = c.log.take 47 ++ c.log.drop 47 := (List.take_append_drop 47 c.log).symm
  have follows := follows_of_follow follows
  have named := named_of_opensOn member opens
  exact ⟨c, _, _, 2, [], 1, 2, reached, split, follows, named, writes_are_whole reached
    (every_apart (trace_of_reaches reached) separate) split (by decide) follows named⟩

end played

end Csap.Kernel
