import Csap.History
import Csap.Processes
import Csap.Reading
import Csap.Sandbox

/-! A file is read under a lock that reaches to its end, and whoever changes what is in a visible file
has locked all of it: what `send_file` sends is the file as it was at one moment. -/

namespace Csap.Kernel

open Prog Interleaving RecordLocks

def makes : (c : FileCall) → c.Reply → Option (Use × Int)
  | .openPath path flags _, .ok fd =>
    some ({ path, temp := false, notifies := decide (flags = notifyFlags), held := none }, fd)
  | .mkstemp _, (.ok fd, name) =>
    some ({ path := name, temp := true, notifies := false, held := none }, fd)
  | _, _ => none

/-- The file receives an upload that is in progress, under its temporary name. -/
def InProgress (log : List Event) (s : State) (ino : Nat) : Prop :=
  ∃ pid fd, (usesOf pid log).Temp fd ∧ s.inoOf pid fd = some ino

def found (pid : Int) (s' : State) : (c : Call) → c.Reply → Option (OpenFlags × Nat)
  | .file (.openPath _ flags _), .ok fd => (s'.inoOf pid fd).map fun ino => (flags, ino)
  | _, _ => none

/-- No path that is opened names the temporary file of an upload in progress, and what is opened to
notify a session is no regular file. -/
def Apart (before : List Event) (e : Event) : Prop :=
  ∀ flags ino, found e.act.pid e.after e.act.call e.act.reply = some (flags, ino) →
    ¬ InProgress before e.before ino ∧ flags ≠ notifyFlags

/-- Temporary files have no other descriptors, and fifos are no regular files. -/
def Separate (log : List Event) (s : State) : Prop :=
  ∀ pid fd use ino, (usesOf pid log).use fd = some use → s.inoOf pid fd = some ino →
    (use.temp = false → ¬ InProgress log s ino) ∧ use.notifies = false

section separate

variable {g : Uses} {log : List Event} {s s' : State} {pid other : Int} {c : Call} {r : c.Reply}
  {choice : Choice} {fd : Int} {ino : Nat} {use' : Use}

theorem use_cases {c : FileCall} {r : c.Reply} (h : (g.after (.file c) r).use fd = some use') :
    makes c r = some (use', fd) ∨ ∃ use, g.use fd = some use ∧ use.path = use'.path ∧
      use.temp = use'.temp ∧ use.notifies = use'.notifies ∧ World.opened c r ≠ some fd ∧
      c ≠ .close fd := by
  have old : ∀ {c : FileCall} {r : c.Reply}, g.use fd = some use' → World.opened c r ≠ some fd →
      c ≠ .close fd → ∃ use, g.use fd = some use ∧ use.path = use'.path ∧ use.temp = use'.temp ∧
        use.notifies = use'.notifies ∧ World.opened c r ≠ some fd ∧ c ≠ .close fd :=
    fun here made kept => ⟨_, here, rfl, rfl, rfl, made, kept⟩
  have new : ∀ {c : FileCall} {r : c.Reply} {use : Use} {x : Int},
      (g.openAs x use).use fd = some use' → makes c r = some (use, x) → World.opened c r = some x →
      c ≠ .close fd → makes c r = some (use', fd) ∨ ∃ use, g.use fd = some use ∧
        use.path = use'.path ∧ use.temp = use'.temp ∧ use.notifies = use'.notifies ∧
        World.opened c r ≠ some fd ∧ c ≠ .close fd := by
    intro c r use x here making made kept
    change Function.update g.use x (some use) fd = some use' at here
    by_cases same : fd = x
    · rw [same, Function.update_self] at here
      cases here
      left
      rw [making, same]
    · rw [Function.update_of_ne same] at here
      right
      refine old here ?_ kept
      rw [made]
      exact fun equal => same (Option.some.inj equal).symm
  cases c with
  | openPath path flags mode =>
    cases r with
    | error e => exact .inr (old h (by simp [World.opened]) (by simp))
    | ok x => exact new h rfl rfl (by simp)
  | mkstemp template =>
    obtain ⟨e | x, name⟩ := r
    · exact .inr (old h (by simp [World.opened]) (by simp))
    · exact new h rfl rfl (by simp)
  | close x =>
    right
    change Function.update g.use x none fd = some use' at h
    by_cases same : fd = x
    · rw [same, Function.update_self] at h
      cases h
    · rw [Function.update_of_ne same] at h
      refine old h (by simp [World.opened]) ?_
      rintro equal
      cases equal
      exact same rfl
  | setlk x type start len =>
    right
    cases r with
    | error e => exact old h (by simp [World.opened]) (by simp)
    | ok done =>
      change Function.update g.use x _ fd = some use' at h
      by_cases same : fd = x
      · rw [same, Function.update_self] at h
        obtain ⟨use, here, rfl⟩ := Option.map_eq_some_iff.mp h
        rw [same]
        exact ⟨use, here, rfl, rfl, rfl, by simp [World.opened], by simp⟩
      · rw [Function.update_of_ne same] at h
        exact old h (by simp [World.opened]) (by simp)
  | _ => exact .inr (old h (by simp [World.opened]) (by simp))

theorem usesOf_cases (h : (usesOf other (log ++ [⟨⟨pid, c, r⟩, choice, s, s.next pid c r⟩])).use fd =
    some use') (here : (s.next pid c r).inoOf other fd = some ino) :
    (∃ use, (usesOf other log).use fd = some use ∧ use.path = use'.path ∧ use.temp = use'.temp ∧
      use.notifies = use'.notifies ∧ s.inoOf other fd = some ino) ∨
    pid = other ∧ ∃ fc : FileCall, ∃ fr : fc.Reply, (⟨c, r⟩ : Σ c : Call, c.Reply) = ⟨.file fc, fr⟩ ∧
      makes fc fr = some (use', fd) := by
  rw [usesOf, ghostOf_append] at h
  by_cases same : pid = other
  · subst same
    rw [if_pos rfl] at h
    cases c with
    | file c =>
      rcases use_cases h with making | ⟨use, known, path, temp, notifies, made, kept⟩
      · exact .inr ⟨rfl, c, r, rfl, making⟩
      · rw [next_inoOf_self, World.inoOf_after fd made kept] at here
        exact .inl ⟨use, known, path, temp, notifies, here⟩
    | _ => exact .inl ⟨use', h, rfl, rfl, rfl, here⟩
  · rw [if_neg same] at h
    rw [next_inoOf (Ne.symm same)] at here
    exact .inl ⟨use', h, rfl, rfl, rfl, here⟩

theorem inProgress_cases (answered : s.answers pid c r = true)
    (h : InProgress (log ++ [⟨⟨pid, c, r⟩, choice, s, s.next pid c r⟩]) (s.next pid c r) ino) :
    InProgress log s ino ∨ ino = s.volume.fresh ∧ ∃ template, c = .file (.mkstemp template) := by
  obtain ⟨other, fd, ⟨use', known, isTemp⟩, here⟩ := h
  rcases usesOf_cases known here with ⟨use, known, -, temp, -, here⟩ | ⟨rfl, fc, fr, same, making⟩
  · exact .inl ⟨other, fd, ⟨use, known, temp.trans isTemp⟩, here⟩
  · cases same
    obtain ⟨told, -⟩ := answers_file answered
    cases fc with
    | openPath path flags mode =>
      cases fr with
      | error e => cases making
      | ok x =>
        cases making
        cases isTemp
    | mkstemp template =>
      obtain ⟨e | x, name⟩ := fr
      · cases making
      · cases making
        rw [next_inoOf_self, World.inoOf_mkstemp told] at here
        cases here
        exact .inr ⟨rfl, template, rfl⟩
    | _ => cases making

theorem Separate.snoc (h : Separate log s) (sane : Sane s) (answered : s.answers pid c r = true)
    (apart : Apart log ⟨⟨pid, c, r⟩, choice, s, s.next pid c r⟩) :
    Separate (log ++ [⟨⟨pid, c, r⟩, choice, s, s.next pid c r⟩]) (s.next pid c r) := by
  intro other fd use' ino known here
  rcases usesOf_cases known here with ⟨use, known, -, temp, notifies, before⟩ | ⟨rfl, fc, fr, same, making⟩
  · obtain ⟨elsewhere, quiet⟩ := h other fd use ino known before
    refine ⟨?_, notifies ▸ quiet⟩
    intro plain inProgress
    rcases inProgress_cases answered inProgress with old | ⟨rfl, -⟩
    · exact elsewhere (temp.trans plain) old
    · exact lt_irrefl _ (sane.used other fd _ before)
  · cases same
    cases fc with
    | openPath path flags mode =>
      cases fr with
      | error e => cases making
      | ok x =>
        cases making
        have opens : found pid (s.next pid (.file (.openPath path flags mode)) (.ok fd))
            (.file (.openPath path flags mode)) (.ok fd) = some (flags, ino) := by
          simp only [found, here, Option.map_some]
        obtain ⟨elsewhere, other⟩ := apart flags ino opens
        refine ⟨?_, decide_eq_false other⟩
        intro _ inProgress
        rcases inProgress_cases answered inProgress with old | ⟨-, template, other⟩
        · exact elsewhere old
        · cases other
    | mkstemp template =>
      obtain ⟨e | x, name⟩ := fr
      · cases making
      · cases making
        refine ⟨?_, rfl⟩
        intro impossible
        cases impossible
    | _ => cases making

end separate

structure ReadLocked (log : List Event) (s : State) (pid fd start : Int) (ino : Nat) : Prop where
  last : (usesOf pid log).last = some (fd, .rdlck, start)
  plain : ∃ use, (usesOf pid log).use fd = some use ∧ use.temp = false
  here : s.inoOf pid fd = some ino

section unwritten

variable {log : List Event} {s s' : State} {pid other : Int} {fd start : Int} {ino : Nat} {c : Call}
  {r : c.Reply} {choice : Choice}

theorem ReadLocked.unwritten (h : ReadLocked log s pid fd start ino) (known : Tracked log s)
    (separate : Separate log s) {x : Int} (may : (usesOf other log).MayWrite x) :
    s.inoOf other x ≠ some ino := by
  intro there
  obtain ⟨use, mine, plain⟩ := h.plain
  rcases may with temp | ⟨use', theirs, notifies⟩ | last
  · exact (separate pid fd use ino mine h.here).1 plain ⟨other, x, temp, there⟩
  · rw [(separate other x use' ino theirs there).2] at notifies
    cases notifies
  · have writes := ((known.fits other).last x .wrlck 0 last).2 ino there
    have reads := ((known.fits pid).last fd .rdlck start h.last).2 ino h.here
    by_cases same : other = pid
    · rw [same, h.last] at last
      cases last
    · have shared := known.sane.sound _ writes _ reads same rfl (Region.meets_of_endless 0 start)
      cases shared.1

theorem ReadLocked.content (h : ReadLocked log s pid fd start ino) (known : Tracked log s)
    (separate : Separate log s) (may : tracking.allowed (usesOf other log) c) :
    ((s.next other c r).volume.files ino).content = (s.volume.files ino).content := by
  cases c with
  | file c =>
    apply World.content_after (w := s.view other) (known.sane.used pid fd ino h.here)
    · rintro x data rfl
      exact h.unwritten known separate may
    · rintro path flags mode rfl
      exact may
  | _ => rfl

end unwritten

def Named (pid : Int) (path : CStr) (fd : Int) (ino : Nat) (log : List Event) : Prop :=
  ∃ e ∈ log, (∃ flags mode, e.act = ⟨pid, .file (.openPath path flags mode), .ok fd⟩) ∧
    e.after.inoOf pid fd = some ino

theorem Named.snoc {pid fd : Int} {path : CStr} {ino : Nat} {log : List Event} {e : Event}
    (h : Named pid path fd ino log) : Named pid path fd ino (log ++ [e]) := by
  obtain ⟨e', member, opens⟩ := h
  exact ⟨e', List.mem_append_left _ member, opens⟩

/-- What a command that sends a file has got from it: the start of the part it was asked for. -/
structure Underway (log recent : List Event) (s : State) (pid : Int) (path : CStr) (offset : Int)
    (g : Reading) (ino : Nat) : Prop where
  named : Named pid path g.fd ino recent
  locked : ReadLocked log s pid g.fd offset ino
  here : ∃ access, s.fds pid g.fd = some ⟨some ino, g.pos, access⟩
  copied : g.data <+: (s.volume.files ino).content.drop offset.toNat
  size : ∀ n ∈ g.size, n = (s.volume.files ino).content.length
  atEnd : g.atEnd = true → g.data = (s.volume.files ino).content.drop offset.toNat

/-- The file was once as it was sent. -/
def Snapshot (recent : List Event) (pid : Int) (path : CStr) (offset : Int) (g : Reading) : Prop :=
  ∃ fd ino, Named pid path fd ino recent ∧ ∃ e ∈ recent,
    (∀ n ∈ g.size, n = (e.before.volume.files ino).content.length) ∧
    (g.atEnd = true → g.data = (e.before.volume.files ino).content.drop offset.toNat)

/-- The state of a command that sends a file, while other processes run. -/
structure Progress (log recent : List Event) (s : State) (pid : Int) (path : CStr) (offset : Int)
    (g : Reading) : Prop where
  fresh : g.stage = .start ∨ g.stage = .opened →
    g.pos = 0 ∧ g.size = none ∧ g.data = [] ∧ g.atEnd = false
  opened : g.stage = .opened → (∃ use, (usesOf pid log).use g.fd = some use ∧ use.temp = false) ∧
    (∃ ino access, s.fds pid g.fd = some ⟨ino, 0, access⟩) ∧
    ∀ ino, s.inoOf pid g.fd = some ino → Named pid path g.fd ino recent
  locked : g.stage = .locked →
    (∀ ino, s.inoOf pid g.fd = some ino → Underway log recent s pid path offset g ino) ∧
    (g.size ≠ none → s.inoOf pid g.fd ≠ none)
  done : g.stage = .done → g.size ≠ none → Snapshot recent pid path offset g

section steps

variable {log recent : List Event} {s : State} {pid other : Int} {path : CStr} {offset : Int}
  {g : Reading} {ino : Nat} {c : Call} {r : c.Reply} {choice : Choice} {dataCode : UInt8}

theorem Snapshot.snoc {e : Event} (h : Snapshot recent pid path offset g) :
    Snapshot (recent ++ [e]) pid path offset g := by
  obtain ⟨fd, ino, named, e', member, once⟩ := h
  exact ⟨fd, ino, named.snoc, e', List.mem_append_left _ member, once⟩

theorem Underway.elsewhere (h : Underway log recent s pid path offset g ino) (apart : pid ≠ other)
    (known : Tracked log s) (separate : Separate log s)
    (may : tracking.allowed (usesOf other log) c) :
    Underway (log ++ [⟨⟨other, c, r⟩, choice, s, s.next other c r⟩])
      (recent ++ [⟨⟨other, c, r⟩, choice, s, s.next other c r⟩]) (s.next other c r) pid path offset g
      ino := by
  have uses : usesOf pid (log ++ [⟨⟨other, c, r⟩, choice, s, s.next other c r⟩]) = usesOf pid log := by
    rw [usesOf, ghostOf_append, if_neg (Ne.symm apart)]
  have content := h.locked.content (r := r) known separate may
  refine ⟨h.named.snoc, ⟨?_, ?_, ?_⟩, ?_, ?_, ?_, ?_⟩
  · rw [uses]
    exact h.locked.last
  · rw [uses]
    exact h.locked.plain
  · rw [next_inoOf apart]
    exact h.locked.here
  · rw [next_fds_other apart]
    exact h.here
  · rw [content]
    exact h.copied
  · rw [content]
    exact h.size
  · rw [content]
    exact h.atEnd

theorem Progress.elsewhere (h : Progress log recent s pid path offset g) (apart : pid ≠ other)
    (known : Tracked log s) (separate : Separate log s)
    (may : tracking.allowed (usesOf other log) c) :
    Progress (log ++ [⟨⟨other, c, r⟩, choice, s, s.next other c r⟩])
      (recent ++ [⟨⟨other, c, r⟩, choice, s, s.next other c r⟩]) (s.next other c r) pid path offset
      g := by
  refine ⟨h.fresh, ?_, ?_, ?_⟩
  · intro opened
    obtain ⟨plain, here, named⟩ := h.opened opened
    rw [usesOf, ghostOf_append, if_neg (Ne.symm apart), next_fds_other apart, next_inoOf apart]
    exact ⟨plain, here, fun ino found => (named ino found).snoc⟩
  · intro locked
    obtain ⟨underway, regular⟩ := h.locked locked
    rw [next_inoOf apart]
    exact ⟨fun ino here => (underway ino here).elsewhere apart known separate may, regular⟩
  · intro done size
    exact (h.done done size).snoc

theorem Progress.of_start (stage : g.stage = .start)
    (fresh : g.pos = 0 ∧ g.size = none ∧ g.data = [] ∧ g.atEnd = false) :
    Progress log recent s pid path offset g := by
  refine ⟨fun _ => fresh, ?_, ?_, ?_⟩ <;> intro other <;> rw [stage] at other <;> cases other

theorem Progress.of_opened (stage : g.stage = .opened)
    (fresh : g.pos = 0 ∧ g.size = none ∧ g.data = [] ∧ g.atEnd = false)
    (plain : ∃ use, (usesOf pid log).use g.fd = some use ∧ use.temp = false)
    (here : ∃ ino access, s.fds pid g.fd = some ⟨ino, 0, access⟩)
    (named : ∀ ino, s.inoOf pid g.fd = some ino → Named pid path g.fd ino recent) :
    Progress log recent s pid path offset g := by
  refine ⟨fun _ => fresh, fun _ => ⟨plain, here, named⟩, ?_, ?_⟩ <;> intro other <;>
    rw [stage] at other <;> cases other

theorem Progress.of_locked (stage : g.stage = .locked)
    (underway : ∀ ino, s.inoOf pid g.fd = some ino → Underway log recent s pid path offset g ino)
    (regular : g.size ≠ none → s.inoOf pid g.fd ≠ none) :
    Progress log recent s pid path offset g := by
  refine ⟨?_, ?_, fun _ => ⟨underway, regular⟩, ?_⟩
  · rintro (other | other) <;> rw [stage] at other <;> cases other
  · intro other
    rw [stage] at other
    cases other
  · intro other
    rw [stage] at other
    cases other

theorem Progress.of_done (stage : g.stage = .done)
    (once : g.size ≠ none → Snapshot recent pid path offset g) :
    Progress log recent s pid path offset g := by
  refine ⟨?_, ?_, ?_, fun _ => once⟩
  · rintro (other | other) <;> rw [stage] at other <;> cases other
  · intro other
    rw [stage] at other
    cases other
  · intro other
    rw [stage] at other
    cases other

@[reducible] def Inspects : FileCall → Prop
  | .fstat _ | .lseek _ _ | .read _ _ => True
  | _ => False

theorem ReadLocked.looks {c : FileCall} {r : c.Reply} {fd : Int} (choice : Choice)
    (h : ReadLocked log s pid fd offset ino) (known : Tracked log s) (separate : Separate log s)
    (looks : Inspects c) :
    ReadLocked (log ++ [⟨⟨pid, .file c, r⟩, choice, s, s.next pid (.file c) r⟩])
      (s.next pid (.file c) r) pid fd offset ino ∧
    ((s.next pid (.file c) r).volume.files ino).content = (s.volume.files ino).content := by
  have uses : usesOf pid (log ++ [⟨⟨pid, .file c, r⟩, choice, s, s.next pid (.file c) r⟩]) =
      usesOf pid log := by
    rw [usesOf, ghostOf_append, if_pos rfl]
    cases c with
    | fstat x => rfl
    | lseek x position => rfl
    | read x count => rfl
    | _ => cases looks
  refine ⟨⟨?_, ?_, ?_⟩, ?_⟩
  · rw [uses]
    exact h.last
  · rw [uses]
    exact h.plain
  · rw [next_inoOf_self, World.inoOf_after]
    · exact h.here
    · cases c with
      | fstat x => simp [World.opened]
      | lseek x position => simp [World.opened]
      | read x count => simp [World.opened]
      | _ => cases looks
    · rintro rfl
      cases looks
  · apply h.content known separate
    cases c with
    | fstat x => trivial
    | lseek x position => trivial
    | read x count => trivial
    | _ => cases looks

theorem holds_found {w : World} {fd : Int} {P : Opened → Prop} (h : w.Holds fd P) :
    ∃ opened, w.fds fd = some opened ∧ P opened := by
  unfold World.Holds at h
  split at h
  · cases h
  · exact ⟨_, ‹_›, h⟩

theorem open_fds {name : CStr} {flags : OpenFlags} {w : World} (fd : Int) (mode : Nat)
    (opens : w.opens name flags ≠ none) : ∃ ino, (w.after (.openPath name flags mode) (.ok fd)).fds fd =
      some ⟨ino, 0, flags.access⟩ := by
  obtain ⟨q, led⟩ := Option.ne_none_iff_exists'.mp opens
  simp only [World.after, led]
  split
  · rw [World.install_fds, Function.update_self]
    exact ⟨_, rfl⟩
  · split
    · rw [World.changeFile_fds, World.install_fds, Function.update_self]
      exact ⟨_, rfl⟩
    · rw [World.install_fds, Function.update_self]
      exact ⟨_, rfl⟩

theorem next_fds {c : FileCall} {r : c.Reply} (fd : Int) :
    (s.next pid (.file c) r).fds pid fd = ((s.view pid).after c r).fds fd := by
  change Function.update s.fds pid _ pid fd = _
  rw [Function.update_self]

variable {fc : FileCall} {fr : fc.Reply}

theorem Underway.inspect {g' : Reading} (h : Underway log recent s pid path offset g ino)
    (known : Tracked log s) (separate : Separate log s) (looks : Inspects fc) (same : g'.fd = g.fd)
    (here : ∃ access, (s.next pid (.file fc) fr).fds pid g.fd = some ⟨some ino, g'.pos, access⟩)
    (copied : g'.data <+: (s.volume.files ino).content.drop offset.toNat)
    (size : ∀ n ∈ g'.size, n = (s.volume.files ino).content.length)
    (atEnd : g'.atEnd = true → g'.data = (s.volume.files ino).content.drop offset.toNat) :
    Underway (log ++ [⟨⟨pid, .file fc, fr⟩, choice, s, s.next pid (.file fc) fr⟩])
      (recent ++ [⟨⟨pid, .file fc, fr⟩, choice, s, s.next pid (.file fc) fr⟩])
      (s.next pid (.file fc) fr) pid path offset g' ino := by
  obtain ⟨locked, content⟩ := h.locked.looks (r := fr) choice known separate looks
  rw [← content] at copied size atEnd
  rw [← same] at here locked
  exact ⟨same ▸ h.named.snoc, locked, here, copied, size, atEnd⟩

theorem Progress.openPath {name : CStr} {flags : OpenFlags} {mode : Nat} {r : SysResult Int}
    (h : Progress log recent s pid path offset g)
    (answered : s.answers pid (.file (.openPath name flags mode)) r = true)
    (may : g.may path offset (.file (.openPath name flags mode)) = true) :
    Progress (log ++ [⟨⟨pid, .file (.openPath name flags mode), r⟩, choice, s,
        s.next pid (.file (.openPath name flags mode)) r⟩])
      (recent ++ [⟨⟨pid, .file (.openPath name flags mode), r⟩, choice, s,
        s.next pid (.file (.openPath name flags mode)) r⟩])
      (s.next pid (.file (.openPath name flags mode)) r) pid path offset
      (g.handle (.openPath name flags mode) r) := by
  obtain ⟨⟨stage, same⟩, other⟩ : (g.stage = .start ∧ name = path) ∧ flags ≠ notifyFlags := by
    simpa [Reading.may] using may
  have fresh := h.fresh (.inl stage)
  cases r with
  | error e => exact Progress.of_start stage fresh
  | ok fd =>
    obtain ⟨told, -⟩ := answers_file answered
    obtain ⟨ino, here⟩ := open_fds fd mode told.2
    have opened : (g.handle (.openPath name flags mode) (.ok fd)).stage = .opened := rfl
    apply Progress.of_opened opened fresh
    · refine ⟨{ path := name, temp := false, notifies := decide (flags = notifyFlags), held := none }, ?_, rfl⟩
      rw [usesOf, ghostOf_append, if_pos rfl]
      exact Function.update_self ..
    · exact ⟨ino, flags.access, (next_fds fd).trans here⟩
    · intro ino found
      subst same
      exact ⟨_, List.mem_append_right _ List.mem_cons_self, ⟨flags, mode, rfl⟩, found⟩

theorem Progress.setlk {fd start len : Int} {type : LockType} {r : SysResult Unit}
    (h : Progress log recent s pid path offset g)
    (may : g.may path offset (.file (.setlk fd type start len)) = true) :
    Progress (log ++ [⟨⟨pid, .file (.setlk fd type start len), r⟩, choice, s,
        s.next pid (.file (.setlk fd type start len)) r⟩])
      (recent ++ [⟨⟨pid, .file (.setlk fd type start len), r⟩, choice, s,
        s.next pid (.file (.setlk fd type start len)) r⟩])
      (s.next pid (.file (.setlk fd type start len)) r) pid path offset
      (g.handle (.setlk fd type start len) r) := by
  cases type with
  | wrlck => cases may
  | unlck =>
    have stage : g.stage = .locked := of_decide_eq_true may
    obtain ⟨underway, regular⟩ := h.locked stage
    have done : g.handle (.setlk fd .unlck start len) r = { g with stage := .done } := by
      cases r <;> rfl
    rw [done]
    apply Progress.of_done rfl
    intro size
    obtain ⟨ino, here⟩ := Option.ne_none_iff_exists'.mp (regular size)
    have part := underway ino here
    exact ⟨g.fd, ino, part.named.snoc, _, List.mem_append_right _ List.mem_cons_self, part.size,
      part.atEnd⟩
  | rdlck =>
    obtain ⟨⟨⟨stage, mine⟩, first⟩, -⟩ :
        ((g.stage = .opened ∧ fd = g.fd) ∧ start = offset) ∧ len = 0 := by
      simpa [Reading.may] using may
    subst mine first
    have fresh := h.fresh (.inr stage)
    obtain ⟨⟨use, plain, kept⟩, ⟨opened, access, here⟩, named⟩ := h.opened stage
    cases r with
    | error e =>
      apply Progress.of_opened stage fresh
      · rw [usesOf, ghostOf_append, if_pos rfl]
        exact ⟨use, plain, kept⟩
      · exact ⟨opened, access, (next_fds _).trans here⟩
      · intro ino found
        rw [next_inoOf_self] at found
        exact (named ino found).snoc
    | ok done =>
      have locked : (g.handle (.setlk g.fd .rdlck start len) (.ok done)).stage = .locked := rfl
      apply Progress.of_locked locked
      · intro ino found
        rw [next_inoOf_self] at found
        have same : opened = some ino := (World.inoOf_eq here).symm.trans found
        refine ⟨(named ino found).snoc, ⟨?_, ?_, ?_⟩, ?_, ?_, ?_, ?_⟩
        · rw [usesOf, ghostOf_append, if_pos rfl]
          rfl
        · rw [usesOf, ghostOf_append, if_pos rfl]
          refine ⟨{ use with held := heldBy .rdlck start }, ?_, kept⟩
          change Function.update (usesOf pid log).use g.fd _ g.fd = _
          rw [Function.update_self, plain]
        · rw [next_inoOf_self]
          exact found
        · refine ⟨access, (next_fds _).trans ?_⟩
          change _ = some (⟨some ino, g.pos, access⟩ : Opened)
          rw [fresh.1, ← same]
          exact here
        · change g.data <+: _
          rw [fresh.2.2.1]
          exact List.nil_prefix
        · intro n size
          change g.size = some n at size
          rw [fresh.2.1] at size
          cases size
        · intro atEnd
          change g.atEnd = true at atEnd
          rw [fresh.2.2.2] at atEnd
          cases atEnd
      · intro size
        exact absurd fresh.2.1 size

theorem Progress.close {fd : Int} {r : SysResult Unit} (h : Progress log recent s pid path offset g)
    (may : g.may path offset (.file (.close fd)) = true) :
    Progress (log ++ [⟨⟨pid, .file (.close fd), r⟩, choice, s, s.next pid (.file (.close fd)) r⟩])
      (recent ++ [⟨⟨pid, .file (.close fd), r⟩, choice, s, s.next pid (.file (.close fd)) r⟩])
      (s.next pid (.file (.close fd)) r) pid path offset (g.handle (.close fd) r) := by
  have stage : g.stage = .opened ∨ g.stage = .done := by
    simpa [Reading.may] using may
  have done : g.handle (.close fd) r = { g with stage := .done } := by
    cases r <;> rfl
  rw [done]
  apply Progress.of_done rfl
  intro size
  rcases stage with opened | done
  · exact absurd (h.fresh (.inr opened)).2.1 size
  · exact (h.done done size).snoc

theorem Progress.inspect {g' : Reading} (h : Progress log recent s pid path offset g)
    (known : Tracked log s) (separate : Separate log s) (looks : Inspects fc)
    (stage : g.stage = .locked) (same : g'.fd = g.fd) (stage' : g'.stage = .locked)
    (step : ∀ ino access, s.fds pid g.fd = some ⟨some ino, g.pos, access⟩ →
      Underway log recent s pid path offset g ino →
      (∃ access, (s.next pid (.file fc) fr).fds pid g.fd = some ⟨some ino, g'.pos, access⟩) ∧
      g'.data <+: (s.volume.files ino).content.drop offset.toNat ∧
      (∀ n ∈ g'.size, n = (s.volume.files ino).content.length) ∧
      (g'.atEnd = true → g'.data = (s.volume.files ino).content.drop offset.toNat))
    (regular : g'.size ≠ none → s.inoOf pid g.fd ≠ none) :
    Progress (log ++ [⟨⟨pid, .file fc, fr⟩, choice, s, s.next pid (.file fc) fr⟩])
      (recent ++ [⟨⟨pid, .file fc, fr⟩, choice, s, s.next pid (.file fc) fr⟩])
      (s.next pid (.file fc) fr) pid path offset g' := by
  have kept : (s.next pid (.file fc) fr).inoOf pid g'.fd = s.inoOf pid g.fd := by
    rw [next_inoOf_self, same]
    cases fc with
    | fstat x => exact World.inoOf_after _ (by simp [World.opened]) (by simp)
    | lseek x position => exact World.inoOf_after _ (by simp [World.opened]) (by simp)
    | read x count => exact World.inoOf_after _ (by simp [World.opened]) (by simp)
    | _ => cases looks
  apply Progress.of_locked stage'
  · intro ino here
    rw [kept] at here
    have part := (h.locked stage).1 ino here
    obtain ⟨access, found⟩ := part.here
    obtain ⟨here, copied, size, atEnd⟩ := step ino access found part
    exact part.inspect known separate looks same here copied size atEnd
  · rw [kept]
    exact regular

theorem Progress.fstat {fd : Int} {r : SysResult Stat} (h : Progress log recent s pid path offset g)
    (known : Tracked log s) (separate : Separate log s)
    (answered : s.answers pid (.file (.fstat fd)) r = true)
    (may : g.may path offset (.file (.fstat fd)) = true) :
    Progress (log ++ [⟨⟨pid, .file (.fstat fd), r⟩, choice, s, s.next pid (.file (.fstat fd)) r⟩])
      (recent ++ [⟨⟨pid, .file (.fstat fd), r⟩, choice, s, s.next pid (.file (.fstat fd)) r⟩])
      (s.next pid (.file (.fstat fd)) r) pid path offset (g.handle (.fstat fd) r) := by
  obtain ⟨stage, mine⟩ : g.stage = .locked ∧ fd = g.fd := by
    simpa [Reading.may] using may
  subst mine
  have same : ∀ {r : SysResult Stat} {ino access}, s.fds pid g.fd = some ⟨some ino, g.pos, access⟩ →
      ∃ access, (s.next pid (.file (.fstat g.fd)) r).fds pid g.fd = some ⟨some ino, g.pos, access⟩ := by
    intro r ino access found
    rw [next_fds]
    exact ⟨access, found⟩
  obtain ⟨told, -⟩ := answers_file answered
  have nothing : Progress (log ++ [⟨⟨pid, .file (.fstat g.fd), r⟩, choice, s, s.next pid (.file (.fstat g.fd)) r⟩])
      (recent ++ [⟨⟨pid, .file (.fstat g.fd), r⟩, choice, s, s.next pid (.file (.fstat g.fd)) r⟩])
      (s.next pid (.file (.fstat g.fd)) r) pid path offset g :=
    h.inspect known separate trivial stage rfl stage
      (fun ino access found part => ⟨same found, part.copied, part.size, part.atEnd⟩) (h.locked stage).2
  cases r with
  | error e => exact nothing
  | ok st =>
    simp only [Reading.handle]
    split_ifs with regular
    · obtain ⟨opened, here, tells⟩ := holds_found (show (s.view pid).Holds _ _ from told)
      refine h.inspect known separate trivial stage rfl stage ?_ ?_
      · intro ino access found part
        refine ⟨same found, part.copied, ?_, part.atEnd⟩
        intro n size
        cases size
        cases here.symm.trans found
        exact tells.2.2
      · intro _ irregular
        have none : opened.ino = none := (World.inoOf_eq here).symm.trans irregular
        unfold World.Tells at tells
        rw [none] at tells
        exact tells regular
    · exact nothing

theorem Progress.lseek {fd position : Int} {r : SysResult Int}
    (h : Progress log recent s pid path offset g) (known : Tracked log s) (separate : Separate log s)
    (may : g.may path offset (.file (.lseek fd position)) = true) :
    Progress (log ++ [⟨⟨pid, .file (.lseek fd position), r⟩, choice, s,
        s.next pid (.file (.lseek fd position)) r⟩])
      (recent ++ [⟨⟨pid, .file (.lseek fd position), r⟩, choice, s,
        s.next pid (.file (.lseek fd position)) r⟩])
      (s.next pid (.file (.lseek fd position)) r) pid path offset (g.handle (.lseek fd position) r) := by
  obtain ⟨stage, mine⟩ : g.stage = .locked ∧ fd = g.fd := by
    simpa [Reading.may] using may
  subst mine
  cases r with
  | error e =>
    refine h.inspect known separate trivial stage rfl stage ?_ (h.locked stage).2
    intro ino access found part
    exact ⟨⟨access, (next_fds _).trans found⟩, part.copied, part.size, part.atEnd⟩
  | ok position' =>
    refine h.inspect known separate ?_ stage ?_ stage ?_ (h.locked stage).2
    · trivial
    · rfl
    · intro ino access found part
      refine ⟨⟨access, (next_fds _).trans ?_⟩, part.copied, part.size, part.atEnd⟩
      simp only [World.after, World.seek, World.setFd_fds, Function.update_self]
      exact congrArg (Option.map _) found

theorem Progress.read {fd : Int} {count : Nat} {r : SysResult CStr}
    (h : Progress log recent s pid path offset g) (known : Tracked log s) (separate : Separate log s)
    (answered : s.answers pid (.file (.read fd count)) r = true)
    (may : g.may path offset (.file (.read fd count)) = true) :
    Progress (log ++ [⟨⟨pid, .file (.read fd count), r⟩, choice, s, s.next pid (.file (.read fd count)) r⟩])
      (recent ++ [⟨⟨pid, .file (.read fd count), r⟩, choice, s, s.next pid (.file (.read fd count)) r⟩])
      (s.next pid (.file (.read fd count)) r) pid path offset (g.handle (.read fd count) r) := by
  obtain ⟨⟨⟨stage, mine⟩, positive⟩, place⟩ :
      ((g.stage = .locked ∧ fd = g.fd) ∧ 0 < count) ∧ g.pos = offset.toNat + g.data.length := by
    simpa [Reading.may] using may
  subst mine
  cases r with
  | error e =>
    refine h.inspect known separate trivial stage rfl stage ?_ (h.locked stage).2
    intro ino access found part
    exact ⟨⟨access, (next_fds _).trans found⟩, part.copied, part.size, part.atEnd⟩
  | ok data =>
    obtain ⟨told, -⟩ := answers_file answered
    refine h.inspect known separate ?_ stage ?_ stage ?_ (h.locked stage).2
    · trivial
    · rfl
    intro ino access found part
    obtain ⟨opened, here, -, -, holds⟩ := holds_found (show (s.view pid).Holds _ _ from told)
    cases here.symm.trans found
    obtain ⟨follows, empty⟩ := holds ino rfl
    have follows : data <+: ((s.volume.files ino).content.drop offset.toNat).drop g.data.length := by
      rw [List.drop_drop, ← place]
      exact follows
    refine ⟨⟨access, (next_fds _).trans ?_⟩, ?_, part.size, ?_⟩
    · simp only [World.after, World.seek, World.setFd_fds, Function.update_self]
      exact congrArg (Option.map _) found
    · obtain ⟨rest, whole⟩ := part.copied
      rw [← whole, List.drop_left] at follows
      rw [← whole]
      exact (List.prefix_append_right_inj _).mpr follows
    · intro atEnd
      have none : data = [] := of_decide_eq_true atEnd
      have short : (s.volume.files ino).content.length ≤ g.pos := by
        rcases empty none with short | zero
        · exact short
        · exact absurd zero positive.ne'
      change g.data ++ data = _
      rw [none, List.append_nil]
      apply part.copied.eq_of_length_le
      rw [List.length_drop]
      omega

theorem Progress.send {c : SocketCall} {r : c.Reply} (h : Progress log recent s pid path offset g) :
    Progress (log ++ [⟨⟨pid, .socket c, r⟩, choice, s, s⟩]) (recent ++ [⟨⟨pid, .socket c, r⟩, choice, s, s⟩])
      s pid path offset (g.send dataCode (.socket c)) := by
  have uses : usesOf pid (log ++ [⟨⟨pid, .socket c, r⟩, choice, s, s⟩]) = usesOf pid log := by
    rw [usesOf, ghostOf_append, if_pos rfl]
    rfl
  refine ⟨h.fresh, ?_, ?_, ?_⟩
  · intro opened
    obtain ⟨plain, here, named⟩ := h.opened opened
    rw [uses]
    exact ⟨plain, here, fun ino found => (named ino found).snoc⟩
  · intro locked
    obtain ⟨underway, regular⟩ := h.locked locked
    refine ⟨?_, regular⟩
    intro ino here
    have part := underway ino here
    refine ⟨part.named.snoc, ⟨?_, ?_, part.locked.here⟩, part.here, part.copied, part.size, part.atEnd⟩
    · rw [uses]
      exact part.locked.last
    · rw [uses]
      exact part.locked.plain
  · intro done size
    obtain ⟨fd, ino, named, e, member, once⟩ := h.done done size
    exact ⟨fd, ino, named.snoc, e, List.mem_append_left _ member, once⟩

/-- The command's own calls carry it on. -/
theorem Progress.own (h : Progress log recent s pid path offset g) (known : Tracked log s)
    (separate : Separate log s) (answered : s.answers pid c r = true)
    (may : g.may path offset c = true) :
    Progress (log ++ [⟨⟨pid, c, r⟩, choice, s, s.next pid c r⟩])
      (recent ++ [⟨⟨pid, c, r⟩, choice, s, s.next pid c r⟩]) (s.next pid c r) pid path offset
      (g.after dataCode c r) := by
  cases c with
  | file c =>
    cases c with
    | openPath name flags mode => exact h.openPath answered may
    | setlk fd type start len => exact h.setlk may
    | close fd => exact h.close may
    | fstat fd => exact h.fstat known separate answered may
    | lseek fd position => exact h.lseek known separate may
    | read fd count => exact h.read known separate answered may
    | _ => cases may
  | socket c => exact h.send
  | _ => cases may

end steps

def sentUnder (code : UInt8) (calls : List (Σ c : Call, c.Reply)) : List CStr :=
  calls.filterMap fun x => frame code x.1

theorem callsOf_snoc (pid : Int) (log : List Event) (e : Event) : callsOf pid (log ++ [e]) =
    if e.act.pid = pid then callsOf pid log ++ [⟨e.act.call, e.act.reply⟩] else callsOf pid log := by
  unfold callsOf
  rw [List.filterMap_append]
  split_ifs with mine <;> simp [mine]

theorem sentUnder_snoc (code : UInt8) (calls : List (Σ c : Call, c.Reply)) (x : Σ c : Call, c.Reply) :
    sentUnder code (calls ++ [x]) = sentUnder code calls ++ (frame code x.1).toList := by
  unfold sentUnder
  rw [List.filterMap_append, List.filterMap_cons]
  cases frame code x.1 <;> rfl

theorem separate {volume : Volume} {cwd : Int → Option (FileTree.Place FileName)} {log : List Event}
    {s : State} (trace : Trace tracking (fun _ => Uses.start) machine (boot volume cwd) log s)
    (apart : Every Apart log) : Separate log s := by
  induction trace with
  | nil =>
    intro pid fd use ino known
    cases known
  | snoc old _ _ done ih =>
    obtain ⟨earlier, now⟩ := every_append.mp apart
    obtain ⟨answered, rfl⟩ := machine_eq_some done
    exact (ih earlier).snoc (tracked old).sane answered now

structure Moment (volume : Volume) (cwd : Int → Option (FileTree.Place FileName)) (log : List Event)
    (e : Event) : Prop where
  trace : Trace tracking (fun _ => Uses.start) machine (boot volume cwd) log e.before
  separate : Separate log e.before
  allowed : tracking.allowed (usesOf e.act.pid log) e.act.call
  answered : e.before.answers e.act.pid e.act.call e.act.reply = true
  next : e.after = e.before.next e.act.pid e.act.call e.act.reply

theorem moments {volume : Volume} {cwd : Int → Option (FileTree.Place FileName)} {log : List Event}
    {s : State} (trace : Trace tracking (fun _ => Uses.start) machine (boot volume cwd) log s)
    (apart : Every Apart log) : Every (Moment volume cwd) log := by
  induction trace with
  | nil => exact every_nil
  | snoc old allowed _ done ih =>
    obtain ⟨earlier, -⟩ := every_append.mp apart
    obtain ⟨answered, next⟩ := machine_eq_some done
    exact every_append.mpr ⟨ih earlier, old, separate old earlier, allowed, answered, next⟩

theorem seeks_of_answers {s : State} {pid : Int} {c : Call} {r : c.Reply}
    (answered : s.answers pid c r = true) : seeks c r = true := by
  cases c with
  | file c =>
    obtain ⟨told, -⟩ := answers_file answered
    cases c with
    | lseek fd offset =>
      cases r with
      | error e => rfl
      | ok position => exact decide_eq_true told.2.2
    | _ => rfl
  | _ => rfl

structure Sending (past recent : List Event) (s : State) (pid : Int) (path : CStr) (offset : Int)
    (dataCode : UInt8) (g : Reading) : Prop where
  progress : Progress (past ++ recent) recent s pid path offset g
  sent : g.sent = (sentUnder dataCode (callsOf pid recent)).flatten
  announced : g.announced = sentUnder RSP_OK (callsOf pid recent)

/-- Every read is of a file as it was at one moment: in any run of the server's processes in which
temporary files are left to the uploads that make them, a command that sends a file and succeeds has
sent what the file it opened had from the offset on when it unlocked it, and announced so many bytes. -/
theorem reads_are_snapshots {server : Server} {clientSocket : Int → Int} {volume : Volume}
    {cwd : Int → Option (FileTree.Place FileName)} {c : Config Call.Reply Int State Choice}
    (reached : Reaches machine (start server clientSocket volume cwd) c) (apart : Every Apart c.log)
    {before during : List Event} (split : c.log = before ++ during) {texts : Texts} {pid : Int}
    {path : CStr} {offset : Int} {dataCode endCode : UInt8} (plain : dataCode ≠ RSP_OK)
    (ends : endCode ≠ RSP_OK) {n : Nat} {msg : CStr}
    (ran : (sendFile texts path offset dataCode endCode).Follows (callsOf pid during) (.ok n, msg)) :
    ∃ fd ino, Named pid path fd ino during ∧ ∃ e ∈ during,
      (sentUnder dataCode (callsOf pid during)).flatten =
        (e.before.volume.files ino).content.drop offset.toNat ∧
      n = (sentUnder dataCode (callsOf pid during)).flatten.length ∧
      sentUnder RSP_OK (callsOf pid during) = announcement n := by
  have trace := trace_of_reaches reached
  have moments := moments trace apart
  rw [split] at moments
  have results := follow (fun recent g => ∀ s, Trace tracking (fun _ => Uses.start) machine
    (boot volume cwd) (before ++ recent) s → Sending before recent s pid path (max offset 0) dataCode g)
    ran (wp_readFile texts path offset plain ends) ?_ ?_ ?_
  · obtain ⟨g, succeeds, sending⟩ := results
    obtain ⟨done, atEnd, sent, count, size, found, told⟩ := succeeds n rfl
    obtain ⟨progress, streamed, announced⟩ := sending c.state (split ▸ trace)
    obtain ⟨fd, ino, named, e, member, sized, whole⟩ := progress.done done (by rw [found]; simp)
    have data : (sentUnder dataCode (callsOf pid during)).flatten = g.data := streamed.symm.trans sent
    have part := whole atEnd
    rw [show (max offset 0).toNat = offset.toNat by omega] at part told
    refine ⟨fd, ino, named, e, member, data.trans part, count.trans (congrArg _ data.symm), ?_⟩
    rw [← announced, told, count, part, List.length_drop, sized size found]
  · intro s trace
    exact ⟨Progress.of_start rfl ⟨rfl, rfl, rfl, rfl⟩, rfl, rfl⟩
  · intro recent e after g place mine holds may
    have moment := moments (before ++ recent) e after (by rw [place, List.append_assoc])
    have sending := holds e.before moment.trace
    refine ⟨seeks_of_answers moment.answered, ?_⟩
    intro t trace
    rw [← List.append_assoc] at trace
    rw [trace.ends_after]
    refine ⟨?_, ?_, ?_⟩
    · rw [← List.append_assoc]
      obtain ⟨⟨who, q, r⟩, choice, s, s'⟩ := e
      obtain rfl : s' = s.next who q r := moment.next
      cases mine
      exact sending.progress.own (tracked moment.trace) moment.separate moment.answered may
    · rw [callsOf_snoc, if_pos mine, sentUnder_snoc, List.flatten_append, ← sending.sent]
      refine (Reading.after_sends _ _).1.trans (congrArg (g.sent ++ ·) ?_)
      cases frame dataCode e.act.call with
      | none => rfl
      | some payload => exact (List.append_nil payload).symm
    · rw [callsOf_snoc, if_pos mine, sentUnder_snoc, ← sending.announced]
      exact (Reading.after_sends _ _).2
  · intro recent e after g place other holds
    have moment := moments (before ++ recent) e after (by rw [place, List.append_assoc])
    have sending := holds e.before moment.trace
    intro t trace
    rw [← List.append_assoc] at trace
    rw [trace.ends_after]
    refine ⟨?_, ?_, ?_⟩
    · rw [← List.append_assoc]
      obtain ⟨⟨who, q, r⟩, choice, s, s'⟩ := e
      obtain rfl : s' = s.next who q r := moment.next
      exact sending.progress.elsewhere (Ne.symm other) (tracked moment.trace) moment.separate moment.allowed
    · rw [callsOf_snoc, if_neg other]
      exact sending.sent
    · rw [callsOf_snoc, if_neg other]
      exact sending.announced

section played

theorem inProgress_made {volume : Volume} {cwd : Int → Option (FileTree.Place FileName)}
    {log : List Event} {s : State} {ino : Nat}
    (trace : Trace tracking (fun _ => Uses.start) machine (boot volume cwd) log s)
    (h : InProgress log s ino) :
    ∃ e ∈ log, (∃ template, e.act.call = .file (.mkstemp template)) ∧ e.before.volume.fresh = ino := by
  induction trace with
  | nil =>
    obtain ⟨pid, fd, ⟨use, known, -⟩, -⟩ := h
    cases known
  | snoc old _ _ done ih =>
    obtain ⟨answered, rfl⟩ := machine_eq_some done
    rcases inProgress_cases answered h with earlier | ⟨rfl, template, rfl⟩
    · obtain ⟨e, member, made⟩ := ih earlier
      exact ⟨e, List.mem_append_left _ member, made⟩
    · exact ⟨_, List.mem_append_right _ List.mem_cons_self, ⟨template, rfl⟩, rfl⟩

def makesTemp : Call → Bool
  | .file (.mkstemp _) => true
  | _ => false

def apart (before : List Event) (e : Event) : Bool :=
  (found e.act.pid e.after e.act.call e.act.reply).all fun opens =>
    opens.1 ≠ notifyFlags && before.all fun e' => !(makesTemp e'.act.call && e'.before.volume.fresh = opens.2)

theorem every_apart {volume : Volume} {cwd : Int → Option (FileTree.Place FileName)}
    {log : List Event} {s : State}
    (trace : Trace tracking (fun _ => Uses.start) machine (boot volume cwd) log s)
    (h : everyFrom apart [] log = true) : Every Apart log := by
  intro before e after place flags ino opens
  have checked : apart before e = true :=
    every_of_everyFrom (P := fun before e => apart before e = true) (fun _ _ => id) h before e after place
  rw [apart, opens] at checked
  obtain ⟨other, old⟩ := Bool.and_eq_true_iff.mp checked
  refine ⟨?_, of_decide_eq_true other⟩
  intro inProgress
  obtain ⟨e', member, ⟨template, makes⟩, made⟩ :=
    inProgress_made (trace.every before e after place).1 inProgress
  have free := List.all_eq_true.mp old e' member
  rw [makes, made] at free
  simp [makesTemp] at free

open Sandbox in
/-- The calls succeed that can; what arrives is a packet, a frame of its kind, or the last one. -/
def answering (packet : Option Network.Packet) : Choice
  | _, .socket .recvPacket => packet
  | _, .socket (.recvFrameInto _) => .ok (packet.getD ⟨Command.writeEnd.code, []⟩)
  | _, .socket (.select fds) => .ok (fds.take 1)
  | w, c => grants w c

open Sandbox in
/-- Alice has two sessions. One opens `note` to read it, and before it takes its lock the other puts
another file in its place. -/
def readAndWrite : List (Int × Choice × Nat) :=
  [(7, answering (some login), 24), (8, answering (some login), 24),
    (7, answering (some ⟨Command.read.code, cstr "read -offset=2 note"⟩), 4),
    (8, answering (some ⟨Command.write.code, cstr "write note"⟩), 10),
    (8, answering (some ⟨Command.writeData.code, cstr "changed"⟩), 3), (8, answering none, 10),
    (7, answering none, 13)]

def homesStart : Config Call.Reply Int State Choice :=
  start Sessions.calmServer (fun _ => 9) Sandbox.homesDisk.toVolume fun _ => none

def readOfNote : Sys (SysResult Nat × CStr) :=
  sendFile Sessions.calmServer.texts (cstr "/srv/alice/note") 2 Command.readData.code
    Command.readEnd.code

theorem note_read : ∃ c before during, Reaches machine homesStart c ∧ c.log = before ++ during ∧
    readOfNote.Follows (callsOf 7 during) (.ok 2, []) ∧
    ∃ fd ino, Named 7 (cstr "/srv/alice/note") fd ino during ∧ ∃ e ∈ during,
      (sentUnder Command.readData.code (callsOf 7 during)).flatten =
        (e.before.volume.files ino).content.drop 2 ∧
      2 = (sentUnder Command.readData.code (callsOf 7 during)).flatten.length ∧
      sentUnder RSP_OK (callsOf 7 during) = announcement 2 := by
  have ran : (run machine readAndWrite homesStart).any (fun c =>
      decide (everyFrom apart [] c.log = true ∧
        follow 60 readOfNote (callsOf 7 (c.log.drop 47)) = some (.ok 2, []))) = true := by
    decide +kernel
  obtain ⟨c, reached, separate, follows⟩ := exists_of_run _ ran
  have split : c.log = c.log.take 47 ++ c.log.drop 47 := (List.take_append_drop 47 c.log).symm
  have follows := follows_of_follow follows
  exact ⟨c, _, _, reached, split, follows, reads_are_snapshots reached
    (every_apart (trace_of_reaches reached) separate) split (by decide) (by decide) follows⟩

end played

end Csap.Kernel
