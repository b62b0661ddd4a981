import Csap.MainProcess

/-! What the main process, its handlers and the sessions know between two calls: which resources there
are, what has become of the children that have ended, and whose session may be entered into the table. -/

namespace Csap.MainServer

open Prog (iterate wp wp_bind wp_call wp_ite wp_when wp_embed wp_mono wp_perform Calls)
open Interleaving

/-- Nothing but the semaphore that `semId` names can be left. -/
structure Ipc.Steady (ipc : Ipc) : Prop where
  segments : ipc.segments = []
  semId : 0 ≤ ipc.semId
  semaphores : ipc.semaphores = [] ∨ ipc.semaphores = [ipc.semId]

structure Ipc.Standing (ipc : Ipc) : Prop where
  segments : ipc.segments = []
  semId : 0 ≤ ipc.semId
  semaphores : ipc.semaphores = [ipc.semId]
  sharedMemory : ipc.sharedMemory ≠ 0

theorem Ipc.Standing.steady {ipc : Ipc} (h : ipc.Standing) : ipc.Steady :=
  ⟨h.segments, h.semId, .inr h.semaphores⟩

/-- What is left when the main process exits: no segment, and the semaphore only when the server gives
up after the tables were set up. -/
structure Ipc.Released (ipc : Ipc) (code : Int) : Prop where
  segments : ipc.segments = []
  semaphores : ipc.semaphores = if code ≠ 0 ∧ ipc.sharedMemory ≠ 0 then [ipc.semId] else []

theorem Ipc.Standing.released {ipc : Ipc} (h : ipc.Standing) : ipc.Released 1 where
  segments := h.segments
  semaphores := by rw [if_pos ⟨by decide, h.sharedMemory⟩, h.semaphores]

section main

/-- How far the main process has come: the flag is down while it collects, and a collection that
failed is to be repeated. -/
inductive Phase
  | setup
  | serving
  | cleared
  | failed
  | leaving
deriving DecidableEq

structure Known where
  phase : Phase := .setup
  ipc : Ipc := {}

namespace Known

def may (g : Known) : Call → Prop
  | .sys (.shared .sessionsCollectStale) => g.phase = .cleared
  | .sys (.shared _) => False
  | .sys (.socket (.select _)) => g.phase = .serving
  | .get .sessionsCleanup => g.phase = .serving
  | .set .sessionsCleanup value => g.phase = .serving ∧ value = 0 ∨ g.phase = .failed ∧ value ≠ 0
  | .set .semId _ | .shmget | .semget | .zeroTables => g.phase = .setup
  | .sigaction => g.phase = .setup ∧ g.ipc.Standing
  | .signal _ ignored => ignored = false → g.phase ≠ .setup
  | .fork _ => g.phase = .serving
  | .terminateGroup => g.phase = .serving
  | .waitpid _ => g.phase = .leaving
  | .exit code => g.ipc.Released code
  | .delivered | .finished | .forked | .killed => False
  | _ => True

def expects (g : Known) : (c : Call) → c.Reply → Prop
  | .get .semId, r => r = g.ipc.semId
  | .get .sharedMemory, r => r = g.ipc.sharedMemory
  | .shmat _, .ok shmPtr => shmPtr ≠ 0
  | .semget, .ok id => 0 ≤ id
  | .shmRemove id, r => id ∈ g.ipc.segments → r = .ok ()
  | .semRemove id, r => id ∈ g.ipc.semaphores → r = .ok ()
  | _, _ => True

def next (g : Known) (c : Call) (r : c.Reply) : Known where
  phase := match c, r with
    | .sigaction, .ok () => .serving
    | .set .sessionsCleanup _, _ => if g.phase = .serving then .cleared else .serving
    | .sys (.shared .sessionsCollectStale), r => if r < 0 then .failed else .serving
    | .terminateGroup, _ => .leaving
    | _, _ => g.phase
  ipc := g.ipc.next c r

end Known

def mainTurns : Typestate Call.Reply Known where
  allowed := Known.may
  expects := Known.expects
  next := Known.next

end main

section handlers

/-- How far `handle_signals` has come; it owes the flag when it has waited for a child. -/
inductive Handler
  | idle
  | looking
  | owes
  | leaving
deriving DecidableEq

def childTurns : Typestate Call.Reply Handler where
  allowed
    | .idle, .delivered => True
    | .looking, .waitpid nohang => nohang = true
    | .owes, .set .sessionsCleanup value => value ≠ 0
    | .leaving, .finished => True
    | _, _ => False
  expects _ _ _ := True
  next
    | .idle, .delivered, _ => .looking
    | .looking, .waitpid _, pid => if 0 < pid then .owes else .leaving
    | .owes, .set _ _, _ => .looking
    | .leaving, .finished, _ => .idle
    | g, _, _ => g

/-- How far `handle_termination` has come: it finds the semaphore, and removes it. -/
inductive Cleanup
  | waiting
  | begun (semId : Option Int)
  | removed
deriving DecidableEq

def terminationTurns : Typestate Call.Reply Cleanup where
  allowed
    | .waiting, c => c = .delivered
    | .begun semId, .semRemove id => semId = some id
    | _, .get _ | _, .set .shmId _ | _, .set .sharedMemory _ => True
    | _, .shmdt _ | _, .shmRemove _ | _, .terminateGroup => True
    | _, .signal _ ignored => ignored = true
    | .removed, .exit code => code = 0
    | _, _ => False
  expects
    | .begun _, .get .semId, id => 0 ≤ id
    | _, _, _ => True
  next
    | .waiting, .delivered, _ => .begun none
    | .begun _, .get .semId, id => .begun (some id)
    | .begun _, .semRemove _, _ => .removed
    | g, _, _ => g

end handlers

section sessions

/-- Before it finds out what it serves, a session does nothing else. -/
structure Serving where
  pid : Int
  session : Option (CStr × Sessions.Ghost) := none

def sessionTurns : Typestate Call.Reply Serving where
  allowed g c :=
    match g.session, c with
    | none, c => c = .forked
    | some (root, g), .sys c => (Sessions.protocol root).allowed g c
    | some _, .getpid | some _, .close _ | some _, .exit _ => True
    | some _, _ => False
  expects g c r :=
    match g.session, c, r with
    | some (root, g), .sys c, r => (Sessions.protocol root).expects g c r
    | _, .getpid, pid => pid = g.pid
    | _, _, _ => True
  next g c r :=
    match g.session, c, r with
    | none, .forked, inherited =>
      { g with session := some (snprintf PATH_MAX inherited.rootDirectory, { pid := g.pid }) }
    | some (root, held), .sys c, r => { g with session := some (root, held.next c r) }
    | _, _, _ => g

end sessions

inductive Ghost
  | main (g : Known)
  | onChild (g : Handler)
  | onTermination (g : Cleanup)
  | session (g : Serving)
  | outside

def turns : Typestate Call.Reply Ghost where
  allowed
    | .main g, c => mainTurns.allowed g c
    | .onChild g, c => childTurns.allowed g c
    | .onTermination g, c => terminationTurns.allowed g c
    | .session g, c => sessionTurns.allowed g c
    | .outside, c => c = .killed
  expects
    | .main g, c, r => mainTurns.expects g c r
    | .onChild g, c, r => childTurns.expects g c r
    | .onTermination g, c, r => terminationTurns.expects g c r
    | .session g, c, r => sessionTurns.expects g c r
    | .outside, _, _ => True
  next
    | .main g, c, r => .main (mainTurns.next g c r)
    | .onChild g, c, r => .onChild (childTurns.next g c r)
    | .onTermination g, c, r => .onTermination (terminationTurns.next g c r)
    | .session g, c, r => .session (sessionTurns.next g c r)
    | .outside, _, _ => .outside

def init : Thread → Ghost
  | .main => .main {}
  | .onChild => .onChild .idle
  | .onTermination _ => .onTermination .waiting
  | .session pid => .session { pid }
  | .outside => .outside

theorem wp_exit {Ghost α : Type} {T : Typestate Call.Reply Ghost} {g : Ghost} {code : Int}
    {Q : α → Ghost → Prop} (may : T.allowed g (.exit code)) : wp T (exit code) Q g := by
  unfold exit
  apply wp_call may
  intro _ _
  exact Prog.wp_iterate (fun _ _ => True) trivial fun _ _ _ => trivial

section quiet

/-- The calls that change nothing the main process knows of; it may also give up. -/
@[reducible] def Quiet : Call → Prop
  | .sys (.file _) | .sys (.user _) | .getgrnam _ | .getuid | .kill _ => True
  | .socket | .setsockopt _ | .bind _ _ _ | .listen _ | .accept _ | .close _ => True
  | .signal _ ignored => ignored = true
  | .exit code => code = 1
  | _ => False

theorem quiet_neutral {g : Known} (released : g.ipc.Released 1) (c : Call) (h : Quiet c) :
    mainTurns.allowed g c ∧ ∀ r, mainTurns.next g c r = g := by
  cases c with
  | sys c =>
    cases c with
    | file c => exact ⟨trivial, fun _ => rfl⟩
    | user c => exact ⟨trivial, fun _ => rfl⟩
    | _ => cases h
  | signal sig ignored =>
    obtain rfl : ignored = true := h
    exact ⟨fun caught => absurd caught (by decide), fun _ => rfl⟩
  | exit code =>
    obtain rfl : code = 1 := h
    exact ⟨released, fun _ => rfl⟩
  | getgrnam _ | getuid | kill _ | socket | setsockopt _ | bind _ _ _ | listen _ | accept _ | close _ =>
    exact ⟨trivial, fun _ => rfl⟩
  | _ => cases h

theorem wp_quiet {α : Type} {p : Main α} {g : Known} {Q : α → Known → Prop}
    (released : g.ipc.Released 1) (h : p.Calls Quiet) (hQ : ∀ a, Q a g) : wp mainTurns p Q g :=
  h.wp (quiet_neutral released) hQ

theorem exit_quiet {α : Type} : (exit 1 : Main α).Calls Quiet := by
  have gives : Quiet (.exit 1) := rfl
  exact Calls.bind (Calls.perform gives) fun _ => Calls.iterate fun _ => Calls.pure _

theorem close_quiet (fd : Int) : (close fd).Calls Quiet :=
  Calls.bind (Calls.perform trivial) fun _ => Calls.pure _

theorem makeDirectory_quiet (path : CStr) (mode : Nat) : (makeDirectory path mode).Calls Quiet := by
  unfold makeDirectory
  apply Calls.bind (Calls.perform trivial)
  intro made
  split
  · exact Calls.when exit_quiet
  · exact Calls.pure _

theorem removeStaleEntries_quiet (sessionsDir : CStr) (dir : Int) :
    (removeStaleEntries sessionsDir dir).Calls Quiet := by
  unfold removeStaleEntries removeStale
  repeat' with_reducible first
    | exact Calls.pure _
    | exact Calls.perform trivial
    | refine Calls.iterate fun _ => ?_
    | refine Calls.bind ?_ fun _ => ?_
    | refine Calls.when ?_
    | split

theorem createRootDirectory_quiet (rootDirectory : CStr) : (createRootDirectory rootDirectory).Calls Quiet := by
  unfold createRootDirectory
  repeat' with_reducible first
    | exact Calls.pure _
    | exact Calls.perform trivial
    | exact exit_quiet
    | exact makeDirectory_quiet _ _
    | exact removeStaleEntries_quiet _ _
    | refine Calls.bind ?_ fun _ => ?_
    | split

theorem setupServerGid_quiet : setupServerGid.Calls Quiet := by
  unfold setupServerGid
  repeat' with_reducible first
    | exact Calls.pure _
    | exact Calls.perform trivial
    | refine Calls.bind ?_ fun _ => ?_
    | split

theorem setupUnprivilegedUser_quiet : setupUnprivilegedUser.Calls Quiet := by
  unfold setupUnprivilegedUser
  repeat' with_reducible first
    | exact Calls.pure _
    | exact Calls.perform trivial
    | refine Calls.bind ?_ fun _ => ?_

theorem startServer_quiet (args : Arguments) : (startServer args).Calls Quiet := by
  unfold startServer
  repeat' with_reducible first
    | exact Calls.pure _
    | exact Calls.perform trivial
    | exact exit_quiet
    | exact close_quiet _
    | refine Calls.bind ?_ fun _ => ?_
    | split

end quiet

section setup

/-- What `setup_shmem` has come to. -/
def SetUp (r : SysResult Unit) (g : Known) : Prop :=
  g.phase = .setup ∧ match r with
    | .ok () => g.ipc.Standing
    | .error _ => g.ipc.Released 1

theorem wp_removeSegment {g : Known} {id : Int} {α : Type} {k : SysResult Unit → Main α} {Q : α → Known → Prop}
    (made : g.ipc.segments = [id])
    (h : wp mainTurns (k (.ok ())) Q { g with ipc := { g.ipc with segments := [] } }) :
    wp mainTurns (call (.shmRemove id) >>= k) Q g := by
  apply wp_call trivial
  intro r removed
  have here : id ∈ g.ipc.segments := made ▸ List.mem_singleton_self id
  obtain rfl : r = .ok () := removed here
  have gone : mainTurns.next g (.shmRemove id) (.ok ()) = { g with ipc := { g.ipc with segments := [] } } := by
    change ({ g with ipc := { g.ipc with segments := g.ipc.segments.erase id } } : Known) = _
    rw [made, List.erase_cons_head]
  rwa [gone]

theorem wp_removeSemaphore {g : Known} {id : Int} {α : Type} {k : SysResult Unit → Main α} {Q : α → Known → Prop}
    (made : g.ipc.semaphores = [id])
    (h : wp mainTurns (k (.ok ())) Q { g with ipc := { g.ipc with semaphores := [] } }) :
    wp mainTurns (call (.semRemove id) >>= k) Q g := by
  apply wp_call trivial
  intro r removed
  have here : id ∈ g.ipc.semaphores := made ▸ List.mem_singleton_self id
  obtain rfl : r = .ok () := removed here
  have gone : mainTurns.next g (.semRemove id) (.ok ()) = { g with ipc := { g.ipc with semaphores := [] } } := by
    change ({ g with ipc := { g.ipc with semaphores := g.ipc.semaphores.erase id } } : Known) = _
    rw [made, List.erase_cons_head]
  rwa [gone]

theorem wp_undoSetup {shmId semId shmPtr : Int} {e : Errno} {ipc : Ipc} (segments : ipc.segments = [shmId])
    (semaphores : ipc.semaphores = [semId]) (detached : ipc.sharedMemory = 0) :
    wp mainTurns (undoSetup shmId semId shmPtr e) SetUp ⟨.setup, ipc⟩ := by
  unfold undoSetup
  apply wp_call trivial
  intro _ _
  apply wp_removeSegment segments
  apply wp_removeSemaphore semaphores
  apply wp_call rfl
  intro _ _
  apply wp_call trivial
  intro _ _
  refine ⟨rfl, rfl, ?_⟩
  exact (if_neg fun h => h.2 detached).symm

theorem wp_setupShmem (ownerGid : Int) : wp mainTurns (setupShmem ownerGid) SetUp {} := by
  unfold setupShmem
  apply wp_call rfl
  intro made _
  cases made with
  | error e => exact ⟨rfl, rfl, rfl⟩
  | ok shmId =>
  apply wp_call trivial
  intro _ _
  apply wp_call trivial
  intro attached given
  cases attached with
  | error e =>
    apply wp_removeSegment rfl
    apply wp_call trivial
    intro _ _
    exact ⟨rfl, rfl, rfl⟩
  | ok shmPtr =>
  have given : shmPtr ≠ 0 := given
  apply wp_call rfl
  intro _ _
  apply wp_call rfl
  intro made named
  cases made with
  | error e =>
    apply wp_call trivial
    intro _ _
    apply wp_removeSegment rfl
    apply wp_call rfl
    intro _ _
    exact ⟨rfl, rfl, rfl⟩
  | ok semId =>
  have named : 0 ≤ semId := named
  apply wp_call rfl
  intro _ _
  apply wp_bind.mpr
  apply wp_mono (Q := fun _ g => g = ⟨.setup, { shmId, semId, segments := [shmId], semaphores := [semId] }⟩)
  · unfold ownSemaphore
    apply wp_call trivial
    intro found _
    cases found with
    | error e => rfl
    | ok _ => exact ⟨trivial, fun _ _ => rfl⟩
  intro owned g here
  obtain rfl := here
  cases owned with
  | error e => exact wp_undoSetup rfl rfl rfl
  | ok _ =>
  apply wp_call trivial
  intro given _
  cases given with
  | error e => exact wp_undoSetup rfl rfl rfl
  | ok _ =>
  apply wp_call trivial
  intro _ _
  apply wp_call trivial
  intro _ _
  apply wp_call rfl
  intro _ _
  apply wp_removeSegment rfl
  exact ⟨rfl, rfl, named, rfl, given⟩

end setup

section loop

variable {ipc : Ipc}

theorem wp_collectStaleSessions (standing : ipc.Standing) :
    wp mainTurns collectStaleSessions (fun _ g => g = ⟨.serving, ipc⟩) ⟨.serving, ipc⟩ := by
  unfold collectStaleSessions
  apply wp_call
  · exact .inl ⟨rfl, rfl⟩
  intro _ _
  apply wp_call trivial
  intro shmPtr attached
  apply wp_call trivial
  intro semId made
  obtain rfl : shmPtr = ipc.sharedMemory := attached
  obtain rfl : semId = ipc.semId := made
  apply wp_ite.mpr
  refine ⟨fun missing => ?_, fun _ => ?_⟩
  · cases missing with
    | inl detached => exact absurd detached standing.sharedMemory
    | inr negative => exact absurd standing.semId (not_le.mpr negative)
  apply wp_call rfl
  intro r _
  apply wp_when.mpr
  refine ⟨fun failed => ?_, fun collected => ?_⟩
  · apply wp_perform.mpr
    change (_ ∨ (if r < 0 then Phase.failed else .serving) = .failed ∧ _) ∧ _
    rw [if_pos failed]
    refine ⟨.inr ⟨rfl, one_ne_zero⟩, fun _ _ => ?_⟩
    change (⟨if (if r < 0 then Phase.failed else .serving) = .serving then .cleared else .serving, ipc⟩ : Known) = _
    rw [if_pos failed]
    rfl
  · change (⟨if r < 0 then .failed else .serving, ipc⟩ : Known) = _
    rw [if_neg collected]

def Stays (ipc : Ipc) : Unit ⊕ Unit → Known → Prop
  | .inl _, g => g = ⟨.serving, ipc⟩
  | .inr _, g => g.ipc = ipc

def Handled (ipc : Ipc) : Option (Unit ⊕ Unit) → Known → Prop
  | none, g => g = ⟨.serving, ipc⟩
  | some r, g => Stays ipc r g

theorem wp_handleInput : wp mainTurns handleInput (Handled ipc) ⟨.serving, ipc⟩ := by
  unfold handleInput
  apply wp_call trivial
  intro buffer _
  cases buffer with
  | error e => exact wp_ite.mpr ⟨fun _ => rfl, fun _ => rfl⟩
  | ok buffer =>
  apply wp_ite.mpr
  refine ⟨fun _ => rfl, fun _ => ?_⟩
  apply wp_ite.mpr
  refine ⟨fun _ => ?_, fun _ => rfl⟩
  apply wp_call
  · intro caught
    cases caught
  intro _ _
  apply wp_call rfl
  intro _ _
  unfold waitForChildren
  apply wp_bind.mpr
  apply Prog.wp_iterate fun _ g => g = ⟨.leaving, ipc⟩
  · rfl
  · intro _ g here
    obtain rfl := here
    apply wp_call rfl
    intro _ _
    exact wp_ite.mpr ⟨fun _ => rfl, fun _ => rfl⟩

theorem wp_acceptConnection (standing : ipc.Standing) (inherited : Inherited) :
    wp mainTurns (acceptConnection inherited) (fun _ g => g = ⟨.serving, ipc⟩) ⟨.serving, ipc⟩ := by
  unfold acceptConnection
  apply wp_call trivial
  intro clientSocket _
  cases clientSocket with
  | error e => rfl
  | ok clientSocket =>
  apply wp_call rfl
  intro forked _
  cases forked with
  | error e => exact wp_quiet standing.released (close_quiet clientSocket) fun _ => rfl
  | ok pid => exact wp_quiet standing.released (close_quiet clientSocket) fun _ => rfl

theorem wp_round (standing : ipc.Standing) (inherited : Inherited) :
    wp mainTurns (round inherited) (Stays ipc) ⟨.serving, ipc⟩ := by
  unfold round
  apply wp_call rfl
  intro sessionsCleanup _
  apply wp_bind.mpr
  apply wp_mono (Q := fun _ g => g = ⟨.serving, ipc⟩)
  · exact wp_when.mpr ⟨fun _ => wp_collectStaleSessions standing, fun _ => rfl⟩
  intro _ g here
  obtain rfl := here
  apply wp_call rfl
  intro ready _
  cases ready with
  | error e => exact wp_ite.mpr ⟨fun _ => rfl, fun _ => rfl⟩
  | ok readfds =>
  apply wp_bind.mpr
  apply wp_mono (Q := Handled ipc)
  · exact wp_ite.mpr ⟨fun _ => wp_handleInput, fun _ => rfl⟩
  intro r g here
  cases r with
  | some ended => exact here
  | none =>
  obtain rfl := here
  apply wp_bind.mpr
  exact wp_when.mpr ⟨fun _ => wp_mono (wp_acceptConnection standing _) fun _ _ same => same, fun _ => rfl⟩

theorem wp_cleanupIpc {g : Known} (standing : ipc.Standing) (gone : g.ipc = ipc) :
    wp mainTurns cleanupIpc (fun _ g => g.ipc.Released 0) g := by
  obtain rfl := gone
  unfold cleanupIpc cleanupShmem
  apply wp_call trivial
  intro shmId _
  apply wp_call trivial
  intro semId made
  obtain rfl : semId = g.ipc.semId := made
  apply wp_call trivial
  intro shmPtr _
  apply wp_bind.mpr
  apply wp_bind.mpr
  apply wp_mono (Q := fun _ g' => g'.ipc = g.ipc)
  · exact wp_when.mpr ⟨fun _ => wp_call trivial fun _ _ => rfl, fun _ => rfl⟩
  intro _ g' same
  apply wp_bind.mpr
  apply wp_mono (Q := fun _ g' => g'.ipc = g.ipc)
  · apply wp_when.mpr
    refine ⟨fun _ => wp_call trivial fun r _ => ?_, fun _ => same⟩
    change g'.ipc.next (.shmRemove shmId) r = g.ipc
    rw [same]
    cases r with
    | error e => rfl
    | ok _ =>
      change { g.ipc with segments := g.ipc.segments.erase shmId } = g.ipc
      rw [standing.segments, List.erase_nil, ← standing.segments]
  intro _ g' same
  apply wp_when.mpr
  refine ⟨fun _ => ?_, fun negative => absurd standing.semId negative⟩
  have made : g'.ipc.semaphores = [g.ipc.semId] := by rw [same, standing.semaphores]
  apply wp_removeSemaphore made
  apply wp_call trivial
  intro _ _
  refine ⟨trivial, fun _ _ => ⟨?_, ?_⟩⟩
  · exact (congrArg Ipc.segments same).trans standing.segments
  · exact (if_neg fun h => h.1 rfl).symm

theorem wp_main (args : Arguments) : wp mainTurns (main args) (fun _ _ => True) {} := by
  have fresh : ({} : Ipc).Released 1 := ⟨rfl, rfl⟩
  unfold main
  cases args.rootDirectory with
  | none => exact wp_exit fresh
  | some argument =>
  apply wp_bind.mpr
  apply wp_quiet fresh (createRootDirectory_quiet _)
  intro rootDirectory
  apply wp_call
  · intro caught
    cases caught
  intro _ _
  apply wp_bind.mpr
  apply wp_quiet fresh setupServerGid_quiet
  intro serverGid
  cases serverGid with
  | none => exact wp_exit fresh
  | some serverGid =>
  apply wp_bind.mpr
  apply wp_mono (wp_setupShmem serverGid)
  intro made g setUp
  obtain ⟨phase, ipc⟩ := g
  obtain ⟨rfl : phase = .setup, setUp⟩ := setUp
  cases made with
  | error e => exact wp_exit setUp
  | ok _ =>
  have standing : ipc.Standing := setUp
  have unset : Phase.serving ≠ .setup := by decide
  apply wp_bind.mpr
  apply wp_mono (Q := fun _ g => g = ⟨.serving, ipc⟩)
  · unfold setupSignalHandler
    apply wp_call
    · exact ⟨rfl, standing⟩
    intro caught _
    cases caught with
    | error e => exact wp_exit standing.released
    | ok _ => rfl
  intro _ g here
  obtain rfl := here
  apply wp_call
  · exact fun _ => unset
  intro _ _
  apply wp_call
  · exact fun _ => unset
  intro _ _
  apply wp_bind.mpr
  apply wp_quiet standing.released setupUnprivilegedUser_quiet
  intro unpriv
  apply wp_bind.mpr
  apply wp_quiet standing.released (startServer_quiet args)
  intro listening
  apply wp_bind.mpr
  apply Prog.wp_iterate fun _ g => g = ⟨.serving, ipc⟩
  · rfl
  · intro _ g here
    obtain rfl := here
    apply wp_mono (wp_round standing _)
    intro r g stays
    cases r with
    | inl _ => exact stays
    | inr _ =>
    apply wp_bind.mpr
    apply wp_mono (wp_cleanupIpc standing stays)
    intro _ g released
    apply wp_bind.mpr
    apply wp_call trivial
    intro _ _
    exact wp_exit released

end loop

section handlers

theorem wp_onChild : wp childTurns onChild (fun _ _ => True) .idle := by
  unfold onChild
  apply Prog.wp_iterate fun _ g => g = .idle
  · rfl
  intro _ g here
  obtain rfl := here
  apply wp_call trivial
  intro _ _
  apply wp_bind.mpr
  unfold handleSignals
  apply Prog.wp_iterate fun _ g => g = .looking
  · rfl
  intro _ g here
  obtain rfl := here
  apply wp_call rfl
  intro pid _
  apply wp_ite.mpr
  refine ⟨fun found => ?_, fun done => ?_⟩
  · have owes : childTurns.next .looking (.waitpid true) pid = .owes := if_pos found
    rw [owes]
    exact wp_call one_ne_zero fun _ _ => rfl
  · have left : childTurns.next .looking (.waitpid true) pid = .leaving := if_neg done
    rw [left]
    exact wp_call trivial fun _ _ => rfl

theorem wp_cleanupShmem {shmId semId shmPtr : Int} (known : 0 ≤ semId) :
    wp terminationTurns (cleanupShmem shmId semId shmPtr) (fun _ g => g = .removed) (.begun (some semId)) := by
  unfold cleanupShmem
  apply wp_bind.mpr
  apply wp_mono (Q := fun _ g => g = .begun (some semId))
  · exact wp_when.mpr ⟨fun _ => wp_call trivial fun _ _ => rfl, fun _ => rfl⟩
  intro _ g here
  obtain rfl := here
  apply wp_bind.mpr
  apply wp_mono (Q := fun _ g => g = .begun (some semId))
  · exact wp_when.mpr ⟨fun _ => wp_call trivial fun _ _ => rfl, fun _ => rfl⟩
  intro _ g here
  obtain rfl := here
  exact wp_when.mpr ⟨fun _ => wp_call rfl fun _ _ => rfl, fun negative => absurd known negative⟩

theorem wp_onTermination : wp terminationTurns onTermination (fun _ _ => True) .waiting := by
  unfold onTermination cleanupIpc
  apply wp_call rfl
  intro _ _
  apply wp_bind.mpr
  apply wp_call trivial
  intro shmId _
  apply wp_call trivial
  intro semId known
  apply wp_call trivial
  intro shmPtr _
  apply wp_bind.mpr
  apply wp_mono (wp_cleanupShmem known)
  intro _ g here
  obtain rfl := here
  apply wp_call trivial
  intro _ _
  refine ⟨trivial, fun _ _ => ?_⟩
  apply wp_call rfl
  intro _ _
  apply wp_call trivial
  intro _ _
  exact wp_exit rfl

end handlers

section sessions

theorem wp_connection (texts : Texts) (pid : Int) :
    wp sessionTurns (connection texts) (fun _ _ => True) { pid } := by
  unfold connection serveConnection
  apply wp_call rfl
  intro inherited _
  apply wp_call trivial
  intro number own
  obtain rfl : number = pid := own
  apply wp_bind.mpr
  apply wp_call trivial
  intro _ _
  apply wp_bind.mpr
  unfold sys
  apply wp_embed.mpr
  have server := Sessions.wp_serveClient (inherited.server texts number) inherited.clientSocket
  let into (g : Sessions.Ghost) : Serving :=
    { pid := number, session := some (snprintf PATH_MAX inherited.rootDirectory, g) }
  apply wp_mono (Prog.wp_through into (fun _ _ h => h) (fun _ _ _ _ h => h) (fun _ _ _ _ => rfl) server)
  intro _ g done
  obtain ⟨g, rfl, -⟩ := done
  exact wp_exit trivial

end sessions

/-- Every thread keeps to its turns. -/
theorem start_disciplined (args : Arguments) : Disciplined turns init (start args) := by
  intro thread
  cases thread with
  | main =>
    apply wp_mono (Prog.wp_through Ghost.main (fun _ _ h => h) (fun _ _ _ _ h => h) (fun _ _ _ _ => rfl)
      (wp_main args))
    exact fun _ _ _ => trivial
  | onChild =>
    apply wp_mono (Prog.wp_through Ghost.onChild (fun _ _ h => h) (fun _ _ _ _ h => h) (fun _ _ _ _ => rfl)
      wp_onChild)
    exact fun _ _ _ => trivial
  | onTermination sig =>
    apply wp_mono (Prog.wp_through Ghost.onTermination (fun _ _ h => h) (fun _ _ _ _ h => h)
      (fun _ _ _ _ => rfl) wp_onTermination)
    exact fun _ _ _ => trivial
  | session pid =>
    apply wp_mono (Prog.wp_through Ghost.session (fun _ _ h => h) (fun _ _ _ _ h => h) (fun _ _ _ _ => rfl)
      (wp_connection args.texts pid))
    exact fun _ _ _ => trivial
  | outside =>
    apply Prog.wp_iterate fun _ g => g = Ghost.outside
    · rfl
    intro _ g here
    obtain rfl := here
    exact wp_call rfl fun _ _ => rfl

end Csap.MainServer
