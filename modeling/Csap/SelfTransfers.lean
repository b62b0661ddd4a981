import Csap.RequestHistory

/-! Transfer requests to oneself. `dispatch` refuses them where the destination is not seen online;
a destination that is online is not compared with the session's own user. -/

namespace Csap.Sessions

open Prog Interleaving

/-- The user a process has logged in, and the command it received last. -/
structure Asker where
  user : Option CStr := none
  command : Option Command := none

namespace Asker

def allowed (_ : Asker) : Call → Prop
  | .shared (.requestAdd src dest _) => usernameField src ≠ usernameField dest
  | _ => True

def AsksItself (g : Asker) (dest : CStr) : Prop :=
  g.command = some .transferReq ∧ g.user = some dest

instance (g : Asker) (dest : CStr) : Decidable (g.AsksItself dest) :=
  inferInstanceAs (Decidable (_ ∧ _))

/-- A process that asks for its own user is not told that it is online. -/
def expects (g : Asker) : (c : Call) → c.Reply → Prop
  | .shared (.sessionFind dest), r => g.AsksItself dest → ∀ pid, r.2 ≠ some (pid, true)
  | _, _ => True

def next (g : Asker) : (c : Call) → c.Reply → Asker
  | .socket .recvPacket, r => { g with command := r.bind fun packet => Command.ofCode packet.command }
  | .shared (.sessionAdd user _), _ => { g with user := some user }
  | _, _ => g

end Asker

def asking : Typestate Call.Reply Asker where
  allowed := Asker.allowed
  expects := Asker.expects
  next := Asker.next

/-- Where a `transfer_request` looks up its own user, the table does not list that user. -/
def Unlisted (before : Log) (e : Event) : Prop :=
  ∀ dest, e.act.call = .shared (.sessionFind dest) →
    (ghostOf asking (fun _ => {}) e.act.pid before).AsksItself dest → e.choice.sem = .ok () →
    ∀ entry ∈ e.before.mem.sessionTable.live, entry.username = dest → entry.inUse = false

structure Known (session : Session) (g : Asker) : Prop where
  user_eq : session.loggedIn = true → g.user = some session.user
  user_fits : session.loggedIn = true → session.user.length ≤ 31

section commands

variable {α : Type} {server : Server} {session : Session} {g : Asker} {p : Sys α}
  {Q : α → Asker → Prop}

theorem Known.of_user {g' : Asker} (h : Known session g) (same : g'.user = g.user) :
    Known session g' where
  user_eq loggedIn := same.trans (h.user_eq loggedIn)
  user_fits := h.user_fits

@[reducible] def Anonymous : Call → Prop
  | .shared (.sessionAdd _ _) | .shared (.requestAdd _ _ _) => False
  | _ => True

instance anonymous_judged : Judged Anonymous :=
  .avoiding ([.sessionAdd, .requestAdd]) <| by
    rintro (c | c | c | c | c | c) <;> cases c <;> simp

theorem wp_anonymous (h : p.Calls Anonymous) (hQ : ∀ a g', g'.user = g.user → Q a g') :
    wp asking p Q g := by
  refine h.wp_preserving (fun g' => g'.user = g.user) ?_ rfl hQ
  intro g' c mine same
  cases c with
  | shared c =>
    cases c with
    | sessionAdd user pid => exact absurd mine id
    | requestAdd src dest path => exact absurd mine id
    | _ => exact ⟨trivial, fun _ => same⟩
  | socket c => cases c <;> exact ⟨trivial, fun _ => same⟩
  | _ => exact ⟨trivial, fun _ => same⟩

/-- Calls that leave what is known of an asker as it is. -/
@[reducible] def Neutral : Call → Prop
  | .shared _ | .socket .recvPacket => False
  | _ => True

instance neutral_judged : Judged Neutral :=
  .avoiding (.recvPacket :: sharedKinds) <| by
    rintro (c | c | c | c | c | c) <;> cases c <;> simp

theorem wp_neutral (h : p.Calls Neutral) (hQ : ∀ a, Q a g) : wp asking p Q g := by
  refine h.wp (fun c mine => ?_) hQ
  cases c with
  | shared c => exact absurd mine id
  | socket c =>
    cases c with
    | recvPacket => exact absurd mine id
    | _ => exact ⟨trivial, fun _ => rfl⟩
  | _ => exact ⟨trivial, fun _ => rfl⟩

theorem usernameField_ne {user dest : CStr} (fits : user.length ≤ 31) (other : dest ≠ user) :
    usernameField user ≠ usernameField dest := by
  intro same
  rw [usernameField, usernameField, snprintf_eq_self (by omega : user.length < 33)] at same
  by_cases short : dest.length < 33
  · rw [snprintf_eq_self short] at same
    exact other same.symm
  · have cut : (snprintf 33 dest).length = 32 := by simp [snprintf]; omega
    rw [← same] at cut
    omega

theorem wp_enterOther {destUser srcPath : CStr} {pid : Int} {online : Bool} (h : Known session g)
    (loggedIn : session.loggedIn = true) (other : destUser ≠ session.user) :
    wp asking (enterRequest session destUser srcPath pid online) (fun _ => Known session) g := by
  refine wp_call (usernameField_ne (h.user_fits loggedIn) other) fun newId _ => ?_
  refine wp_anonymous ?_ fun _ g' same => h.of_user same
  repeat' with_reducible first
    | exact calls_within rfl
    | refine Calls.bind ?_ fun _ => ?_
    | split

theorem wp_asking_dispatchTransferReq {payload : Option CStr} (h : Known session g)
    (loggedIn : session.loggedIn = true) (asks : g.command = some .transferReq) :
    wp asking (dispatchTransferReq server session payload) (fun _ => Known session) g := by
  refine wp_bind.mpr (wp_neutral (calls_within rfl) fun parsed => ?_)
  split
  · rename_i transferCommand
    dsimp only
    refine wp_bind.mpr (wp_neutral (calls_within rfl) fun resolved => ?_)
    split
    · refine wp_call trivial fun srcSt _ => ?_
      split
      · exact wp_neutral (calls_within rfl) fun _ => h
      rw [wp_ite]
      refine ⟨fun _ => wp_bind.mpr (wp_neutral (calls_within rfl) fun _ => h), fun _ => ?_⟩
      refine wp_call trivial ?_
      rintro ⟨found, dest⟩ expected
      dsimp only
      rw [wp_ite]
      refine ⟨fun _ => wp_bind.mpr (wp_neutral (calls_within rfl) fun _ => h), fun _ => ?_⟩
      rw [wp_ite]
      constructor
      · intro _
        refine wp_bind.mpr (wp_neutral (calls_within rfl) fun userExists => ?_)
        rw [wp_ite]
        refine ⟨fun _ => wp_bind.mpr (wp_neutral (calls_within rfl) fun _ => h), fun _ => ?_⟩
        rw [wp_ite]
        refine ⟨fun _ => wp_bind.mpr (wp_neutral (calls_within rfl) fun _ => h), ?_⟩
        exact wp_enterOther h loggedIn
      · intro online
        -- no comparison here: that the names differ is what the lookup told
        refine wp_enterOther h loggedIn fun same => ?_
        rcases dest with _ | ⟨pid, _ | _⟩
        · simp at online
        · simp at online
        · refine expected ⟨asks, ?_⟩ pid rfl
          rw [same]
          exact h.user_eq loggedIn
    · exact h
  · exact h

theorem wp_asking_dispatchLoggedIn {command : Option Command} {payload : Option CStr}
    (h : Known session g) (loggedIn : session.loggedIn = true) (received : g.command = command) :
    wp asking (dispatchLoggedIn server session command payload) (fun _ => Known session) g := by
  have quiet : ∀ {p : Sys Unit}, p.Calls Anonymous → wp asking p (fun _ => Known session) g :=
    fun calls => wp_anonymous calls fun _ _ same => h.of_user same
  unfold dispatchLoggedIn
  split
  · exact quiet (calls_within rfl)
  · exact quiet (calls_within rfl)
  · exact wp_asking_dispatchTransferReq h loggedIn received
  · exact quiet (calls_within rfl)
  · exact quiet (calls_within rfl)
  · exact quiet (calls_within rfl)
  · exact quiet (calls_within rfl)
  · exact quiet (calls_within rfl)
  · exact quiet (calls_within rfl)
  · exact quiet (calls_within rfl)
  · exact quiet (calls_within rfl)
  · exact quiet (calls_within rfl)
  · exact quiet (calls_within rfl)
  · exact quiet (calls_within rfl)

theorem wp_asking_dispatchLogin {payload : Option CStr} (h : Known session g) :
    wp asking (dispatchLogin server session payload) Known g := by
  refine wp_bind.mpr (wp_neutral (calls_within rfl) fun parsed => ?_)
  split
  · rename_i loginCommand
    rw [wp_ite]
    refine ⟨fun _ => wp_bind.mpr (wp_neutral (calls_within rfl) fun _ => h), fun loggedOut => ?_⟩
    rw [wp_ite]
    refine ⟨fun _ => wp_bind.mpr (wp_neutral (calls_within rfl) fun _ => h), fun _ => ?_⟩
    have out : session.loggedIn = false := by simpa using loggedOut
    refine wp_bind.mpr (handleLogin_outcome (fun _ => True)
      (fun g c mine _ => ⟨?_, fun _ => trivial⟩) trivial out fun r g _ outcome => ?_)
    · cases c with
      | shared c => exact absurd mine id
      | _ => trivial
    obtain ⟨result, entered⟩ := r
    cases result with
    | error msg =>
      have after : entered.loggedIn = false := outcome.failed msg rfl
      refine wp_bind.mpr (wp_neutral (calls_within rfl) fun _ => ?_)
      exact ⟨by simp [after], by simp [after]⟩
    | ok =>
      obtain ⟨loggedIn, user⟩ : entered.loggedIn = true ∧ entered.user = _ := outcome.succeeded rfl
      have fits : entered.user.length ≤ 31 := by
        have := snprintf_length_lt loginCommand.buf (show 0 < 32 by decide)
        have name : entered.user.length = (snprintf 32 loginCommand.buf).length := by rw [← user]
        omega
      refine wp_bind.mpr (wp_neutral (calls_within rfl) fun _ => ?_)
      refine wp_call trivial fun _ _ => wp_call trivial fun found _ => ?_
      refine wp_bind.mpr (wp_anonymous (calls_within rfl) fun _ g' same => ?_)
      exact ⟨fun _ => same, fun _ => fits⟩
  · exact h

theorem wp_asking_dispatch {packet : Network.Packet} (h : Known session g)
    (received : g.command = Command.ofCode packet.command) :
    wp asking (dispatch server session packet) Known g := by
  unfold dispatch
  dsimp only
  split
  · exact wp_asking_dispatchLogin h
  split
  · refine wp_bind.mpr (wp_anonymous (calls_within rfl) ?_)
    exact fun _ _ same => h.of_user same
  split
  · exact wp_bind.mpr (wp_neutral (calls_within rfl) fun _ => h)
  · rename_i loggedIn
    exact wp_bind.mpr (wp_asking_dispatchLoggedIn h (by simpa using loggedIn) received)

theorem wp_asking_serveClient (server : Server) (clientSocket : Int) (g : Asker) :
    wp asking (serveClient server clientSocket) (fun _ _ => True) g := by
  refine wp_bind.mpr (wp_anonymous (calls_within rfl) fun dropped g _ => ?_)
  split
  · exact wp_anonymous (calls_within rfl) fun _ _ _ => trivial
  have connected : Known { rootPath := snprintf PATH_MAX server.rootDirectory } g :=
    ⟨by simp, by simp⟩
  have closing : ∀ (session : Session) (g : Asker), wp asking (do
      when (session.loggedIn = true) do
        let _ ← sharedCall (.requestsSetFailed session.user)
      when (0 ≤ session.notifyFd) do
        let _ ← fileCall (.close session.notifyFd)
        let _ ← userCall (.seteuid 0)
        let _ ← fileCall (.unlink (sessionFifoPath session.rootPath server.pid)))
      (fun _ => wp asking (do let _ ← fileCall (.close clientSocket)) fun _ _ => True) g := by
    intro session g
    exact wp_anonymous (calls_within rfl) fun _ _ _ => wp_anonymous (calls_within rfl) fun _ _ _ => trivial
  refine wp_bind.mpr (wp_bind.mpr (wp_mono ?_ fun session g (_ : Known session g) => closing session g))
  apply wp_iterate Known
  · exact connected
  intro session g h
  refine wp_call trivial ?_
  rintro (e | ready) -
  · dsimp only
    split
    · exact h
    · exact h
  dsimp only
  rw [wp_bind]
  have received : wp asking
      (if clientSocket ∈ ready then receiveCommand server session else pure (some session))
      (fun received => Known (received.getD session)) g := by
    rw [wp_ite]
    refine ⟨fun _ => ?_, fun _ => h⟩
    refine wp_call trivial ?_
    rintro (_ | packet) -
    · exact h.of_user rfl
    · exact wp_bind.mpr (wp_asking_dispatch (h.of_user rfl) rfl)
  refine wp_mono received ?_
  rintro (_ | session) g known
  · exact known
  dsimp only
  split
  · refine wp_bind.mpr (wp_neutral (calls_within rfl) fun stillOpen => ?_)
    split
    · exact known
    · exact known
  · exact known

end commands

def ToOthers (mem : SharedMemory) : Prop :=
  ∀ e ∈ mem.pendingRequestsTable.live, e.sourceUsername ≠ e.destUsername

section table

variable {sem : SemResult} {mem : SharedMemory}

theorem ToOthers.add {src dest path : CStr} (h : ToOthers mem)
    (other : usernameField src ≠ usernameField dest) :
    ToOthers (shmRequestAdd sem mem src dest path).2 := by
  unfold shmRequestAdd
  split
  · exact h
  · dsimp only
    split
    · rename_i slots stored
      intro e member
      rcases SlotTable.store_eq_some stored with ⟨before, a, after, split, -, split'⟩ | ⟨-, split'⟩
      · simp only [split', List.mem_append, List.mem_cons] at member
        rcases member with old | rfl | old
        · exact h e (by simp [split, old])
        · exact other
        · exact h e (by simp [split, old])
      · simp only [split', List.mem_append, List.mem_singleton] at member
        rcases member with old | rfl
        · exact h e old
        · exact other
    · exact h

theorem ToOthers.put {p : TransferRequestEntry → Bool} {i : Nat} {entry : TransferRequestEntry}
    {st : RequestStatus} (h : ToOthers mem)
    (found : mem.pendingRequestsTable.first p = some (i, entry)) :
    ToOthers { mem with pendingRequestsTable :=
      ⟨mem.pendingRequestsTable.put i { entry with status := st }, mem.pendingRequestsTable.nextId⟩ } := by
  obtain ⟨before, after, split, -, -, -⟩ := SlotTable.first_eq_some found
  intro e member
  simp only [SlotTable.live_put] at member
  rcases List.mem_or_eq_of_mem_set member with old | rfl
  · exact h e old
  · exact h entry (by simp [split])

theorem ToOthers.take {id : Int} {user : CStr} {st : RequestStatus} (h : ToOthers mem) :
    ToOthers (shmRequestTake sem mem id user st).2.2 := by
  unfold shmRequestTake
  split
  · exact h
  · dsimp only
    split
    · exact h
    · rename_i i entry found
      split
      · exact h
      · split
        · exact h
        · exact h.put found

theorem ToOthers.set {id : Int} {st : RequestStatus} (h : ToOthers mem) :
    ToOthers (shmRequestSet sem mem id st).2 := by
  unfold shmRequestSet
  split
  · exact h
  · dsimp only
    split
    · exact h
    · rename_i i entry found
      exact h.put found

theorem ToOthers.setFailed {user : CStr} (h : ToOthers mem) :
    ToOthers (shmRequestsSetFailed sem mem user).2 := by
  cases sem with
  | error err => exact h
  | ok =>
    intro e member
    simp only [shmRequestsSetFailed, SlotTable.live_mapLive, List.mem_map] at member
    obtain ⟨old, there, rfl⟩ := member
    split
    · exact h old there
    · exact h old there

theorem ToOthers.step {pid : Int} {c : Call} {choice : Choice} {s s' : State} {r : c.Reply}
    {g : Asker} (h : ToOthers s.mem) (allowed : asking.allowed g c)
    (done : machine pid c choice s = some (r, s')) : ToOthers s'.mem := by
  by_cases shared : ∃ q, c = .shared q
  · obtain ⟨q, rfl⟩ := shared
    have result := machine_shared done
    cases q with
    | requestAdd src dest path =>
      simp only [execShared, Prod.mk.injEq] at result
      rw [← result.2]
      exact h.add allowed
    | requestTake id user st =>
      simp only [execShared, Prod.mk.injEq] at result
      rw [← result.2]
      exact h.take
    | requestSet id st =>
      simp only [execShared, Prod.mk.injEq] at result
      rw [← result.2]
      exact h.set
    | requestsSetFailed user =>
      simp only [execShared, Prod.mk.injEq] at result
      rw [← result.2]
      exact h.setFailed
    | sessionAdd user sessionPid =>
      simp only [execShared, Prod.mk.injEq] at result
      rw [← result.2]
      cases choice.sem with
      | error err => exact h
      | ok =>
        simp only [shmSessionAdd]
        split
        · exact h
        · exact h
    | sessionsCollectStale =>
      simp only [execShared, Prod.mk.injEq] at result
      rw [← result.2]
      cases choice.sem with
      | error err => exact h
      | ok => exact h
    | _ =>
      cases result
      exact h
  · rw [machine_other (fun q same => shared ⟨q, same⟩) done]
    exact h

end table

section server

variable {server : Server} {mainPid : Int} {clientSocket : Int → Int} {c : Config}

theorem start_asking (server : Server) (mainPid : Int) (clientSocket : Int → Int) :
    Disciplined asking (fun _ => {}) (start server mainPid clientSocket) := by
  intro pid
  by_cases main : pid = mainPid
  · simp only [start, if_pos main, ghostOf_nil]
    exact wp_anonymous (Calls.iterate fun _ => calls_within rfl) fun _ _ _ => trivial
  · simp only [start, if_neg main, ghostOf_nil]
    exact wp_asking_serveClient _ _ _

theorem find_unlisted {sem : SemResult} {mem : SharedMemory} {dest : CStr}
    (unlisted : sem = .ok () →
      ∀ entry ∈ mem.sessionTable.live, entry.username = dest → entry.inUse = false) (pid : Int) :
    (shmSessionFind sem mem dest).2 ≠ some (pid, true) := by
  cases sem with
  | error err => simp [shmSessionFind]
  | ok =>
    simp only [shmSessionFind]
    split
    · rename_i i entry found
      obtain ⟨before, after, split, name, -, -⟩ := SlotTable.first_eq_some found
      have unused := unlisted rfl entry (by simp [split]) (of_decide_eq_true name)
      simp [unused]
    · simp

theorem expected_of_unlisted (h : Reaches machine (start server mainPid clientSocket) c)
    (unlisted : Every Unlisted c.log) : Every (fun before e =>
      asking.expects (ghostOf asking (fun _ => {}) e.act.pid before) e.act.call e.act.reply) c.log := by
  intro before e after split
  obtain ⟨-, -, -, done⟩ := (server_trace h).2.every before e after split
  have here := unlisted before e after split
  obtain ⟨⟨pid, q, r⟩, choice, s, s'⟩ := e
  cases q with
  | shared q =>
    cases q with
    | sessionFind dest =>
      intro asks
      have result := machine_shared done
      simp only [execShared, Prod.mk.injEq] at result
      rw [← result.1]
      exact find_unlisted (here dest rfl asks)
    | _ => trivial
  | _ => trivial

theorem toOthers_of_trace {log : Log} {t : State}
    (trace : Trace asking (fun _ => {}) machine setupState log t) : ToOthers t.mem := by
  induction trace with
  | nil =>
    intro e member
    cases member
  | snoc _ allowed _ done ih => exact ih.step allowed done

/-- In a run in which no session asks for its own user while the table lists it, no request has the
same source and destination. -/
theorem requests_to_others (h : Reaches machine (start server mainPid clientSocket) c)
    (unlisted : Every Unlisted c.log) :
    ∀ e ∈ c.state.mem.pendingRequestsTable.live, e.sourceUsername ≠ e.destUsername := by
  obtain ⟨-, trace⟩ := (start_asking server mainPid clientSocket).reaches_expected rfl h
    (expected_of_unlisted h unlisted)
  exact toOthers_of_trace trace

end server

def asksOthers (before : Log) (e : Event) : Bool :=
  match e.act.call with
  | .shared (.sessionFind dest) => !(ghostOf asking (fun _ => {}) e.act.pid before).AsksItself dest
  | _ => true

theorem unlisted_of_asksOthers (before : Log) (e : Event) (h : asksOthers before e = true) :
    Unlisted before e := by
  intro dest lookup asks
  rw [asksOthers, lookup] at h
  simp [asks] at h

theorem requests_to_others_bob :
    ∃ c, Reaches machine (start calmServer 1 fun _ => 3) c ∧
      c.state.mem.pendingRequestsTable.live.length = 1 ∧
      ∀ e ∈ c.state.mem.pendingRequestsTable.live, e.sourceUsername ≠ e.destUsername := by
  have ran : (run machine (acceptedTransfer.take 3) (start calmServer 1 fun _ => 3)).any
      (fun c => decide (c.state.mem.pendingRequestsTable.live.length = 1 ∧
        everyFrom asksOthers [] c.log = true)) = true := by
    decide +kernel
  obtain ⟨c, reaches, entered, others⟩ := exists_of_run _ ran
  exact ⟨c, reaches, entered,
    requests_to_others reaches (every_of_everyFrom unlisted_of_asksOthers others)⟩

def selfTransfer : List (Int × Choice × Nat) :=
  [(2, calm (cstr "alice") (line .login "login alice"), 23),
    (2, calm (cstr "alice") (line .transferReq "transfer_request note alice"), 13)]

/-- Alice is online, so nothing stops her. -/
theorem self_transfer_entered : ¬ ∀ {server : Server} {mainPid : Int} {clientSocket : Int → Int}
    {c : Config}, Reaches machine (start server mainPid clientSocket) c →
    ∀ e ∈ c.state.mem.pendingRequestsTable.live, e.sourceUsername ≠ e.destUsername := by
  intro all
  have ran : (run machine selfTransfer (start calmServer 1 fun _ => 3)).any (fun c => decide
      (c.state.mem.pendingRequestsTable.live.map (fun e => (e.sourceUsername, e.destUsername)) =
        [(cstr "alice", cstr "alice")])) = true := by
    decide +kernel
  obtain ⟨c, reaches, entered⟩ := exists_of_run
    (fun c : Config => c.state.mem.pendingRequestsTable.live.map
      (fun e => (e.sourceUsername, e.destUsername)) = [(cstr "alice", cstr "alice")]) ran
  have entry : (cstr "alice", cstr "alice") ∈ c.state.mem.pendingRequestsTable.live.map
      (fun e => (e.sourceUsername, e.destUsername)) := by
    rw [entered]
    exact List.mem_singleton.mpr rfl
  obtain ⟨e, member, same⟩ := List.mem_map.mp entry
  obtain ⟨source, dest⟩ := Prod.mk.inj same
  exact all reaches e member (source.trans dest.symm)


end Csap.Sessions
