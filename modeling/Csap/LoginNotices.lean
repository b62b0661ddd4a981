import Csap.NoticeBuffers
import Csap.Pipe
import Csap.ServerRuns

/-! The requests a session announces to itself when its user logs in. Nobody reads its fifo before
all of them have been written. -/

namespace Csap.LoginNotices

open Prog NoticeBuffers

/-- What a fifo holds, and what a write of up to `PIPE_BUF` bytes puts in as a whole. -/
def FIFO_SIZE : Nat := 65536

def PIPE_BUF : Nat := 4096

/-- The fifo the process has made, the descriptor that `notify_pid` has open on it, and the lines
in it; `denied` once the semaphore or the fifo could not be had for a line. -/
structure Mailbox where
  fifo : Option CStr := none
  writer : Option Int := none
  lines : List CStr := []
  denied : Bool := false
deriving DecidableEq, Repr

def waiting (mem : SharedMemory) (user : CStr) : List TransferRequestEntry :=
  mem.pendingRequestsTable.live.filter (·.waitsFor user)

def announcement (e : TransferRequestEntry) : CStr :=
  (Notification.req e.id (pathBasename (NAME_MAX + 1) e.filePathAbsolute)).text

/-- A write to the fifo that does not fit is refused; the table is as it is when the user logs in. -/
def answers (mem : SharedMemory) (g : Mailbox) : (c : Call) → c.Reply → Bool
  | .file (.write fd data), r => !(g.writer = some fd && data.length ≤ PIPE_BUF) ||
      r = (if Pipe.Fits FIFO_SIZE g.lines data then .ok data.length else .error EAGAIN)
  | .shared (.requestsForDest user max), r =>
      r = shmRequestsForDest (.ok ()) mem user max || (r.1 < 0 && r.2 = [])
  | _, _ => true

def after (mem : SharedMemory) (g : Mailbox) : (c : Call) → c.Reply → Mailbox
  | .file (.mkfifo path _), .ok _ => { g with fifo := some path, lines := [] }
  | .file (.openPath path flags _), .ok fd =>
    if flags = notifyFlags ∧ g.fifo = some path then { g with writer := some fd } else g
  | .file (.openPath _ flags _), .error _ =>
    if flags = notifyFlags then { g with denied := true } else g
  | .file (.write fd data), .ok _ =>
    if g.writer = some fd then { g with lines := g.lines ++ [data] } else g
  | .file (.close fd), _ => if g.writer = some fd then { g with writer := none } else g
  | .shared (.requestsForDest user _), found =>
    if found.1 < 0 ∧ waiting mem user ≠ [] then { g with denied := true } else g
  | _, _ => g

def mailing (mem : SharedMemory) : Typestate Call.Reply Mailbox where
  allowed _ _ := True
  expects g c r := answers mem g c r = true
  next := after mem

instance (mem : SharedMemory) (g : Mailbox) (c : Call) (r : c.Reply) :
    Decidable ((mailing mem).expects g c r) :=
  inferInstanceAs (Decidable (_ = true))

/-- The fifo holds one announcement for each of the user's waiting requests. -/
def AllAnnounced (mem : SharedMemory) (user : CStr) (g : Mailbox) : Prop :=
  g.lines.Perm ((waiting mem user).map announcement)

section announcing

variable {mem : SharedMemory} {g : Mailbox} {α : Type} {path : CStr} {fd : Int}

/-- Calls that have nothing to do with the fifo, as long as no notification is being written. -/
@[reducible] def Elsewhere : Call → Prop
  | .file (.mkfifo _ _) => False
  | .file (.openPath _ flags _) => flags ≠ notifyFlags
  | .shared (.requestsForDest _ _) => False
  | _ => True

instance elsewhere_judged : Judged Elsewhere :=
  .avoiding [.mkfifo, .openPath notifyFlags, .requestsForDest] <| by
    rintro (c | c | c | c | c | c) <;> cases c <;> simp

theorem wp_elsewhere {p : Sys α} {Q : α → Mailbox → Prop} (elsewhere : p.Calls Elsewhere)
    (idle : g.writer = none) (hQ : ∀ a, Q a g) : wp (mailing mem) p Q g := by
  apply elsewhere.wp ?_ hQ
  intro c other
  refine ⟨trivial, ?_⟩
  intro r
  have unopened : ∀ fd, g.writer ≠ some fd := by
    intro fd same
    rw [idle] at same
    cases same
  cases c with
  | file c =>
    cases c with
    | mkfifo path mode => exact absurd other id
    | openPath path flags mode =>
      cases r with
      | error e => exact if_neg other
      | ok fd => exact if_neg fun same => other same.1
    | write fd data =>
      cases r with
      | error e => rfl
      | ok written => exact if_neg (unopened fd)
    | close fd => exact if_neg (unopened fd)
    | _ => rfl
  | shared c =>
    cases c with
    | requestsForDest user max => exact absurd other id
    | _ => rfl
  | _ => rfl

/-- What `write_all` leaves in the fifo. -/
def written (g : Mailbox) (line : CStr) : Mailbox :=
  if Pipe.Fits FIFO_SIZE g.lines line then { g with lines := g.lines ++ [line] } else g

theorem wp_writeAll {line : CStr} {Q : SysResult Unit → Mailbox → Prop} (open_ : g.writer = some fd)
    (some_ : line ≠ []) (short : line.length ≤ PIPE_BUF) (hQ : ∀ r, Q r (written g line)) :
    wp (mailing mem) (writeAll fd line) Q g := by
  -- the first write puts the line in as a whole, or fails
  apply wp_iterate fun remaining g' =>
    (g' = g ∧ remaining = line) ∨ (g' = written g line ∧ remaining = [])
  · exact .inl ⟨rfl, rfl⟩
  intro remaining g' state
  apply wp_ite.mpr
  rcases state with ⟨rfl, rfl⟩ | ⟨rfl, rfl⟩
  · refine ⟨fun empty => absurd empty some_, fun _ => ?_⟩
    apply wp_call trivial
    intro r may
    have result : r = if Pipe.Fits FIFO_SIZE g'.lines remaining then .ok remaining.length
        else .error EAGAIN := by
      simpa [mailing, answers, open_, short] using may
    by_cases fits : Pipe.Fits FIFO_SIZE g'.lines remaining
    · rw [if_pos fits] at result
      subst result
      refine .inr ⟨?_, List.drop_length⟩
      rw [written, if_pos fits]
      exact if_pos open_
    · rw [if_neg fits] at result
      subst result
      apply wp_ite.mpr
      refine ⟨fun wrong => absurd wrong (by decide), fun _ => ?_⟩
      have same := hQ (.error EAGAIN)
      rw [written, if_neg fits] at same
      exact same
  · exact ⟨fun _ => hQ _, fun wrong => absurd rfl wrong⟩

theorem announcement_short {e : TransferRequestEntry} (id : IsInt e.id) :
    (announcement e).length ≤ PIPE_BUF := by
  have number := decimal_length_le id
  have name := pathBasename_length e.filePathAbsolute
  have words : (cstr "REQ|").length = 4 ∧ (cstr "|").length = 1 := by decide
  have sizes : NAME_MAX = 255 ∧ PIPE_BUF = 4096 := ⟨rfl, rfl⟩
  simp only [announcement, Notification.text, List.length_append, List.length_singleton]
  omega

/-- The fifo belongs to the session, and so many requests have been announced. -/
structure Announcing (path : CStr) (done : List TransferRequestEntry) (g : Mailbox) : Prop where
  fifo_eq : g.fifo = some path
  idle : g.writer = none
  holds : Pipe.Holds FIFO_SIZE (done.map announcement) g.lines (g.denied = true)

variable {root : CStr} {pid : Int} {done : List TransferRequestEntry} {e : TransferRequestEntry}

theorem written_writer {line : CStr} : (written g line).writer = g.writer := by
  unfold written
  split <;> rfl

theorem Announcing.write (h : Announcing path done g) :
    Announcing path (done ++ [e])
      { written { g with writer := some fd } (announcement e) with writer := none } := by
  have one : (done ++ [e]).map announcement = done.map announcement ++ [announcement e] := by simp
  unfold written
  dsimp only
  split
  · rename_i fits
    refine ⟨h.fifo_eq, rfl, ?_⟩
    rw [one]
    exact h.holds.accept fits
  · rename_i full
    refine ⟨h.fifo_eq, rfl, ?_⟩
    rw [one]
    exact h.holds.refuse full

theorem Announcing.deny (h : Announcing path done g) {rest : List TransferRequestEntry}
    (some_ : rest ≠ []) : Announcing path (done ++ rest) { g with denied := true } := by
  refine ⟨h.fifo_eq, h.idle, ?_⟩
  have more : rest.map announcement ≠ [] := by simpa using some_
  simpa using h.holds.deny more

theorem wp_notifyPid {Q : SysResult Unit → Mailbox → Prop} (id : IsInt e.id)
    (h : Announcing (sessionFifoPath root pid) done g)
    (hQ : ∀ r g, Announcing (sessionFifoPath root pid) (done ++ [e]) g → Q r g) :
    wp (mailing mem) (notifyPid root pid (announcement e)) Q g := by
  apply wp_call trivial
  intro r _
  cases r with
  | error err =>
    apply hQ
    change Announcing _ _ (if notifyFlags = notifyFlags then { g with denied := true } else g)
    rw [if_pos rfl]
    exact h.deny (List.cons_ne_nil e [])
  | ok fd =>
    have opened : after mem g (.file (.openPath (sessionFifoPath root pid) notifyFlags 0)) (.ok fd) =
        { g with writer := some fd } := if_pos ⟨rfl, h.fifo_eq⟩
    change wp _ (writeAll fd (announcement e) >>= _) _
      (after mem g (.file (.openPath _ notifyFlags 0)) (.ok fd))
    rw [opened]
    apply wp_bind.mpr
    apply wp_writeAll rfl (Notification.text_ne_nil _) (announcement_short id)
    intro r
    apply wp_call trivial
    intro _ _
    apply hQ
    have mine : (written { g with writer := some fd } (announcement e)).writer = some fd :=
      written_writer
    change Announcing _ _ (if (written { g with writer := some fd } (announcement e)).writer =
      some fd then _ else _)
    rw [if_pos mine]
    exact h.write

theorem wp_notifyWaiting {server : Server} {Q : Unit → Mailbox → Prop}
    (requests : List TransferRequestEntry) (ids : ∀ e ∈ requests, IsInt e.id)
    (h : Announcing (sessionFifoPath root server.pid) done g)
    (hQ : ∀ g, Announcing (sessionFifoPath root server.pid) (done ++ requests) g → Q () g) :
    wp (mailing mem) (notifyWaiting server root requests) Q g := by
  induction requests generalizing g done with
  | nil =>
    rw [List.append_nil] at hQ
    exact hQ g h
  | cons e rest ih =>
    apply wp_bind.mpr
    apply wp_notifyPid (ids e List.mem_cons_self) h
    intro _ g h
    apply ih (fun x member => ids x (List.mem_cons_of_mem e member)) h
    simpa using hQ

end announcing

section login

theorem wp_any {mem : SharedMemory} {g : Mailbox} {α : Type} {p : Sys α} {Q : α → Mailbox → Prop}
    (hQ : ∀ a g, Q a g) : wp (mailing mem) p Q g :=
  (Calls.trivial p).wp_free (fun _ _ _ => trivial) hQ

variable {mem : SharedMemory} {g : Mailbox} {server : Server} {session : Session}

def Entered (server : Server) (root : CStr) (r : Except CStr Unit × Session) (g : Mailbox) : Prop :=
  (r.1.isOk = false → r.2.loggedIn = false) ∧
    (r.1.isOk = true → r.2.rootPath = root ∧ Announcing (sessionFifoPath root server.pid) [] g)

theorem wp_handleLogin {username : CStr} (loggedOut : session.loggedIn = false)
    (idle : g.writer = none) (asked : g.denied = false) :
    wp (mailing mem) (handleLogin server session username) (Entered server session.rootPath) g := by
  have refused : ∀ {msg : CStr} {session' : Session} {g : Mailbox}, session'.loggedIn = false →
      Entered server session.rootPath (errText 255 msg, session') g := by
    intro msg session' g out
    refine ⟨fun _ => out, ?_⟩
    intro impossible
    cases impossible
  have aborted : ∀ {nFd fifoName msg} {g : Mailbox}, g.writer = none →
      wp (mailing mem) (loginFailed server session nFd fifoName msg)
        (Entered server session.rootPath) g := by
    intro nFd fifoName msg g idle
    unfold loginFailed
    apply wp_bind.mpr
    refine wp_elsewhere (calls_within rfl) idle ?_
    intro _
    apply wp_bind.mpr
    apply wp_elsewhere (calls_within rfl) idle
    intro _
    apply wp_bind.mpr
    apply wp_elsewhere (calls_within rfl) idle
    intro euid
    apply wp_bind.mpr
    exact wp_elsewhere (calls_within rfl) idle fun _ => refused rfl
  unfold handleLogin
  apply wp_bind.mpr
  apply wp_elsewhere (calls_within rfl) idle
  intro pwd
  cases pwd with
  | none => exact refused loggedOut
  | some pwd =>
  apply wp_ite.mpr
  refine ⟨fun _ => refused loggedOut, fun _ => ?_⟩
  apply wp_bind.mpr
  apply wp_elsewhere (calls_within rfl) idle
  intro resolved
  obtain ⟨_ | _, resolvedHome⟩ := resolved
  · exact refused loggedOut
  apply wp_bind.mpr
  apply wp_elsewhere (calls_within rfl) idle
  intro st
  apply wp_ite.mpr
  refine ⟨fun _ => refused loggedOut, fun _ => ?_⟩
  apply wp_bind.mpr
  apply wp_elsewhere (calls_within rfl) idle
  intro raised
  cases raised with
  | error e => exact refused loggedOut
  | ok _ =>
  apply wp_bind.mpr
  apply wp_elsewhere (calls_within rfl) idle
  intro removed
  apply wp_call trivial
  intro made _
  cases made with
  | error e => exact aborted idle
  | ok _ =>
  have announcing : Announcing (sessionFifoPath session.rootPath server.pid) []
      { g with fifo := some (sessionFifoPath session.rootPath server.pid), lines := [] } := by
    refine ⟨rfl, idle, ?_⟩
    apply Pipe.Holds.empty
    rw [asked]
    exact Bool.false_ne_true
  change wp (mailing mem) _ _
    { g with fifo := some (sessionFifoPath session.rootPath server.pid), lines := [] }
  repeat' with_reducible first
    | exact aborted idle
    | refine wp_bind.mpr (wp_elsewhere (calls_within rfl) idle fun _ => ?_)
    | split

  refine ⟨fun impossible => ?_, fun _ => ⟨rfl, announcing⟩⟩
  cases impossible

theorem waiting_eq {user : CStr} :
    shmRequestsForDest (.ok ()) mem user MAX_ENTRIES =
      (((waiting mem user).length : Int), waiting mem user) := by
  have few : (waiting mem user).length ≤ MAX_ENTRIES := by
    apply (List.length_filter_le _ _).trans
    rw [SlotTable.length_live]
    exact mem.pendingRequestsTable.count_le
  have all : (waiting mem user).take MAX_ENTRIES = waiting mem user := List.take_of_length_le few
  simp only [shmRequestsForDest, Int.toNat_natCast]
  exact congrArg (fun l => ((l.length : Int), l)) all

theorem next_found {user : CStr} {max : Int} {found : Int × List TransferRequestEntry} :
    (mailing mem).next g (.shared (.requestsForDest user max)) found =
      if found.1 < 0 ∧ waiting mem user ≠ [] then { g with denied := true } else g :=
  rfl

/-- Everything is announced, or what has to fit into the fifo does not, or was not put to it. -/
def Judged (mem : SharedMemory) (session : Session) (g : Mailbox) : Prop :=
  session.loggedIn = true → (AllAnnounced mem session.user g ↔ g.denied = false ∧
    Pipe.size ((waiting mem session.user).map announcement) ≤ FIFO_SIZE)

theorem Announcing.judged {path : CStr} {session : Session}
    (h : Announcing path (waiting mem session.user) g) : Judged mem session g := by
  intro _
  rw [← Bool.not_eq_true]
  exact h.holds.perm_iff

theorem wp_dispatchLogin {payload : Option CStr} (ids : ∀ e ∈ mem.pendingRequestsTable.live, IsInt e.id)
    (loggedOut : session.loggedIn = false) :
    wp (mailing mem) (dispatchLogin server session payload) (Judged mem) {} := by
  have outside : ∀ {g : Mailbox}, Judged mem session g := by
    intro g inside
    rw [loggedOut] at inside
    cases inside
  unfold dispatchLogin
  apply wp_bind.mpr
  apply wp_elsewhere (calls_within rfl) rfl
  intro loginCommand
  cases loginCommand with
  | none => exact outside
  | some loginCommand =>
  apply wp_ite.mpr
  refine ⟨fun inside => absurd (loggedOut.symm.trans inside) Bool.false_ne_true, fun _ => ?_⟩
  apply wp_ite.mpr
  constructor
  · intro _
    apply wp_bind.mpr
    exact wp_elsewhere (calls_within rfl) rfl fun _ => outside
  intro _
  apply wp_bind.mpr
  apply wp_mono (wp_handleLogin loggedOut rfl rfl)
  intro r g entered
  obtain ⟨result, session'⟩ := r
  obtain ⟨failed, succeeded⟩ := entered
  cases result with
  | error errorMsg =>
    apply wp_bind.mpr
    apply wp_any
    intro _ _ inside
    exact absurd (failed rfl) (by simp [inside])
  | ok _ =>
  obtain ⟨root_eq, h⟩ := succeeded rfl
  dsimp only at root_eq
  rw [← root_eq] at h
  apply wp_bind.mpr
  apply wp_elsewhere (calls_within rfl) h.idle
  intro _
  apply wp_bind.mpr
  apply wp_elsewhere (calls_within rfl) h.idle
  intro _
  apply wp_call trivial
  intro found may
  obtain ⟨count, requests⟩ := found
  have answer : (count, requests) = shmRequestsForDest (.ok ()) mem session'.user MAX_ENTRIES ∨
      count < 0 ∧ requests = [] := by
    simpa [mailing, answers] using may
  have finish : ∀ {g : Mailbox} {done requests},
      Announcing (sessionFifoPath session'.rootPath server.pid) done g →
      done ++ requests = waiting mem session'.user →
      wp (mailing mem) (notifyWaiting server session'.rootPath requests >>= fun _ => pure session')
        (Judged mem) g := by
    intro g done requests h all
    apply wp_bind.mpr
    apply wp_notifyWaiting requests ?_ h
    · intro g h
      rw [all] at h
      exact h.judged
    · intro e member
      have found : e ∈ waiting mem session'.user := by
        rw [← all]
        exact List.mem_append_right done member
      exact ids e (List.mem_of_mem_filter found)
  rcases answer with same | ⟨negative, rfl⟩
  · rw [waiting_eq] at same
    obtain ⟨rfl, rfl⟩ := Prod.mk.inj same
    have asked : ¬(((waiting mem session'.user).length : Int) < 0 ∧ waiting mem session'.user ≠ []) := by
      omega
    rw [next_found, if_neg asked]
    exact finish h (List.nil_append _)
  · by_cases none_ : waiting mem session'.user = []
    · rw [next_found, if_neg fun both => both.2 none_]
      exact finish h none_.symm
    · rw [next_found, if_pos ⟨negative, none_⟩]
      exact finish (h.deny none_) (List.append_nil _)

/-- A login that succeeds announces every request that waits for the user exactly if the lines of
all of them fit into the fifo together, and neither the table nor the fifo was refused. -/
theorem login_announces {packet : Network.Packet} (ids : ∀ e ∈ mem.pendingRequestsTable.live, IsInt e.id)
    (loggedOut : session.loggedIn = false) :
    wp (mailing mem) (dispatch server session packet) (Judged mem) {} := by
  have outside : ∀ {g : Mailbox}, Judged mem session g := by
    intro g inside
    rw [loggedOut] at inside
    cases inside
  unfold dispatch
  dsimp only
  apply wp_ite.mpr
  refine ⟨fun _ => wp_dispatchLogin ids loggedOut, fun _ => ?_⟩
  apply wp_ite.mpr
  constructor
  · intro _
    apply wp_bind.mpr
    exact wp_any fun _ _ => outside
  intro _
  apply wp_ite.mpr
  constructor
  · intro _
    apply wp_bind.mpr
    exact wp_any fun _ _ => outside
  · intro inside
    rw [loggedOut] at inside
    exact absurd rfl inside

end login

section full

variable {mem : SharedMemory}

theorem step {g g' : Mailbox} {α : Type} {a : α} {c : Call} {k : c.Reply → Sys α} {r : c.Reply}
    (may : (mailing mem).expects g c r) (next : Ends (mailing mem) (k r) ((mailing mem).next g c r) a g') :
    Ends (mailing mem) (perform c >>= k) g a g' :=
  .call may next

theorem writeAll_ends {g : Mailbox} {fd : Int} {line : CStr} (open_ : g.writer = some fd)
    (some_ : line ≠ []) : ∃ r, Ends (mailing mem) (writeAll fd line) g r (written g line) := by
  have may : (mailing mem).expects g (.file (.write fd line))
      (if Pipe.Fits FIFO_SIZE g.lines line then .ok line.length else .error EAGAIN) := by
    simp [mailing, answers]
  by_cases fits : Pipe.Fits FIFO_SIZE g.lines line
  · rw [if_pos fits] at may
    have put : (mailing mem).next g (.file (.write fd line)) (.ok line.length) = written g line := by
      rw [written, if_pos fits]
      exact if_pos open_
    have emptied : Ends (mailing mem) (writeAll fd []) (written g line) (.ok ()) (written g line) := by
      apply Ends.exit
      rw [if_pos rfl]
      exact .ret _ _
    refine ⟨.ok (), Ends.again ?_ emptied⟩
    rw [if_neg some_]
    apply step may
    rw [put]
    dsimp only
    rw [List.drop_length]
    exact .ret _ _
  · rw [if_neg fits] at may
    refine ⟨.error EAGAIN, Ends.exit ?_⟩
    rw [if_neg some_, written, if_neg fits]
    apply step may
    dsimp only
    rw [if_neg (by decide)]
    exact .ret _ _

theorem notifyWaiting_ends {server : Server} {root : CStr} (requests : List TransferRequestEntry)
    {g : Mailbox} (fifo_eq : g.fifo = some (sessionFifoPath root server.pid)) :
    ∃ g', Ends (mailing mem) (notifyWaiting server root requests) g () g' ∧ g'.denied = g.denied := by
  induction requests generalizing g with
  | nil => exact ⟨g, .ret () g, rfl⟩
  | cons e rest ih =>
    have opened : (mailing mem).next g (.file (.openPath (sessionFifoPath root server.pid)
        { access := .wronly, nonblock := true } 0)) (.ok 9) = { g with writer := some 9 } :=
      if_pos ⟨rfl, fifo_eq⟩
    have put : ∃ r, Ends (mailing mem) (writeAll 9 (announcement e)) { g with writer := some 9 } r
        (written { g with writer := some 9 } (announcement e)) :=
      writeAll_ends rfl (Notification.text_ne_nil _)
    obtain ⟨r, put⟩ := put
    generalize after : written { g with writer := some 9 } (announcement e) = g₁ at put
    have kept : g₁.fifo = g.fifo ∧ g₁.denied = g.denied := by
      rw [← after, written]
      split <;> exact ⟨rfl, rfl⟩
    have closed : ((mailing mem).next g₁ (.file (.close 9)) (.ok ())).fifo = g₁.fifo ∧
        ((mailing mem).next g₁ (.file (.close 9)) (.ok ())).denied = g₁.denied := by
      change (if g₁.writer = some 9 then { g₁ with writer := none } else g₁).fifo = _ ∧
        (if g₁.writer = some 9 then { g₁ with writer := none } else g₁).denied = _
      split <;> exact ⟨rfl, rfl⟩
    have fifo : ((mailing mem).next g₁ (.file (.close 9)) (.ok ())).fifo =
        some (sessionFifoPath root server.pid) := by
      rw [closed.1, kept.1, fifo_eq]
    obtain ⟨g', others, same⟩ := ih fifo
    refine ⟨g', ?_, same.trans (closed.2.trans kept.2)⟩
    suffices notified : Ends (mailing mem) (notifyPid root server.pid (announcement e)) g r
        ((mailing mem).next g₁ (.file (.close 9)) (.ok ())) from notified.bind others
    have free : (mailing mem).expects g (.file (.openPath (sessionFifoPath root server.pid)
        { access := .wronly, nonblock := true } 0)) (.ok 9) := rfl
    apply step free
    rw [opened]
    apply Ends.bind put
    have free : (mailing mem).expects g₁ (.file (.close 9)) (.ok ()) := rfl
    exact step free (.ret r _)

def longPath : CStr := cstr "/srv/alice/" ++ List.replicate 60 97

def request (n : Nat) : TransferRequestEntry where
  id := n + 1
  sourceUsername := cstr "alice"
  destUsername := cstr "bob"
  filePathAbsolute := longPath

def requests : List TransferRequestEntry := (List.range MAX_ENTRIES).map request

theorem requests_length : requests.length = MAX_ENTRIES := by
  rw [requests, List.length_map, List.length_range]

/-- Alice has asked for as many transfers to bob as the table holds. -/
def fullTable : SharedMemory where
  sessionTable := SlotTable.zeroed {} MAX_ENTRIES
  pendingRequestsTable :=
    { entries := requests
      count := MAX_ENTRIES
      length_entries := requests_length
      count_le := Nat.le_refl _
      nextId := MAX_ENTRIES + 1 }

theorem live_full : fullTable.pendingRequestsTable.live = requests := by
  rw [SlotTable.live, fullTable]
  dsimp only
  exact List.take_of_length_le (Nat.le_of_eq requests_length)

theorem waiting_full : waiting fullTable (cstr "bob") = requests := by
  rw [waiting, live_full, List.filter_eq_self]
  intro e member
  obtain ⟨n, -, rfl⟩ := List.mem_map.mp member
  rfl

theorem ids_full : ∀ e ∈ fullTable.pendingRequestsTable.live, IsInt e.id := by
  rw [live_full]
  intro e member
  obtain ⟨n, small, rfl⟩ := List.mem_map.mp member
  have bound : n < 1024 := List.mem_range.mp small
  constructor
  · change -2 ^ 31 ≤ (n : Int) + 1
    omega
  · change (n : Int) + 1 < 2 ^ 31
    omega

theorem announcement_long (n : Nat) : 66 ≤ (announcement (request n)).length := by
  have words : (cstr "REQ|").length = 4 ∧ (cstr "|").length = 1 := by decide
  have name : (pathBasename (NAME_MAX + 1) longPath).length = 60 := by decide +kernel
  simp only [announcement, request, Notification.text, List.length_append, List.length_singleton]
  omega

theorem full_overflows : FIFO_SIZE < Pipe.size ((waiting fullTable (cstr "bob")).map announcement) := by
  have long : ∀ line ∈ requests.map announcement, 66 ≤ line.length := by
    intro line member
    obtain ⟨e, inside, rfl⟩ := List.mem_map.mp member
    obtain ⟨n, -, rfl⟩ := List.mem_map.mp inside
    exact announcement_long n
  have bound := Pipe.le_size long
  have slots : (requests.map announcement).length = 1024 := by
    rw [List.length_map]
    exact requests_length
  rw [waiting_full]
  have size : FIFO_SIZE = 65536 := rfl
  omega

def visitor : Session where
  rootPath := cstr "/srv"

def bobsLogin : Network.Packet where
  command := Command.login.code
  payload := cstr "login bob"

def bobsCommand : Cmd where
  code := .login
  argc := 1
  buf := cstr "bob"

def bobsSession : Session where
  rootPath := cstr "/srv"
  notifyFd := 7
  loggedIn := true
  uid := 1001
  user := cstr "bob"
  homePath := cstr "/srv/bob"

def bobsMailbox : Mailbox where
  fifo := some (sessionFifoPath (cstr "/srv") 0)

def grants (_ : Mailbox) : (c : Call) → c.Reply := (Sessions.calm (cstr "bob") none).reply

theorem login_announces_bob : wp (mailing fullTable) (dispatch Sessions.calmServer visitor bobsLogin)
    (Judged fullTable) {} :=
  login_announces ids_full rfl

/-- More requests wait for bob than his fifo holds. -/
theorem login_leaves_requests : ∃ session' g',
    Ends (mailing fullTable) (dispatch Sessions.calmServer visitor bobsLogin) {} session' g' ∧
      session'.loggedIn = true ∧ g'.denied = false ∧ ¬AllAnnounced fullTable session'.user g' := by
  have parsed : play (mailing fullTable) grants 20 (cmdParse (payloadText bobsLogin.payload)) {} =
      some (some bobsCommand, {}) := by
    decide +kernel
  have entered : play (mailing fullTable) grants 40
      (handleLogin Sessions.calmServer visitor (cstr "bob")) {} =
      some ((.ok (), bobsSession), bobsMailbox) := by
    decide +kernel
  have answered : play (mailing fullTable) grants 20
      (succeedWith (snprintf 128 (cstr "Logged in as " ++ bobsSession.user))) bobsMailbox =
      some ((), bobsMailbox) := by
    decide +kernel
  have asked : ¬(((waiting fullTable bobsSession.user).length : Int) < 0 ∧
      waiting fullTable bobsSession.user ≠ []) := by
    omega
  have announces : ∃ g', Ends (mailing fullTable) (notifyWaiting Sessions.calmServer bobsSession.rootPath
      (waiting fullTable bobsSession.user)) bobsMailbox () g' ∧ g'.denied = bobsMailbox.denied :=
    notifyWaiting_ends _ rfl
  obtain ⟨g', announced, denied⟩ := announces
  have login : dispatch Sessions.calmServer visitor bobsLogin =
      dispatchLogin Sessions.calmServer visitor (payloadText bobsLogin.payload) := by
    unfold dispatch
    dsimp only
    rw [if_pos (by decide)]
  have ends : Ends (mailing fullTable) (dispatchLogin Sessions.calmServer visitor
      (payloadText bobsLogin.payload)) {} bobsSession g' := by
    apply (ends_of_play parsed).bind
    dsimp only
    rw [if_neg (by decide), if_neg (by decide)]
    apply (ends_of_play entered).bind
    apply (ends_of_play answered).bind
    have free : (mailing fullTable).expects bobsMailbox
        (.shared (.sessionAdd bobsSession.user Sessions.calmServer.pid)) (0 : Int) := rfl
    apply step free
    have found : (mailing fullTable).expects bobsMailbox
        (.shared (.requestsForDest bobsSession.user MAX_ENTRIES))
        (shmRequestsForDest (.ok ()) fullTable bobsSession.user MAX_ENTRIES) := by
      simp [mailing, answers]
    apply step found
    rw [waiting_eq, next_found]
    dsimp only
    rw [if_neg asked]
    exact announced.bind (.ret bobsSession g')
  have judged := ends.of_wp (wp_dispatchLogin ids_full rfl) rfl
  refine ⟨bobsSession, g', login ▸ ends, rfl, denied, ?_⟩
  intro all
  exact absurd (judged.mp all).2 (Nat.not_le_of_lt full_overflows)

end full

end Csap.LoginNotices
