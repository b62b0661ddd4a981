import Csap.Background
import Csap.ClientTurns
import Csap.ServerRuns
import Csap.ServerTurns

/-! A client and the server's child that serves it, over one connection. They run side by side, and where
calls fail as the two sides can expect it, every packet is understood as it was meant. -/

namespace Csap.Lockstep

open Interleaving
open Turns
open Network (Packet)

structure Wire where
  toServer : List Packet := []
  toClient : List Packet := []
deriving DecidableEq

namespace Wire

def incoming (w : Wire) : Side → List Packet
  | .client => w.toClient
  | .server => w.toServer

def send (w : Wire) (packet : Packet) : Side → Wire
  | .client => { w with toServer := w.toServer ++ [packet] }
  | .server => { w with toClient := w.toClient ++ [packet] }

def leave (w : Wire) (rest : List Packet) : Side → Wire
  | .client => { w with toClient := rest }
  | .server => { w with toServer := rest }

end Wire

/-- What a call answers that the connection does not settle, and what is read after a frame that the
buffer has no room for. -/
structure Choice where
  reply : (c : ClientMain.Call) → Option c.Reply
  garbled : List Packet := []

/-- The connection stays open: who waits for a packet waits until there is one. -/
def machine : Machine ClientMain.Call.Reply Side Wire Choice := fun side c choice w =>
  match c with
  | .sys (.socket (.sendPacket command payload)) =>
    (choice.reply (.sys (.socket (.sendPacket command payload)))).map fun ret =>
      (ret, if ret < 0 then w else w.send ⟨command, payload⟩ side)
  | .sys (.socket .recvPacket) =>
    match w.incoming side with
    | [] => none
    | packet :: rest => some (some packet, w.leave rest side)
  | .sys (.socket (.recvFrameInto bufCap)) =>
    match w.incoming side with
    | [] => none
    | packet :: rest =>
      if bufCap < packet.payload.length then some (.error EIO, w.leave choice.garbled side)
      else some (.ok packet, w.leave rest side)
  | c => (choice.reply c).map fun r => (r, w)

abbrev Event := Interleaving.Event ClientMain.Call.Reply Side Wire Choice

abbrev Config := Interleaving.Config ClientMain.Call.Reply Side Wire Choice

/-- The client is the process of the user, or a child it has forked for the background. -/
def start (process : ClientMain.Process) (client : ClientMain.Client) (server : Server)
    (clientSocket : Int) : Config where
  state := {}
  procs
    | .client =>
      match process with
      | .parent => ClientMain.main client
      | .child _ => ClientMain.background client
    | .server => (serveClient server clientSocket).embed ClientMain.Call.sys
  log := []

def talk (side : Side) : Talk := ⟨side, .idle, []⟩

abbrev talkOf (side : Side) (log : List Event) : Talk := ghostOf calling talk side log

def carries : ClientMain.Call → Bool
  | .sys (.socket (.sendPacket _ _)) => true
  | .sys (.socket .recvPacket) => true
  | .sys (.socket (.recvFrameInto _)) => true
  | _ => false

def receives : ClientMain.Call → Bool
  | .sys (.socket .recvPacket) => true
  | .sys (.socket (.recvFrameInto _)) => true
  | _ => false

/-- What is not for the connection to settle is as the two sides can expect it: packets that are sent go
through, no `lseek` fails, and the lines of the session's fifo are those of `Talk.reads`. -/
def Calm (before : List Event) (e : Event) : Prop :=
  receives e.act.call = false → calling.expects (talkOf e.act.pid before) e.act.call e.act.reply

def packetOf : (c : ClientMain.Call) → c.Reply → Option Packet
  | .sys (.socket (.sendPacket command payload)), _ => some ⟨command, payload⟩
  | .sys (.socket .recvPacket), packet => packet
  | .sys (.socket (.recvFrameInto _)), .ok packet => some packet
  | _, _ => none

def Notice (packet : Packet) : Prop := packet.command = RSP_NOTIFY

instance : DecidablePred Notice := fun _ => inferInstanceAs (Decidable (_ = _))

/-- What one side has sent and received, in this order, but for the notices. -/
def said (side : Side) (log : List Event) : List Packet :=
  log.flatMap fun e =>
    if e.act.pid = side then (packetOf e.act.call e.act.reply).toList.filter (¬ Notice ·) else []

abbrev Place := Dialogue.Place Phase Packet

abbrev Letter := Dialogue.Letter Phase Packet

def place (side : Side) (log : List Event) : Place := ⟨(talkOf side log).phase, said side log⟩

/-- The letter's packet was sent by a side that was where the letter says. -/
def Posted (side : Side) (letter : Letter) (log : List Event) : Prop :=
  ∃ before e after, log = before ++ e :: after ∧ e.act.pid = side ∧ letter.place = place side before ∧
    e.act.call = .sys (.socket (.sendPacket letter.msg.command letter.msg.payload))

def Other : Side → Side
  | .client => .server
  | .server => .client

structure Agreed (log : List Event) (sent : Side → List Letter) (w : Wire) : Prop where
  toServer : (sent .client).map Dialogue.Letter.msg = w.toServer
  toClient : (sent .server).map Dialogue.Letter.msg = w.toClient
  agree : Dialogue.Agree (protocol.placed Notice) (place .client log) (place .server log) (sent .client)
    (sent .server)
  posted : ∀ side, ∀ letter ∈ sent side, Posted side letter log

section steps

variable {side : Side} {g : Talk} {w w' : Wire} {choice : Choice} {c : ClientMain.Call} {r : c.Reply}
  {log : List Event} {e : Event} {sent : Side → List Letter} {packet : Packet} {rest : List Packet}
  {p : Phase}

theorem side_next (c : ClientMain.Call) (r : c.Reply) : (calling.next g c r).side = g.side := by
  cases c with
  | sys c =>
    cases c with
    | socket c =>
      cases c with
      | recvFrameInto bufCap => cases r <;> rfl
      | _ => rfl
    | file c =>
      cases c with
      | read fd count =>
        cases r with
        | error e => rfl
        | ok data =>
          change (if g.side = .server ∧ count = 1 then _ else _ : Talk).side = g.side
          split_ifs <;> rfl
      | _ => rfl
    | _ => rfl
  | _ => rfl

theorem talkOf_side (side : Side) (log : List Event) : (talkOf side log).side = side := by
  induction log using List.reverseRecOn with
  | nil => rfl
  | append_singleton log e ih =>
    rw [talkOf, ghostOf_append]
    split_ifs
    · rw [side_next]
      exact ih
    · exact ih

theorem phase_next (plain : carries c = false) : (calling.next g c r).phase = g.phase := by
  cases c with
  | sys c =>
    cases c with
    | socket c =>
      cases c with
      | select fds => rfl
      | _ => cases plain
    | file c =>
      cases c with
      | read fd count =>
        cases r with
        | error e => rfl
        | ok data =>
          change (if g.side = .server ∧ count = 1 then _ else _ : Talk).phase = g.phase
          split_ifs <;> rfl
      | _ => rfl
    | _ => rfl
  | _ => rfl

theorem wire_next (plain : carries c = false) (done : machine side c choice w = some (r, w')) :
    w' = w := by
  have replied : machine side c choice w = (choice.reply c).map fun r => (r, w) := by
    cases c with
    | sys c =>
      cases c with
      | socket c =>
        cases c with
        | select fds => rfl
        | _ => cases plain
      | _ => rfl
    | _ => rfl
  rw [replied] at done
  obtain ⟨_, -, same⟩ := Option.map_eq_some_iff.mp done
  cases same
  rfl

theorem said_append (log : List Event) (e : Event) : said side (log ++ [e]) = said side log ++
    if e.act.pid = side then (packetOf e.act.call e.act.reply).toList.filter (¬ Notice ·) else [] := by
  unfold said
  rw [List.flatMap_append, List.flatMap_singleton]

theorem place_other (other : e.act.pid ≠ side) : place side (log ++ [e]) = place side log := by
  unfold place
  rw [talkOf, ghostOf_append, if_neg other, said_append, if_neg other, List.append_nil]

theorem place_quiet (quiet : carries e.act.call = false) : place side (log ++ [e]) = place side log := by
  by_cases mine : e.act.pid = side
  · have nothing : packetOf e.act.call e.act.reply = none := by
      obtain ⟨⟨_, c, r⟩, _⟩ := e
      cases c with
      | sys c =>
        cases c with
        | socket c =>
          cases c with
          | select fds => rfl
          | _ => cases quiet
        | _ => rfl
      | _ => rfl
    unfold place
    rw [talkOf, ghostOf_append, if_pos mine, phase_next quiet, said_append, if_pos mine, nothing]
    exact congrArg _ (List.append_nil _)
  · exact place_other mine

theorem place_carried (mine : e.act.pid = side) (carried : packetOf e.act.call e.act.reply = some packet)
    (reached : (calling.next (talkOf side log) e.act.call e.act.reply).phase = p) :
    place side (log ++ [e]) =
      if Notice packet then ⟨p, (place side log).said⟩ else (place side log).goes packet p := by
  unfold place
  rw [talkOf, ghostOf_append, if_pos mine, reached, said_append, if_pos mine, carried]
  by_cases notice : Notice packet
  · have dropped : List.filter (fun x => decide ¬Notice x) (some packet).toList = [] := by simp [notice]
    rw [if_pos notice, dropped]
    exact congrArg _ (List.append_nil _)
  · have kept : List.filter (fun x => decide ¬Notice x) (some packet).toList = [packet] := by simp [notice]
    rw [if_neg notice, kept]
    rfl

theorem Posted.append {letter : Letter} (h : Posted side letter log) (e : Event) :
    Posted side letter (log ++ [e]) := by
  obtain ⟨before, sending, after, rfl, sender, there, call⟩ := h
  exact ⟨before, sending, after ++ [e], by simp, sender, there, call⟩

theorem Agreed.quiet (agreed : Agreed log sent w) (quiet : carries e.act.call = false) :
    Agreed (log ++ [e]) sent w where
  toServer := agreed.toServer
  toClient := agreed.toClient
  agree := by
    rw [place_quiet quiet, place_quiet quiet]
    exact agreed.agree
  posted side letter member := (agreed.posted side letter member).append e

theorem placed_turns : (protocol.placed Notice).Turns := by
  apply Dialogue.Protocol.Turns.placed turns
  intro p q p' m n asks speaks
  exact (notice_of_turn asks speaks).1

theorem Agreed.send (agreed : Agreed log sent w) (may : (talkOf side log).speaks packet = some p)
    (mine : e.act.pid = side)
    (call : e.act.call = .sys (.socket (.sendPacket packet.command packet.payload)))
    (reached : (calling.next (talkOf side log) e.act.call e.act.reply).phase = p) :
    Agreed (log ++ [e]) (Function.update sent side (sent side ++ [⟨packet, place side log⟩]))
      (w.send packet side) := by
  have carried : packetOf e.act.call e.act.reply = some packet := by
    obtain ⟨⟨_, c, r⟩, _⟩ := e
    cases call
    rfl
  have posted : ∀ other, ∀ letter ∈
      Function.update sent side (sent side ++ [⟨packet, place side log⟩]) other,
      Posted other letter (log ++ [e]) := by
    intro other letter member
    by_cases same : other = side
    · subst same
      rw [Function.update_self] at member
      rcases List.mem_append.mp member with old | new
      · exact (agreed.posted other letter old).append e
      · rw [List.mem_singleton.mp new]
        exact ⟨log, e, [], rfl, mine, rfl, call⟩
    · rw [Function.update_of_ne same] at member
      exact (agreed.posted other letter member).append e
  unfold Talk.speaks at may
  rw [talkOf_side] at may
  cases side with
  | client =>
    have here : place .client (log ++ [e]) = (place .client log).goes packet p := by
      have counts : ¬ Notice packet := clientSpeaks_notice may
      rw [place_carried mine carried reached, if_neg counts]
    refine ⟨?_, agreed.toClient, ?_, posted⟩
    · rw [Function.update_self, List.map_append, agreed.toServer]
      rfl
    · rw [here, place_other (by rw [mine]; decide), Function.update_self,
        Function.update_of_ne (by decide)]
      exact agreed.agree.client_sends placed_turns (Dialogue.client_writes may)
  | server =>
    have here := place_carried mine carried reached
    refine ⟨agreed.toServer, ?_, ?_, posted⟩
    · rw [Function.update_self, List.map_append, agreed.toClient]
      rfl
    · rw [here, place_other (by rw [mine]; decide), Function.update_self,
        Function.update_of_ne (by decide)]
      exact agreed.agree.server_sends placed_turns (Dialogue.server_writes may)

/-- The letter of a packet that a side hears: its sender was where the receiver is. -/
def Understood (side : Side) (packet : Packet) (log : List Event) : Prop :=
  ∃ letter : Letter, letter.msg = packet ∧ Posted (Other side) letter log ∧
    (¬ Notice packet → letter.place = place side log)

theorem Agreed.receive (agreed : Agreed log sent w) (first : w.incoming side = packet :: rest) :
    ∃ p, (talkOf side log).hears packet = some p ∧ Understood side packet log ∧
      ∀ e : Event, e.act.pid = side → packetOf e.act.call e.act.reply = some packet →
        (calling.next (talkOf side log) e.act.call e.act.reply).phase = p →
        ∃ sent, Agreed (log ++ [e]) sent (w.leave rest side) := by
  obtain ⟨toServer, toClient⟩ := w
  unfold Talk.hears
  rw [talkOf_side]
  cases side with
  | client =>
    obtain rfl : toClient = packet :: rest := first
    obtain ⟨letter, letters, sending, rfl, others⟩ := List.map_eq_cons_iff.mp agreed.toClient
    have agree := agreed.agree
    rw [sending] at agree
    obtain ⟨y, heard, later⟩ := agree.client_receives
    obtain ⟨hears, kept⟩ := Dialogue.client_reads heard
    have mail := agreed.posted .server letter (sending ▸ List.mem_cons_self)
    refine ⟨y.phase, hears, ⟨letter, rfl, mail, ?_⟩, ?_⟩
    · intro counts
      rcases kept with ⟨notice, -⟩ | ⟨-, there, -⟩
      · exact absurd notice counts
      · exact there
    · intro e mine carried reached
      have here : place .client (log ++ [e]) = y := by
        rw [place_carried mine carried reached]
        obtain ⟨phase, exchanged⟩ := y
        rcases kept with ⟨notice, same⟩ | ⟨counts, -, same⟩
        · rw [if_pos notice]
          exact congrArg _ same.symm
        · rw [if_neg counts]
          exact congrArg _ same.symm
      refine ⟨Function.update sent .server letters, agreed.toServer, ?_, ?_, ?_⟩
      · rw [Function.update_self]
        exact others
      · rw [here, place_other (by rw [mine]; decide), Function.update_self,
          Function.update_of_ne (by decide)]
        exact later
      · intro other old member
        refine (agreed.posted other old ?_).append e
        cases other with
        | client => exact member
        | server =>
          rw [sending]
          exact List.mem_cons_of_mem _ member
  | server =>
    obtain rfl : toServer = packet :: rest := first
    obtain ⟨letter, letters, sending, rfl, others⟩ := List.map_eq_cons_iff.mp agreed.toServer
    have agree := agreed.agree
    rw [sending] at agree
    obtain ⟨y, heard, later⟩ := agree.server_receives
    obtain ⟨there, hears, same⟩ := Dialogue.server_reads heard
    have mail := agreed.posted .client letter (sending ▸ List.mem_cons_self)
    refine ⟨y.phase, hears, ⟨letter, rfl, mail, fun _ => there⟩, ?_⟩
    intro e mine carried reached
    have here : place .server (log ++ [e]) = y := by
      have counts : ¬ Notice letter.msg := clientSpeaks_notice hears
      rw [place_carried mine carried reached, if_neg counts]
      obtain ⟨phase, exchanged⟩ := y
      exact congrArg _ same.symm
    refine ⟨Function.update sent .client letters, ?_, agreed.toClient, ?_, ?_⟩
    · rw [Function.update_self]
      exact others
    · rw [here, place_other (by rw [mine]; decide), Function.update_self,
        Function.update_of_ne (by decide)]
      exact later
    · intro other old member
      refine (agreed.posted other old ?_).append e
      cases other with
      | client =>
        rw [sending]
        exact List.mem_cons_of_mem _ member
      | server => exact member

theorem frame_fits {bufCap : Nat} (may : g.may (.socket (.recvFrameInto bufCap)) = true)
    (heard : g.hears packet = some p) : packet.payload.length ≤ bufCap := by
  obtain ⟨awaits, large⟩ := Bool.and_eq_true_iff.mp may
  have room : Network.CHUNK_SIZE ≤ bufCap := of_decide_eq_true large
  obtain ⟨dataCode, endCode, goes, ends, frames⟩ : ∃ dataCode endCode goes ends,
      g.hears = framed dataCode endCode goes ends := by
    obtain ⟨here, now, line⟩ := g
    cases here with
    | client =>
      cases now with
      | downloading dataCode endCode => exact ⟨_, _, _, _, rfl⟩
      | _ => cases awaits
    | server =>
      cases now with
      | uploading dataCode endCode => exact ⟨_, _, _, _, rfl⟩
      | _ => cases awaits
  rw [frames] at heard
  unfold framed at heard
  split_ifs at heard with long
  all_goals omega

/-- A call that receives is one that waits for the packet, and its packet is understood. -/
structure Expected (before : List Event) (e : Event) (packet : Packet) : Prop where
  heard : packetOf e.act.call e.act.reply = some packet
  provided : ((talkOf e.act.pid before).hears packet).isSome = true
  waits : e.act.call = .sys (.socket .recvPacket) ∧ (talkOf e.act.pid before).mayWait = true ∨
    ∃ bufCap, e.act.call = .sys (.socket (.recvFrameInto bufCap)) ∧
      (talkOf e.act.pid before).awaitsFrames = true ∧ packet.payload.length ≤ bufCap
  understood : Understood e.act.pid packet before

/-- A call of a program that keeps to the turns gets the reply that the program expects, and the two
sides stay agreed. -/
theorem Agreed.step (agreed : Agreed log sent w) (may : calling.allowed (talkOf side log) c)
    (done : machine side c choice w = some (r, w'))
    (calm : receives c = false → calling.expects (talkOf side log) c r) :
    calling.expects (talkOf side log) c r ∧
      (receives c = true → ∃ packet, Expected log ⟨⟨side, c, r⟩, choice, w, w'⟩ packet) ∧
      ∃ sent, Agreed (log ++ [⟨⟨side, c, r⟩, choice, w, w'⟩]) sent w' := by
  have other : receives c = false → carries c = false → calling.expects (talkOf side log) c r ∧
      (receives c = true → ∃ packet, Expected log ⟨⟨side, c, r⟩, choice, w, w'⟩ packet) ∧
      ∃ sent, Agreed (log ++ [⟨⟨side, c, r⟩, choice, w, w'⟩]) sent w' := by
    intro deaf quiet
    refine ⟨calm deaf, fun hears => ?_, sent, ?_⟩
    · rw [deaf] at hears
      cases hears
    · obtain rfl := wire_next quiet done
      exact agreed.quiet quiet
  cases c with
  | sys c =>
    cases c with
    | socket c =>
      cases c with
      | sendPacket command payload =>
        have positive : 0 ≤ r := of_decide_eq_true (calm rfl)
        obtain ⟨p, speaks⟩ := Option.isSome_iff_exists.mp
          (show ((talkOf side log).speaks ⟨command, payload⟩).isSome = true from may)
        have reached : (calling.next (talkOf side log) (.sys (.socket (.sendPacket command payload))) r).phase =
            p := by
          change ((talkOf side log).goTo ((talkOf side log).speaks ⟨command, payload⟩)).phase = p
          rw [speaks]
          rfl
        obtain ⟨ret, -, same⟩ := Option.map_eq_some_iff.mp done
        cases same
        rw [if_neg (not_lt.mpr positive)]
        refine ⟨calm rfl, ?_, _, agreed.send speaks rfl rfl reached⟩
        intro hears
        cases hears
      | recvPacket =>
        cases first : w.incoming side with
        | nil =>
          simp only [machine, first] at done
          cases done
        | cons packet rest =>
        simp only [machine, first] at done
        cases done
        obtain ⟨p, heard, understood, after⟩ := agreed.receive first
        have reached : (calling.next (talkOf side log) (.sys (.socket .recvPacket)) (some packet)).phase = p := by
          change ((talkOf side log).goTo ((talkOf side log).hears packet)).phase = p
          rw [heard]
          rfl
        have expected : ((talkOf side log).hears packet).isSome = true := by
          rw [heard]
          rfl
        exact ⟨expected, fun _ => ⟨packet, rfl, expected, .inl ⟨rfl, may⟩, understood⟩, after _ rfl rfl reached⟩
      | recvFrameInto bufCap =>
        cases first : w.incoming side with
        | nil =>
          simp only [machine, first] at done
          cases done
        | cons packet rest =>
        simp only [machine, first] at done
        obtain ⟨p, heard, understood, after⟩ := agreed.receive first
        have fits := frame_fits may heard
        obtain ⟨awaits, -⟩ := Bool.and_eq_true_iff.mp may
        rw [if_neg (not_lt.mpr fits)] at done
        cases done
        have reached : (calling.next (talkOf side log) (.sys (.socket (.recvFrameInto bufCap)))
            (.ok packet)).phase = p := by
          change ((talkOf side log).goTo ((talkOf side log).hears packet)).phase = p
          rw [heard]
          rfl
        have expected : ((talkOf side log).hears packet).isSome = true := by
          rw [heard]
          rfl
        refine ⟨expected, fun _ => ⟨packet, rfl, expected, ?_, understood⟩, after _ rfl rfl reached⟩
        exact .inr ⟨bufCap, rfl, awaits, fits⟩
      | select fds => exact other rfl rfl
    | _ => exact other rfl rfl
  | _ => exact other rfl rfl

end steps

section runs

variable {process : ClientMain.Process} {client : ClientMain.Client} {server : Server}
  {clientSocket : Int} {c c' : Config}

theorem start_disciplined (process : ClientMain.Process) (client : ClientMain.Client) (server : Server)
    (clientSocket : Int) : Disciplined calling talk (start process client server clientSocket) := by
  intro side
  cases side with
  | client =>
    cases process with
    | parent => exact wp_main
    | child n => exact wp_background
  | server => exact Prog.wp_embed.mpr (wp_talkClient server clientSocket)

def AllExpected (log : List Event) : Prop :=
  Every (fun before e => receives e.act.call = true → ∃ packet, Expected before e packet) log

theorem keeps_step {side : Side} {choice : Choice} {sent : Side → List Letter}
    (disciplined : Disciplined calling talk c) (trace : Trace calling talk machine {} c.log c.state)
    (agreed : Agreed c.log sent c.state) (all : AllExpected c.log)
    (next : step machine side choice c = some c') (calm : Every Calm c'.log) :
    Disciplined calling talk c' ∧ Trace calling talk machine {} c'.log c'.state ∧
      (∃ sent, Agreed c'.log sent c'.state) ∧ AllExpected c'.log := by
  have stepped : ∀ q r w', calling.allowed (talkOf side c.log) q →
      machine side q choice c.state = some (r, w') →
      c'.log = c.log ++ [⟨⟨side, q, r⟩, choice, c.state, w'⟩] →
      calling.expects (talkOf side c.log) q r ∧
        (receives q = true → ∃ packet, Expected c.log ⟨⟨side, q, r⟩, choice, c.state, w'⟩ packet) ∧
        ∃ sent, Agreed (c.log ++ [⟨⟨side, q, r⟩, choice, c.state, w'⟩]) sent w' := by
    intro q r w' may done longer
    rw [longer] at calm
    exact agreed.step may done (every_append.mp calm).2
  obtain ⟨keeps, later⟩ := disciplined.step trace next fun q r w' may done longer =>
    (stepped q r w' may done longer).1
  have may := disciplined side
  rcases step_cases next with ⟨σ, β, s, body, k, current, rfl⟩ | ⟨q, k, r, w', current, done, rfl⟩
  · exact ⟨keeps, later, ⟨sent, agreed⟩, all⟩
  · rw [current] at may
    obtain ⟨-, understood, after⟩ := stepped q r w' may.1 done rfl
    exact ⟨keeps, later, after, every_append.mpr ⟨all, understood⟩⟩

/-- What a run preserves. -/
theorem keeps_run (reached : Reaches machine (start process client server clientSocket) c)
    (calm : Every Calm c.log) :
    Disciplined calling talk c ∧ Trace calling talk machine {} c.log c.state ∧
      (∃ sent, Agreed c.log sent c.state) ∧ AllExpected c.log := by
  induction reached with
  | refl =>
    refine ⟨start_disciplined _ _ _ _, .nil, ⟨fun _ => [], ?_⟩, every_nil⟩
    exact ⟨rfl, rfl, Dialogue.agree_start _ _, fun _ _ none => absurd none List.not_mem_nil⟩
  | @step c c' side choice _ next ih =>
    have earlier : Every Calm c.log := by
      rcases log_step next with same | ⟨e, longer⟩
      · rwa [same] at calm
      · rw [longer] at calm
        exact (every_append.mp calm).1
    obtain ⟨disciplined, trace, ⟨sent, agreed⟩, all⟩ := ih earlier
    exact keeps_step disciplined trace agreed all next calm

def promises (g : Talk) : (c : ClientMain.Call) → c.Reply → Bool
  | .sys c, r => g.expects c r
  | _, _ => true

def calmly (before : List Event) (e : Event) : Bool :=
  receives e.act.call || promises (talkOf e.act.pid before) e.act.call e.act.reply

theorem calm_of_calmly (before : List Event) (e : Event) (h : calmly before e = true) : Calm before e := by
  intro other
  have promised : promises (talkOf e.act.pid before) e.act.call e.act.reply = true := by
    unfold calmly at h
    rwa [other, Bool.false_or] at h
  obtain ⟨⟨side, c, r⟩, choice, w, w'⟩ := e
  cases c with
  | sys c => exact promised
  | _ => exact trivial

/-- Nothing fails, and a `read` finds the bytes given. -/
def obliging (input : CStr) (ready : List Int) : Choice where
  reply
    | .sys (.file (.read _ _)) => some (.ok input)
    | .sys (.socket (.select _)) => some (.ok ready)
    | .sys c => some ((Sessions.calm (cstr "bob") none).reply c)
    | .socket => some (.ok 4)
    | .connect _ _ _ => some (.ok ())
    | .pipe => some (.ok (5, 6))
    | .fork _ => some (.ok 0)
    | .forked => none
    | .read _ _ => none
    | .write _ _ => some ()
    | .backgroundOperations => some 0
    | .addBackgroundOperations _ => some ()
    | .exit _ => none

def full : Choice where
  reply
    | .sys (.file (.write _ _)) => some (.error EIO)
    | c => (obliging [] [3]).reply c

def typed (line : CStr) : List (Side × Choice × Nat) :=
  line.map fun c => (.client, obliging [c] [0], 2)

/-- A user logs in and writes a file, for which the server has no room. -/
def noRoom : List (Side × Choice × Nat) :=
  [(.client, obliging [] [0], 6)] ++ typed (cstr "login bob\n") ++
    [(.client, obliging [] [], 2), (.server, obliging [] [3], 23), (.client, obliging [] [0], 3)] ++
    typed (cstr "write note\n") ++
    [(.client, obliging [] [0], 3), (.server, full, 10), (.client, obliging (cstr "hi") [0], 4),
      (.client, obliging [] [0], 4), (.server, full, 12), (.client, obliging [] [0], 2)]

theorem noRoom_ends : ∃ c, Reaches machine (start .parent ClientMain.localhost Sessions.calmServer 3) c ∧
    Every Calm c.log ∧ ClientMain.selects (c.procs .client) = true ∧
      c.log.countP (fun e => e.act.pid = .server && receives e.act.call) = 4 := by
  have ran : (run machine noRoom (start .parent ClientMain.localhost Sessions.calmServer 3)).any
      (fun c => decide (everyFrom calmly [] c.log = true ∧ ClientMain.selects (c.procs .client) = true ∧
        c.log.countP (fun e => e.act.pid = .server && receives e.act.call) = 4)) = true := by
    decide +kernel
  obtain ⟨c, reached, calm, waits, received⟩ := exists_of_run _ ran
  exact ⟨c, reached, every_of_everyFrom calm_of_calmly calm, waits, received⟩

/-- Whenever the client looks for its next command, everything it has asked for is answered and read:
nothing is under way but notices, and both sides have had the same dialogue. -/
theorem nothing_left_over (reached : Reaches machine (start process client server clientSocket) c)
    (calm : Every Calm c.log) (waits : ClientMain.selects (c.procs .client) = true) :
    c.state.toServer = [] ∧ (∀ packet ∈ c.state.toClient, packet.command = RSP_NOTIFY) ∧
      (talkOf .server c.log).phase = .idle ∧ said .server c.log = said .client c.log := by
  obtain ⟨disciplined, -, ⟨sent, agreed⟩, -⟩ := keeps_run reached calm
  have may := disciplined .client
  obtain ⟨fds, k, current⟩ : ∃ fds k, c.procs .client = .call (.sys (.socket (.select fds))) k := by
    unfold ClientMain.selects at waits
    split at waits
    · rename_i fds k current
      exact ⟨fds, k, current⟩
    · cases waits
  rw [current] at may
  have turn : (talkOf .client c.log).phase = .idle := by
    have allowed := may.1
    change (decide ((talkOf .client c.log).side = .server) || decide _) = true at allowed
    rw [talkOf_side] at allowed
    exact of_decide_eq_true allowed
  let exit : Letter := ⟨⟨Command.exit.code, []⟩, place .client c.log⟩
  have speaks : clientSpeaks (place .client c.log).phase exit.msg = some (.asked .plain) := by
    change clientSpeaks (talkOf .client c.log).phase _ = _
    rw [turn]
    rfl
  have back : ∀ x l, (protocol.placed Notice).client x l ≠ some (place .client c.log) := by
    intro x l again
    obtain ⟨-, spoken, -⟩ := Dialogue.server_reads again
    change clientSpeaks x.phase l.msg = some (talkOf .client c.log).phase at spoken
    rw [turn] at spoken
    exact clientSpeaks_ne_idle _ _ spoken
  obtain ⟨same, empty, remarks⟩ := agreed.agree.settled placed_turns (m := exit)
    (Dialogue.client_writes speaks) back
  refine ⟨?_, ?_, ?_, congrArg Dialogue.Place.said same⟩
  · rw [← agreed.toServer, empty]
    rfl
  · intro packet under
    rw [← agreed.toClient] at under
    obtain ⟨letter, member, rfl⟩ := List.mem_map.mp under
    obtain ⟨heard, -⟩ := Dialogue.client_reads (remarks letter member)
    exact (notice_of_turn speaks heard).1
  · rw [← turn]
    exact congrArg Dialogue.Place.phase same

theorem nothing_left_over_noRoom : ∃ c,
    Reaches machine (start .parent ClientMain.localhost Sessions.calmServer 3) c ∧
      c.log.countP (fun e => e.act.pid = .server && receives e.act.call) = 4 ∧
      c.state.toServer = [] ∧ (∀ packet ∈ c.state.toClient, packet.command = RSP_NOTIFY) ∧
      (talkOf .server c.log).phase = .idle ∧ said .server c.log = said .client c.log := by
  obtain ⟨c, reached, calm, waits, received⟩ := noRoom_ends
  exact ⟨c, reached, received, nothing_left_over reached calm waits⟩

theorem Expected.command {before : List Event} {e : Event} {packet : Packet} (h : Expected before e packet)
    (taken : e.act.call = .sys (.socket .recvPacket)) (server : e.act.pid = .server) :
    ∃ letter : Letter, letter.msg = packet ∧ Posted .client letter before ∧ letter.place.phase = .idle ∧
      (Command.ofCode packet.command).isSome := by
  obtain ⟨q, heard⟩ := Option.isSome_iff_exists.mp h.provided
  obtain ⟨letter, same, posted, there⟩ := h.understood
  have waits : (talkOf .server before).mayWait = true := by
    rcases h.waits with ⟨-, waits⟩ | ⟨bufCap, frame, -⟩
    · rwa [server] at waits
    · rw [taken] at frame
      cases frame
  rw [server] at posted there heard
  unfold Talk.hears at heard
  unfold Talk.mayWait at waits
  rw [talkOf_side] at heard waits
  cases phase : (talkOf .server before).phase with
  | idle =>
    rw [phase] at heard
    refine ⟨letter, same, posted, ?_, ?_⟩
    · rw [there (clientSpeaks_notice heard)]
      exact phase
    · by_contra unknown
      have nothing : clientSpeaks .idle packet = none := if_neg unknown
      have spoken : clientSpeaks .idle packet = some q := heard
      rw [nothing] at spoken
      cases spoken
  | uploading dataCode endCode =>
    rw [phase] at waits
    cases waits
  | _ =>
    rw [phase] at heard
    cases heard

/-- Every packet is received by a call that waits for such a packet, and was sent by a side that was at
the same place of the dialogue: a frame by who gives the stream it belongs to, and an answer by a server
that had received that command last. A command was sent by a client that had the turn. -/
theorem packets_expected (reached : Reaches machine (start process client server clientSocket) c)
    (calm : Every Calm c.log) : Every (fun before e => receives e.act.call = true →
      ∃ packet, Expected before e packet ∧
        (e.act.call = .sys (.socket .recvPacket) → e.act.pid = .server →
          ∃ letter : Letter, letter.msg = packet ∧ Posted .client letter before ∧
            letter.place.phase = .idle ∧ (Command.ofCode packet.command).isSome)) c.log := by
  obtain ⟨-, -, -, all⟩ := keeps_run reached calm
  intro before e after split receiving
  obtain ⟨packet, expected⟩ := all before e after split receiving
  exact ⟨packet, expected, expected.command⟩

theorem packets_expected_noRoom : ∃ c,
    Reaches machine (start .parent ClientMain.localhost Sessions.calmServer 3) c ∧
      c.log.countP (fun e => e.act.pid = .server && receives e.act.call) = 4 ∧
      Every (fun before e => receives e.act.call = true → ∃ packet, Expected before e packet ∧
        (e.act.call = .sys (.socket .recvPacket) → e.act.pid = .server →
          ∃ letter : Letter, letter.msg = packet ∧ Posted .client letter before ∧
            letter.place.phase = .idle ∧ (Command.ofCode packet.command).isSome)) c.log := by
  obtain ⟨c, reached, calm, -, received⟩ := noRoom_ends
  exact ⟨c, reached, received, packets_expected reached calm⟩

end runs

end Csap.Lockstep
