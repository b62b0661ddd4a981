import Mathlib.Data.List.Basic

/-! Two parties talk over two channels that lose and reorder nothing. Each knows the phase their
dialogue is in as far as it has sent and received; where the protocol gives one of them the turn,
both agree on it once what is under way has arrived. -/

namespace Dialogue

variable {Phase Msg : Type}

/-- The phase a message leads to, where it may be said. -/
structure Protocol (Phase Msg : Type) where
  client : Phase → Msg → Option Phase
  server : Phase → Msg → Option Phase

/-- While the client has the turn, the server only makes remarks, and they may come later as well. -/
def Protocol.Turns (P : Protocol Phase Msg) : Prop :=
  ∀ {p q p' m n}, P.client p m = some q → P.server p n = some p' → p' = p ∧ P.server q n = some q

/-- Both parties get to one phase when they have received what is under way, and the client has no
answer to wait for while the server has not heard all. -/
structure Agree (P : Protocol Phase Msg) (client server : Phase) (toServer toClient : List Msg) :
    Prop where
  meets : ∃ p, toClient.foldlM P.server client = some p ∧ toServer.foldlM P.client server = some p
  remarks : toServer ≠ [] → ∀ n ∈ toClient, P.server client n = some client

section agreement

variable {P : Protocol Phase Msg} {client server client' server' p : Phase}
  {toServer toClient : List Msg} {m n : Msg}

theorem agree_start (P : Protocol Phase Msg) (p : Phase) : Agree P p p [] [] :=
  ⟨⟨p, rfl, rfl⟩, fun none => absurd rfl none⟩

theorem remarks_of_turn (turns : P.Turns) (may : P.client client m = some client')
    (h : toClient.foldlM P.server client = some p) :
    p = client ∧ ∀ n ∈ toClient, P.server client n = some client ∧ P.server client' n = some client' := by
  induction toClient with
  | nil =>
    cases h
    exact ⟨rfl, fun _ none => absurd none List.not_mem_nil⟩
  | cons n rest ih =>
    rw [List.foldlM_cons] at h
    obtain ⟨q, said, later⟩ := Option.bind_eq_some_iff.mp h
    obtain ⟨rfl, after⟩ := turns may said
    obtain ⟨same, others⟩ := ih later
    exact ⟨same, List.forall_mem_cons.mpr ⟨⟨said, after⟩, others⟩⟩

theorem foldlM_remarks (h : ∀ n ∈ toClient, P.server client n = some client) :
    toClient.foldlM P.server client = some client := by
  induction toClient with
  | nil => rfl
  | cons n rest ih =>
    obtain ⟨first, others⟩ := List.forall_mem_cons.mp h
    rw [List.foldlM_cons, first]
    exact ih others

theorem remark_later (turns : P.Turns) (remark : P.server server n = some server')
    (more : toServer ≠ []) (h : toServer.foldlM P.client server = some p) :
    server' = server ∧ P.server p n = some p := by
  induction toServer generalizing server server' with
  | nil => exact absurd rfl more
  | cons m rest ih =>
    rw [List.foldlM_cons] at h
    obtain ⟨q, said, later⟩ := Option.bind_eq_some_iff.mp h
    obtain ⟨same, after⟩ := turns said remark
    refine ⟨same, ?_⟩
    cases rest with
    | nil =>
      cases later
      exact after
    | cons m' rest => exact (ih after (List.cons_ne_nil _ _) later).2

theorem Agree.client_sends (turns : P.Turns) (h : Agree P client server toServer toClient)
    (may : P.client client m = some client') : Agree P client' server (toServer ++ [m]) toClient := by
  obtain ⟨p, told, asked⟩ := h.meets
  obtain ⟨rfl, remarks⟩ := remarks_of_turn turns may told
  have kept : ∀ n ∈ toClient, P.server client' n = some client' := fun n member => (remarks n member).2
  refine ⟨⟨client', foldlM_remarks kept, ?_⟩, fun _ => kept⟩
  rw [List.foldlM_append, asked]
  change (P.client p m).bind _ = _
  rw [may]
  rfl

theorem Agree.server_sends (turns : P.Turns) (h : Agree P client server toServer toClient)
    (may : P.server server n = some server') : Agree P client server' toServer (toClient ++ [n]) := by
  obtain ⟨p, told, asked⟩ := h.meets
  cases toServer with
  | nil =>
    cases asked
    refine ⟨⟨server', ?_, rfl⟩, fun none => absurd rfl none⟩
    rw [List.foldlM_append, told]
    change (P.server server n).bind _ = _
    rw [may]
    rfl
  | cons m rest =>
    have remarks := h.remarks (List.cons_ne_nil m rest)
    obtain ⟨same, later⟩ := remark_later turns may (List.cons_ne_nil m rest) asked
    subst same
    have here : p = client := Option.some.inj (told.symm.trans (foldlM_remarks remarks))
    subst here
    have all : ∀ x ∈ toClient ++ [n], P.server p x = some p := by
      intro x member
      rcases List.mem_append.mp member with old | new
      · exact remarks x old
      · rw [List.mem_singleton.mp new]
        exact later
    exact ⟨⟨p, foldlM_remarks all, asked⟩, fun _ => all⟩

theorem Agree.client_receives (h : Agree P client server toServer (n :: toClient)) :
    ∃ client', P.server client n = some client' ∧ Agree P client' server toServer toClient := by
  obtain ⟨p, told, asked⟩ := h.meets
  rw [List.foldlM_cons] at told
  obtain ⟨client', said, later⟩ := Option.bind_eq_some_iff.mp told
  refine ⟨client', said, ⟨p, later, asked⟩, ?_⟩
  intro more
  obtain ⟨remark, others⟩ := List.forall_mem_cons.mp (h.remarks more)
  obtain rfl : client = client' := Option.some.inj (remark.symm.trans said)
  exact others

theorem Agree.server_receives (h : Agree P client server (m :: toServer) toClient) :
    ∃ server', P.client server m = some server' ∧ Agree P client server' toServer toClient := by
  obtain ⟨p, told, asked⟩ := h.meets
  rw [List.foldlM_cons] at asked
  obtain ⟨server', said, later⟩ := Option.bind_eq_some_iff.mp asked
  exact ⟨server', said, ⟨p, told, later⟩, fun _ => h.remarks (List.cons_ne_nil m toServer)⟩

/-- Where the client has the turn again, as it had before all it said, nothing is left to hear but
remarks. -/
theorem Agree.settled (turns : P.Turns) (h : Agree P client server toServer toClient)
    (turn : P.client client m = some client') (back : ∀ p m, P.client p m ≠ some client) :
    server = client ∧ toServer = [] ∧ ∀ n ∈ toClient, P.server client n = some client := by
  obtain ⟨p, told, asked⟩ := h.meets
  obtain ⟨rfl, remarks⟩ := remarks_of_turn turns turn told
  rcases List.eq_nil_or_concat toServer with rfl | ⟨rest, last, rfl⟩
  · cases asked
    exact ⟨rfl, rfl, fun n member => (remarks n member).1⟩
  · rw [List.concat_eq_append, List.foldlM_append] at asked
    obtain ⟨q, -, said⟩ := Option.bind_eq_some_iff.mp asked
    change (P.client q last).bind _ = _ at said
    obtain ⟨q', said, same⟩ := Option.bind_eq_some_iff.mp said
    cases same
    exact absurd said (back q last)

end agreement

/-! A party's place in the dialogue is its phase and what it has said and heard. A letter is a message
with the place where it was written, so that parties who hear letters know what an answer answers. -/

/-- Remarks, which may be heard at another place than they were made, are not kept. -/
structure Place (Phase Msg : Type) where
  phase : Phase
  said : List Msg
deriving DecidableEq

structure Letter (Phase Msg : Type) where
  msg : Msg
  place : Place Phase Msg
deriving DecidableEq

def Place.goes (x : Place Phase Msg) (m : Msg) (p : Phase) : Place Phase Msg := ⟨p, x.said ++ [m]⟩

section letters

variable [DecidableEq Phase] [DecidableEq Msg] {P : Protocol Phase Msg} {remark : Msg → Prop}
  [DecidablePred remark] {x y : Place Phase Msg} {l : Letter Phase Msg} {m n : Msg} {p q : Phase}

/-- The dialogue in letters: what is no remark is heard where it was written. -/
def Protocol.placed (P : Protocol Phase Msg) (remark : Msg → Prop) [DecidablePred remark] :
    Protocol (Place Phase Msg) (Letter Phase Msg) where
  client x l := if l.place = x then (P.client x.phase l.msg).map (x.goes l.msg) else none
  server x l :=
    if remark l.msg then (P.server x.phase l.msg).map fun p => ⟨p, x.said⟩
    else if l.place = x then (P.server x.phase l.msg).map (x.goes l.msg)
    else none

theorem client_writes (said : P.client x.phase m = some p) :
    (P.placed remark).client x ⟨m, x⟩ = some (x.goes m p) := by
  change (if x = x then _ else _) = _
  rw [if_pos rfl, said]
  rfl

theorem server_writes (said : P.server x.phase m = some p) :
    (P.placed remark).server x ⟨m, x⟩ =
      some (if remark m then ⟨p, x.said⟩ else x.goes m p) := by
  change (if remark m then _ else if x = x then _ else _) = _
  rw [said, if_pos (rfl : x = x)]
  split_ifs <;> rfl

theorem server_reads (heard : (P.placed remark).client x l = some y) :
    l.place = x ∧ P.client x.phase l.msg = some y.phase ∧ y.said = x.said ++ [l.msg] := by
  change (if l.place = x then _ else _) = some y at heard
  split_ifs at heard with here
  obtain ⟨p, said, rfl⟩ := Option.map_eq_some_iff.mp heard
  exact ⟨here, said, rfl⟩

theorem client_reads (heard : (P.placed remark).server x l = some y) :
    P.server x.phase l.msg = some y.phase ∧ (remark l.msg ∧ y.said = x.said ∨
      ¬ remark l.msg ∧ l.place = x ∧ y.said = x.said ++ [l.msg]) := by
  change (if remark l.msg then _ else if l.place = x then _ else _) = some y at heard
  split_ifs at heard with aside here
  · obtain ⟨p, said, rfl⟩ := Option.map_eq_some_iff.mp heard
    exact ⟨said, .inl ⟨aside, rfl⟩⟩
  · obtain ⟨p, said, rfl⟩ := Option.map_eq_some_iff.mp heard
    exact ⟨said, .inr ⟨aside, here, rfl⟩⟩

/-- Where remarks are all that the server may say while the client has the turn, turns are kept in
letters too. -/
theorem Protocol.Turns.placed (turns : P.Turns) (remarks : ∀ {p q p' m n}, P.client p m = some q →
    P.server p n = some p' → remark n) : (P.placed remark).Turns := by
  intro x y x' l l' asks speaks
  obtain ⟨-, asked, -⟩ := server_reads asks
  obtain ⟨said, rest⟩ := client_reads speaks
  have aside := remarks asked said
  obtain ⟨same, later⟩ := turns asked said
  have kept : x'.said = x.said := by
    rcases rest with ⟨-, kept⟩ | ⟨other, -⟩
    · exact kept
    · exact absurd aside other
  constructor
  · cases x
    cases x'
    cases same
    cases kept
    rfl
  · change (if remark l'.msg then _ else _) = _
    rw [if_pos aside, later]
    rfl

end letters

end Dialogue
