import WindowCast.Transport.Punched
import WindowCast.Lib.Run

/-!
# Openings and their answers

Two sockets that open streams to each other over a network that may lose, delay
and reorder what they send.  An endpoint answers every opening of its stream that
arrives, and the answer looks like an opening: if both loops run already, one that
was sent twice goes back and forth for ever, and each time it counts as heard.

## Main definitions

* `Peer` — what a socket has for the address of the other.
* `Sockets`, `Sockets.step` — both sockets, what is on its way and the time.
* `Sockets.Quiet` — an answer never arrives where it would be answered.

## Main results

* `Peer.turn_answers`, `Peer.turn_opens` — what one socket sends.
* `Sockets.Inv.step` — every answer has an opening of its own.
* `Sockets.dies_out` — **if answers are not answered, there are no more of them than
  openings, and a stream that hears nothing else is dropped**.
-/

namespace WindowCast.Transport

/-- How often an opening stream repeats its `SYN`. -/
def SYN_EVERY : ℕ := 250

/-- A segment on its way. -/
structure Flying where
  segment : Segment
  /-- Whether it was sent by a stream or for one that was accepted, not by `connect`. -/
  answer : Bool
  deriving DecidableEq, Repr

namespace Flying

/-- An opening. -/
def opens (self : Flying) : Bool := self.segment.kind == SYN && !self.answer

/-- The answer to an opening, or to another answer. -/
def answers (self : Flying) : Bool := self.segment.kind == SYN && self.answer

def opening (id : BitVec 32) : Flying := ⟨⟨SYN, id, 0, []⟩, false⟩

def answering (segment : Segment) : Flying := ⟨segment, true⟩

end Flying

/-! ### One socket -/

/-- What a socket has for the address of the other. -/
inductive Peer
  | absent
  /-- `connect` waits for an answer. -/
  | opening (id : BitVec 32) (sent deadline : ℕ)
  | stream (endpoint : Endpoint)
  deriving DecidableEq

/-- What a socket does. -/
inductive Move
  | connect (id : BitVec 32) (within : ℕ)
  /-- Nothing came for `SYN_EVERY`. -/
  | retry
  /-- The segment arrives that is in this place of those on their way. -/
  | receive (k : ℕ)
  /-- A turn of the stream. -/
  | act (act : Act)
  deriving DecidableEq, Repr

namespace Peer

/-- A turn of `connect`'s loop. -/
def attempt (now : ℕ) (id : BitVec 32) (deadline : ℕ) : Peer × List Flying :=
  if deadline ≤ now then (.absent, []) else (.opening id now deadline, [.opening id])

/-- What is left of a stream behind its turn. -/
def ofEndpoint (turn : Endpoint × List Datagram) : Peer × List Flying :=
  (if turn.1.phase = .over then .absent else .stream turn.1,
    turn.2.map fun datagram => .answering datagram.segment)

/-- What a segment that arrives brings about. -/
def receive (now : ℕ) (accepting : Bool) (segment : Segment) : Peer → Peer × List Flying
  | .absent =>
    if segment.kind = SYN ∧ accepting then
      (.stream ((Endpoint.new segment.id).start now), [.answering ⟨SYN, segment.id, 0, []⟩])
    else (.absent, [])
  | .opening id _ deadline =>
    if segment.kind = SYN ∧ segment.id = id then (.stream ((Endpoint.new id).start now), [])
    else attempt now id deadline
  | .stream endpoint => ofEndpoint (endpoint.take now segment)

def turn (self : Peer) (now : ℕ) (accepting : Bool) (inbox : List Flying) :
    Move → Option (Peer × List Flying)
  | .connect id within =>
    match self with
    | .absent => some (attempt now id (now + within))
    | _ => none
  | .retry =>
    match self with
    | .opening id sent deadline => if SYN_EVERY ≤ now - sent then some (attempt now id deadline) else none
    | _ => none
  | .receive k => inbox[k]?.map fun flying => self.receive now accepting flying.segment
  | .act act =>
    match self with
    | .stream endpoint => (endpoint.act now act).map ofEndpoint
    | _ => none

/-- Whether a `SYN` that arrives is answered. -/
def Answers (self : Peer) (accepting : Bool) (segment : Segment) : Prop :=
  match self with
  | .absent => accepting = true
  | .opening _ _ _ => False
  | .stream endpoint => segment.id = endpoint.id

instance (self : Peer) (accepting : Bool) (segment : Segment) : Decidable (self.Answers accepting segment) :=
  match self with
  | .absent => inferInstanceAs (Decidable (_ = _))
  | .opening _ _ _ => inferInstanceAs (Decidable False)
  | .stream _ => inferInstanceAs (Decidable (_ = _))

end Peer

/-! ### Both sockets -/

inductive Passing
  | wait (ms : ℕ)
  /-- A segment on its way to a side is lost. -/
  | lose (side : Side) (k : ℕ)
  | move (side : Side) (move : Move)
  deriving DecidableEq, Repr

structure Sockets where
  now : ℕ
  /-- Whether peers may open streams to a side. -/
  accepting : Side → Bool
  peer : Side → Peer
  /-- What is on its way to a side. -/
  toward : Side → List Flying
  /-- All that was ever sent. -/
  sent : List Flying

namespace Sockets

def new (accepting : Side → Bool) : Sockets := ⟨0, accepting, fun _ => .absent, fun _ => [], []⟩

/-- A segment is no longer on its way. -/
def remove (self : Sockets) (side : Side) (k : ℕ) : Sockets :=
  { self with toward := Function.update self.toward side ((self.toward side).eraseIdx k) }

/-- What is left on its way when a side makes a move. -/
def consume (self : Sockets) (side : Side) : Move → Sockets
  | .receive k => self.remove side k
  | _ => self

/-- A side has made its move. -/
def after (self : Sockets) (side : Side) (turn : Peer × List Flying) : Sockets :=
  { self with
    peer := Function.update self.peer side turn.1
    toward := Function.update self.toward side.other (self.toward side.other ++ turn.2)
    sent := self.sent ++ turn.2 }

def step (self : Sockets) : Passing → Option Sockets
  | .wait ms => some { self with now := self.now + ms }
  | .lose side k => if k < (self.toward side).length then some (self.remove side k) else none
  | .move side move =>
    ((self.peer side).turn self.now (self.accepting side) (self.toward side) move).map
      ((self.consume side move).after side)

/-- How many `SYN` datagrams were sent. -/
def syns (self : Sockets) : ℕ := self.sent.countP fun flying => flying.segment.kind == SYN

/-- How many of them opened a stream. -/
def openings (self : Sockets) : ℕ := self.sent.countP Flying.opens

/-- An answer does not arrive where it would be answered. -/
def Quiet (self : Sockets) : Passing → Prop
  | .move side (.receive k) =>
    ∀ flying, (self.toward side)[k]? = some flying → flying.answers = true →
      ¬ (self.peer side).Answers (self.accepting side) flying.segment
  | _ => True

instance (self : Sockets) : ∀ passing, Decidable (self.Quiet passing)
  | .move side (.receive k) => inferInstanceAs (Decidable (∀ flying ∈ (self.toward side)[k]?,
      flying.answers = true → ¬ (self.peer side).Answers (self.accepting side) flying.segment))
  | .wait _ | .lose _ _ | .move _ (.connect _ _) | .move _ .retry | .move _ (.act _) => isTrue trivial

end Sockets

/-! ### What an endpoint sends -/

namespace Endpoint

/-- An endpoint sends a `SYN` for nothing but a `SYN` of its own stream, and then one. -/
theorem take_syn {e : Endpoint} {now : ℕ} {segment : Segment} :
    (e.take now segment).2.countP (fun datagram => datagram.segment.kind == SYN)
      ≤ if segment.kind = SYN ∧ segment.id = e.id then 1 else 0 := by
  unfold take
  split
  · exact Nat.zero_le _
  case isFalse hid =>
    rw [not_not] at hid
    simp only
    split
    · exact Nat.zero_le _
    split
    · rw [List.countP_eq_zero.mpr]
      · exact Nat.zero_le _
      · intro datagram hmem
        cases List.mem_singleton.mp hmem
        exact (by decide : ¬ (ACK == SYN) = true)
    split
    · rw [List.countP_eq_zero.mpr]
      · exact Nat.zero_le _
      · intro datagram hmem
        cases List.mem_singleton.mp hmem
        exact (by decide : ¬ (ACK == SYN) = true)
    split
    case isTrue hsyn =>
      rw [if_pos ⟨hsyn, hid⟩]
      exact List.countP_le_length
    · exact Nat.zero_le _

theorem act_syn {e : Endpoint} {now : ℕ} {act : Act} {turn : Endpoint × List Datagram}
    (h : e.act now act = some turn) : ∀ datagram ∈ turn.2, datagram.segment.kind ≠ SYN := by
  cases act with
  | write bytes =>
    obtain ⟨-, hturn⟩ := Option.ite_none_left_eq_some.mp h
    cases hturn
    exact fun datagram hmem => absurd hmem List.not_mem_nil
  | close =>
    cases h
    exact fun datagram hmem => absurd hmem List.not_mem_nil
  | leave =>
    cases h
    exact fun datagram hmem => absurd hmem List.not_mem_nil
  | read n =>
    obtain ⟨-, hturn⟩ := Option.ite_none_right_eq_some.mp h
    cases hturn
    unfold readPipe
    split
    · exact fun datagram hmem => absurd hmem List.not_mem_nil
    · intro datagram hmem
      cases List.mem_singleton.mp hmem
      exact (by decide : DATA ≠ SYN)
  | tick =>
    cases h
    have hagain : ∀ (unacked : List Unacked) (datagram : Datagram),
        datagram ∈ (unacked.map fun u => e.datagram DATA u.seq u.payload u.number) →
          datagram.segment.kind ≠ SYN := by
      intro unacked datagram hmem
      obtain ⟨u, -, rfl⟩ := List.mem_map.mp hmem
      exact (by decide : DATA ≠ SYN)
    unfold tick
    split
    · exact fun datagram hmem => absurd hmem List.not_mem_nil
    simp only
    split
    · intro datagram hmem
      rcases List.mem_append.mp hmem with hmem | hmem
      · exact hagain _ datagram hmem
      · cases List.mem_singleton.mp hmem
        exact (by decide : FIN ≠ SYN)
    · exact hagain _

end Endpoint

/-! ### What a socket sends -/

namespace Peer

variable {self : Peer} {now : ℕ} {accepting : Bool} {inbox : List Flying} {move : Move}
  {turn : Peer × List Flying}

theorem ofEndpoint_answers (done : Endpoint × List Datagram) :
    (ofEndpoint done).2.countP Flying.answers
      = done.2.countP fun datagram => datagram.segment.kind == SYN := by
  rw [ofEndpoint, List.countP_map]
  refine List.countP_congr fun datagram _ => ?_
  rw [Function.comp_apply, Flying.answers, Flying.answering, Bool.and_true]

theorem answering_opens (segment : Segment) : (Flying.answering segment).opens = false := Bool.and_false _

theorem ofEndpoint_opens (done : Endpoint × List Datagram) :
    ∀ flying ∈ (ofEndpoint done).2, flying.opens = false := by
  intro flying hmem
  obtain ⟨datagram, -, rfl⟩ := List.mem_map.mp hmem
  exact answering_opens _

theorem attempt_answers (now : ℕ) (id : BitVec 32) (deadline : ℕ) :
    (attempt now id deadline).2.countP Flying.answers = 0 := by
  unfold attempt
  split
  · rfl
  · rfl

/-- A segment that arrives is answered once, and only if it is a `SYN` that is answered. -/
theorem receive_answers (self : Peer) (now : ℕ) (accepting : Bool) (segment : Segment) :
    (self.receive now accepting segment).2.countP Flying.answers
      ≤ if segment.kind = SYN ∧ self.Answers accepting segment then 1 else 0 := by
  cases self with
  | absent =>
    simp only [receive]
    split
    case isTrue h =>
      have hanswers : segment.kind = SYN ∧ Peer.absent.Answers accepting segment := h
      rw [if_pos hanswers]
      exact List.countP_le_length
    case isFalse => exact Nat.zero_le _
  | opening id sent deadline =>
    simp only [receive]
    split
    · exact Nat.zero_le _
    · rw [attempt_answers]
      exact Nat.zero_le _
  | stream endpoint =>
    rw [receive, ofEndpoint_answers]
    exact Endpoint.take_syn

/-- A move answers what it receives, and nothing else. -/
theorem turn_answers (h : self.turn now accepting inbox move = some turn) :
    turn.2.countP Flying.answers = 0 ∨
      ∃ k flying, move = .receive k ∧ inbox[k]? = some flying ∧ flying.segment.kind = SYN
        ∧ self.Answers accepting flying.segment ∧ turn.2.countP Flying.answers ≤ 1 := by
  cases move with
  | connect id within =>
    cases self with
    | absent =>
      cases h
      exact Or.inl (attempt_answers _ _ _)
    | opening _ _ _ => cases h
    | stream _ => cases h
  | retry =>
    cases self with
    | absent => cases h
    | opening id sent deadline =>
      obtain ⟨-, hturn⟩ := Option.ite_none_right_eq_some.mp h
      cases hturn
      exact Or.inl (attempt_answers _ _ _)
    | stream _ => cases h
  | receive k =>
    obtain ⟨flying, hflying, hturn⟩ := Option.map_eq_some_iff.mp h
    have hle := receive_answers self now accepting flying.segment
    rw [hturn] at hle
    split at hle
    case isTrue hanswers => exact Or.inr ⟨k, flying, rfl, hflying, hanswers.1, hanswers.2, hle⟩
    case isFalse => exact Or.inl (Nat.le_zero.mp hle)
  | act act =>
    cases self with
    | absent => cases h
    | opening _ _ _ => cases h
    | stream endpoint =>
      obtain ⟨done, hdone, hpeer⟩ := Option.map_eq_some_iff.mp h
      cases hpeer
      rw [ofEndpoint_answers, List.countP_eq_zero.mpr]
      · exact Or.inl rfl
      · intro datagram hmem hkind
        exact Endpoint.act_syn hdone datagram hmem (beq_iff_eq.mp hkind)

theorem attempt_opens {id : BitVec 32} {deadline : ℕ} {flying : Flying}
    (hmem : flying ∈ (attempt now id deadline).2) : flying = .opening id ∧ now < deadline := by
  unfold attempt at hmem
  split at hmem
  · exact absurd hmem List.not_mem_nil
  case isFalse hnow => exact ⟨List.mem_singleton.mp hmem, Nat.lt_of_not_le hnow⟩

theorem attempt_peer (now : ℕ) (id : BitVec 32) (deadline : ℕ) :
    (attempt now id deadline).1 = .absent ∨ (attempt now id deadline).1 = .opening id now deadline := by
  unfold attempt
  split
  · exact Or.inl rfl
  · exact Or.inr rfl

/-- Only `connect` opens a stream, before its deadline. -/
theorem turn_opens (h : self.turn now accepting inbox move = some turn) {flying : Flying}
    (hmem : flying ∈ turn.2) (hopens : flying.opens = true) :
    (∃ within, move = .connect flying.segment.id within)
      ∨ ∃ sent deadline, self = .opening flying.segment.id sent deadline ∧ now < deadline := by
  cases move with
  | connect id within =>
    cases self with
    | absent =>
      cases h
      obtain ⟨rfl, -⟩ := attempt_opens hmem
      exact Or.inl ⟨within, rfl⟩
    | opening _ _ _ => cases h
    | stream _ => cases h
  | retry =>
    cases self with
    | absent => cases h
    | opening id sent deadline =>
      obtain ⟨-, hturn⟩ := Option.ite_none_right_eq_some.mp h
      cases hturn
      obtain ⟨rfl, hnow⟩ := attempt_opens hmem
      exact Or.inr ⟨sent, deadline, rfl, hnow⟩
    | stream _ => cases h
  | receive k =>
    obtain ⟨arrived, -, hturn⟩ := Option.map_eq_some_iff.mp h
    cases self with
    | absent =>
      simp only [receive] at hturn
      split at hturn
      · cases hturn
        cases List.mem_singleton.mp hmem
        exact absurd hopens (by rw [answering_opens]; decide)
      · cases hturn
        exact absurd hmem List.not_mem_nil
    | opening id sent deadline =>
      simp only [receive] at hturn
      split at hturn
      · cases hturn
        exact absurd hmem List.not_mem_nil
      · cases hturn
        obtain ⟨rfl, hnow⟩ := attempt_opens hmem
        exact Or.inr ⟨sent, deadline, rfl, hnow⟩
    | stream endpoint =>
      cases hturn
      exact absurd hopens (by rw [ofEndpoint_opens _ flying hmem]; decide)
  | act act =>
    cases self with
    | absent => cases h
    | opening _ _ _ => cases h
    | stream endpoint =>
      obtain ⟨done, -, hpeer⟩ := Option.map_eq_some_iff.mp h
      cases hpeer
      exact absurd hopens (by rw [ofEndpoint_opens _ flying hmem]; decide)

end Peer

/-! ### Every answer has an opening -/

namespace Sockets

theorem countP_syn (sent : List Flying) :
    (sent.countP fun flying => flying.segment.kind == SYN)
      = sent.countP Flying.opens + sent.countP Flying.answers := by
  induction sent with
  | nil => rfl
  | cons flying sent ih =>
    rw [List.countP_cons, List.countP_cons, List.countP_cons, ih, Flying.opens, Flying.answers]
    cases flying.segment.kind == SYN <;> cases flying.answer <;> simp <;> omega

/-- Whether an opening is taken off. -/
theorem countP_eraseIdx {inbox : List Flying} {k : ℕ} {flying : Flying} (h : inbox[k]? = some flying)
    (p : Flying → Bool) :
    (inbox.eraseIdx k).countP p + (if p flying then 1 else 0) = inbox.countP p := by
  obtain ⟨hk, rfl⟩ := List.getElem?_eq_some_iff.mp h
  rw [← (List.getElem_cons_eraseIdx_perm hk).countP_eq p, List.countP_cons]

variable {s s' : Sockets}

/-- How many openings are on their way. -/
def inFlight (self : Sockets) : ℕ :=
  (self.toward .left).countP Flying.opens + (self.toward .right).countP Flying.opens

theorem inFlight_eq (s : Sockets) (side : Side) :
    s.inFlight = (s.toward side).countP Flying.opens + (s.toward side.other).countP Flying.opens := by
  cases side
  · rfl
  · exact Nat.add_comm _ _

/-- No more answers than openings that have arrived or were lost. -/
def Inv (self : Sockets) : Prop := self.sent.countP Flying.answers + self.inFlight ≤ self.openings

theorem inFlight_remove {side : Side} {k : ℕ} {flying : Flying} (h : (s.toward side)[k]? = some flying) :
    (s.remove side k).inFlight + (if flying.opens then 1 else 0) = s.inFlight := by
  rw [inFlight_eq _ side, inFlight_eq s side, ← countP_eraseIdx h, remove]
  simp only [Function.update_self, Function.update_of_ne side.other_ne]
  omega

theorem Inv.remove (h : s.Inv) {side : Side} {k : ℕ} (hk : k < (s.toward side).length) :
    (s.remove side k).Inv := by
  have hflight := inFlight_remove (List.getElem?_eq_getElem hk)
  have hsent : (s.remove side k).sent = s.sent := rfl
  unfold Inv openings at h ⊢
  rw [hsent]
  omega

theorem inFlight_after (side : Side) (turn : Peer × List Flying) :
    (s.after side turn).inFlight = s.inFlight + turn.2.countP Flying.opens := by
  have hne : side ≠ side.other := side.other_ne.symm
  rw [inFlight_eq _ side, inFlight_eq s side, after]
  simp only [Function.update_self, Function.update_of_ne hne, List.countP_append]
  omega

/-- A turn with no more answers than openings that have arrived. -/
theorem inv_after {side : Side} {turn : Peer × List Flying}
    (h : s.sent.countP Flying.answers + turn.2.countP Flying.answers + s.inFlight ≤ s.openings) :
    (s.after side turn).Inv := by
  have hsent : (s.after side turn).sent = s.sent ++ turn.2 := rfl
  unfold Inv openings at *
  rw [inFlight_after, hsent, List.countP_append, List.countP_append]
  omega

/-- Every answer has an opening of its own. -/
theorem Inv.step (h : s.Inv) {passing : Passing} (hquiet : s.Quiet passing)
    (hstep : s.step passing = some s') : s'.Inv := by
  cases passing with
  | wait ms =>
    cases hstep
    exact h
  | lose side k =>
    obtain ⟨hk, hs'⟩ := Option.ite_none_right_eq_some.mp hstep
    cases hs'
    exact h.remove hk
  | move side move =>
    obtain ⟨turn, hturn, rfl⟩ := Option.map_eq_some_iff.mp hstep
    refine inv_after ?_
    have hsent : (s.consume side move).sent = s.sent := by cases move <;> rfl
    unfold Inv openings at *
    rw [hsent]
    rcases Peer.turn_answers hturn with hnone | ⟨k, flying, rfl, hflying, hkind, hanswers, hone⟩
    · have hle : (s.consume side move).inFlight ≤ s.inFlight := by
        cases move with
        | receive k =>
          obtain ⟨flying, hflying, -⟩ := Option.map_eq_some_iff.mp hturn
          have hflight := inFlight_remove hflying
          exact Nat.le_of_add_right_le (Nat.le_of_eq hflight)
        | _ => exact Nat.le_refl _
      omega
    · have hopens : flying.opens = true := by
        have hanswer : flying.answers = false := by
          rw [← Bool.not_eq_true]
          exact fun hanswer => hquiet flying hflying hanswer hanswers
        have hsyn : (flying.segment.kind == SYN) = true := beq_iff_eq.mpr hkind
        rw [Flying.answers, hsyn, Bool.true_and] at hanswer
        rw [Flying.opens, hsyn, hanswer]
        rfl
      have hflight := inFlight_remove hflying
      rw [if_pos hopens] at hflight
      have hconsume : (s.consume side (.receive k)).inFlight = (s.remove side k).inFlight := rfl
      omega

theorem syns_le (h : s.Inv) : s.syns ≤ 2 * s.openings := by
  unfold Inv at h
  have hsyns := countP_syn s.sent
  unfold syns openings at *
  omega

end Sockets

/-! ### A stream that hears nothing else -/

namespace Endpoint

/-- The loop runs, and the peer's end has not come. -/
structure Live (e : Endpoint) : Prop where
  running : e.phase = .running
  unfinished : e.incoming.peerFin = none

variable {e : Endpoint} {now : ℕ}

theorem live_start (id : BitVec 32) (now : ℕ) : ((new id).start now).Live := ⟨rfl, rfl⟩

theorem settle_of_unfinished (h : e.incoming.peerFin = none) : e.settle = e := by
  have hfinished : e.incoming.finished = false := by
    rw [Incoming.finished, h]
    rfl
  rw [settle, hfinished]
  rfl

theorem Live.settle (h : e.Live) : e.settle.Live ∧ e.settle.id = e.id ∧ e.settle.heard = e.heard := by
  rw [settle_of_unfinished h.unfinished]
  exact ⟨h, rfl, rfl⟩

/-- What is done neither ends the stream nor counts as heard, unless it was silent
for too long. -/
theorem Live.act (h : e.Live) {act : Act} {turn : Endpoint × List Datagram}
    (hact : e.act now act = some turn) :
    (turn.1.Live ∧ turn.1.id = e.id ∧ turn.1.heard = e.heard) ∨ (act = .tick ∧ IDLE < now - e.heard) := by
  cases act with
  | write bytes =>
    obtain ⟨-, hturn⟩ := Option.ite_none_left_eq_some.mp hact
    cases hturn
    exact Or.inl ⟨⟨h.running, h.unfinished⟩, rfl, rfl⟩
  | close =>
    cases hact
    exact Or.inl ⟨⟨h.running, h.unfinished⟩, rfl, rfl⟩
  | leave =>
    cases hact
    exact Or.inl ⟨⟨h.running, h.unfinished⟩, rfl, rfl⟩
  | read n =>
    obtain ⟨-, hturn⟩ := Option.ite_none_right_eq_some.mp hact
    cases hturn
    refine Or.inl ?_
    unfold readPipe
    split
    · exact Live.settle ⟨h.running, h.unfinished⟩
    · exact Live.settle ⟨h.running, h.unfinished⟩
  | tick =>
    cases hact
    unfold tick
    split
    case isTrue hidle => exact Or.inr ⟨rfl, hidle⟩
    case isFalse =>
      refine Or.inl ?_
      simp only
      split
      · exact Live.settle ⟨h.running, h.unfinished⟩
      · exact Live.settle ⟨h.running, h.unfinished⟩

/-- A `SYN` that arrives counts as heard if it is of the stream. -/
theorem Live.take_syn (h : e.Live) (now : ℕ) {segment : Segment} (hkind : segment.kind = SYN) :
    (e.take now segment).1.Live ∧ (e.take now segment).1.id = e.id
      ∧ ((e.take now segment).1.heard = e.heard ∨ segment.id = e.id) := by
  unfold take
  split
  case isTrue => exact ⟨h, rfl, Or.inl rfl⟩
  case isFalse hid =>
    simp only [hkind]
    rw [if_neg (by decide), if_neg (by decide), if_neg (by decide)]
    have hlive : { e with heard := now }.Live := ⟨h.running, h.unfinished⟩
    exact ⟨hlive.settle.1, hlive.settle.2.1, Or.inr (not_not.mp hid)⟩

end Endpoint

namespace Peer

/-- A stream there is is live. -/
def Live (self : Peer) : Prop := ∀ endpoint, self = .stream endpoint → endpoint.Live

variable {self : Peer} {now : ℕ} {accepting : Bool} {inbox : List Flying} {move : Move}
  {turn : Peer × List Flying}

theorem attempt_live (now : ℕ) (id : BitVec 32) (deadline : ℕ) : (attempt now id deadline).1.Live := by
  intro endpoint h
  rcases attempt_peer now id deadline with habsent | hopening
  · rw [habsent] at h
    cases h
  · rw [hopening] at h
    cases h

theorem live_stream {endpoint : Endpoint} (h : endpoint.Live) : (Peer.stream endpoint).Live := by
  rintro _ ⟨⟩
  exact h

/-- What becomes of a stream, where nothing but `SYN` datagrams arrive. -/
theorem turn_stream {endpoint : Endpoint} (hlive : endpoint.Live)
    (h : (Peer.stream endpoint).turn now accepting inbox move = some turn)
    (honly : ∀ k flying, move = .receive k → inbox[k]? = some flying → flying.segment.kind = SYN) :
    (∃ endpoint', turn.1 = .stream endpoint' ∧ endpoint'.Live ∧ endpoint'.id = endpoint.id
      ∧ (endpoint'.heard = endpoint.heard
        ∨ ∃ k flying, move = .receive k ∧ inbox[k]? = some flying ∧ flying.segment.id = endpoint.id))
    ∨ (move = .act .tick ∧ IDLE < now - endpoint.heard) := by
  have hkept : ∀ {done : Endpoint × List Datagram}, done.1.Live →
      (ofEndpoint done).1 = .stream done.1 := by
    intro done hdone
    rw [ofEndpoint, if_neg (by rw [hdone.running]; decide)]
  cases move with
  | connect id within => cases h
  | retry => cases h
  | receive k =>
    obtain ⟨flying, hflying, hturn⟩ := Option.map_eq_some_iff.mp h
    cases hturn
    obtain ⟨hlive', hid, hheard⟩ := hlive.take_syn now (honly k flying rfl hflying)
    refine Or.inl ⟨_, hkept hlive', hlive', hid, hheard.imp_right fun hsame => ?_⟩
    exact ⟨k, flying, rfl, hflying, hsame⟩
  | act act =>
    obtain ⟨done, hdone, hpeer⟩ := Option.map_eq_some_iff.mp h
    cases hpeer
    rcases hlive.act hdone with ⟨hlive', hid, hheard⟩ | ⟨rfl, hidle⟩
    · exact Or.inl ⟨_, hkept hlive', hlive', hid, Or.inl hheard⟩
    · exact Or.inr ⟨rfl, hidle⟩

theorem turn_live (hlive : self.Live) (h : self.turn now accepting inbox move = some turn)
    (honly : ∀ k flying, move = .receive k → inbox[k]? = some flying → flying.segment.kind = SYN) :
    turn.1.Live := by
  cases self with
  | absent =>
    cases move with
    | connect id within =>
      cases h
      exact attempt_live _ _ _
    | retry => cases h
    | receive k =>
      obtain ⟨flying, -, hturn⟩ := Option.map_eq_some_iff.mp h
      simp only [receive] at hturn
      split at hturn
      · cases hturn
        exact live_stream (Endpoint.live_start _ _)
      · cases hturn
        rintro _ ⟨⟩
    | act act => cases h
  | opening id sent deadline =>
    cases move with
    | connect id within => cases h
    | retry =>
      obtain ⟨-, hturn⟩ := Option.ite_none_right_eq_some.mp h
      cases hturn
      exact attempt_live _ _ _
    | receive k =>
      obtain ⟨flying, -, hturn⟩ := Option.map_eq_some_iff.mp h
      simp only [receive] at hturn
      split at hturn
      · cases hturn
        exact live_stream (Endpoint.live_start _ _)
      · cases hturn
        exact attempt_live _ _ _
    | act act => cases h
  | stream endpoint =>
    rcases turn_stream (hlive endpoint rfl) h honly with ⟨endpoint', hturn, hlive', -, -⟩ | ⟨rfl, hidle⟩
    · rw [hturn]
      exact live_stream hlive'
    · -- the stream is dropped
      have hturn : turn = ofEndpoint (endpoint.tick now) := (Option.some.inj h).symm
      rw [hturn, Endpoint.tick, if_pos hidle]
      rintro _ ⟨⟩

/-- A deadline is that of an earlier turn, or of a new `connect`. -/
theorem turn_deadline (h : self.turn now accepting inbox move = some turn) {id : BitVec 32}
    {sent deadline : ℕ} (hpeer : turn.1 = .opening id sent deadline) :
    (∃ within, move = .connect id within) ∨ ∃ sent', self = .opening id sent' deadline := by
  have hattempt : ∀ {id' : BitVec 32} {deadline' : ℕ}, (attempt now id' deadline').1 = .opening id sent deadline →
      id' = id ∧ deadline' = deadline := by
    intro id' deadline' h'
    rcases attempt_peer now id' deadline' with habsent | hopening
    · rw [habsent] at h'
      cases h'
    · rw [hopening] at h'
      cases h'
      exact ⟨rfl, rfl⟩
  have hstream : ∀ {done : Endpoint × List Datagram}, (ofEndpoint done).1 ≠ .opening id sent deadline := by
    intro done h'
    rw [ofEndpoint] at h'
    simp only at h'
    split at h'
    · cases h'
    · cases h'
  cases self with
  | absent =>
    cases move with
    | connect id' within =>
      cases h
      obtain ⟨rfl, -⟩ := hattempt hpeer
      exact Or.inl ⟨within, rfl⟩
    | retry => cases h
    | receive k =>
      obtain ⟨flying, -, hturn⟩ := Option.map_eq_some_iff.mp h
      simp only [receive] at hturn
      split at hturn
      · cases hturn
        cases hpeer
      · cases hturn
        cases hpeer
    | act act => cases h
  | opening id' sent' deadline' =>
    cases move with
    | connect id within => cases h
    | retry =>
      obtain ⟨-, hturn⟩ := Option.ite_none_right_eq_some.mp h
      cases hturn
      obtain ⟨rfl, rfl⟩ := hattempt hpeer
      exact Or.inr ⟨sent', rfl⟩
    | receive k =>
      obtain ⟨flying, -, hturn⟩ := Option.map_eq_some_iff.mp h
      simp only [receive] at hturn
      split at hturn
      · cases hturn
        cases hpeer
      · cases hturn
        obtain ⟨rfl, rfl⟩ := hattempt hpeer
        exact Or.inr ⟨sent', rfl⟩
    | act act => cases h
  | stream endpoint =>
    cases move with
    | connect id within => cases h
    | retry => cases h
    | receive k =>
      obtain ⟨flying, -, hturn⟩ := Option.map_eq_some_iff.mp h
      cases hturn
      exact absurd hpeer hstream
    | act act =>
      obtain ⟨done, -, hturn⟩ := Option.map_eq_some_iff.mp h
      cases hturn
      exact absurd hpeer hstream

end Peer

namespace Sockets

variable {s s' : Sockets} {passing : Passing} {id : BitVec 32}

/-- Nothing but a `SYN` arrives. -/
def OnlySyns (self : Sockets) : Passing → Prop
  | .move side (.receive k) =>
    ∀ flying, (self.toward side)[k]? = some flying → flying.segment.kind = SYN
  | _ => True

instance (self : Sockets) : ∀ passing, Decidable (self.OnlySyns passing)
  | .move side (.receive k) =>
    inferInstanceAs (Decidable (∀ flying ∈ (self.toward side)[k]?, flying.segment.kind = SYN))
  | .wait _ | .lose _ _ | .move _ (.connect _ _) | .move _ .retry | .move _ (.act _) => isTrue trivial

/-- A side has a stream. -/
def Streams (self : Sockets) (side : Side) : Prop := ∃ endpoint, self.peer side = .stream endpoint

/-- A side drops its stream, because it heard nothing for `IDLE`. -/
def Idle (self : Sockets) (side : Side) (passing : Passing) : Prop :=
  passing = .move side (.act .tick)
    ∧ ∃ endpoint, self.peer side = .stream endpoint ∧ IDLE < self.now - endpoint.heard

/-- Every stream there is is live. -/
def Live (self : Sockets) : Prop := ∀ side, (self.peer side).Live

theorem after_peer (s : Sockets) (side : Side) (turn : Peer × List Flying) :
    (s.after side turn).peer side = turn.1 := Function.update_self _ _ _

theorem after_peer_other (s : Sockets) (side : Side) (turn : Peer × List Flying) :
    (s.after side turn).peer side.other = s.peer side.other := Function.update_of_ne side.other_ne _ _

theorem consume_peer (s : Sockets) (side : Side) (move : Move) : (s.consume side move).peer = s.peer := by
  cases move <;> rfl

/-- What a move that brings something about finds, in terms of `OnlySyns`. -/
theorem OnlySyns.receive {side : Side} {move : Move} (h : s.OnlySyns (.move side move)) :
    ∀ k flying, move = .receive k → (s.toward side)[k]? = some flying → flying.segment.kind = SYN := by
  rintro k flying rfl
  exact h flying

theorem Live.step (h : s.Live) (honly : s.OnlySyns passing) (hstep : s.step passing = some s') :
    s'.Live := by
  cases passing with
  | wait ms =>
    cases hstep
    exact h
  | lose side k =>
    obtain ⟨-, hs'⟩ := Option.ite_none_right_eq_some.mp hstep
    cases hs'
    exact h
  | move side move =>
    obtain ⟨turn, hturn, rfl⟩ := Option.map_eq_some_iff.mp hstep
    intro there
    rcases side.eq_or_eq_other there with rfl | rfl
    · rw [after_peer]
      exact Peer.turn_live (h there) hturn honly.receive
    · rw [after_peer_other, consume_peer]
      exact h side.other

/-- A stream that is not dropped stays, and has heard something only if a `SYN` of its
own arrived. -/
theorem stream_step {side : Side} {endpoint : Endpoint} (hpeer : s.peer side = .stream endpoint)
    (hlive : endpoint.Live) (honly : s.OnlySyns passing) (hstep : s.step passing = some s') :
    (∃ endpoint', s'.peer side = .stream endpoint' ∧ endpoint'.id = endpoint.id
      ∧ (endpoint'.heard = endpoint.heard
        ∨ ∃ k flying, passing = .move side (.receive k) ∧ (s.toward side)[k]? = some flying
          ∧ flying.segment.id = endpoint.id))
    ∨ s.Idle side passing := by
  have hstays : s'.peer side = s.peer side → ∃ endpoint', s'.peer side = .stream endpoint'
      ∧ endpoint'.id = endpoint.id ∧ (endpoint'.heard = endpoint.heard
        ∨ ∃ k flying, passing = .move side (.receive k) ∧ (s.toward side)[k]? = some flying
          ∧ flying.segment.id = endpoint.id) :=
    fun hsame => ⟨endpoint, hsame.trans hpeer, rfl, Or.inl rfl⟩
  cases passing with
  | wait ms =>
    cases hstep
    exact Or.inl (hstays rfl)
  | lose there k =>
    obtain ⟨-, hs'⟩ := Option.ite_none_right_eq_some.mp hstep
    cases hs'
    exact Or.inl (hstays rfl)
  | move there move =>
    obtain ⟨turn, hturn, rfl⟩ := Option.map_eq_some_iff.mp hstep
    rcases there.eq_or_eq_other side with rfl | rfl
    · rw [hpeer] at hturn
      rcases Peer.turn_stream hlive hturn honly.receive with
        ⟨endpoint', hturn', -, hid, hheard⟩ | ⟨rfl, hidle⟩
      · refine Or.inl ⟨endpoint', ?_, hid, hheard.imp_right ?_⟩
        · rw [after_peer]
          exact hturn'
        · rintro ⟨k, flying, rfl, hflying, hsame⟩
          exact ⟨k, flying, rfl, hflying, hsame⟩
      · exact Or.inr ⟨rfl, endpoint, hpeer, hidle⟩
    · refine Or.inl (hstays ?_)
      rw [after_peer_other, consume_peer]

theorem now_le_step (hstep : s.step passing = some s') : s.now ≤ s'.now := by
  cases passing with
  | wait ms =>
    cases hstep
    exact Nat.le_add_right _ _
  | lose side k =>
    obtain ⟨-, hs'⟩ := Option.ite_none_right_eq_some.mp hstep
    cases hs'
    exact Nat.le_refl _
  | move side move =>
    obtain ⟨turn, -, rfl⟩ := Option.map_eq_some_iff.mp hstep
    cases move <;> exact Nat.le_refl _

/-- No `connect` waits longer than this for a stream. -/
def Until (self : Sockets) (id : BitVec 32) (bound : ℕ) : Prop :=
  ∀ side sent deadline, self.peer side = .opening id sent deadline → deadline ≤ bound

theorem Until.step {bound : ℕ} (h : s.Until id bound) (hstep : s.step passing = some s')
    (hnew : ∀ side within, passing ≠ .move side (.connect id within)) : s'.Until id bound := by
  cases passing with
  | wait ms =>
    cases hstep
    exact h
  | lose side k =>
    obtain ⟨-, hs'⟩ := Option.ite_none_right_eq_some.mp hstep
    cases hs'
    exact h
  | move side move =>
    obtain ⟨turn, hturn, rfl⟩ := Option.map_eq_some_iff.mp hstep
    intro there sent deadline hpeer
    rcases side.eq_or_eq_other there with rfl | rfl
    · rw [after_peer] at hpeer
      rcases Peer.turn_deadline hturn hpeer with ⟨within, rfl⟩ | ⟨sent', hbefore⟩
      · exact absurd rfl (hnew there within)
      · exact h there sent' deadline hbefore
    · rw [after_peer_other, consume_peer] at hpeer
      exact h side.other sent deadline hpeer

/-- There is such a time. -/
theorem exists_until (s : Sockets) (id : BitVec 32) : ∃ bound, s.Until id bound := by
  have hone : ∀ side, ∃ bound, ∀ sent deadline, s.peer side = .opening id sent deadline → deadline ≤ bound := by
    intro side
    cases hpeer : s.peer side with
    | absent => exact ⟨0, fun _ _ h => by cases h⟩
    | opening id' sent' deadline' =>
      refine ⟨deadline', ?_⟩
      rintro sent deadline ⟨⟩
      exact Nat.le_refl _
    | stream endpoint => exact ⟨0, fun _ _ h => by cases h⟩
  obtain ⟨left, hleft⟩ := hone .left
  obtain ⟨right, hright⟩ := hone .right
  refine ⟨max left right, ?_⟩
  intro side sent deadline hpeer
  cases side with
  | left => exact Nat.le_trans (hleft _ _ hpeer) (Nat.le_max_left _ _)
  | right => exact Nat.le_trans (hright _ _ hpeer) (Nat.le_max_right _ _)

/-- The openings of a stream on their way to a side. -/
def pending (self : Sockets) (side : Side) (id : BitVec 32) : ℕ :=
  (self.toward side).countP fun flying => flying.opens && flying.segment.id == id

theorem pending_remove {side there : Side} {k : ℕ} {flying : Flying}
    (h : (s.toward there)[k]? = some flying) :
    (s.remove there k).pending side id
        + (if side = there ∧ flying.opens = true ∧ flying.segment.id = id then 1 else 0)
      = s.pending side id := by
  unfold pending remove
  by_cases hside : side = there
  · subst hside
    have herase := countP_eraseIdx h fun flying => flying.opens && flying.segment.id == id
    simp only [Function.update_self, Bool.and_eq_true, beq_iff_eq, true_and] at herase ⊢
    exact herase
  · simp only [Function.update_of_ne hside, hside, false_and, if_false, Nat.add_zero]

/-- Once every `connect` of a stream is past its deadline, no more openings of it are
on their way to a side, and one less if one of them arrives there. -/
theorem pending_step {side : Side} {bound : ℕ} (huntil : s.Until id bound) (hnow : bound ≤ s.now)
    (hnew : ∀ side within, passing ≠ .move side (.connect id within))
    (hstep : s.step passing = some s') :
    s'.pending side id ≤ s.pending side id
      ∧ ∀ k flying, passing = .move side (.receive k) → (s.toward side)[k]? = some flying →
        flying.opens = true → flying.segment.id = id → s'.pending side id < s.pending side id := by
  cases passing with
  | wait ms =>
    cases hstep
    exact ⟨Nat.le_refl _, fun k flying h => by cases h⟩
  | lose there k =>
    obtain ⟨hk, hs'⟩ := Option.ite_none_right_eq_some.mp hstep
    cases hs'
    have hflying := List.getElem?_eq_getElem hk
    exact ⟨Nat.le_of_add_right_le (Nat.le_of_eq (pending_remove hflying)), fun k flying h => by cases h⟩
  | move there move =>
    obtain ⟨turn, hturn, rfl⟩ := Option.map_eq_some_iff.mp hstep
    -- what is sent opens no stream of this id
    have hsent : (turn.2.countP fun flying => flying.opens && flying.segment.id == id) = 0 := by
      rw [List.countP_eq_zero]
      intro flying hmem hboth
      obtain ⟨hopens, hid⟩ := Bool.and_eq_true_iff.mp hboth
      rw [beq_iff_eq] at hid
      subst hid
      rcases Peer.turn_opens hturn hmem hopens with ⟨within, rfl⟩ | ⟨sent, deadline, hpeer, hbefore⟩
      · exact hnew there within rfl
      · have := huntil there sent deadline hpeer
        omega
    have hafter : ((s.consume there move).after there turn).pending side id
        = (s.consume there move).pending side id := by
      unfold pending after
      by_cases hside : side = there.other
      · subst hside
        simp only [Function.update_self, List.countP_append]
        omega
      · simp only [Function.update_of_ne hside]
    rw [hafter]
    constructor
    · cases move with
      | receive k =>
        obtain ⟨flying, hflying, -⟩ := Option.map_eq_some_iff.mp hturn
        exact Nat.le_of_add_right_le (Nat.le_of_eq (pending_remove hflying))
      | _ => exact Nat.le_refl _
    · rintro k flying ⟨⟩ hflying hopens hid
      have hremove : (s.remove side k).pending side id + _ = s.pending side id := pending_remove hflying
      rw [if_pos ⟨rfl, hopens, hid⟩] at hremove
      have hconsume : (s.consume side (.receive k)).pending side id = (s.remove side k).pending side id := rfl
      omega

/-- A run without an end on which nothing but `SYN` datagrams arrive: time passes,
and the timer of a stream fires again and again. -/
structure Echoing (run : Run.Forever step) (accepting : Side → Bool) : Prop where
  new : run.state 0 = .new accepting
  quiet : ∀ n, (run.state n).Quiet (run.event n)
  onlySyns : ∀ n, (run.state n).OnlySyns (run.event n)
  time : ∀ time, ∃ n, time ≤ (run.state n).now
  ticks : ∀ side n, ∃ m, n ≤ m
    ∧ (run.event m = .move side (.act .tick) ∨ ¬ (run.state m).Streams side)

theorem now_le_later (run : Run.Forever step) {n time : ℕ} (hn : time ≤ (run.state n).now) :
    ∀ m, n ≤ m → time ≤ (run.state m).now :=
  run.invariant (I := fun s => time ≤ s.now) hn fun m _ hm => Nat.le_trans hm (now_le_step (run.next m))

namespace Echoing

variable {run : Run.Forever step} {accepting : Side → Bool} (h : Echoing run accepting)

include h

theorem live (m : ℕ) : (run.state m).Live := by
  refine run.invariant (I := Sockets.Live) (n := 0) ?_ ?_ m (Nat.zero_le m)
  · rw [h.new]
    rintro side _ ⟨⟩
  · intro m _ hlive
    exact hlive.step (h.onlySyns m) (run.next m)

/-- A stream that is not dropped stays. -/
theorem stays {side : Side} {n : ℕ} (hstream : ∃ endpoint, (run.state n).peer side = .stream endpoint
      ∧ endpoint.id = id)
    (hidle : ∀ m, n ≤ m → ¬ (run.state m).Idle side (run.event m)) :
    ∀ m, n ≤ m → ∃ endpoint, (run.state m).peer side = .stream endpoint ∧ endpoint.id = id := by
  refine run.invariant (I := fun s => ∃ endpoint, s.peer side = .stream endpoint ∧ endpoint.id = id)
    hstream ?_
  rintro m hm ⟨endpoint, hpeer, hid⟩
  rcases stream_step hpeer (h.live m side endpoint hpeer) (h.onlySyns m) (run.next m) with
    ⟨endpoint', hpeer', hid', -⟩ | hdropped
  · exact ⟨endpoint', hpeer', hid'.trans hid⟩
  · exact absurd hdropped (hidle m hm)

/-- Once no opening of a stream is on its way any more, it hears nothing. -/
theorem hears_nothing {side : Side} {k heard bound : ℕ}
    (hstream : ∃ endpoint, (run.state k).peer side = .stream endpoint ∧ endpoint.id = id
      ∧ endpoint.heard = heard)
    (hidle : ∀ m, k ≤ m → ¬ (run.state m).Idle side (run.event m))
    (huntil : ∀ m, k ≤ m → (run.state m).Until id bound) (hnow : ∀ m, k ≤ m → bound ≤ (run.state m).now)
    (hnew : ∀ m, k ≤ m → ∀ there within, run.event m ≠ .move there (.connect id within))
    (hpending : ∀ m, k ≤ m →
      (run.state (m + 1)).pending side id = (run.state m).pending side id) :
    ∀ m, k ≤ m → ∃ endpoint, (run.state m).peer side = .stream endpoint ∧ endpoint.id = id
      ∧ endpoint.heard = heard := by
  refine run.invariant (I := fun s => ∃ endpoint, s.peer side = .stream endpoint ∧ endpoint.id = id
    ∧ endpoint.heard = heard) hstream ?_
  rintro m hm ⟨endpoint, hpeer, rfl, hheard⟩
  rcases stream_step hpeer (h.live m side endpoint hpeer) (h.onlySyns m) (run.next m) with
    ⟨endpoint', hpeer', hid, hsame | ⟨i, flying, hevent, hflying, hown⟩⟩ | hdropped
  · exact ⟨endpoint', hpeer', hid, hsame.trans hheard⟩
  · -- it would be an opening, and one less would be on its way
    have hquiet := h.quiet m
    have honly := h.onlySyns m
    rw [hevent] at hquiet honly
    have hanswer : flying.answers = false := by
      rw [← Bool.not_eq_true]
      intro hanswer
      refine hquiet flying hflying hanswer ?_
      rw [hpeer]
      exact hown
    have hsyn : (flying.segment.kind == SYN) = true := beq_iff_eq.mpr (honly flying hflying)
    have hopens : flying.opens = true := by
      rw [Flying.answers, hsyn, Bool.true_and] at hanswer
      rw [Flying.opens, hsyn, hanswer]
      rfl
    have hless := (pending_step (huntil m hm) (hnow m hm) (hnew m hm) (run.next m)).2
      i flying hevent hflying hopens hown
    exact absurd (hpending m hm) (Nat.ne_of_lt hless)
  · exact absurd hdropped (hidle m hm)

/-- A stream that no `connect` opens again is dropped. -/
theorem idles {side : Side} {n : ℕ} {endpoint : Endpoint}
    (hpeer : (run.state n).peer side = .stream endpoint)
    (hnew : ∀ m, n ≤ m → ∀ there within, run.event m ≠ .move there (.connect endpoint.id within)) :
    ∃ m, n ≤ m ∧ (run.state m).Idle side (run.event m) := by
  by_contra hnone
  have hidle : ∀ m, n ≤ m → ¬ (run.state m).Idle side (run.event m) :=
    fun m hm hdropped => hnone ⟨m, hm, hdropped⟩
  have hstays := h.stays ⟨endpoint, hpeer, rfl⟩ hidle
  -- past the deadlines of its openings
  obtain ⟨bound, hbound⟩ := exists_until (run.state n) endpoint.id
  have huntil : ∀ m, n ≤ m → (run.state m).Until endpoint.id bound :=
    run.invariant (I := fun s => s.Until endpoint.id bound) hbound
      fun m hm huntil => huntil.step (run.next m) (hnew m hm)
  obtain ⟨late, hlate⟩ := h.time bound
  have hnow : ∀ m, max n late ≤ m → bound ≤ (run.state m).now :=
    fun m hm => now_le_later run hlate m (Nat.le_trans (Nat.le_max_right _ _) hm)
  have hfrom : ∀ {m}, max n late ≤ m → n ≤ m := fun hm => Nat.le_trans (Nat.le_max_left _ _) hm
  -- and past the last of them that arrives
  obtain ⟨k, hk, hpending⟩ := run.settles (fun s => s.pending side endpoint.id) (n := max n late)
    fun m hm => (pending_step (huntil m (hfrom hm)) (hnow m hm) (hnew m (hfrom hm)) (run.next m)).1
  have hfrom' : ∀ {m}, k ≤ m → n ≤ m := fun hm => hfrom (Nat.le_trans hk hm)
  obtain ⟨last, hlast, hid⟩ := hstays k (hfrom' (Nat.le_refl k))
  have hheard := h.hears_nothing ⟨last, hlast, hid, rfl⟩ (fun m hm => hidle m (hfrom' hm))
    (fun m hm => huntil m (hfrom' hm)) (fun m hm => hnow m (Nat.le_trans hk hm))
    (fun m hm => hnew m (hfrom' hm)) hpending
  obtain ⟨silent, hsilent⟩ := h.time (last.heard + IDLE + 1)
  obtain ⟨m, hm, htick⟩ := h.ticks side (max k silent)
  have hkm : k ≤ m := Nat.le_trans (Nat.le_max_left _ _) hm
  obtain ⟨there, hthere, -, hsame⟩ := hheard m hkm
  rcases htick with htick | hgone
  · refine hidle m (hfrom' hkm) ⟨htick, there, hthere, ?_⟩
    have := now_le_later run hsilent m (Nat.le_trans (Nat.le_max_right _ _) hm)
    omega
  · exact hgone ⟨there, hthere⟩

end Echoing

/-- **As long as no answer arrives where it would be answered, there are at most two
`SYN` datagrams for every opening, and a stream that hears nothing else is dropped.** -/
theorem dies_out (accepting : Side → Bool) :
    (∀ passings s, Run.Guarded step Quiet passings (.new accepting) s → s.syns ≤ 2 * s.openings)
    ∧ ∀ run : Run.Forever step, Echoing run accepting →
      ∀ side n endpoint, (run.state n).peer side = .stream endpoint →
        (∀ m, n ≤ m → ∀ there within, run.event m ≠ .move there (.connect endpoint.id within)) →
        ∃ m, n ≤ m ∧ (run.state m).Idle side (run.event m) := by
  constructor
  · intro passings s hrun
    have hnew : (Sockets.new accepting).Inv := Nat.le_refl 0
    exact syns_le (hrun.invariant (fun _ _ _ hs hquiet hstep => Inv.step hs hquiet hstep) hnew)
  · intro run hechoing side n endpoint hpeer hnew
    exact hechoing.idles hpeer hnew

/-- The right side may be connected to. -/
def rightAccepts : Side → Bool := fun side => side == .right

/-- A stream is opened, and nothing is sent any more. -/
def silence : ℕ → Passing
  | 0 => .move .left (.connect 7 1000)
  | 1 => .move .right (.receive 0)
  | 2 => .move .left (.receive 0)
  | 3 => .wait 30001
  | 4 => .move .left (.act .tick)
  | 5 => .move .right (.act .tick)
  | _ => .wait 1

def silenceAfter : ℕ → Sockets
  | 0 => .new rightAccepts
  | n + 1 => ((silenceAfter n).step (silence n)).getD (silenceAfter n)

def silent : Run.Forever step where
  state := silenceAfter
  event := silence
  next
    | 0 | 1 | 2 | 3 | 4 | 5 => rfl
    | _ + 6 => rfl

/-- In the end both streams are gone, and the time goes on. -/
theorem silent_end (n : ℕ) :
    (∀ side, (silent.state (6 + n)).peer side = .absent) ∧ (silent.state (6 + n)).now = 30001 + n := by
  induction n with
  | zero => exact ⟨fun side => by cases side <;> rfl, rfl⟩
  | succ n ih =>
    have hnext : silent.state (6 + (n + 1)) = { silent.state (6 + n) with now := (silent.state (6 + n)).now + 1 } := by
      have hevent : silence (6 + n) = .wait 1 := by rw [Nat.add_comm]; rfl
      change ((silenceAfter (6 + n)).step (silence (6 + n))).getD (silenceAfter (6 + n)) = _
      rw [hevent]
      rfl
    rw [hnext]
    exact ⟨ih.1, by rw [ih.2]; rfl⟩

theorem silent_echoing : Echoing silent rightAccepts where
  new := rfl
  quiet
    | 0 | 1 | 2 | 3 | 4 | 5 => by decide
    | _ + 6 => trivial
  onlySyns
    | 0 | 1 | 2 | 3 | 4 | 5 => by decide
    | _ + 6 => trivial
  time time := by
    refine ⟨6 + time, ?_⟩
    rw [(silent_end time).2]
    exact Nat.le_add_left _ _
  ticks side n := by
    refine ⟨6 + n, Nat.le_add_left _ _, Or.inr ?_⟩
    rintro ⟨endpoint, hpeer⟩
    rw [(silent_end n).1] at hpeer
    cases hpeer

/-- One opening and one answer; then both streams are dropped. -/
theorem dies_out_silent :
    (∃ s, [Passing.move .left (.connect 7 1000), .move .right (.receive 0), .move .left (.receive 0)].foldlM
        step (.new rightAccepts) = some s ∧ s.openings = 1 ∧ s.syns ≤ 2 * s.openings)
    ∧ ∃ m, 3 ≤ m ∧ (silent.state m).Idle .left (silent.event m) := by
  constructor
  · have hrun : Run.Guarded step Quiet [Passing.move .left (.connect 7 1000), .move .right (.receive 0),
        .move .left (.receive 0)] (.new rightAccepts) _ :=
      ⟨by decide, _, rfl, by decide, _, rfl, by decide, _, rfl, rfl⟩
    exact ⟨_, hrun.run, rfl, (dies_out rightAccepts).1 _ _ hrun⟩
  · refine (dies_out rightAccepts).2 silent silent_echoing .left 3 ((Endpoint.new 7).start 0) rfl ?_
    intro m hm there within hevent
    match m, hm with
    | 3, _ | 4, _ | 5, _ => cases hevent
    | _ + 6, _ => cases hevent

/-- An opening that was sent twice, and both answered, is answered once more. -/
def echoed : List Passing :=
  [.move .left (.connect 7 1000), .wait 250, .move .left .retry, .move .right (.receive 0),
    .move .right (.receive 0), .move .left (.receive 0), .move .left (.receive 0),
    .move .right (.receive 0), .move .left (.receive 0)]

/-- **Two openings, and more than four `SYN` datagrams.** -/
theorem echoed_syns :
    ¬ ∀ (accepting : Side → Bool) (passings : List Passing) (s : Sockets),
      passings.foldlM step (.new accepting) = some s → s.syns ≤ 2 * s.openings := by
  intro h
  obtain ⟨s, hrun, hsyns, hopenings⟩ : ∃ s, echoed.foldlM step (.new rightAccepts) = some s
      ∧ s.syns = 7 ∧ s.openings = 2 := ⟨_, rfl, rfl, rfl⟩
  have hle := h _ _ s hrun
  rw [hsyns, hopenings] at hle
  exact absurd hle (by decide)

end Sockets

end WindowCast.Transport
