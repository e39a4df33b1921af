import WindowCast.Bud.Feedback
import WindowCast.Bud.Reassembly

/-!
# The loss detector

`bud/src/recovery.rs`: what the receiving side asks for of the frames that are
still incomplete.  Times are microseconds; they are natural numbers, as a sum
of times does not come near 64 bits.  The map of frames seen and the map of the
last refreshes are functions.

## Main definitions

* `LossDetector.turn` — what is decided about one waiting frame.
* `LossDetector.poll` — one look at all of them.
* `Session` — a reassembler and a detector with the polls so far;
  `Session.Reachable`.

## Main results

* `LossDetector.gives_up_iff` — which frames a poll gives up.
* `LossDetector.refreshes_of_due` — a stream that is due gets its refresh.
* `Session.Reachable.inv` — the reassembler keeps its invariant.
-/

namespace WindowCast.Bud

/-- How many NACKs one frame gets. -/
def MAX_NACKS : ℕ := 2

/-- How long the receiver is willing to wait. -/
structure Timing where
  rttUs : ℕ
  /-- How long a frame may be incomplete before it counts as having a loss. -/
  holdUs : ℕ
  /-- How old an incomplete frame may get. -/
  deadlineUs : ℕ
  /-- The least time between two refresh requests for one stream. -/
  refreshGapUs : ℕ
  deriving DecidableEq, Repr

/-- The timing of a near sender. -/
def lanTiming : Timing := ⟨4000, 3000, 30000, 250000⟩

structure Seen where
  firstUs : ℕ
  nacks : ℕ
  lastNackUs : ℕ
  deriving DecidableEq, Repr

/-- The stream and number of a waiting frame. -/
def Incomplete.key (w : Incomplete) : UInt16 × UInt32 := (w.stream, w.frame)

structure LossDetector where
  seen : UInt16 × UInt32 → Option Seen
  lastRefresh : UInt16 → Option ℕ

/-- What the loop of `poll` decided about a waiting frame. -/
inductive Turn
  | waited
  /-- It was asked for. -/
  | asked
  /-- It was given up, and that was all. -/
  | gaveUp
  /-- It was given up, and a refresh asked for. -/
  | refreshed
  deriving DecidableEq, Repr

namespace Turn

def givesUp : Turn → Bool
  | waited | asked => false
  | gaveUp | refreshed => true

/-- The feedback of a turn. -/
def feedback (w : Incomplete) : Turn → Option Feedback
  | waited | gaveUp => none
  | asked => some (.nack w.stream w.frame w.missing)
  | refreshed => some (.refresh w.stream w.frame)

end Turn

namespace LossDetector

def new : LossDetector := ⟨fun _ => none, fun _ => none⟩

/-- Forgets the frames that wait no longer. -/
def retain (self : LossDetector) (waiting : List Incomplete) : LossDetector :=
  { self with seen := fun key => if waiting.any fun w => w.key = key then self.seen key else none }

/-- What is known of a waiting frame, which may be a new one. -/
def entry (self : LossDetector) (nowUs : ℕ) (w : Incomplete) : Seen :=
  (self.seen w.key).getD ⟨nowUs, 0, 0⟩

/-- Whether a refresh for the stream may be asked for. -/
def due (self : LossDetector) (nowUs : ℕ) (timing : Timing) (stream : UInt16) : Bool :=
  match self.lastRefresh stream with
  | none => true
  | some last => decide (nowUs - last ≥ timing.refreshGapUs)

/-- One turn of the loop of `poll`. -/
def turn (self : LossDetector) (nowUs : ℕ) (timing : Timing) (w : Incomplete) :
    LossDetector × Turn :=
  let seen := self.entry nowUs w
  let age := nowUs - seen.firstUs
  if age ≥ timing.deadlineUs then
    let forgotten := Function.update self.seen w.key none
    if self.due nowUs timing w.stream then
      (⟨forgotten, Function.update self.lastRefresh w.stream (some nowUs)⟩, .refreshed)
    else (⟨forgotten, self.lastRefresh⟩, .gaveUp)
  else
    let spaced := seen.nacks = 0 ∨ nowUs - seen.lastNackUs ≥ timing.rttUs * 3 / 2
    let inTime := age + timing.rttUs ≤ timing.deadlineUs
    if age ≥ timing.holdUs ∧ seen.nacks < MAX_NACKS ∧ spaced ∧ inTime then
      let seen := { seen with nacks := seen.nacks + 1, lastNackUs := nowUs }
      (⟨Function.update self.seen w.key (some seen), self.lastRefresh⟩, .asked)
    else (⟨Function.update self.seen w.key (some seen), self.lastRefresh⟩, .waited)

/-- The loop of `poll`. -/
def turns (nowUs : ℕ) (timing : Timing) :
    List Incomplete → LossDetector → Reassembler →
      LossDetector × Reassembler × List (Incomplete × Turn)
  | [], self, reassembler => (self, reassembler, [])
  | w :: waiting, self, reassembler =>
    let (self, turn) := self.turn nowUs timing w
    let reassembler :=
      if turn.givesUp then (reassembler.abandon w.stream w.frame).1 else reassembler
    let (self, reassembler, rest) := turns nowUs timing waiting self reassembler
    (self, reassembler, (w, turn) :: rest)

/-- Looks at the reassembler's waiting frames, with the streams in `order`. -/
def poll (self : LossDetector) (nowUs : ℕ) (timing : Timing) (reassembler : Reassembler)
    (order : List UInt16) : LossDetector × Reassembler × List (Incomplete × Turn) :=
  let waiting := reassembler.incomplete order
  turns nowUs timing waiting (self.retain waiting) reassembler

end LossDetector

/-- A poll: what it started from, and what it was given. -/
structure Poll where
  detector : LossDetector
  reassembler : Reassembler
  nowUs : ℕ
  timing : Timing
  order : List UInt16

namespace Poll

def waiting (self : Poll) : List Incomplete := self.reassembler.incomplete self.order

def run (self : Poll) : LossDetector × Reassembler × List (Incomplete × Turn) :=
  self.detector.poll self.nowUs self.timing self.reassembler self.order

def turns (self : Poll) : List (Incomplete × Turn) := self.run.2.2

/-- The feedback to send. -/
def feedback (self : Poll) : List Feedback := self.turns.filterMap fun t => t.2.feedback t.1

end Poll

/-- A reassembler and a detector, with the polls so far. -/
structure Session where
  reassembler : Reassembler
  detector : LossDetector
  polls : List Poll

/-- An order in which the map of streams can be walked. -/
structure Reassembler.Walk (r : Reassembler) (order : List UInt16) : Prop where
  nodup : order.Nodup
  complete : ∀ stream, (r.streams stream).pending ≠ [] → stream ∈ order

namespace Session

inductive Event
  | push (header : Header) (payload : List UInt8)
  | poll (nowUs : ℕ) (timing : Timing) (order : List UInt16)

def new : Session := ⟨Reassembler.new, LossDetector.new, []⟩

/-- The poll that is made now. -/
def pollNow (self : Session) (nowUs : ℕ) (timing : Timing) (order : List UInt16) : Poll :=
  ⟨self.detector, self.reassembler, nowUs, timing, order⟩

def step (self : Session) : Event → Option Session
  | .push header payload =>
    match self.reassembler.push header payload with
    | none => none
    | some (_, reassembler) => some { self with reassembler }
  | .poll nowUs timing order =>
    let poll := self.pollNow nowUs timing order
    some ⟨poll.run.2.1, poll.run.1, self.polls ++ [poll]⟩

/-- What can happen: a packet whose header `decode` accepts, or a poll. -/
def Allowed (self : Session) : Event → Prop
  | .push header _ => ∃ datagram, Header.decode datagram = .ok header
  | .poll _ _ order => self.reassembler.Walk order

/-- The sessions that runs lead to. -/
inductive Reachable : Session → Prop
  | new : Reachable new
  | step {self self' : Session} {event : Event} (h : Reachable self) (hallowed : self.Allowed event)
      (hstep : self.step event = some self') : Reachable self'

end Session

/-! ### One turn -/

namespace LossDetector

/-- Whether the frame is past its deadline. -/
def Expired (self : LossDetector) (nowUs : ℕ) (timing : Timing) (w : Incomplete) : Prop :=
  timing.deadlineUs ≤ nowUs - (self.entry nowUs w).firstUs

instance (self : LossDetector) (nowUs : ℕ) (timing : Timing) (w : Incomplete) :
    Decidable (self.Expired nowUs timing w) := Nat.decLe _ _

/-- What a turn can do. -/
theorem turn_cases (self : LossDetector) (nowUs : ℕ) (timing : Timing) (w : Incomplete) :
    (self.Expired nowUs timing w ∧ self.due nowUs timing w.stream = true ∧
      self.turn nowUs timing w = (⟨Function.update self.seen w.key none,
        Function.update self.lastRefresh w.stream (some nowUs)⟩, .refreshed)) ∨
    (self.Expired nowUs timing w ∧ self.due nowUs timing w.stream = false ∧
      self.turn nowUs timing w = (⟨Function.update self.seen w.key none, self.lastRefresh⟩, .gaveUp)) ∨
    (¬ self.Expired nowUs timing w ∧ (self.entry nowUs w).nacks < MAX_NACKS ∧
      self.turn nowUs timing w = (⟨Function.update self.seen w.key (some { self.entry nowUs w with
        nacks := (self.entry nowUs w).nacks + 1, lastNackUs := nowUs }), self.lastRefresh⟩, .asked)) ∨
    (¬ self.Expired nowUs timing w ∧
      self.turn nowUs timing w =
        (⟨Function.update self.seen w.key (some (self.entry nowUs w)), self.lastRefresh⟩, .waited)) := by
  unfold turn Expired
  simp only
  split
  · rename_i hold
    split
    · rename_i hdue
      exact .inl ⟨hold, hdue, rfl⟩
    · rename_i hdue
      exact .inr (.inl ⟨hold, Bool.not_eq_true _ ▸ hdue, rfl⟩)
  · rename_i hyoung
    split
    · rename_i hask
      exact .inr (.inr (.inl ⟨hyoung, hask.2.1, rfl⟩))
    · exact .inr (.inr (.inr ⟨hyoung, rfl⟩))

theorem seen_turn_of_ne {self : LossDetector} {nowUs : ℕ} {timing : Timing} {w : Incomplete}
    {key : UInt16 × UInt32} (hne : key ≠ w.key) :
    (self.turn nowUs timing w).1.seen key = self.seen key := by
  rcases self.turn_cases nowUs timing w with ⟨-, -, h⟩ | ⟨-, -, h⟩ | ⟨-, -, h⟩ | ⟨-, h⟩ <;>
    rw [h] <;> exact Function.update_of_ne hne _ _

theorem lastRefresh_turn_of_ne {self : LossDetector} {nowUs : ℕ} {timing : Timing} {w : Incomplete}
    {stream : UInt16} (hne : stream ≠ w.stream) :
    (self.turn nowUs timing w).1.lastRefresh stream = self.lastRefresh stream := by
  rcases self.turn_cases nowUs timing w with ⟨-, -, h⟩ | ⟨-, -, h⟩ | ⟨-, -, h⟩ | ⟨-, h⟩ <;> rw [h]
  exact Function.update_of_ne hne _ _

theorem lastRefresh_turn {self : LossDetector} {nowUs : ℕ} {timing : Timing} {w : Incomplete} :
    (self.turn nowUs timing w).1.lastRefresh w.stream =
      if (self.turn nowUs timing w).2 = .refreshed then some nowUs
      else self.lastRefresh w.stream := by
  rcases self.turn_cases nowUs timing w with ⟨-, -, h⟩ | ⟨-, -, h⟩ | ⟨-, -, h⟩ | ⟨-, h⟩ <;> rw [h]
  · exact Function.update_self _ _ _
  · rfl
  · rfl
  · rfl

theorem givesUp_turn {self : LossDetector} {nowUs : ℕ} {timing : Timing} {w : Incomplete} :
    (self.turn nowUs timing w).2.givesUp = true ↔ self.Expired nowUs timing w := by
  rcases self.turn_cases nowUs timing w with ⟨he, -, h⟩ | ⟨he, -, h⟩ | ⟨he, -, h⟩ | ⟨he, h⟩ <;>
    simp [h, he, Turn.givesUp]

theorem refreshed_turn {self : LossDetector} {nowUs : ℕ} {timing : Timing} {w : Incomplete} :
    (self.turn nowUs timing w).2 = .refreshed ↔
      self.Expired nowUs timing w ∧ self.due nowUs timing w.stream = true := by
  rcases self.turn_cases nowUs timing w with ⟨he, hd, h⟩ | ⟨he, hd, h⟩ | ⟨he, -, h⟩ | ⟨he, h⟩ <;>
    simp [*]

/-- Whether a frame is past its deadline depends on its own entry only. -/
theorem expired_congr {self self' : LossDetector} {nowUs : ℕ} {timing : Timing} {w : Incomplete}
    (h : self'.seen w.key = self.seen w.key) :
    self'.Expired nowUs timing w ↔ self.Expired nowUs timing w := by
  rw [Expired, Expired, entry, entry, h]

theorem due_congr {self self' : LossDetector} {nowUs : ℕ} {timing : Timing} {stream : UInt16}
    (h : self'.lastRefresh stream = self.lastRefresh stream) :
    self'.due nowUs timing stream = self.due nowUs timing stream := by
  rw [due, due, h]

/-! ### The loop -/

theorem turns_cons (nowUs : ℕ) (timing : Timing) (w : Incomplete) (waiting : List Incomplete)
    (self : LossDetector) (reassembler : Reassembler) :
    turns nowUs timing (w :: waiting) self reassembler =
      let t := self.turn nowUs timing w
      let r := if t.2.givesUp then (reassembler.abandon w.stream w.frame).1 else reassembler
      let rest := turns nowUs timing waiting t.1 r
      (rest.1, rest.2.1, (w, t.2) :: rest.2.2) := rfl

/-- Every waiting frame has its turn. -/
theorem map_fst_turns (nowUs : ℕ) (timing : Timing) :
    ∀ (waiting : List Incomplete) (self : LossDetector) (reassembler : Reassembler),
      (turns nowUs timing waiting self reassembler).2.2.map Prod.fst = waiting := by
  intro waiting
  induction waiting with
  | nil => exact fun _ _ => rfl
  | cons w waiting ih =>
    intro self reassembler
    rw [turns_cons, List.map_cons, ih]

/-- **Which frames a poll gives up**: those past their deadline. -/
theorem gives_up_iff {nowUs : ℕ} {timing : Timing} :
    ∀ {waiting : List Incomplete} {self : LossDetector} {reassembler : Reassembler},
      (waiting.map Incomplete.key).Nodup →
      ∀ t ∈ (turns nowUs timing waiting self reassembler).2.2,
        (t.2.givesUp = true ↔ self.Expired nowUs timing t.1) := by
  intro waiting
  induction waiting with
  | nil => exact fun _ t ht => absurd ht List.not_mem_nil
  | cons w waiting ih =>
    intro self reassembler hnodup t ht
    rw [List.map_cons, List.nodup_cons] at hnodup
    rw [turns_cons] at ht
    rcases List.mem_cons.mp ht with rfl | ht
    · exact givesUp_turn
    · rw [ih hnodup.2 t ht]
      refine expired_congr (seen_turn_of_ne fun hkey => hnodup.1 ?_)
      rw [← hkey]
      refine List.mem_map_of_mem ?_
      rw [← map_fst_turns nowUs timing waiting]
      exact List.mem_map_of_mem ht

/-- **A stream that is due gets its refresh**, if one of its frames is past its deadline. -/
theorem refreshes_of_due {nowUs : ℕ} {timing : Timing} {stream : UInt16} :
    ∀ {waiting : List Incomplete} {self : LossDetector} {reassembler : Reassembler},
      (waiting.map Incomplete.key).Nodup → self.due nowUs timing stream = true →
      ∀ w ∈ waiting, w.stream = stream → self.Expired nowUs timing w →
        ∃ t ∈ (turns nowUs timing waiting self reassembler).2.2,
          t.1.stream = stream ∧ t.2 = .refreshed := by
  intro waiting
  induction waiting with
  | nil => exact fun _ _ w hw => absurd hw List.not_mem_nil
  | cons head waiting ih =>
    intro self reassembler hnodup hdue w hw hstream hexpired
    rw [List.map_cons, List.nodup_cons] at hnodup
    rw [turns_cons]
    rcases Classical.em (head.stream = stream ∧ self.Expired nowUs timing head) with hhead | hhead
    · refine ⟨_, List.mem_cons_self, hhead.1, refreshed_turn.mpr ⟨hhead.2, ?_⟩⟩
      rw [hhead.1]
      exact hdue
    -- nothing that counts has changed for the frames after it
    rcases List.mem_cons.mp hw with rfl | hw
    · exact absurd ⟨hstream, hexpired⟩ hhead
    have hdue' : (self.turn nowUs timing head).1.due nowUs timing stream = true := by
      rw [← hdue]
      refine due_congr ?_
      rcases eq_or_ne stream head.stream with heq | hne
      · rw [heq, lastRefresh_turn, if_neg]
        rw [refreshed_turn]
        exact fun h => hhead ⟨heq.symm, h.1⟩
      · exact lastRefresh_turn_of_ne hne
    have hexpired' : (self.turn nowUs timing head).1.Expired nowUs timing w := by
      refine (expired_congr (seen_turn_of_ne fun hkey => hnodup.1 ?_)).mpr hexpired
      rw [← hkey]
      exact List.mem_map_of_mem hw
    obtain ⟨t, ht, hturn⟩ := ih hnodup.2 hdue' w hw hstream hexpired'
    exact ⟨t, List.mem_cons_of_mem _ ht, hturn⟩

/-- The last refresh of a stream after the loop: this poll's, if there was one. -/
theorem lastRefresh_turns {nowUs : ℕ} {timing : Timing} {stream : UInt16} :
    ∀ {waiting : List Incomplete} {self : LossDetector} {reassembler : Reassembler},
      ((∃ t ∈ (turns nowUs timing waiting self reassembler).2.2,
          t.1.stream = stream ∧ t.2 = .refreshed) →
        (turns nowUs timing waiting self reassembler).1.lastRefresh stream = some nowUs) ∧
      ((∀ t ∈ (turns nowUs timing waiting self reassembler).2.2,
          t.1.stream = stream → t.2 ≠ .refreshed) →
        (turns nowUs timing waiting self reassembler).1.lastRefresh stream
          = self.lastRefresh stream) := by
  intro waiting
  induction waiting with
  | nil =>
    intro self reassembler
    refine ⟨?_, fun _ => rfl⟩
    rintro ⟨t, ht, -⟩
    exact absurd ht List.not_mem_nil
  | cons w waiting ih =>
    intro self reassembler
    rw [turns_cons]
    simp only
    set rest := turns nowUs timing waiting (self.turn nowUs timing w).1
      (if (self.turn nowUs timing w).2.givesUp then (reassembler.abandon w.stream w.frame).1
        else reassembler) with hrest
    obtain ⟨hsome, hnone⟩ := @ih (self.turn nowUs timing w).1
      (if (self.turn nowUs timing w).2.givesUp then (reassembler.abandon w.stream w.frame).1
        else reassembler)
    rw [← hrest] at hsome hnone
    constructor
    · rintro ⟨t, ht, hstream, hturn⟩
      rcases Classical.em (∃ t ∈ rest.2.2, t.1.stream = stream ∧ t.2 = .refreshed) with hlater | hlater
      · exact hsome hlater
      -- it was the turn of the first frame
      rw [hnone fun t ht hstream hturn => hlater ⟨t, ht, hstream, hturn⟩]
      rcases List.mem_cons.mp ht with rfl | ht
      · rw [← hstream, lastRefresh_turn, if_pos hturn]
      · exact absurd ⟨t, ht, hstream, hturn⟩ hlater
    · intro hall
      rw [hnone fun t ht => hall t (List.mem_cons_of_mem _ ht)]
      rcases eq_or_ne stream w.stream with heq | hne
      · have hturn := hall _ List.mem_cons_self heq.symm
        rw [heq, lastRefresh_turn, if_neg hturn]
      · exact lastRefresh_turn_of_ne hne

/-- The reassembler keeps its invariant. -/
theorem inv_turns {nowUs : ℕ} {timing : Timing} :
    ∀ {waiting : List Incomplete} {self : LossDetector} {reassembler : Reassembler},
      reassembler.Inv → (turns nowUs timing waiting self reassembler).2.1.Inv := by
  intro waiting
  induction waiting with
  | nil => exact fun h => h
  | cons w waiting ih =>
    intro self reassembler h
    rw [turns_cons]
    refine ih ?_
    split
    · exact h.abandon w.stream w.frame
    · exact h

/-- Polling only takes waiting frames away. -/
theorem pending_turns_sublist (nowUs : ℕ) (timing : Timing) (stream : UInt16) :
    ∀ (waiting : List Incomplete) (self : LossDetector) (reassembler : Reassembler),
      ((turns nowUs timing waiting self reassembler).2.1.streams stream).pending.Sublist
        (reassembler.streams stream).pending := by
  intro waiting
  induction waiting with
  | nil => exact fun _ _ => List.Sublist.refl _
  | cons w waiting ih =>
    intro self reassembler
    rw [turns_cons]
    refine (ih _ _).trans ?_
    split
    · exact (reassembler.streams_abandon w.stream w.frame stream).2
    · exact List.Sublist.refl _

end LossDetector

/-! ### Sessions -/

/-- The waiting frames a walk finds are all different. -/
theorem Reassembler.Walk.nodup_keys {r : Reassembler} (h : r.Inv) {order : List UInt16}
    (hwalk : r.Walk order) : ((r.incomplete order).map Incomplete.key).Nodup := by
  have hkeys : (r.incomplete order).map Incomplete.key = order.flatMap fun stream =>
      (r.streams stream).pending.map fun p => (stream, p.frame) := by
    rw [Reassembler.incomplete, List.map_flatMap]
    exact List.flatMap_congr fun stream _ => List.map_map
  rw [hkeys, List.nodup_flatMap]
  constructor
  · intro stream _
    have hnodup := (h stream).distinct.map (Prod.mk_right_injective stream)
    rwa [List.map_map] at hnodup
  · refine hwalk.nodup.imp fun hne key hkey hkey' => hne ?_
    obtain ⟨p, -, rfl⟩ := List.mem_map.mp hkey
    obtain ⟨p', -, heq⟩ := List.mem_map.mp hkey'
    exact (Prod.mk.inj heq).1.symm

/-- A frame that a walk finds is one that waits. -/
theorem Reassembler.mem_incomplete {r : Reassembler} {order : List UInt16} {w : Incomplete}
    (h : w ∈ r.incomplete order) :
    ∃ p ∈ (r.streams w.stream).pending, p.frame = w.frame ∧ p.missing = w.missing := by
  obtain ⟨stream, -, hmem⟩ := List.mem_flatMap.mp h
  obtain ⟨p, hp, rfl⟩ := List.mem_map.mp hmem
  exact ⟨p, hp, rfl, rfl⟩

theorem Reassembler.Walk.mem_incomplete {r : Reassembler} {order : List UInt16}
    (hwalk : r.Walk order) {stream : UInt16} {p : Pending} (hp : p ∈ (r.streams stream).pending) :
    ⟨stream, p.frame, p.missing⟩ ∈ r.incomplete order :=
  List.mem_flatMap.mpr ⟨stream, hwalk.complete stream (List.ne_nil_of_mem hp),
    List.mem_map_of_mem hp⟩

namespace Poll

/-- What holds of a poll of a run. -/
structure Inv (poll : Poll) : Prop where
  reassembler : poll.reassembler.Inv
  walk : poll.reassembler.Walk poll.order

theorem map_fst_turns (self : Poll) : self.turns.map Prod.fst = self.waiting :=
  LossDetector.map_fst_turns _ _ _ _ _

theorem mem_waiting {self : Poll} {t : Incomplete × Turn} (h : t ∈ self.turns) :
    t.1 ∈ self.waiting := by
  rw [← map_fst_turns]
  exact List.mem_map_of_mem h

theorem Inv.nodup_keys {self : Poll} (h : self.Inv) : (self.waiting.map Incomplete.key).Nodup :=
  h.walk.nodup_keys h.reassembler

/-- The entry of a waiting frame is not forgotten. -/
theorem seen_retain {detector : LossDetector} {waiting : List Incomplete} {w : Incomplete}
    (h : w ∈ waiting) : (detector.retain waiting).seen w.key = detector.seen w.key :=
  if_pos (List.any_eq_true.mpr ⟨w, h, decide_eq_true rfl⟩)

/-- A message of a poll is that of a turn. -/
theorem mem_feedback {self : Poll} {f : Feedback} :
    f ∈ self.feedback ↔ ∃ t ∈ self.turns, t.2.feedback t.1 = some f := List.mem_filterMap

end Poll

namespace Session

theorem inv_new : new.reassembler.Inv := fun _ => StreamState.inv_new

/-- **The reassembler keeps its invariant**, also while frames are given up. -/
theorem Reachable.inv {self : Session} (h : self.Reachable) : self.reassembler.Inv := by
  induction h with
  | new => exact inv_new
  | step h hallowed hstep ih =>
    rename_i self self' event
    cases event with
    | push header payload =>
      obtain ⟨datagram, hdecode⟩ := hallowed
      simp only [Session.step] at hstep
      split at hstep
      · cases hstep
      rename_i out r hpush
      cases hstep
      exact ih.push (Header.isPosition_of_decode hdecode) hpush
    | poll nowUs timing order =>
      cases hstep
      exact LossDetector.inv_turns ih

/-- What the polls of a session are, one event later. -/
theorem polls_step {self self' : Session} {event : Event} (hallowed : self.Allowed event)
    (hstep : self.step event = some self') :
    (self'.polls = self.polls ∧ self'.detector = self.detector) ∨
    ∃ poll : Poll, self'.polls = self.polls ++ [poll] ∧ self'.detector = poll.run.1 ∧
      poll.detector = self.detector ∧ poll.reassembler = self.reassembler ∧
      self.reassembler.Walk poll.order := by
  cases event with
  | push header payload =>
    simp only [step] at hstep
    split at hstep
    · cases hstep
    cases hstep
    exact .inl ⟨rfl, rfl⟩
  | poll nowUs timing order =>
    cases hstep
    exact .inr ⟨self.pollNow nowUs timing order, rfl, rfl, rfl, rfl, hallowed⟩

/-- Every poll of a run started from a good state. -/
theorem Reachable.poll_inv {self : Session} (h : self.Reachable) : ∀ poll ∈ self.polls, poll.Inv := by
  induction h with
  | new => exact fun poll hpoll => absurd hpoll List.not_mem_nil
  | step h hallowed hstep ih =>
    rcases polls_step hallowed hstep with ⟨hpolls, -⟩ | ⟨poll, hpolls, -, -, hr, hwalk⟩
    · rwa [hpolls]
    · intro poll' hpoll'
      rw [hpolls] at hpoll'
      rcases List.mem_append.mp hpoll' with hold | hnew
      · exact ih poll' hold
      · rw [List.mem_singleton.mp hnew]
        exact ⟨by rw [hr]; exact h.inv, by rw [hr]; exact hwalk⟩

/-- An event of one stream only. -/
def OnStream (stream : UInt16) : Event → Prop
  | .push header _ => header.stream = stream ∧ header.IsPosition
  | .poll _ _ order => order = [stream]

/-- A run on one stream needs to walk that stream only. -/
theorem Reachable.of_onStream {stream : UInt16} {events : List Event} {self : Session}
    (hevents : ∀ event ∈ events, OnStream stream event)
    (hrun : events.foldlM Session.step Session.new = some self) : self.Reachable := by
  let I : Session → Prop := fun self => self.Reachable ∧
    ∀ s, s ≠ stream → (self.reassembler.streams s).pending = []
  refine (Run.invariant (I := I) (A := OnStream stream) ?_ events Session.new self ⟨.new, fun _ _ => rfl⟩
    hevents hrun).1
  rintro self event self' ⟨hreach, hother⟩ hevent hstep
  cases event with
  | push header payload =>
    obtain ⟨hstream, hpos⟩ := hevent
    have hallowed : self.Allowed (.push header payload) := Header.exists_decode hpos
    refine ⟨hreach.step hallowed hstep, fun s hs => ?_⟩
    simp only [Session.step] at hstep
    split at hstep
    · cases hstep
    rename_i hpush
    cases hstep
    simp only
    rw [Reassembler.streams_push_of_ne hpush (by rwa [hstream])]
    exact hother s hs
  | poll nowUs timing order =>
    obtain rfl : order = [stream] := hevent
    have hwalk : self.reassembler.Walk [stream] := by
      refine ⟨List.nodup_singleton _, fun s hs => ?_⟩
      by_contra hne
      exact hs (hother s fun heq => hne (List.mem_singleton.mpr heq))
    have hallowed : self.Allowed (.poll nowUs timing [stream]) := hwalk
    refine ⟨hreach.step hallowed hstep, fun s hs => ?_⟩
    · cases hstep
      have hsub := LossDetector.pending_turns_sublist nowUs timing s
        (self.reassembler.incomplete [stream])
        (self.detector.retain (self.reassembler.incomplete [stream])) self.reassembler
      rw [hother s hs] at hsub
      exact List.sublist_nil.mp hsub

end Session

end WindowCast.Bud
