import WindowCast.GameStream.Frames
import WindowCast.Lib.Run

/-!
# A stream of frames

A client takes the packets of a host's frames as they come.  A frame that is not over and
not under way begins with whatever packet of it comes first, also behind the packets of a
later one; and a loss is told only of a frame that had begun.

## Main definitions

* `Broadcast` — the frames of a host, and their packets.
* `Reception`, `Reception.step` — what a client has of them.
* `Reception.Orderly` — no packet comes of a frame that a later one has displaced.
* `Reception.Follows` — a frame begins right behind the last, or displaces one.

## Main results

* `Reception.Sound.step`, `Reception.Gapless.step` — what every packet preserves.
* `Reception.newest_kept` — **frames come in order, and a straggler changes nothing**.
* `Reception.gaps_noticed` — **every gap between two frames is told**.
-/

namespace WindowCast.GameStream

/-! ### A host's frames -/

/-- The frames of a host, in order: the data, whether it is a keyframe, and the time. -/
structure Broadcast where
  packetSize : ℕ
  frame : ℕ → List UInt8 × Bool × UInt32

namespace Broadcast

/-- The host behind some frames. -/
def packetizer (self : Broadcast) : ℕ → Packetizer
  | 0 => .new self.packetSize
  | n + 1 => ((self.packetizer n).packets (self.frame n).1 (self.frame n).2.1 (self.frame n).2.2).2

/-- The packets of the frame that is numbered so; the first is numbered 1. -/
def sent (self : Broadcast) : ℕ → List (List UInt8)
  | 0 => []
  | n + 1 => ((self.packetizer n).packets (self.frame n).1 (self.frame n).2.1 (self.frame n).2.2).1

variable (self : Broadcast)

theorem frameIndex_packetizer (n : ℕ) : (self.packetizer n).frameIndex = UInt32.ofNat n := by
  induction n with
  | zero => rfl
  | succ n ih =>
    change (self.packetizer n).frameIndex + 1 = UInt32.ofNat (n + 1)
    rw [ih, UInt32.ofNat_add]
    rfl

/-- Every packet of a frame tells its number. -/
theorem header_sent {n : ℕ} {packet : List UInt8} (h : packet ∈ self.sent n) :
    ∃ header', header packet = some header' ∧ header'.frameIndex = UInt32.ofNat n := by
  cases n with
  | zero => cases h
  | succ n =>
    obtain ⟨b, x, data, hdata, rfl⟩ := Packetizer.mem_packets.mp h
    refine ⟨_, header_packet _ _ _ _ (Packetizer.block_lt hdata) Packetizer.blocks_le, ?_⟩
    change (self.packetizer n).frameIndex + 1 = UInt32.ofNat (n + 1)
    rw [frameIndex_packetizer, UInt32.ofNat_add]
    rfl

end Broadcast

/-- A packet that arrives, with the number of its frame. -/
structure Arrival (broadcast : Broadcast) where
  number : ℕ
  packet : List UInt8
  genuine : packet ∈ broadcast.sent number

/-! ### What a client has -/

structure Reception where
  depacketizer : Depacketizer
  received : List Received
  /-- The newest frame that a packet was taken of. -/
  newest : Option ℕ
  /-- Frames before this are over. -/
  past : ℕ
  /-- The numbers of the frames that were delivered. -/
  delivered : List ℕ

/-- The index of a frame that is delivered. -/
def Received.index : Received → Option UInt32
  | .frame whole => some whole.index
  | _ => none

namespace Depacketizer

variable {d : Depacketizer}

/-- Whether a packet of that frame is taken. -/
def takes (self : Depacketizer) (index : UInt32) : Bool := self.ahead index || decide (self.current = some index)

/-- What is taken by the frame that is under way: nothing comes of it, or the frame is
past. -/
theorem take_cases {index : UInt32} (hcurrent : d.current = some index) (h : Header) (packet : List UInt8) :
    ((d.take h packet).1 = [] ∧ (d.take h packet).2.current = some index ∧ (d.take h packet).2.next = d.next)
    ∨ ((d.take h packet).2.current = none ∧ (d.take h packet).2.next = index + 1 ∧ (d.take h packet).2.blocks = ∅
      ∧ ((d.take h packet).1 = [] ∨ (d.take h packet).1 = [.lost index]
        ∨ ∃ frame, (d.take h packet).1 = [.frame frame] ∧ frame.index = index)) := by
  have hkept : (d.addShard h packet).current = some index ∧ (d.addShard h packet).next = d.next := by
    unfold addShard
    split
    · exact ⟨hcurrent, rfl⟩
    · exact ⟨hcurrent, rfl⟩
  unfold take
  rcases (d.addShard h packet).complete_cases with heq | ⟨index', hindex', -, heq⟩
  · left
    rw [heq]
    exact ⟨rfl, hkept⟩
  · right
    rw [hkept.1] at hindex'
    cases hindex'
    rw [heq]
    refine ⟨rfl, rfl, rfl, ?_⟩
    dsimp only
    unfold assemble
    split
    · exact Or.inl rfl
    · split
      · exact Or.inr (Or.inl rfl)
      · exact Or.inr (Or.inr ⟨_, rfl, rfl⟩)

end Depacketizer

namespace Reception

variable {broadcast : Broadcast} {s s' : Reception} {a : Arrival broadcast}

def new : Reception := ⟨.default, [], none, 0, []⟩

def step (self : Reception) (arrival : Arrival broadcast) : Option Reception :=
  let (received, depacketizer) := self.depacketizer.add arrival.packet
  let taken := self.depacketizer.takes (UInt32.ofNat arrival.number)
  some {
    depacketizer := depacketizer
    received := self.received ++ received
    newest := if taken then some (max (self.newest.getD 0) arrival.number) else self.newest
    past := if taken ∧ depacketizer.current = none then arrival.number + 1 else self.past
    delivered := if received.any fun r => r.index.isSome then self.delivered ++ [arrival.number] else self.delivered }

/-- No packet comes so early or so late that its number has wrapped. -/
def Near (self : Reception) (arrival : Arrival broadcast) : Prop :=
  arrival.number < self.past + 2 ^ 31 ∧ self.past ≤ arrival.number + 2 ^ 31

instance (self : Reception) (arrival : Arrival broadcast) : Decidable (self.Near arrival) :=
  inferInstanceAs (Decidable (_ ∧ _))

/-- Packets of a frame that is not over do not come once a later frame has begun. -/
def Orderly (self : Reception) (arrival : Arrival broadcast) : Prop :=
  self.past ≤ arrival.number → ∀ n ∈ self.newest, n ≤ arrival.number

instance (self : Reception) (arrival : Arrival broadcast) : Decidable (self.Orderly arrival) :=
  inferInstanceAs (Decidable (self.past ≤ arrival.number → ∀ n ∈ self.newest, n ≤ arrival.number))

/-- A packet of an older frame than the newest changes nothing. -/
def Undisturbed (self : Reception) (arrival : Arrival broadcast) : Prop :=
  ∀ n ∈ self.newest, arrival.number < n → self.depacketizer.add arrival.packet = ([], self.depacketizer)

/-- What is under way is the newest frame, and what was delivered is over. -/
structure Sound (s : Reception) : Prop where
  next : s.depacketizer.next = UInt32.ofNat s.past
  current : (s.depacketizer.current = none ∧ ∀ n ∈ s.newest, n < s.past)
    ∨ ∃ n, s.depacketizer.current = some (UInt32.ofNat n) ∧ s.newest = some n ∧ s.past ≤ n ∧ n < s.past + 2 ^ 31
  before : ∀ n ∈ s.delivered, n < s.past
  sorted : s.delivered.Pairwise (· < ·)
  index : s.received.filterMap Received.index = s.delivered.map UInt32.ofNat

theorem sound_new : Sound new where
  next := rfl
  current := Or.inl ⟨rfl, fun _ h => by cases h⟩
  before := fun _ h => by cases h
  sorted := List.Pairwise.nil
  index := rfl

/-- Whether a frame is not over is told from its number. -/
theorem ahead_iff {d : Depacketizer} {past n : ℕ} (hnext : d.next = UInt32.ofNat past) (hlt : n < past + 2 ^ 31)
    (hle : past ≤ n + 2 ^ 31) : d.ahead (UInt32.ofNat n) = true ↔ past ≤ n := by
  unfold Depacketizer.ahead
  rw [decide_eq_true_iff, hnext, UInt32.toNat_sub, UInt32.toNat_ofNat', UInt32.toNat_ofNat']
  omega

theorem ofNat_inj {past n m : ℕ} (hn : past ≤ n ∧ n < past + 2 ^ 31) (hm : m < past + 2 ^ 31 ∧ past ≤ m + 2 ^ 31)
    (h : UInt32.ofNat n = UInt32.ofNat m) : n = m := by
  have hmod := congrArg UInt32.toNat h
  rw [UInt32.toNat_ofNat', UInt32.toNat_ofNat'] at hmod
  omega

/-- A packet of a frame that is over is ignored. -/
theorem Sound.ignored (h : s.Sound) (hlate : a.number < s.past) (hnear : s.past ≤ a.number + 2 ^ 31) :
    s.depacketizer.add a.packet = ([], s.depacketizer)
      ∧ s.depacketizer.takes (UInt32.ofNat a.number) = false := by
  obtain ⟨header', hheader, hindex⟩ := broadcast.header_sent a.genuine
  have hahead : s.depacketizer.ahead (UInt32.ofNat a.number) = false := by
    refine Bool.eq_false_iff.mpr fun hahead => ?_
    have hle := (ahead_iff h.next (by omega) hnear).mp hahead
    omega
  have hcurrent : s.depacketizer.current ≠ some (UInt32.ofNat a.number) := by
    intro hcurrent
    rcases h.current with ⟨hnone, -⟩ | ⟨n, hsome, -, hle, hlt⟩
    · rw [hnone] at hcurrent
      cases hcurrent
    · rw [hsome, Option.some_inj] at hcurrent
      have heq := ofNat_inj ⟨hle, hlt⟩ ⟨by omega, hnear⟩ hcurrent
      omega
  constructor
  · refine Depacketizer.add_over hheader ?_ ?_
    · rw [hindex]
      exact hcurrent
    · rw [hindex]
      exact hahead
  · rw [Depacketizer.takes, hahead, Bool.false_or]
    exact decide_eq_false hcurrent

/-- A packet of a frame that is not over is taken by the frame. -/
theorem Sound.taken (h : s.Sound) (hpast : s.past ≤ a.number) (hnear : a.number < s.past + 2 ^ 31) :
    s.depacketizer.takes (UInt32.ofNat a.number) = true
      ∧ ∃ (header' : Header) (d₀ : Depacketizer) (lost : List Received), d₀.current = some (UInt32.ofNat a.number) ∧ d₀.next = s.depacketizer.next
        ∧ lost.filterMap Received.index = []
        ∧ s.depacketizer.add a.packet = (lost ++ (d₀.take header' a.packet).1, (d₀.take header' a.packet).2) := by
  obtain ⟨header', hheader, hindex⟩ := broadcast.header_sent a.genuine
  have hahead : s.depacketizer.ahead (UInt32.ofNat a.number) = true := (ahead_iff h.next hnear (by omega)).mpr hpast
  refine ⟨by rw [Depacketizer.takes, hahead]; rfl, header', ?_⟩
  unfold Depacketizer.add
  rw [hheader]
  dsimp only
  rw [hindex, hahead]
  by_cases hcurrent : s.depacketizer.current = some (UInt32.ofNat a.number)
  · rw [if_neg (fun hnew => hnew.2 hcurrent), if_neg (fun hother => hother hcurrent)]
    exact ⟨s.depacketizer, [], hcurrent, rfl, rfl, rfl⟩
  · rw [if_pos ⟨rfl, hcurrent⟩]
    refine ⟨s.depacketizer.begins header' a.packet, _, congrArg some hindex, rfl, ?_, rfl⟩
    rw [List.filterMap_eq_nil_iff]
    intro r hr
    obtain ⟨index, -, rfl⟩ := List.mem_map.mp hr
    rfl

theorem any_index {received : List Received} (h : received.filterMap Received.index = []) :
    (received.any fun r => r.index.isSome) = false := by
  rw [List.any_eq_false]
  intro r hr
  rw [List.filterMap_eq_nil_iff.mp h r hr]
  simp

/-- What every packet preserves. -/
theorem Sound.step (h : s.Sound) (hnear : s.Near a) (hnewest : s.Orderly a) (hstep : s.step a = some s') :
    s'.Sound := by
  obtain ⟨hearly, hlate⟩ := hnear
  rcases Nat.lt_or_ge a.number s.past with hlt | hge
  · obtain ⟨hadd, htakes⟩ := h.ignored hlt hlate
    unfold Reception.step at hstep
    rw [hadd, htakes] at hstep
    cases hstep
    exact ⟨h.next, h.current, h.before, h.sorted, by rw [List.append_nil]; exact h.index⟩
  · obtain ⟨htakes, header', d₀, lost, hcurrent, hnext, hlost, hadd⟩ := h.taken hge hearly
    have hmax : max (s.newest.getD 0) a.number = a.number := by
      refine Nat.max_eq_right ?_
      cases hsome : s.newest with
      | none => exact Nat.zero_le _
      | some n => exact hnewest hge n hsome
    have hbefore : ∀ n ∈ s.delivered, n < a.number := fun n hn => Nat.lt_of_lt_of_le (h.before n hn) hge
    unfold Reception.step at hstep
    rw [hadd, htakes, hmax] at hstep
    have hsuccIndex : UInt32.ofNat a.number + 1 = UInt32.ofNat (a.number + 1) := by
      rw [UInt32.ofNat_add]
      rfl
    rcases Depacketizer.take_cases hcurrent header' a.packet with ⟨hnothing, hsame, hkept⟩ | ⟨hnone, hover, -, hcome⟩
    · -- the frame is under way
      rw [hnothing, List.append_nil] at hstep
      simp only [hsame, reduceCtorEq, and_false, if_false, if_true, any_index hlost, Bool.false_eq_true] at hstep
      cases hstep
      refine ⟨hkept.trans (hnext.trans h.next), Or.inr ⟨a.number, hsame, rfl, hge, hearly⟩, h.before, h.sorted, ?_⟩
      rw [List.filterMap_append, hlost, List.append_nil]
      exact h.index
    · -- the frame is over
      simp only [hnone, and_true, if_true] at hstep
      have hunder : ∀ n ∈ some a.number, n < a.number + 1 := by
        rintro n ⟨⟩
        exact Nat.lt_succ_self _
      rcases hcome with hnothing | hlosing | ⟨frame, hframe, hindex⟩
      · rw [hnothing, List.append_nil, any_index hlost] at hstep
        cases hstep
        refine ⟨hover.trans hsuccIndex, Or.inl ⟨hnone, hunder⟩,
          fun n hn => Nat.lt_succ_of_lt (hbefore n hn), h.sorted, ?_⟩
        rw [List.filterMap_append, hlost, List.append_nil]
        exact h.index
      · have hlost' : (lost ++ [Received.lost (UInt32.ofNat a.number)]).filterMap Received.index = [] := by
          rw [List.filterMap_append, hlost]
          rfl
        rw [hlosing, any_index hlost'] at hstep
        cases hstep
        refine ⟨hover.trans hsuccIndex, Or.inl ⟨hnone, hunder⟩,
          fun n hn => Nat.lt_succ_of_lt (hbefore n hn), h.sorted, ?_⟩
        rw [List.filterMap_append, hlost', List.append_nil]
        exact h.index
      · have hany : ((lost ++ [Received.frame frame]).any fun r => r.index.isSome) = true := by
          rw [List.any_append, Bool.or_eq_true]
          exact Or.inr rfl
        rw [hframe, hany] at hstep
        cases hstep
        refine ⟨hover.trans hsuccIndex, Or.inl ⟨hnone, hunder⟩, ?_, ?_, ?_⟩
        · intro n hn
          rcases List.mem_append.mp hn with hn | hn
          · exact Nat.lt_succ_of_lt (hbefore n hn)
          · rw [List.mem_singleton] at hn
            rw [hn]
            exact Nat.lt_succ_self _
        · refine List.pairwise_append.mpr ⟨h.sorted, List.pairwise_singleton _ _, ?_⟩
          intro n hn m hm
          rw [List.mem_singleton] at hm
          rw [hm]
          exact hbefore n hn
        · change _ = (s.delivered ++ [a.number]).map UInt32.ofNat
          rw [List.filterMap_append, List.filterMap_append, hlost, List.nil_append, h.index, List.map_append]
          simp only [List.filterMap_cons, Received.index, hindex, List.filterMap_nil, List.map_singleton]

theorem Sound.undisturbed (h : s.Sound) (hnear : s.Near a) (horderly : s.Orderly a) : s.Undisturbed a := by
  intro n hn hlt
  have hpast : a.number < s.past := by
    by_contra hge
    have hle := horderly (Nat.le_of_not_lt hge) n hn
    omega
  exact (h.ignored hpast hnear.2).1

/-- A packet of an older frame that is not over displaces the newest. -/
theorem Sound.orderly (h : s.Sound) (hnear : s.Near a) (hundisturbed : s.Undisturbed a) : s.Orderly a := by
  intro hpast n hn
  by_contra hlt
  obtain ⟨-, header', d₀, lost, hcurrent, -, -, hadd⟩ := h.taken hpast hnear.1
  rw [hundisturbed n hn (Nat.lt_of_not_le hlt)] at hadd
  have hsame : s.depacketizer = (d₀.take header' a.packet).2 := (Prod.mk.inj hadd).2
  rcases h.current with ⟨-, hbelow⟩ | ⟨m, hm, hnewest, hle, hbound⟩
  · have := hbelow n hn
    omega
  · rw [hnewest] at hn
    cases hn
    rcases Depacketizer.take_cases hcurrent header' a.packet with ⟨-, hkept, -⟩ | ⟨hnone, -⟩
    · rw [← hsame, hm, Option.some_inj] at hkept
      have heq := ofNat_inj ⟨hle, hbound⟩ hnear hkept
      omega
    · rw [← hsame, hm] at hnone
      cases hnone

/-- Where no number has wrapped: frames are delivered in order and no packet of an older
frame changes anything exactly if no packet of a frame that is not over comes once a later
frame has begun. -/
theorem newest_kept {arrivals : List (Arrival broadcast)} (hnear : Run.Guarded step Near arrivals new s) :
    (s.delivered.Pairwise (· < ·) ∧ s.received.filterMap Received.index = s.delivered.map UInt32.ofNat
      ∧ Run.Guarded step Undisturbed arrivals new s) ↔ Run.Guarded step Orderly arrivals new s := by
  constructor
  · rintro ⟨-, -, hundisturbed⟩
    refine (hnear.and hundisturbed).imp ?_ ?_ sound_new
    · rintro t a t' hsound ⟨hnear, hundisturbed⟩ hstep
      exact Sound.step hsound hnear (hsound.orderly hnear hundisturbed) hstep
    · rintro t a hsound ⟨hnear, hundisturbed⟩
      exact hsound.orderly hnear hundisturbed
  · intro horderly
    have hguarded := hnear.and horderly
    have hkept : ∀ (t : Reception) (a : Arrival broadcast) (t' : Reception), t.Sound → t.Near a ∧ t.Orderly a →
        t.step a = some t' → t'.Sound := fun t a t' hsound hmeets hstep => hsound.step hmeets.1 hmeets.2 hstep
    have hsound : s.Sound := hguarded.invariant hkept sound_new
    refine ⟨hsound.sorted, hsound.index, hguarded.imp hkept ?_ sound_new⟩
    exact fun t a hsound hmeets => hsound.undisturbed hmeets.1 hmeets.2

/-- Frames of two packets each. -/
def pairs : Broadcast := ⟨80, fun n => (List.replicate 60 (UInt8.ofNat n), n = 0, UInt32.ofNat n)⟩

def pairsArrival (number place : ℕ) (h : ((pairs.sent number)[place]?).isSome = true) : Arrival pairs :=
  ⟨number, ((pairs.sent number)[place]?).get h, List.mem_of_getElem? (Option.some_get h).symm⟩

/-- The packets of a frame change places, and one comes twice. -/
def swapped : List (Arrival pairs) :=
  [pairsArrival 1 1 rfl, pairsArrival 1 0 rfl, pairsArrival 2 0 rfl, pairsArrival 1 1 rfl, pairsArrival 2 1 rfl]

set_option maxRecDepth 20000 in
theorem newest_kept_swapped : ∃ s, swapped.foldlM step new = some s ∧ s.delivered = [1, 2]
    ∧ s.delivered.Pairwise (· < ·) ∧ s.received.filterMap Received.index = s.delivered.map UInt32.ofNat
    ∧ Run.Guarded step Undisturbed swapped new s := by
  have hnear : Run.Guarded step Near swapped new _ :=
    ⟨by decide, _, rfl, by decide, _, rfl, by decide, _, rfl, by decide, _, rfl, by decide, _, rfl, rfl⟩
  have horderly : Run.Guarded step Orderly swapped new _ :=
    ⟨by decide, _, rfl, by decide, _, rfl, by decide, _, rfl, by decide, _, rfl, by decide, _, rfl, rfl⟩
  exact ⟨_, hnear.run, rfl, (newest_kept hnear).mpr horderly⟩

/-- A packet of the first frame comes behind one of the second. -/
def straggling : List (Arrival pairs) := [pairsArrival 1 0 rfl, pairsArrival 2 0 rfl, pairsArrival 1 1 rfl]

set_option maxRecDepth 20000 in
/-- **A straggler of an unfinished frame displaces the frame that is under way.** -/
theorem straggler_displaces :
    ¬ ∀ (broadcast : Broadcast) (arrivals : List (Arrival broadcast)) (s : Reception),
      arrivals.foldlM step new = some s → s.delivered.Pairwise (· < ·)
        ∧ s.received.filterMap Received.index = s.delivered.map UInt32.ofNat
        ∧ Run.Guarded step Undisturbed arrivals new s := by
  intro h
  obtain ⟨-, -, -, t₁, h₁, -, t₂, h₂, hundisturbed, -⟩ := h pairs straggling _ rfl
  cases h₁
  cases h₂
  have hsame := congrArg (fun result => result.1.length) (hundisturbed 2 rfl (by decide))
  exact absurd hsame (by decide)

end Reception

/-! ### Gaps -/

/-- The last frame of what was received, and what was received since. -/
def Last (received : List Received) (frame : Frame) (since : List Received) : Prop :=
  (∃ before, received = before ++ .frame frame :: since) ∧ ∀ r ∈ since, r.index = none

/-- Of two frames that are not consecutive, the second comes behind a loss. -/
def Noticed (received : List Received) : Prop :=
  ∀ before frame after, received = before ++ .frame frame :: after → ∀ frame' since, Last before frame' since →
    frame.index ≠ frame'.index + 1 → ∃ index, .lost index ∈ since

theorem not_last_nil {frame : Frame} {since : List Received} : ¬ Last [] frame since := by
  rintro ⟨⟨before, h⟩, -⟩
  exact absurd h (by simp)

theorem last_concat {received : List Received} {r : Received} {frame : Frame} {since : List Received}
    (h : Last (received ++ [r]) frame since) :
    (r = .frame frame ∧ since = []) ∨ ∃ since', since = since' ++ [r] ∧ Last received frame since' := by
  obtain ⟨⟨before, heq⟩, hnone⟩ := h
  rcases List.eq_nil_or_concat since with rfl | ⟨since', r', rfl⟩
  · exact Or.inl ⟨(List.cons.inj (List.append_inj' heq rfl).2).1, rfl⟩
  · right
    rw [List.concat_eq_append, ← List.cons_append, ← List.append_assoc] at heq
    obtain ⟨hbefore, hr⟩ := List.append_inj' heq rfl
    cases hr
    refine ⟨since', List.concat_eq_append, ⟨before, hbefore⟩, fun r hr => hnone r ?_⟩
    rw [List.concat_eq_append]
    exact List.mem_append_left _ hr

theorem noticed_concat {received : List Received} {r : Received} (h : Noticed received)
    (hr : ∀ frame, r = .frame frame → ∀ frame' since, Last received frame' since → frame.index ≠ frame'.index + 1 →
      ∃ index, .lost index ∈ since) : Noticed (received ++ [r]) := by
  intro before frame after heq
  rcases List.eq_nil_or_concat after with rfl | ⟨after', r', rfl⟩
  · obtain ⟨rfl, hframe⟩ := List.append_inj' heq rfl
    exact hr frame (List.cons.inj hframe).1
  · rw [List.concat_eq_append, ← List.cons_append, ← List.append_assoc] at heq
    exact h before frame after' (List.append_inj' heq rfl).1

/-- Where no loss was told since the last frame, the next frame is the one behind it. -/
def Following (received : List Received) (d : Depacketizer) : Prop :=
  ∀ frame since, Last received frame since → (∃ index, .lost index ∈ since)
    ∨ (d.next = frame.index + 1 ∧ ∀ index ∈ d.current, index = frame.index + 1)

theorem following_lost (received : List Received) (index : UInt32) (d : Depacketizer) :
    Following (received ++ [.lost index]) d := by
  intro frame since hlast
  rcases last_concat hlast with ⟨hframe, -⟩ | ⟨since', rfl, -⟩
  · cases hframe
  · exact Or.inl ⟨index, List.mem_append_right _ (List.mem_singleton_self _)⟩

namespace Depacketizer

/-- No block is held without a shard, and nothing between frames. -/
structure Filled (d : Depacketizer) : Prop where
  shard : ∀ b table, d.blocks.lookup b = some table → table.keys ≠ []
  held : d.current = none → d.blocks = ∅

variable {d : Depacketizer} {h : Header} {packet : List UInt8}

theorem filled_of_empty (hempty : d.blocks = ∅) : d.Filled where
  shard := by
    intro b table hlookup
    rw [hempty] at hlookup
    cases hlookup
  held := fun _ => hempty

theorem Filled.addShard (hfilled : d.Filled) (hcurrent : d.current ≠ none) : (d.addShard h packet).Filled := by
  unfold Depacketizer.addShard
  split
  case isTrue => exact hfilled
  case isFalse =>
    refine ⟨?_, fun hnone => absurd hnone hcurrent⟩
    intro b table hlookup
    dsimp only at hlookup
    by_cases hb : b = h.block
    · rw [hb, AList.lookup_insert] at hlookup
      cases hlookup
      exact List.ne_nil_of_mem (AList.mem_keys.mp (show h.shard ∈ _ from (AList.mem_insert _).mpr (Or.inl rfl)))
    · rw [AList.lookup_insert_ne hb] at hlookup
      exact hfilled.shard b table hlookup

theorem Filled.take (hfilled : d.Filled) (hcurrent : d.current ≠ none) : (d.take h packet).2.Filled := by
  change ((d.addShard h packet).complete).2.Filled
  rcases (d.addShard h packet).complete_cases with heq | ⟨index, -, -, heq⟩
  · rw [heq]
    exact hfilled.addShard hcurrent
  · rw [heq]
    exact filled_of_empty rfl

/-- A frame that is over brings itself, or its loss. -/
theorem Filled.take_ne_nil (hfilled : d.Filled) {index : UInt32} (hcurrent : d.current = some index)
    (hover : (d.take h packet).2.current = none) : (d.take h packet).1 ≠ [] := by
  have hkept : (d.addShard h packet).current = some index := by
    unfold Depacketizer.addShard
    split
    · exact hcurrent
    · exact hcurrent
  have hfilled' : (d.addShard h packet).Filled := hfilled.addShard (by rw [hcurrent]; exact Option.some_ne_none _)
  change ((d.addShard h packet).complete).2.current = none at hover
  change (if (d.addShard h packet).complete.1 = .pending then [] else [(d.addShard h packet).complete.1]) ≠ []
  rcases (d.addShard h packet).complete_cases with heq | ⟨index', -, hwhole, heq⟩
  · rw [heq] at hover
    rw [hkept] at hover
    cases hover
  · -- the first block has a shard
    obtain ⟨table, htable, -⟩ := (Option.any_eq_true _ _).mp
      (List.all_eq_true.mp hwhole 0 (List.mem_range.mpr (Nat.succ_pos _)))
    obtain ⟨x, hx⟩ := List.exists_mem_of_ne_nil _ (hfilled'.shard 0 table htable)
    obtain ⟨data, hdata⟩ := Option.isSome_iff_exists.mp (AList.lookup_isSome.mpr (AList.mem_keys.mpr hx))
    have hchunk : data ∈ (d.addShard h packet).blocks.inOrder.flatMap AList.inOrder :=
      List.mem_flatMap.mpr ⟨table, AList.mem_inOrder.mpr ⟨0, htable⟩, AList.mem_inOrder.mpr ⟨x, hdata⟩⟩
    rw [heq, if_neg]
    · exact List.cons_ne_nil _ _
    · dsimp only
      unfold assemble
      split
      case h_1 hnone =>
        rw [List.head?_eq_none_iff] at hnone
        rw [hnone] at hchunk
        cases hchunk
      case h_2 => split <;> simp

end Depacketizer

namespace Reception

variable {broadcast : Broadcast} {s s' : Reception} {a : Arrival broadcast}

/-- Where no frame is held in part, a frame begins right behind the last. -/
def Follows (self : Reception) (arrival : Arrival broadcast) : Prop :=
  self.depacketizer.ahead (UInt32.ofNat arrival.number) = true →
    self.depacketizer.current ≠ some (UInt32.ofNat arrival.number) → self.depacketizer.blocks.keys.isEmpty = true →
      (self.received.any fun r => r.index.isSome) = true → self.depacketizer.next = UInt32.ofNat arrival.number

/-- Every gap so far was told. -/
structure Gapless (s : Reception) : Prop where
  noticed : Noticed s.received
  following : Following s.received s.depacketizer
  filled : s.depacketizer.Filled

theorem gapless_new : Gapless new where
  noticed := by
    intro before frame after h
    exact absurd h (by simp [new])
  following := fun _ _ hlast => absurd hlast not_last_nil
  filled := Depacketizer.filled_of_empty rfl

/-- What the frame that is under way brings keeps every gap told. -/
theorem gapless_take {received : List Received} {d : Depacketizer} {index : UInt32} (hnoticed : Noticed received)
    (hfollowing : Following received d) (hfilled : d.Filled) (hcurrent : d.current = some index) (h : Header)
    (packet : List UInt8) : Noticed (received ++ (d.take h packet).1)
      ∧ Following (received ++ (d.take h packet).1) (d.take h packet).2 ∧ (d.take h packet).2.Filled := by
  have hfilled' : (d.take h packet).2.Filled := hfilled.take (by rw [hcurrent]; exact Option.some_ne_none _)
  rcases Depacketizer.take_cases hcurrent h packet with ⟨hnothing, hsame, hkept⟩ | ⟨hnone, hnext, -, hcome⟩
  · rw [hnothing, List.append_nil]
    refine ⟨hnoticed, ?_, hfilled'⟩
    intro frame since hlast
    rw [hsame, hkept, ← hcurrent]
    exact hfollowing frame since hlast
  · rcases hcome with hnothing | hlost | ⟨frame, hframe, hindex⟩
    · exact absurd hnothing (hfilled.take_ne_nil hcurrent hnone)
    · rw [hlost]
      exact ⟨noticed_concat hnoticed (fun _ h => by cases h), following_lost _ _ _, hfilled'⟩
    · rw [hframe]
      refine ⟨noticed_concat hnoticed ?_, ?_, hfilled'⟩
      · rintro _ ⟨⟩ frame' since hlast hgap
        rcases hfollowing frame' since hlast with htold | ⟨-, hbehind⟩
        · exact htold
        · exact absurd (hindex.trans (hbehind index hcurrent)) hgap
      · intro frame' since hlast
        rcases last_concat hlast with ⟨hsame, rfl⟩ | ⟨since', rfl, -⟩
        · cases hsame
          right
          rw [hnone, hnext, hindex]
          exact ⟨rfl, (fun _ h => by cases h)⟩
        · -- a frame is not behind itself
          have hself := hlast.2 (.frame frame) (List.mem_append_right _ (List.mem_singleton_self _))
          cases hself

/-- What every packet preserves. -/
theorem Gapless.step (h : s.Gapless) (hfollows : s.Follows a) (hstep : s.step a = some s') : s'.Gapless := by
  obtain ⟨header', hheader, hindex⟩ := broadcast.header_sent a.genuine
  have hresult : Noticed (s.received ++ (s.depacketizer.add a.packet).1)
      ∧ Following (s.received ++ (s.depacketizer.add a.packet).1) (s.depacketizer.add a.packet).2
      ∧ (s.depacketizer.add a.packet).2.Filled := by
    unfold Depacketizer.add
    rw [hheader]
    dsimp only
    rw [hindex]
    by_cases hnew : s.depacketizer.ahead (UInt32.ofNat a.number) = true
        ∧ s.depacketizer.current ≠ some (UInt32.ofNat a.number)
    · rw [if_pos hnew]
      have hbegins : (s.depacketizer.begins header' a.packet).current = some (UInt32.ofNat a.number) :=
        congrArg some hindex
      dsimp only
      rw [← List.append_assoc]
      by_cases hempty : s.depacketizer.blocks.keys.isEmpty = true
      · -- nothing is displaced
        have hlost : (s.depacketizer.current.filter fun _ => ¬ s.depacketizer.blocks.keys.isEmpty) = none := by
          rw [Option.filter_eq_none_iff]
          intro index _ htold
          rw [hempty] at htold
          cases htold
        rw [hlost]
        change Noticed (s.received ++ [] ++ _) ∧ Following (s.received ++ [] ++ _) _ ∧ _
        rw [List.append_nil]
        refine gapless_take h.noticed ?_ (Depacketizer.filled_of_empty rfl) hbegins header' a.packet
        intro frame since hlast
        rcases h.following frame since hlast with htold | ⟨hnext, -⟩
        · exact Or.inl htold
        · right
          refine ⟨hnext, ?_⟩
          have hany : (s.received.any fun r => r.index.isSome) = true := by
            obtain ⟨⟨before, heq⟩, -⟩ := hlast
            rw [heq, List.any_eq_true]
            exact ⟨.frame frame, by simp, rfl⟩
          rw [hbegins]
          rintro _ ⟨⟩
          rw [← hfollows hnew.1 hnew.2 hempty hany, hnext]
      · -- a frame that was held in part is told lost
        cases hcurrent : s.depacketizer.current with
        | none =>
          rw [h.filled.held hcurrent] at hempty
          exact absurd rfl hempty
        | some index =>
          have hlost : ((some index).filter fun _ => ¬ s.depacketizer.blocks.keys.isEmpty) = some index := by
            rw [Option.filter_some, if_pos (decide_eq_true hempty)]
          rw [hlost]
          exact gapless_take (noticed_concat h.noticed fun _ h => by cases h) (following_lost _ _ _)
            (Depacketizer.filled_of_empty rfl) hbegins header' a.packet
    · rw [if_neg hnew]
      by_cases hother : s.depacketizer.current ≠ some (UInt32.ofNat a.number)
      · rw [if_pos hother, List.append_nil]
        exact ⟨h.noticed, h.following, h.filled⟩
      · rw [if_neg hother]
        exact gapless_take h.noticed h.following h.filled (not_not.mp hother) header' a.packet
  cases hstep
  exact ⟨hresult.1, hresult.2.1, hresult.2.2⟩

/-- Where every frame begins right behind the last, or displaces one that is held in part,
every gap between two frames is told. -/
theorem gaps_noticed {arrivals : List (Arrival broadcast)} (h : Run.Guarded step Follows arrivals new s) :
    Noticed s.received := by
  have hgapless : s.Gapless := h.invariant (fun _ _ _ hgapless hfollows hstep => hgapless.step hfollows hstep) gapless_new
  exact hgapless.noticed

/-- The second frame is lost, all of it. -/
def skipped : List (Arrival pairs) :=
  [pairsArrival 1 0 rfl, pairsArrival 1 1 rfl, pairsArrival 3 0 rfl, pairsArrival 3 1 rfl]

set_option maxRecDepth 20000 in
/-- **A frame of which nothing comes is lost without a word.** -/
theorem skipped_silently :
    ¬ ∀ (broadcast : Broadcast) (arrivals : List (Arrival broadcast)) (s : Reception),
      (arrivals.map Arrival.number).Pairwise (· ≤ ·) → arrivals.foldlM step new = some s → Noticed s.received := by
  intro h
  have hnoticed := h pairs skipped _ (by decide) rfl
  obtain ⟨index, hlost⟩ := hnoticed [_] _ [] rfl _ [] ⟨⟨[], rfl⟩, fun r hr => absurd hr List.not_mem_nil⟩ (by decide)
  cases hlost

/-- The second frame comes in part. -/
def partly : List (Arrival pairs) :=
  [pairsArrival 1 0 rfl, pairsArrival 1 1 rfl, pairsArrival 2 0 rfl, pairsArrival 3 0 rfl, pairsArrival 3 1 rfl]

set_option maxRecDepth 20000 in
theorem gaps_noticed_partly : ∃ s, partly.foldlM step new = some s ∧ s.received.length = 3 ∧ Noticed s.received := by
  have hrun : Run.Guarded step Follows partly new _ :=
    ⟨(fun _ _ _ h => absurd h (by decide)), _, rfl, (fun _ h => absurd rfl h), _, rfl, (fun _ _ _ _ => rfl), _, rfl,
      (fun _ _ h => absurd h (by decide)), _, rfl, (fun _ h => absurd rfl h), _, rfl, rfl⟩
  exact ⟨_, hrun.run, rfl, gaps_noticed hrun⟩

end Reception

end WindowCast.GameStream
