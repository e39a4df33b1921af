import WindowCast.Bud.FrameBound
import WindowCast.Bud.Genuine
import WindowCast.Bud.LossDetector

/-!
# The NACKs of a run

What becomes of them on the wire, and how many one frame gets.

## Main definitions

* `Feedback.Survives` — a NACK is read as it was meant.
* `nacksFor`, `KeepsCounts` — the NACKs for a frame, and a poll that knows of them.

## Main results

* `Session.Reachable.survives_iff` — **which NACKs survive the wire.**
* `Session.Reachable.nacksFor_le` — **a frame gets at most `MAX_NACKS`**, while
  the counts are kept.
-/

namespace WindowCast.Bud

/-! ### Missing fragments -/

namespace Pending

theorem ofNat_lt_ofNat {i j : ℕ} (hi : i < 65536) (hj : j < 65536) :
    UInt16.ofNat i < UInt16.ofNat j ↔ i < j := by
  rw [UInt16.lt_iff_toNat_lt, UInt16.toNat_ofNat', UInt16.toNat_ofNat', Nat.mod_eq_of_lt hi,
    Nat.mod_eq_of_lt hj]

/-- The missing fragments are in order, each once. -/
theorem pairwise_missing {p : Pending} (h : p.slots.length ≤ 65536) :
    p.missing.Pairwise (· < ·) := by
  have hrange : ((List.range p.slots.length).filter fun i => p.slots[i]? = some none).Pairwise
      fun i j => i < j ∧ j < 65536 := by
    refine List.Pairwise.filter _ ?_
    refine List.Pairwise.imp_of_mem ?_ List.pairwise_lt_range
    intro i j _ hj hlt
    exact ⟨hlt, lt_of_lt_of_le (List.mem_range.mp hj) h⟩
  refine List.pairwise_map.mpr (hrange.imp ?_)
  rintro i j ⟨hlt, hj⟩
  exact (ofNat_lt_ofNat (hlt.trans hj) hj).mpr hlt

/-- They are those that no slot holds. -/
theorem mem_missing {p : Pending} (h : p.slots.length ≤ 65536) (i : UInt16) :
    i ∈ p.missing ↔ i.toNat < p.slots.length ∧ ¬ p.Filled i.toNat := by
  have hslot : ∀ j, (p.slots[j]? = some none ↔ j < p.slots.length ∧ ¬ p.Filled j) := by
    intro j
    unfold Filled Holds
    rcases Nat.lt_or_ge j p.slots.length with hj | hj
    · rw [List.getElem?_eq_getElem hj]
      cases p.slots[j] with
      | none => simp [hj]
      | some x => simp
    · rw [List.getElem?_eq_none hj]
      simp [Nat.not_lt.mpr hj]
  unfold missing
  simp only [List.mem_map, List.mem_filter, List.mem_range, decide_eq_true_eq]
  constructor
  · rintro ⟨j, ⟨hj, hnone⟩, rfl⟩
    rw [UInt16.toNat_ofNat', Nat.mod_eq_of_lt (by omega)]
    exact (hslot j).mp hnone
  · rintro ⟨hlt, hnot⟩
    exact ⟨i.toNat, ⟨hlt, (hslot i.toNat).mpr ⟨hlt, hnot⟩⟩, UInt16.ofNat_toNat⟩

end Pending

/-! ### On the wire -/

namespace Feedback

/-- Fragments that are in order, each once, stay as they are. -/
theorem sorted_of_pairwise {fragments : List UInt16} (h : fragments.Pairwise (· < ·)) :
    sorted fragments = fragments := by
  have hle : fragments.Pairwise fun a b => decide (a ≤ b) = true :=
    h.imp fun hlt => decide_eq_true (UInt16.le_of_lt hlt)
  have hne : fragments.Pairwise (· ≠ ·) := h.imp fun hlt => UInt16.ne_of_lt hlt
  rw [sorted, List.mergeSort_of_pairwise hle]
  exact List.destutter_of_isChain _ fragments hne.isChain

/-- How many runs of consecutive fragments there are. -/
def runCount (fragments : List UInt16) : ℕ :=
  ((fragments.map UInt16.toNat).splitBy Runs.next).length

/-- The fragments of the first `MAX_RANGES` runs. -/
def firstRuns (fragments : List UInt16) : List UInt16 :=
  (Runs.first MAX_RANGES (fragments.map UInt16.toNat)).map UInt16.ofNat

/-- A NACK for the frame is read back with the same fragments, if these are of
few runs, and else with those of the first runs. -/
def Survives (stream : UInt16) (frame : UInt32) (fragments : List UInt16) : Prop :=
  ∃ read, decode (encode (.nack stream frame fragments)) = some (.nack stream frame read) ∧
    (runCount fragments ≤ MAX_RANGES → read = fragments) ∧
    (MAX_RANGES < runCount fragments → read = firstRuns fragments)

theorem firstRuns_of_le {fragments : List UInt16} (h : runCount fragments ≤ MAX_RANGES) :
    firstRuns fragments = fragments := by
  rw [firstRuns, Runs.first_of_le h, List.map_map]
  exact (List.map_congr_left fun f _ => UInt16.ofNat_toNat).trans (List.map_id _)

/-- **Which NACKs survive.** -/
theorem survives_iff_of_pairwise {stream : UInt16} {frame : UInt32} {fragments : List UInt16}
    (h : fragments.Pairwise (· < ·)) :
    Survives stream frame fragments ↔ (firstRuns fragments).length ≤ MAX_NACK_FRAGMENTS := by
  have hwire := decode_encode_nack stream frame fragments
  rw [named, sorted_of_pairwise h, ← firstRuns] at hwire
  unfold Survives
  rw [hwire]
  split
  · rename_i hfew
    exact iff_of_true ⟨_, rfl, firstRuns_of_le, fun _ => rfl⟩ hfew
  · rename_i hmany
    refine iff_of_false ?_ hmany
    rintro ⟨read, hread, -⟩
    cases hread

end Feedback

namespace Session

/-- **Which NACKs survive the wire**: in every run, a NACK names the missing
fragments of a waiting frame, in order, and survives exactly if the first
`MAX_RANGES` runs of these are not more fragments than a NACK may name. -/
theorem Reachable.survives_iff {self : Session} (h : self.Reachable) {poll : Poll}
    (hpoll : poll ∈ self.polls) {stream : UInt16} {frame : UInt32} {fragments : List UInt16}
    (hnack : .nack stream frame fragments ∈ poll.feedback) :
    (∃ p ∈ (poll.reassembler.streams stream).pending, p.frame = frame ∧
      fragments.Pairwise (· < ·) ∧
      ∀ i, i ∈ fragments ↔ i.toNat < p.slots.length ∧ ¬ p.Filled i.toNat) ∧
    (Feedback.Survives stream frame fragments ↔
      (Feedback.firstRuns fragments).length ≤ MAX_NACK_FRAGMENTS) := by
  obtain ⟨⟨w, turn⟩, ht, hfeedback⟩ := Poll.mem_feedback.mp hnack
  obtain ⟨rfl, rfl, rfl⟩ : w.stream = stream ∧ w.frame = frame ∧ w.missing = fragments := by
    cases turn with
    | waited => cases hfeedback
    | asked =>
      cases hfeedback
      exact ⟨rfl, rfl, rfl⟩
    | gaveUp => cases hfeedback
    | refreshed => cases hfeedback
  obtain ⟨p, hp, hframe, hmissing⟩ := Reassembler.mem_incomplete (Poll.mem_waiting ht)
  have hcount := ((h.poll_inv poll hpoll).reassembler w.stream).count_le p hp
  have hsmall : p.slots.length ≤ 65536 := by
    rw [fragmentSize_eq, maxFrame_eq] at hcount
    omega
  have hsorted : w.missing.Pairwise (· < ·) := by
    rw [← hmissing]
    exact Pending.pairwise_missing hsmall
  refine ⟨⟨p, hp, hframe, hsorted, fun i => ?_⟩, Feedback.survives_iff_of_pairwise hsorted⟩
  rw [← hmissing]
  exact Pending.mem_missing hsmall i

/-! ### A NACK that is refused -/

/-- The last fragment of a frame of 4098. -/
def lastHeader : Header := ⟨0, 1, 0, 4097, 4098, 0, 0⟩

/-- Of the frame only that fragment arrives. -/
def refused : List Event :=
  [.push lastHeader [7], .poll 0 lanTiming [1], .poll 3000 lanTiming [1]]

theorem onStream_refused : ∀ event ∈ refused, OnStream 1 event := by
  intro event hevent
  simp only [refused, List.mem_cons, List.not_mem_nil, or_false] at hevent
  rcases hevent with rfl | rfl | rfl
  · exact ⟨rfl, by decide⟩
  · rfl
  · rfl

/-- The frame with it. -/
def lastOnly : Pending := (Pending.new lastHeader).taken lastHeader [7] none

theorem length_lastOnly : lastOnly.slots.length = 4098 := by
  rw [lastOnly, Pending.length_taken]
  exact List.length_replicate

theorem slot_lastOnly (i : ℕ) : lastOnly.slots[i]? =
    if i = 4097 then some (some [7]) else if i < 4098 then some none else none := by
  change ((List.replicate 4098 none).set 4097 (some [7]))[i]? = _
  rw [List.getElem?_set, List.length_replicate, List.getElem?_replicate]
  rcases eq_or_ne i 4097 with rfl | hne
  · rfl
  · rw [if_neg hne.symm, if_neg hne]

theorem missing_lastOnly : lastOnly.missing = (List.range 4097).map UInt16.ofNat := by
  have hfilter : ((List.range 4098).filter fun i => lastOnly.slots[i]? = some none)
      = List.range 4097 := by
    rw [List.range_succ, List.filter_append, List.filter_eq_self.mpr, List.filter_cons_of_neg,
      List.filter_nil, List.append_nil]
    · rw [slot_lastOnly]
      decide
    · intro i hi
      have hlt := List.mem_range.mp hi
      rw [slot_lastOnly, if_neg (by omega), if_pos (by omega)]
      rfl
  rw [Pending.missing, length_lastOnly, hfilter]

theorem length_firstRuns_lastOnly : (Feedback.firstRuns lastOnly.missing).length = 4097 := by
  have hnat : lastOnly.missing.map UInt16.toNat = List.range 4097 := by
    rw [missing_lastOnly, List.map_map]
    refine (List.map_congr_left fun i hi => ?_).trans (List.map_id _)
    have hlt := List.mem_range.mp hi
    exact (UInt16.toNat_ofNat').trans (Nat.mod_eq_of_lt (by omega))
  have hchain : (List.range 4097).IsChain fun a b => Runs.next a b := by
    rw [List.range_eq_range']
    exact Runs.isChain_expand (0, 4097)
  have hne : List.range 4097 ≠ [] := fun hnil => by
    have hlen := congrArg List.length hnil
    rw [List.length_range] at hlen
    exact absurd hlen (by decide)
  rw [Feedback.firstRuns, List.length_map, hnat, Runs.first, List.splitBy_of_isChain hne hchain]
  rw [List.take_of_length_le (by decide), List.flatten_singleton, List.length_range]

theorem push_lastOnly : Reassembler.new.push lastHeader [7]
    = some (.ok none, Reassembler.new.update 1 ⟨none, [lastOnly]⟩ 0 0) := by
  have hlocate : StreamState.new.locate lastHeader
      = some (.ok 0, ⟨none, [Pending.new lastHeader]⟩, 0) := by
    have hsize : ¬ lastHeader.fragments.toNat * FRAGMENT_SIZE > MAX_FRAME + FRAGMENT_SIZE := by
      decide
    unfold StreamState.locate
    simp only [StreamState.new, List.findIdx?_nil, if_neg hsize]
    rfl
  have hadd : (Pending.new lastHeader).add lastHeader [7] none = some (.stored lastOnly 0) := by
    have hslot : (Pending.new lastHeader).slots[4097]? = some none := by
      rw [Pending.new, List.getElem?_replicate]
      rfl
    have htakes : (Pending.new lastHeader).Takes lastHeader [7] none := ⟨hslot, by decide⟩
    unfold Pending.add
    rw [Pending.put_eq_stored_iff.mpr ⟨htakes, rfl⟩]
    exact if_pos ⟨rfl, rfl⟩
  have hmissing : lastOnly.received < lastOnly.slots.length := by
    rw [length_lastOnly]
    decide
  have hinspect : inspect lastHeader [7] = .admitted none := rfl
  have hlate : (Reassembler.new.streams lastHeader.stream).late lastHeader.frame = false := rfl
  unfold Reassembler.push
  rw [hinspect]
  simp only [hlate, Bool.false_eq_true, if_false]
  rw [show Reassembler.new.streams lastHeader.stream = StreamState.new from rfl, hlocate]
  simp only [List.getElem?_cons_zero, hadd, if_pos hmissing, List.set_cons_zero]
  rfl

/-- A frame that waits for the hold is asked for. -/
theorem asked_after_hold {r : Reassembler} {fragments : List UInt16}
    (hincomplete : r.incomplete [1] = [⟨1, 0, fragments⟩]) :
    ∃ self poll, [.poll 0 lanTiming [1], .poll 3000 lanTiming [1]].foldlM step
      ⟨r, LossDetector.new, []⟩ = some self ∧ poll ∈ self.polls ∧
      .nack 1 0 fragments ∈ poll.feedback := by
  -- the first poll only takes note of the frame
  let first : Poll := ⟨LossDetector.new, r, 0, lanTiming, [1]⟩
  let detector : LossDetector :=
    ⟨Function.update (LossDetector.new.retain [⟨1, 0, fragments⟩]).seen (1, 0) (some ⟨0, 0, 0⟩),
      fun _ => none⟩
  let second : Poll := ⟨detector, r, 3000, lanTiming, [1]⟩
  have hfirst : first.run = (detector, r, [(⟨1, 0, fragments⟩, .waited)]) := by
    have hentry : (LossDetector.new.retain [⟨1, 0, fragments⟩]).entry 0 ⟨1, 0, fragments⟩
        = ⟨0, 0, 0⟩ := rfl
    have hturn : (LossDetector.new.retain [⟨1, 0, fragments⟩]).turn 0 lanTiming ⟨1, 0, fragments⟩
        = (detector, .waited) := by
      simp only [LossDetector.turn, hentry]
      rw [if_neg (by decide), if_neg (by decide)]
      rfl
    simp only [first, Poll.run, LossDetector.poll, hincomplete, LossDetector.turns, hturn]
    rfl
  have hsecond : second.turns = [(⟨1, 0, fragments⟩, .asked)] := by
    have hentry : (detector.retain [⟨1, 0, fragments⟩]).entry 3000 ⟨1, 0, fragments⟩
        = ⟨0, 0, 0⟩ := rfl
    have hturn : ((detector.retain [⟨1, 0, fragments⟩]).turn 3000 lanTiming ⟨1, 0, fragments⟩).2
        = .asked := by
      simp only [LossDetector.turn, hentry]
      rw [if_neg (by decide), if_pos (by decide)]
    simp only [second, Poll.turns, Poll.run, LossDetector.poll, hincomplete, LossDetector.turns,
      hturn]
  have hstep : step ⟨r, LossDetector.new, []⟩ (.poll 0 lanTiming [1])
      = some ⟨r, detector, [first]⟩ := by
    change some (⟨first.run.2.1, first.run.1, [first]⟩ : Session) = _
    rw [hfirst]
  refine ⟨_, second, Run.cons.mpr ⟨_, hstep, rfl⟩, List.mem_append_right _ List.mem_cons_self, ?_⟩
  rw [Poll.feedback, hsecond]
  exact List.mem_cons_self

/-- The NACK of `refused`. -/
theorem exists_nack_refused : ∃ self poll, refused.foldlM step new = some self ∧
    self.Reachable ∧ poll ∈ self.polls ∧ .nack 1 0 lastOnly.missing ∈ poll.feedback := by
  have hincomplete : (Reassembler.new.update 1 ⟨none, [lastOnly]⟩ 0 0).incomplete [1]
      = [⟨1, 0, lastOnly.missing⟩] := rfl
  have hpush : step new (.push lastHeader [7])
      = some ⟨Reassembler.new.update 1 ⟨none, [lastOnly]⟩ 0 0, LossDetector.new, []⟩ := by
    simp only [step, new, push_lastOnly]
  obtain ⟨self, poll, hpolls, hpoll, hnack⟩ := asked_after_hold hincomplete
  have hrun : refused.foldlM step new = some self := Run.cons.mpr ⟨_, hpush, hpolls⟩
  exact ⟨self, poll, hrun, .of_onStream onStream_refused hrun, hpoll, hnack⟩

theorem survives_iff_refused : ∃ self poll fragments, refused.foldlM step new = some self ∧
    poll ∈ self.polls ∧ .nack 1 0 fragments ∈ poll.feedback ∧
    (Feedback.Survives 1 0 fragments ↔
      (Feedback.firstRuns fragments).length ≤ MAX_NACK_FRAGMENTS) := by
  obtain ⟨self, poll, hrun, hreach, hpoll, hnack⟩ := exists_nack_refused
  exact ⟨self, poll, _, hrun, hpoll, hnack, (Reachable.survives_iff hreach hpoll hnack).2⟩

/-- **A NACK that is refused**: it asks for 4097 fragments, one run. -/
theorem nack_refused : ∃ self poll, refused.foldlM step new = some self ∧ self.Reachable ∧
    poll ∈ self.polls ∧ ∃ fragments, .nack 1 0 fragments ∈ poll.feedback ∧
      ¬ Feedback.Survives 1 0 fragments := by
  obtain ⟨self, poll, hrun, hreach, hpoll, hnack⟩ := exists_nack_refused
  refine ⟨self, poll, hrun, hreach, hpoll, _, hnack, ?_⟩
  have hsorted : lastOnly.missing.Pairwise (· < ·) :=
    Pending.pairwise_missing (by rw [length_lastOnly]; decide)
  rw [Feedback.survives_iff_of_pairwise hsorted, length_firstRuns_lastOnly]
  decide

end Session

/-! ### How many -/

/-- A NACK for the frame. -/
def Feedback.isNackFor (key : UInt16 × UInt32) : Feedback → Bool
  | .nack stream frame _ => (stream, frame) = key
  | _ => false

/-- How many NACKs the polls emitted for the frame. -/
def nacksFor (key : UInt16 × UInt32) (polls : List Poll) : ℕ :=
  (polls.flatMap Poll.feedback).countP (Feedback.isNackFor key)

/-- No frame that the poll, which comes after the polls `before`, finds waiting
had a NACK that the detector does not know of any more. -/
def KeepsCounts (before : List Poll) (poll : Poll) : Prop :=
  ∀ w ∈ poll.waiting, poll.detector.seen w.key = none → nacksFor w.key before = 0

/-- `count` counts NACKs: no frame has more than `MAX_NACKS`, nor more than the
detector knows of. -/
structure Counts (count : UInt16 × UInt32 → ℕ) (detector : LossDetector) : Prop where
  le : ∀ key, count key ≤ MAX_NACKS
  seen : ∀ key seen, detector.seen key = some seen → count key ≤ seen.nacks ∧ seen.nacks ≤ MAX_NACKS

/-- Whether the turn emits a NACK for the frame. -/
def asks (key : UInt16 × UInt32) (t : Incomplete × Turn) : Bool := t.1.key = key ∧ t.2 = .asked

/-- One turn adds its NACK. -/
theorem Counts.turn {count : UInt16 × UInt32 → ℕ} {detector : LossDetector}
    (h : Counts count detector) (nowUs : ℕ) (timing : Timing) {w : Incomplete}
    (hnone : detector.seen w.key = none → count w.key = 0) :
    Counts (fun key => count key + if asks key (w, (detector.turn nowUs timing w).2) then 1 else 0)
      (detector.turn nowUs timing w).1 := by
  have hentry : count w.key ≤ (detector.entry nowUs w).nacks ∧
      (detector.entry nowUs w).nacks ≤ MAX_NACKS := by
    unfold LossDetector.entry
    cases hseen : detector.seen w.key with
    | none => exact ⟨(hnone hseen).le, Nat.zero_le _⟩
    | some seen => exact h.seen w.key seen hseen
  -- the frame of the turn
  have hself : (count w.key + if (detector.turn nowUs timing w).2 = .asked then 1 else 0) ≤ MAX_NACKS ∧
      ∀ seen, (detector.turn nowUs timing w).1.seen w.key = some seen →
        (count w.key + if (detector.turn nowUs timing w).2 = .asked then 1 else 0) ≤ seen.nacks ∧
          seen.nacks ≤ MAX_NACKS := by
    have hle := h.le w.key
    rcases detector.turn_cases nowUs timing w with ⟨-, -, ht⟩ | ⟨-, -, ht⟩ | ⟨-, hfew, ht⟩ | ⟨-, ht⟩ <;>
      rw [ht] <;> simp only [reduceCtorEq, if_true, if_false, Function.update_self, Option.some.injEq]
    · exact ⟨hle, fun seen hseen => nomatch hseen⟩
    · exact ⟨hle, fun seen hseen => nomatch hseen⟩
    · refine ⟨by omega, ?_⟩
      rintro seen rfl
      exact ⟨Nat.succ_le_succ hentry.1, hfew⟩
    · refine ⟨hle, ?_⟩
      rintro seen rfl
      exact hentry
  -- the others
  have hother : ∀ key, key ≠ w.key → asks key (w, (detector.turn nowUs timing w).2) = false :=
    fun key hne => decide_eq_false fun hboth => hne hboth.1.symm
  have hasks : asks w.key (w, (detector.turn nowUs timing w).2)
      = decide ((detector.turn nowUs timing w).2 = .asked) := by
    simp [asks]
  refine ⟨fun key => ?_, fun key seen hseen => ?_⟩
  · rcases eq_or_ne key w.key with rfl | hne
    · simpa only [hasks, decide_eq_true_eq] using hself.1
    · simpa only [hother key hne, Bool.false_eq_true, if_false, Nat.add_zero] using h.le key
  · rcases eq_or_ne key w.key with rfl | hne
    · simpa only [hasks, decide_eq_true_eq] using hself.2 seen hseen
    · rw [LossDetector.seen_turn_of_ne hne] at hseen
      simpa only [hother key hne, Bool.false_eq_true, if_false, Nat.add_zero] using
        h.seen key seen hseen

/-- The loop adds its NACKs. -/
theorem Counts.turns {nowUs : ℕ} {timing : Timing} :
    ∀ {waiting : List Incomplete} {count : UInt16 × UInt32 → ℕ} {detector : LossDetector}
      {reassembler : Reassembler}, Counts count detector → (waiting.map Incomplete.key).Nodup →
      (∀ w ∈ waiting, detector.seen w.key = none → count w.key = 0) →
      Counts (fun key => count key +
        (LossDetector.turns nowUs timing waiting detector reassembler).2.2.countP (asks key))
        (LossDetector.turns nowUs timing waiting detector reassembler).1 := by
  intro waiting
  induction waiting with
  | nil => exact fun h _ _ => h
  | cons w waiting ih =>
    intro count detector reassembler h hnodup hnone
    rw [List.map_cons, List.nodup_cons] at hnodup
    have hfirst := h.turn nowUs timing (hnone w List.mem_cons_self)
    rw [LossDetector.turns_cons]
    simp only
    have hrest := @ih _ _ (if (detector.turn nowUs timing w).2.givesUp then
      (reassembler.abandon w.stream w.frame).1 else reassembler) hfirst hnodup.2 ?_
    · refine ⟨fun key => ?_, fun key seen hseen => ?_⟩
      · rw [List.countP_cons, Nat.add_comm (List.countP _ _), ← Nat.add_assoc]
        exact hrest.le key
      · rw [List.countP_cons, Nat.add_comm (List.countP _ _), ← Nat.add_assoc]
        exact hrest.seen key seen hseen
    · -- the other frames have other keys
      intro w' hw' hseen
      have hne : w'.key ≠ w.key := fun heq => hnodup.1 (heq ▸ List.mem_map_of_mem hw')
      rw [LossDetector.seen_turn_of_ne hne] at hseen
      have hasks : asks w'.key (w, (detector.turn nowUs timing w).2) = false :=
        decide_eq_false fun hboth => hne hboth.1.symm
      simp only [hasks, Bool.false_eq_true, if_false]
      exact hnone w' (List.mem_cons_of_mem _ hw') hseen

/-- Forgetting what waits no longer does not change what was counted. -/
theorem Counts.retain {count : UInt16 × UInt32 → ℕ} {detector : LossDetector}
    (h : Counts count detector) (waiting : List Incomplete) : Counts count (detector.retain waiting) := by
  refine ⟨h.le, fun key seen hseen => ?_⟩
  simp only [LossDetector.retain] at hseen
  split at hseen
  · exact h.seen key seen hseen
  · cases hseen

theorem countP_feedback (poll : Poll) (key : UInt16 × UInt32) :
    poll.feedback.countP (Feedback.isNackFor key) = poll.turns.countP (asks key) := by
  rw [Poll.feedback, List.countP_filterMap]
  refine List.countP_congr fun t _ => ?_
  obtain ⟨w, turn⟩ := t
  cases turn <;> simp [Turn.feedback, Feedback.isNackFor, asks, Incomplete.key]

theorem nacksFor_concat (key : UInt16 × UInt32) (polls : List Poll) (poll : Poll) :
    nacksFor key (polls ++ [poll]) = nacksFor key polls + poll.turns.countP (asks key) := by
  rw [nacksFor, List.flatMap_append, List.countP_append, List.flatMap_singleton, countP_feedback]
  rfl

namespace Session

/-- **A frame gets at most `MAX_NACKS`**: in every run, if every poll knows of
the NACKs that the frames it finds waiting had. -/
theorem Reachable.nacksFor_le {self : Session} (h : self.Reachable)
    (hkeeps : Run.Always KeepsCounts self.polls) (key : UInt16 × UInt32) :
    nacksFor key self.polls ≤ MAX_NACKS := by
  suffices hcounts : Counts (fun key => nacksFor key self.polls) self.detector from hcounts.le key
  induction h with
  | new => exact ⟨fun _ => Nat.zero_le _, fun _ _ hseen => nomatch hseen⟩
  | step h hallowed hstep ih =>
    rcases polls_step hallowed hstep with ⟨hpolls, hdetector⟩ | ⟨poll, hpolls, hdetector, hd, hr, hwalk⟩
    · rw [hpolls] at hkeeps ⊢
      rw [hdetector]
      exact ih hkeeps
    · rw [hpolls] at hkeeps ⊢
      rw [hdetector]
      obtain ⟨hbefore, hnow⟩ := Run.always_concat.mp hkeeps
      have hcounts := ih hbefore
      rw [← hd] at hcounts
      have hinv : poll.Inv := ⟨by rw [hr]; exact h.inv, by rw [hr]; exact hwalk⟩
      have hknown : ∀ w ∈ poll.waiting, (poll.detector.retain poll.waiting).seen w.key = none →
          nacksFor w.key _ = 0 := fun w hw hseen => hnow w hw (Poll.seen_retain hw ▸ hseen)
      simp only [nacksFor_concat]
      exact (hcounts.retain poll.waiting).turns hinv.nodup_keys hknown

/-! ### A frame that gets three -/

/-- A frame of two fragments, the second of one byte. -/
def twoFragments : List UInt8 := List.replicate FRAGMENT_SIZE 0 ++ [7]

/-- Its second packet. -/
def secondPacket : Header := ⟨0, 1, 1, 1, 2, 0, 0⟩

/-- The frame is asked for twice and given up; then its packet comes once more. -/
def repeating : List Event :=
  [.push secondPacket [7], .poll 0 lanTiming [1], .poll 3000 lanTiming [1],
    .poll 9000 lanTiming [1], .poll 30000 lanTiming [1], .push secondPacket [7],
    .poll 30000 lanTiming [1], .poll 33000 lanTiming [1]]

theorem onStream_repeating : ∀ event ∈ repeating, OnStream 1 event := by
  intro event hevent
  simp only [repeating, List.mem_cons, List.not_mem_nil, or_false] at hevent
  rcases hevent with rfl | rfl | rfl | rfl | rfl | rfl | rfl | rfl
  · exact ⟨rfl, by decide⟩
  · rfl
  · rfl
  · rfl
  · rfl
  · exact ⟨rfl, by decide⟩
  · rfl
  · rfl

/-- What the detector knows of the frame when it is asked for the first two times. -/
theorem seen_repeating : ((repeating.take 4).foldlM step new).map
    (fun self => self.polls.map fun poll => poll.waiting.map fun w => poll.detector.seen w.key) =
      some [[none], [some ⟨0, 0, 0⟩], [some ⟨0, 1, 3000⟩]] := by
  decide +kernel

theorem nacksFor_le_repeating : ∃ self, (repeating.take 4).foldlM step new = some self ∧
    nacksFor (1, 1) self.polls ≤ MAX_NACKS := by
  obtain ⟨self, hself, hview⟩ := Option.map_eq_some_iff.mp seen_repeating
  have hreach : self.Reachable :=
    .of_onStream (fun event hevent => onStream_repeating event (List.mem_of_mem_take hevent)) hself
  refine ⟨self, hself, Reachable.nacksFor_le hreach ?_ (1, 1)⟩
  -- only the first poll finds a frame it does not know
  have hknown : ∀ {before : List Poll} {poll : Poll} {seen : Seen},
      poll.waiting.map (fun w => poll.detector.seen w.key) = [some seen] →
      KeepsCounts before poll := by
    intro before poll seen hseen w hw hnone
    have hmem := List.mem_map_of_mem (f := fun w => poll.detector.seen w.key) hw
    rw [hseen, hnone] at hmem
    exact absurd (List.mem_singleton.mp hmem) (by simp)
  rw [List.map_eq_cons_iff] at hview
  obtain ⟨first, rest, hpolls, -, hview⟩ := hview
  rw [List.map_eq_cons_iff] at hview
  obtain ⟨second, rest, rfl, hsecond, hview⟩ := hview
  rw [List.map_eq_cons_iff] at hview
  obtain ⟨third, rest, rfl, hthird, hview⟩ := hview
  rw [List.map_eq_nil_iff.mp hview] at hpolls
  rw [hpolls]
  have hfirst : Run.Always KeepsCounts ([] ++ [first]) :=
    Run.always_concat.mpr ⟨Run.always_nil, fun w _ _ => rfl⟩
  have htwo : Run.Always KeepsCounts ([first] ++ [second]) :=
    Run.always_concat.mpr ⟨hfirst, hknown hsecond⟩
  have hthree : Run.Always KeepsCounts ([first, second] ++ [third]) :=
    Run.always_concat.mpr ⟨htwo, hknown hthird⟩
  exact hthree

theorem feedback_repeating : (repeating.foldlM step new).map
    (fun self => self.polls.map fun poll => (poll.nowUs, poll.timing, poll.feedback)) =
      some [(0, lanTiming, []), (3000, lanTiming, [.nack 1 1 [0]]),
        (9000, lanTiming, [.nack 1 1 [0]]), (30000, lanTiming, [.refresh 1 1]),
        (30000, lanTiming, []), (33000, lanTiming, [.nack 1 1 [0]])] := by
  decide +kernel

/-- The packets of `repeating` are the sender's. -/
theorem isPacket_repeating {header : Header} {payload : List UInt8}
    (h : .push header payload ∈ repeating) :
    IsPacket NoParity 1 1 0 twoFragments header payload := by
  obtain ⟨rfl, rfl⟩ : header = secondPacket ∧ payload = [7] := by
    simpa [repeating] using h
  have hlength : twoFragments.length = FRAGMENT_SIZE + 1 := by
    rw [twoFragments, List.length_append, List.length_replicate, List.length_singleton]
  have hcount : fragmentCount twoFragments = 2 := by
    rw [fragmentCount, hlength]
    rfl
  have hsecond : fragmentAt twoFragments 1 = [7] := by
    rw [fragmentAt, Nat.one_mul, twoFragments, List.drop_left' List.length_replicate]
    rfl
  have hle : twoFragments.length ≤ MAX_FRAME := by
    rw [hlength]
    decide
  obtain ⟨parts, hparts, hcut⟩ := fragment_eq 1 1 0 hle
  obtain ⟨rest, hrest⟩ := hcut.exists_head
  obtain ⟨parity, hparity, -⟩ := exists_encode NoParity _ rest
  rw [← hrest] at hparity
  have hget : parts[1]? = some (secondPacket, [7]) := by
    rw [hcut.getElem?_parts (by rw [hcount]; decide), hcount, hsecond]
    rfl
  refine ⟨parts ++ parity, ?_, List.mem_append_left _ (List.mem_of_getElem? hget)⟩
  unfold fragmentWithParity
  rw [hparts]
  simp only [hparity]

/-- **A frame that gets three NACKs**: its packets are the sender's, and the
polls are in order, with one timing. -/
theorem nacked_thrice : ∃ self, repeating.foldlM step new = some self ∧ self.Reachable ∧
    (∀ header payload, .push header payload ∈ repeating →
      IsPacket NoParity 1 1 0 twoFragments header payload) ∧
    (self.polls.map Poll.nowUs).Pairwise (· ≤ ·) ∧ (∀ poll ∈ self.polls, poll.timing = lanTiming) ∧
    MAX_NACKS < nacksFor (1, 1) self.polls := by
  obtain ⟨self, hself, hview⟩ := Option.map_eq_some_iff.mp feedback_repeating
  refine ⟨self, hself, .of_onStream onStream_repeating hself,
    fun header payload => isPacket_repeating, ?_⟩
  simp only [List.map_eq_cons_iff, List.map_eq_nil_iff, Prod.mk.injEq] at hview
  obtain ⟨p₁, _, hpolls, ⟨h₁, g₁, f₁⟩, p₂, _, rfl, ⟨h₂, g₂, f₂⟩, p₃, _, rfl, ⟨h₃, g₃, f₃⟩,
    p₄, _, rfl, ⟨h₄, g₄, f₄⟩, p₅, _, rfl, ⟨h₅, g₅, f₅⟩, p₆, _, rfl, ⟨h₆, g₆, f₆⟩, rfl⟩ := hview
  rw [hpolls]
  refine ⟨?_, ?_, ?_⟩
  · simp [h₁, h₂, h₃, h₄, h₅, h₆]
  · simp [g₁, g₂, g₃, g₄, g₅, g₆]
  · simp only [nacksFor, List.flatMap_cons, List.flatMap_nil, f₁, f₂, f₃, f₄, f₅, f₆]
    decide

end Session

end WindowCast.Bud
