import WindowCast.Bud.Feedback
import WindowCast.Bud.Packet

/-!
# Loss reports

`LossMeter` of `bud/src/recovery.rs`: from time to time the receiving side reports
how many packets were numbered since the last time, and how many of them have not
arrived.  A late packet was reported lost and counts towards a later period, so
the losses are a little high; they are never too low.

## Main definitions

* `LossMeter.sample` — the report of one period.
* `Metered` — an opener and its meter, with what was opened and reported.

## Main results

* `Metered.Inv.step` — what an opening or a sample preserves.
* `Metered.losses_reported` — **the reports add up.**
-/

namespace WindowCast.Bud

variable {Key : Type}

/-- The highest packet number opened, and how many packets were opened. -/
def Opener.stats (self : Opener Key) : Option UInt64 × UInt64 :=
  (self.replay.highest, self.replay.accepted)

/-- The difference, or zero. -/
def saturatingSub (a b : UInt64) : UInt64 := if b ≤ a then a - b else 0

@[simp] theorem toNat_saturatingSub (a b : UInt64) :
    (saturatingSub a b).toNat = a.toNat - b.toNat := by
  unfold saturatingSub
  split
  · rename_i h
    exact UInt64.toNat_sub_of_le _ _ h
  · rename_i h
    rw [UInt64.le_iff_toNat_le] at h
    rw [UInt64.toNat_zero]
    omega

/-- What the opener had counted at the last sample. -/
structure LossMeter where
  lastHighest : Option UInt64
  lastAccepted : UInt64
  deriving DecidableEq, Repr

namespace LossMeter

def new : LossMeter := ⟨none, 0⟩

/-- How many packets were numbered since the last sample. -/
def sentSince (self : LossMeter) (highest : UInt64) : UInt64 :=
  match self.lastHighest with
  | some last => saturatingSub highest last
  | none => highest + 1

/-- The report for the period since the last sample, unless nothing new was numbered. -/
def sample (self : LossMeter) (opener : Opener Key) : Option Feedback × LossMeter :=
  match opener.stats with
  | (none, _) => (none, self)
  | (some highest, accepted) =>
    let sent := self.sentSince highest
    let received := saturatingSub accepted self.lastAccepted
    let self := { self with lastHighest := some highest, lastAccepted := accepted }
    if sent = 0 then (none, self)
    else
      let sent := (min sent 0xffffffff).toUInt32
      let lost := (saturatingSub sent.toUInt64 received).toUInt32
      (some (.report sent lost), self)

end LossMeter

/-- How many packets are numbered up to the highest. -/
def numbered : Option UInt64 → ℕ
  | none => 0
  | some highest => highest.toNat + 1

@[simp] theorem numbered_none : numbered none = 0 := rfl

@[simp] theorem numbered_some (highest : UInt64) : numbered (some highest) = highest.toNat + 1 := rfl

/-- The packets a report says were sent. -/
def Feedback.sent : Feedback → ℕ
  | .report sent _ => sent.toNat
  | _ => 0

/-- The packets a report says were lost. -/
def Feedback.lost : Feedback → ℕ
  | .report _ lost => lost.toNat
  | _ => 0

namespace LossMeter

/-- A period of fewer than `2 ^ 32` packets is counted as it is. -/
theorem toNat_sentSince {meter : LossMeter} {highest : UInt64}
    (hnear : highest.toNat + 1 - numbered meter.lastHighest < 2 ^ 32) :
    (meter.sentSince highest).toNat = highest.toNat + 1 - numbered meter.lastHighest := by
  unfold sentSince
  cases hlast : meter.lastHighest with
  | none =>
    rw [hlast] at hnear
    simp only [numbered_none, Nat.sub_zero] at hnear ⊢
    rw [UInt64.toNat_add, UInt64.toNat_one]
    omega
  | some last =>
    simp only [toNat_saturatingSub, numbered_some]
    omega

/-- No report says that more was lost than was sent. -/
theorem lost_le_sent {meter meter' : LossMeter} {opener : Opener Key} {report : Feedback}
    (h : meter.sample opener = (some report, meter')) :
    ∃ sent lost, report = .report sent lost ∧ lost ≤ sent := by
  unfold sample at h
  split at h
  · cases h
  simp only at h
  split at h
  · cases h
  · obtain ⟨h, -⟩ := Prod.mk.inj h
    refine ⟨_, _, (Option.some.inj h).symm, ?_⟩
    rw [UInt32.le_iff_toNat_le, UInt64.toNat_toUInt32, toNat_saturatingSub, UInt32.toNat_toUInt64]
    exact (Nat.mod_le _ _).trans (Nat.sub_le _ _)

/-- What one sample of a period of fewer than `2 ^ 32` packets does. -/
theorem sample_eq {meter : LossMeter} {opener : Opener Key} {highest : UInt64}
    (hhigh : opener.replay.highest = some highest)
    (hnear : highest.toNat + 1 - numbered meter.lastHighest < 2 ^ 32) :
    (meter.sample opener).2 = ⟨some highest, opener.replay.accepted⟩
      ∧ ((meter.sample opener).1.map Feedback.sent).getD 0
        = highest.toNat + 1 - numbered meter.lastHighest
      ∧ ((meter.sample opener).1.map Feedback.lost).getD 0
        = highest.toNat + 1 - numbered meter.lastHighest
          - (opener.replay.accepted.toNat - meter.lastAccepted.toNat) := by
  have hsent := toNat_sentSince hnear
  unfold sample Opener.stats
  rw [hhigh]
  simp only
  generalize meter.sentSince highest = sent at hsent ⊢
  rw [← hsent] at hnear ⊢
  by_cases hzero : sent = 0
  · subst hzero
    simp
  · rw [if_neg hzero]
    have hmax : (0xffffffff : UInt64).toNat = 2 ^ 32 - 1 := rfl
    have hle : sent ≤ 0xffffffff := by
      rw [UInt64.le_iff_toNat_le]
      omega
    have hmin : min sent 0xffffffff = sent := if_pos hle
    have hfit : sent.toUInt32.toNat = sent.toNat := by
      rw [UInt64.toNat_toUInt32]
      omega
    refine ⟨rfl, ?_, ?_⟩
    · simp only [hmin, Option.map_some, Option.getD_some, Feedback.sent, hfit]
    · simp only [hmin, Option.map_some, Option.getD_some, Feedback.lost, UInt64.toNat_toUInt32,
        toNat_saturatingSub, UInt32.toNat_toUInt64, hfit]
      omega

end LossMeter

namespace ReplayWindow

@[simp] theorem accepted_set (w : ReplayWindow) (k : Fin WINDOW) : (w.set k).accepted = w.accepted := rfl

@[simp] theorem highest_set (w : ReplayWindow) (k : Fin WINDOW) : (w.set k).highest = w.highest := rfl

@[simp] theorem accepted_shift (w : ReplayWindow) (dist : UInt64) :
    (w.shift dist).accepted = w.accepted := by
  unfold shift
  split <;> rfl

/-- An accepted packet is counted, and never lowers the highest number. -/
theorem accept_eq (w : ReplayWindow) (p : UInt64) :
    (w.accept p).accepted = w.accepted + 1 ∧ numbered w.highest ≤ numbered (w.accept p).highest := by
  unfold accept
  cases hhigh : w.highest with
  | none => exact ⟨rfl, Nat.zero_le _⟩
  | some highest =>
    simp only
    split
    · rename_i hlt
      refine ⟨by simp, ?_⟩
      have := UInt64.lt_iff_toNat_lt.mp hlt
      simp only [highest_set, numbered_some]
      omega
    · split
      · exact ⟨by simp, by simp⟩
      · exact ⟨rfl, by simp⟩

end ReplayWindow

/-! ### An opener and its meter -/

/-- An opener with its meter, the packet numbers it opened and the reports made. -/
structure Metered (Key : Type) where
  opener : Opener Key
  meter : LossMeter
  opened : List UInt64
  reports : List Feedback

namespace Metered

inductive Event
  /-- A datagram arrives. -/
  | present (datagram : List UInt8)
  /-- The losses of the period are asked for. -/
  | sample
  deriving DecidableEq, Repr

def new (key : Key) : Metered Key := ⟨⟨key, ReplayWindow.new⟩, LossMeter.new, [], []⟩

def step (aead : Aead Key) (s : Metered Key) : Event → Option (Metered Key)
  | .present datagram =>
    match s.opener.openDatagram aead datagram with
    | (.ok (header, _), opener) =>
      some { s with opener := opener, opened := s.opened ++ [header.packet] }
    | (.error _, opener) => some { s with opener := opener }
  | .sample =>
    let (report, meter) := s.meter.sample s.opener
    some { s with meter := meter, reports := s.reports ++ report.toList }

/-- What the reports say was sent. -/
def sent (s : Metered Key) : ℕ := (s.reports.map Feedback.sent).sum

/-- What the reports say was lost. -/
def lost (s : Metered Key) : ℕ := (s.reports.map Feedback.lost).sum

/-- The packet numbers up to `highest` that were not opened. -/
def unopened (s : Metered Key) (highest : ℕ) : Finset ℕ :=
  (Finset.range (highest + 1)).filter fun n => n ∉ s.opened.map UInt64.toNat

/-- Where a sample is made, fewer than `2 ^ 32` packets were numbered in the period. -/
def Near (s : Metered Key) : Event → Prop
  | .present _ => True
  | .sample => numbered s.opener.replay.highest - numbered s.meter.lastHighest < 2 ^ 32

instance (s : Metered Key) : ∀ e, Decidable (s.Near e)
  | .present _ => .isTrue trivial
  | .sample => inferInstanceAs (Decidable (_ < _))

/-- What openings and samples preserve.  `told` packets had been opened at the last
sample. -/
structure Inv (s : Metered Key) : Prop where
  tracks : s.opener.replay.Tracks {n | ∃ p ∈ s.opened, p.toNat = n}
  nodup : s.opened.Nodup
  counted : s.opener.replay.accepted.toNat = s.opened.length % 2 ^ 64
  onward : numbered s.meter.lastHighest ≤ numbered s.opener.replay.highest
  sent_eq : s.sent = numbered s.meter.lastHighest
  fits : ∀ report ∈ s.reports, ∃ sent lost, report = .report sent lost ∧ lost ≤ sent
  missing : ∃ told, told ≤ s.opened.length ∧ s.meter.lastAccepted.toNat = told % 2 ^ 64
    ∧ s.sent ≤ s.lost + told

theorem inv_new (key : Key) : (new key).Inv := by
  refine ⟨?_, List.nodup_nil, rfl, Nat.le_refl _, rfl, nofun, 0, Nat.le_refl _, rfl, Nat.le_refl _⟩
  have hnone : {n | ∃ p ∈ (new key).opened, UInt64.toNat p = n} = ∅ := by
    ext n
    simp [new]
  rw [hnone]
  exact ReplayWindow.tracks_new

/-- Packet numbers opened once each are at most `2 ^ 64`. -/
theorem Inv.length_le {s : Metered Key} (h : s.Inv) : s.opened.length ≤ 2 ^ 64 := by
  have hnodup := h.nodup.map (fun _ _ => UInt64.toNat_inj.mp)
  have hsub : s.opened.map UInt64.toNat ⊆ List.range (2 ^ 64) := by
    intro n hn
    obtain ⟨p, -, rfl⟩ := List.mem_map.mp hn
    exact List.mem_range.mpr p.toNat_lt
  have hlen := (hnodup.subperm hsub).length_le
  rwa [List.length_map, List.length_range] at hlen

/-- The highest number is the greatest one opened. -/
theorem Inv.isGreatest {s : Metered Key} (h : s.Inv) {highest : UInt64}
    (hhigh : s.opener.replay.highest = some highest) :
    IsGreatest {n | ∃ p ∈ s.opened, p.toNat = n} highest.toNat :=
  h.tracks.greatest highest.toNat (by rw [hhigh]; rfl)

/-- A datagram that opens is counted; one that does not changes nothing. -/
theorem Inv.present {aead : Aead Key} {s s' : Metered Key} (h : s.Inv) {datagram : List UInt8}
    (hstep : step aead s (.present datagram) = some s') : s'.Inv := by
  simp only [step] at hstep
  split at hstep
  rotate_left
  · -- a failed open
    rename_i e opener hopen
    have hsame := Opener.open_error (by rw [hopen])
    rw [hopen] at hsame
    simp only at hsame
    subst hsame
    cases hstep
    exact h
  rename_i header payload opener hopen
  obtain ⟨-, hcheck, -, rfl⟩ := Opener.open_eq_ok hopen
  cases hstep
  have hfresh := SlidingWindow.not_mem_of_fresh ((h.tracks.check_iff _).mp hcheck)
  obtain ⟨hcount, hup⟩ := s.opener.replay.accept_eq header.packet
  obtain ⟨told, htold, hlast, hlost⟩ := h.missing
  refine ⟨?_, ?_, ?_, h.onward.trans hup, h.sent_eq, h.fits, told, ?_, hlast, hlost⟩
  · have hset : {n | ∃ p ∈ s.opened ++ [header.packet], p.toNat = n}
        = insert header.packet.toNat {n | ∃ p ∈ s.opened, p.toNat = n} := by
      ext n
      simp only [List.mem_append, List.mem_singleton, Set.mem_ofPred_eq, Set.mem_insert_iff,
        or_and_right, exists_or, exists_eq_left]
      rw [or_comm, eq_comm]
    simp only
    rw [hset]
    exact h.tracks.accept _
  · refine List.Nodup.append h.nodup (List.nodup_singleton _) ?_
    intro p hp hp'
    rw [List.mem_singleton.mp hp'] at hp
    exact hfresh ⟨_, hp, rfl⟩
  · have hcounted := h.counted
    simp only
    rw [hcount, UInt64.toNat_add, UInt64.toNat_one, List.length_append, List.length_singleton]
    omega
  · simp only [List.length_append]
    omega

/-- A sample reports what was numbered since the last one, and counts as lost
whatever did not arrive in its place. -/
theorem Inv.sample {aead : Aead Key} {s s' : Metered Key} (h : s.Inv) (hnear : s.Near .sample)
    (hstep : step aead s .sample = some s') :
    s'.Inv ∧ s'.meter.lastHighest = s'.opener.replay.highest := by
  simp only [step] at hstep
  have hnumbered := h.sent_eq
  cases hhigh : s.opener.replay.highest with
  | none =>
    -- nothing was opened yet
    have hnone : s.meter.sample s.opener = (none, s.meter) := by
      unfold LossMeter.sample Opener.stats
      rw [hhigh]
    rw [hnone] at hstep
    simp only [Option.toList_none, List.append_nil] at hstep
    cases hstep
    rw [hhigh]
    have honward := h.onward
    rw [hhigh] at honward
    cases hlast : s.meter.lastHighest with
    | none => exact ⟨h, rfl⟩
    | some last =>
      rw [hlast] at honward
      simp at honward
  | some highest =>
    cases hstep
    have hnear' : numbered (some highest) - numbered s.meter.lastHighest < 2 ^ 32 := hhigh ▸ hnear
    obtain ⟨hmeter, hsent, hlost⟩ := LossMeter.sample_eq hhigh hnear'
    have honward := h.onward
    rw [hhigh, numbered_some] at honward
    obtain ⟨told, htold, haccepted, hmissing⟩ := h.missing
    -- the sums, with the new report
    have htotal (f : Feedback → ℕ) (report : Option Feedback) :
        ((s.reports ++ report.toList).map f).sum = (s.reports.map f).sum + (report.map f).getD 0 := by
      cases report <;> simp
    have hsent' : ((s.reports ++ (s.meter.sample s.opener).1.toList).map Feedback.sent).sum
        = highest.toNat + 1 := by
      rw [htotal, hsent, ← sent, hnumbered]
      omega
    refine ⟨⟨h.tracks, h.nodup, h.counted, ?_, ?_, ?_, s.opened.length, Nat.le_refl _, ?_, ?_⟩, ?_⟩
    · rw [hmeter, hhigh]
    · rw [hmeter]
      exact hsent'
    · intro report hreport
      rcases List.mem_append.mp hreport with hreport | hreport
      · exact h.fits report hreport
      · exact LossMeter.lost_le_sent (Prod.ext (Option.mem_toList.mp hreport) rfl)
    · rw [hmeter]
      exact h.counted
    · show ((s.reports ++ (s.meter.sample s.opener).1.toList).map Feedback.sent).sum
        ≤ ((s.reports ++ (s.meter.sample s.opener).1.toList).map Feedback.lost).sum + _
      rw [hsent', htotal, hlost, ← lost]
      -- as many packets as the counter shows arrived in the period, or it went around
      have hlength := h.length_le
      have hcounted := h.counted
      omega
    · rw [hmeter, hhigh]

theorem Inv.step {aead : Aead Key} {s s' : Metered Key} {e : Event} (h : s.Inv) (hnear : s.Near e)
    (hstep : step aead s e = some s') : s'.Inv := by
  cases e with
  | present datagram => exact h.present hstep
  | sample => exact (h.sample hnear hstep).1

theorem inv_run {aead : Aead Key} {key : Key} {es : List Event} {s : Metered Key}
    (h : Run.Guarded (Metered.step aead) Near es (new key) s) : s.Inv :=
  h.invariant (fun _ _ _ => Inv.step) (inv_new key)

/-- Of the numbers up to the highest, as many were not opened as the opened ones leave. -/
theorem Inv.card_unopened {s : Metered Key} (h : s.Inv) {highest : ℕ}
    (hgreatest : IsGreatest {n | ∃ p ∈ s.opened, p.toNat = n} highest) :
    (s.unopened highest).card + s.opened.length = highest + 1 := by
  have hnodup : (s.opened.map UInt64.toNat).Nodup := h.nodup.map (fun _ _ => UInt64.toNat_inj.mp)
  have hopened : ((Finset.range (highest + 1)).filter fun n => n ∈ s.opened.map UInt64.toNat)
      = (s.opened.map UInt64.toNat).toFinset := by
    ext n
    simp only [Finset.mem_filter, Finset.mem_range, List.mem_toFinset, and_iff_right_iff_imp]
    intro hn
    obtain ⟨p, hp, rfl⟩ := List.mem_map.mp hn
    exact Nat.lt_succ_of_le (hgreatest.2 ⟨p, hp, rfl⟩)
  have hsplit := Finset.card_filter_add_card_filter_not (s := Finset.range (highest + 1))
    fun n => n ∈ s.opened.map UInt64.toNat
  rw [hopened, List.toFinset_card_of_nodup hnodup, List.length_map, Finset.card_range] at hsplit
  rw [← hsplit, unopened]
  omega

/-- **The reports add up**, at every sample of every run whose periods each have fewer
than `2 ^ 32` packets: what they say was sent is what was numbered up to the highest
packet opened, no report says that more was lost than was sent, and what they say was
lost is at least what was numbered and never opened. -/
theorem losses_reported (aead : Aead Key) (key : Key) {es : List Event} {s s' : Metered Key}
    (h : Run.Guarded (step aead) Near es (new key) s) (hnear : s.Near .sample)
    (hsample : step aead s .sample = some s') :
    (s'.opened = [] → s'.sent = 0) ∧
    (∀ highest, IsGreatest {n | ∃ p ∈ s'.opened, p.toNat = n} highest →
      s'.sent = highest + 1 ∧ (s'.unopened highest).card ≤ s'.lost) ∧
    ∀ report ∈ s'.reports, ∃ sent lost, report = .report sent lost ∧ lost ≤ sent := by
  obtain ⟨hinv, hlast⟩ := (inv_run h).sample hnear hsample
  have hsent := hinv.sent_eq
  rw [hlast] at hsent
  refine ⟨?_, ?_, hinv.fits⟩
  · intro hnone
    have hempty : {n | ∃ p ∈ s'.opened, UInt64.toNat p = n} = ∅ := by
      ext n
      simp [hnone]
    rw [hsent, hinv.tracks.highest_eq_none.mpr hempty, numbered_none]
  · intro highest hgreatest
    cases hhigh : s'.opener.replay.highest with
    | none =>
      -- then nothing was opened
      have hempty := hinv.tracks.highest_eq_none.mp hhigh
      rw [hempty] at hgreatest
      exact absurd hgreatest.1 (Set.notMem_empty _)
    | some top =>
      obtain rfl := (hinv.isGreatest hhigh).unique hgreatest
      rw [hhigh, numbered_some] at hsent
      refine ⟨hsent, ?_⟩
      obtain ⟨told, htold, -, hmissing⟩ := hinv.missing
      have hcard := hinv.card_unopened hgreatest
      omega

/-- A packet of an otherwise empty frame, sealed by the stand-in cipher. -/
def numberedPacket (packet : UInt64) : List UInt8 :=
  let header : Header := ⟨0, 1, 0, 0, 1, packet, 500⟩
  header.encode ++ [7] ++ Link.checksumAead.tag (nonce packet) [7] header.encode

/-- The second of four packets arrives a period late. -/
def lateSecond : List Event :=
  [.present (numberedPacket 0), .present (numberedPacket 2), .sample,
    .present (numberedPacket 1), .present (numberedPacket 3)]

theorem losses_reported_lateSecond :
    ∃ s', (lateSecond ++ [Event.sample]).foldlM (step Link.checksumAead) (new ()) = some s'
      ∧ s'.reports = [.report 3 1, .report 1 0] ∧ s'.sent = 4 ∧ (s'.unopened 3).card ≤ s'.lost := by
  have hrun : Run.Guarded (step Link.checksumAead) Near lateSecond (new ()) _ :=
    ⟨trivial, _, rfl, trivial, _, rfl, by decide, _, rfl, trivial, _, rfl, trivial, _, rfl, rfl⟩
  obtain ⟨-, hsent, -⟩ := losses_reported Link.checksumAead () hrun (by decide) rfl
  have hgreatest : IsGreatest {n | ∃ p ∈ [(0 : UInt64), 2, 1, 3], p.toNat = n} 3 := by
    refine ⟨⟨3, by decide, rfl⟩, ?_⟩
    rintro _ ⟨p, hp, rfl⟩
    simp only [List.mem_cons, List.not_mem_nil, or_false] at hp
    rcases hp with rfl | rfl | rfl | rfl <;> decide
  obtain ⟨hsent, hlost⟩ := hsent 3 hgreatest
  exact ⟨_, rfl, by decide, hsent, hlost⟩

end Metered

end WindowCast.Bud
