import WindowCast.Lib.InPlace
import WindowCast.Lib.SlidingWindow

/-!
# The replay window

The bitmap of `bud/src/replay.rs`: which of the last `WINDOW` packet numbers
below the highest one seen have already arrived.  Bit `k` (word `k / 64`, bit
`k % 64`) says that `highest - k` was seen.

## Main definitions

* `ReplayWindow` with `check`, `accept` and `shift`.
* `ReplayWindow.Tracks` — the bitmap represents a set of packet numbers.
* `feed` — a window fed packet numbers, each accepted when it is fresh.

## Main results

* `seen_shift` — the in-place shift moves every bit by the same distance.
* `ReplayWindow.Tracks.accept` — accepting a number adds it to the set.
* `check_feed_iff` — **the bitmap agrees with the set of accepted numbers.**
-/

namespace WindowCast.Bud

/-- How many packet numbers back from the highest are remembered. -/
def WINDOW : ℕ := 1024
def WORDS : ℕ := WINDOW / 64

structure ReplayWindow where
  highest : Option UInt64
  accepted : UInt64
  bits : Vector UInt64 WORDS

namespace ReplayWindow

def new : ReplayWindow := ⟨none, 0, Vector.replicate WORDS 0⟩

/-- The word that holds bit `k`. -/
def word (k : Fin WINDOW) : Fin WORDS := ⟨k.val / 64, by
  have := k.isLt
  simp only [WINDOW, WORDS] at *
  omega⟩

def bit (self : ReplayWindow) (k : Fin WINDOW) : Bool :=
  (self.bits.get (word k) >>> UInt64.ofNat (k.val % 64)) &&& 1 == 1

def set (self : ReplayWindow) (k : Fin WINDOW) : ReplayWindow :=
  let value := self.bits.get (word k) ||| (1 <<< UInt64.ofNat (k.val % 64))
  { self with bits := self.bits.set (word k) value }

/-- Whether `packet` could still be accepted: newer than everything seen, or
inside the window and not seen yet. -/
def check (self : ReplayWindow) (packet : UInt64) : Bool :=
  match self.highest with
  | none => true
  | some highest =>
    if packet > highest then true
    else
      let back := highest - packet
      if h : back.toNat < WINDOW then !self.bit ⟨back.toNat, h⟩ else false

/-- What the shift writes to word `i`, from the words `bits`. -/
def shiftWord (words bits : ℕ) (old : Vector UInt64 WORDS) (i : Fin WORDS) : UInt64 :=
  let value := if words ≤ i.val then old.get ⟨i.val - words, by omega⟩ else 0
  if 0 < bits then
    let value := value <<< UInt64.ofNat bits
    if words < i.val then
      value ||| (old.get ⟨i.val - words - 1, by omega⟩ >>> UInt64.ofNat (64 - bits))
    else value
  else value

/-- Moves every remembered packet `dist` places further back: the words are
rewritten in place, from the last one down. -/
def shift (self : ReplayWindow) (dist : UInt64) : ReplayWindow :=
  if WINDOW ≤ dist.toNat then { self with bits := Vector.replicate WORDS 0 }
  else
    let write := InPlace.rewrite (shiftWord (dist.toNat / 64) (dist.toNat % 64))
    { self with bits := (List.finRange WORDS).reverse.foldl write self.bits }

/-- Records `packet` as seen. -/
def accept (self : ReplayWindow) (packet : UInt64) : ReplayWindow :=
  let self := { self with accepted := self.accepted + 1 }
  match self.highest with
  | none => { self with highest := some packet }.set ⟨0, by decide⟩
  | some highest =>
    if packet > highest then
      { self.shift (packet - highest) with highest := some packet }.set ⟨0, by decide⟩
    else
      let back := highest - packet
      if h : back.toNat < WINDOW then self.set ⟨back.toNat, h⟩ else self

/-! ### Words as bits -/

theorem testBit_shiftLeft (x : UInt64) {s j : ℕ} (hs : s < 64) (hj : j < 64) :
    (x <<< UInt64.ofNat s).toNat.testBit j = (decide (s ≤ j) && x.toNat.testBit (j - s)) := by
  have hmod : s % 2 ^ 64 % 64 = s := by omega
  rw [UInt64.toNat_shiftLeft, UInt64.toNat_ofNat', hmod, Nat.testBit_mod_two_pow,
    Nat.testBit_shiftLeft, decide_eq_true hj, Bool.true_and]

theorem testBit_shiftRight (x : UInt64) {s : ℕ} (hs : s < 64) (j : ℕ) :
    (x >>> UInt64.ofNat s).toNat.testBit j = x.toNat.testBit (s + j) := by
  have hmod : s % 2 ^ 64 % 64 = s := by omega
  rw [UInt64.toNat_shiftRight, UInt64.toNat_ofNat', hmod, Nat.testBit_shiftRight]

/-- Bit `k` of a bitmap, false past its end. -/
def seen (bits : Vector UInt64 WORDS) (k : ℕ) : Prop :=
  ∃ h : k < WINDOW, (bits.get (word ⟨k, h⟩)).toNat.testBit (k % 64) = true

/-- Bit `j` of word `i` is bit `64 * i + j` of the bitmap. -/
theorem seen_iff {bits : Vector UInt64 WORDS} {k j : ℕ} {i : Fin WORDS} (hj : j < 64)
    (hk : k = 64 * i.val + j) : seen bits k ↔ (bits.get i).toNat.testBit j = true := by
  have hlt : k < WINDOW := by
    have := i.isLt
    simp only [WORDS, WINDOW] at *
    omega
  have hword : word ⟨k, hlt⟩ = i := Fin.ext (by simp only [word]; omega)
  have hmod : k % 64 = j := by omega
  simp only [seen, hlt, exists_true_left, hword, hmod]

theorem bit_iff (w : ReplayWindow) (k : Fin WINDOW) : w.bit k = true ↔ seen w.bits k.val := by
  have hbit := testBit_shiftRight (w.bits.get (word k)) (Nat.mod_lt k.val (by decide : 64 > 0)) 0
  rw [Nat.testBit_zero, Nat.add_zero] at hbit
  rw [bit, beq_iff_eq, ← UInt64.toNat_inj, UInt64.toNat_and, UInt64.toNat_one, Nat.and_one_is_mod]
  exact ⟨fun h => ⟨k.isLt, hbit ▸ decide_eq_true h⟩,
    fun ⟨_, h⟩ => of_decide_eq_true (hbit.trans h)⟩

theorem not_seen_zero (k : ℕ) : ¬ seen (Vector.replicate WORDS 0) k := by
  rintro ⟨h, hbit⟩
  simp [Vector.get_eq_getElem] at hbit

/-- Setting bit `k`. -/
theorem seen_set (w : ReplayWindow) (k : Fin WINDOW) (j : ℕ) (hj : j < WINDOW) :
    seen (w.set k).bits j ↔ j = k.val ∨ seen w.bits j := by
  have hword : ∀ i : Fin WORDS, (w.set k).bits.get i
      = if i = word k then w.bits.get i ||| (1 <<< UInt64.ofNat (k.val % 64)) else w.bits.get i := by
    intro i
    simp only [set, Vector.get_eq_getElem, Vector.getElem_set, Fin.ext_iff, eq_comm]
    split
    · rename_i h; simp only [h]
    · rfl
  simp only [seen, hj, exists_true_left, hword]
  by_cases hw : word ⟨j, hj⟩ = word k
  · have hdiv : j / 64 = k.val / 64 := congrArg Fin.val hw
    rw [if_pos hw, UInt64.toNat_or, Nat.testBit_or, Bool.or_eq_true, or_comm,
      testBit_shiftLeft 1 (Nat.mod_lt _ (by decide)) (Nat.mod_lt _ (by decide)),
      Bool.and_eq_true, decide_eq_true_eq, UInt64.toNat_one,
      Nat.testBit_one_eq_true_iff_self_eq_zero]
    exact or_congr (by omega) Iff.rfl
  · have hne : j ≠ k.val := by
      rintro rfl
      exact hw rfl
    simp [hw, hne]

/-- Bit `j` of a shifted word comes from the word `words` places down, or from
the one below that. -/
theorem testBit_shiftWord (words bits : ℕ) (hbits : bits < 64) (old : Vector UInt64 WORDS)
    (i : Fin WORDS) (j : ℕ) (hj : j < 64) :
    (shiftWord words bits old i).toNat.testBit j = true ↔
      (bits ≤ j ∧ words ≤ i.val ∧
        (old.get ⟨i.val - words, by omega⟩).toNat.testBit (j - bits) = true) ∨
      (j < bits ∧ words < i.val ∧
        (old.get ⟨i.val - words - 1, by omega⟩).toNat.testBit (64 + j - bits) = true) := by
  have hup : ∀ m, (if words ≤ i.val then old.get ⟨i.val - words, by omega⟩ else 0).toNat.testBit m = true
      ↔ words ≤ i.val ∧ (old.get ⟨i.val - words, by omega⟩).toNat.testBit m = true := by
    intro m
    by_cases h : words ≤ i.val <;> simp [h]
  by_cases hb : 0 < bits
  · -- no bit is carried over from past the end of the lower word
    have hcarry : (old.get ⟨i.val - words - 1, by omega⟩).toNat.testBit (64 - bits + j) = true
        ↔ j < bits ∧ (old.get ⟨i.val - words - 1, by omega⟩).toNat.testBit (64 + j - bits) = true := by
      by_cases hjb : j < bits
      · rw [show 64 - bits + j = 64 + j - bits by omega]
        simp [hjb]
      · rw [Nat.testBit_lt_two_pow]
        · simp [hjb]
        · exact lt_of_lt_of_le (UInt64.toNat_lt _) (Nat.pow_le_pow_right (by decide) (by omega))
    by_cases hlt : words < i.val
    · simp only [shiftWord, hb, hlt, if_true]
      rw [UInt64.toNat_or, Nat.testBit_or, Bool.or_eq_true, testBit_shiftLeft _ hbits hj,
        testBit_shiftRight _ (by omega), hcarry, Bool.and_eq_true, decide_eq_true_eq, hup]
      tauto
    · simp only [shiftWord, hb, hlt, if_true, if_false]
      rw [testBit_shiftLeft _ hbits hj, Bool.and_eq_true, decide_eq_true_eq, hup]
      tauto
  · have h0 : bits = 0 := by omega
    subst h0
    simp only [shiftWord, lt_irrefl, if_false, hup, Nat.zero_le, Nat.sub_zero, true_and,
      Nat.not_lt_zero, false_and, or_false]

/-- Every word is computed from words no later than itself. -/
theorem readsBack_shiftWord (words bits : ℕ) : InPlace.ReadsBack (shiftWord words bits) := by
  intro v w i h
  have h1 := h ⟨i.val - words, by omega⟩ (Fin.le_def.mpr (Nat.sub_le _ _))
  have h2 := h ⟨i.val - words - 1, by omega⟩
    (Fin.le_def.mpr ((Nat.sub_le _ _).trans (Nat.sub_le _ _)))
  simp only [shiftWord, h1, h2]

/-- Shifting moves every bit by the same distance. -/
theorem seen_shift (w : ReplayWindow) (dist : UInt64) (k : ℕ) (hk : k < WINDOW) :
    seen (w.shift dist).bits k ↔ dist.toNat ≤ k ∧ seen w.bits (k - dist.toNat) := by
  unfold shift
  split
  · rename_i hfar
    exact iff_of_false (not_seen_zero k) fun h => by omega
  · set d := dist.toNat
    have hkd : k = 64 * (word ⟨k, hk⟩).val + k % 64 := by simp only [word]; omega
    rw [seen_iff (Nat.mod_lt k (by decide)) hkd, InPlace.get_foldl_reverse (readsBack_shiftWord _ _),
      testBit_shiftWord _ _ (Nat.mod_lt _ (by decide)) _ _ _ (Nat.mod_lt _ (by decide))]
    have hword : (word ⟨k, hk⟩).val = k / 64 := rfl
    -- whether the distance within the word borrows from the word below
    rcases Nat.lt_or_ge (k % 64) (d % 64) with hb | hb
    · simp only [hb, not_le.mpr hb, false_and, false_or, true_and]
      refine ⟨fun ⟨hw, h⟩ => ⟨by omega, (seen_iff (by omega) ?_).mpr h⟩,
        fun ⟨hle, h⟩ => ⟨by omega, (seen_iff (by omega) ?_).mp h⟩⟩ <;> simp only <;> omega
    · simp only [hb, not_lt.mpr hb, false_and, or_false, true_and]
      refine ⟨fun ⟨hw, h⟩ => ⟨by omega, (seen_iff (by omega) ?_).mpr h⟩,
        fun ⟨hle, h⟩ => ⟨by omega, (seen_iff (by omega) ?_).mp h⟩⟩ <;> simp only <;> omega

/-! ### The bitmap represents a set -/

/-- The window represents the packet numbers `taken`. -/
def Tracks (w : ReplayWindow) (taken : Set ℕ) : Prop :=
  SlidingWindow.Represents WINDOW (w.highest.map UInt64.toNat) (seen w.bits) taken

theorem tracks_new : Tracks new ∅ := by
  refine ⟨fun _ => ⟨rfl, fun k _ => not_seen_zero k⟩, nofun, nofun⟩

/-- `check` decides freshness. -/
theorem Tracks.check_iff {w : ReplayWindow} {taken : Set ℕ} (h : w.Tracks taken) (p : UInt64) :
    w.check p = true ↔ SlidingWindow.Fresh WINDOW taken p.toNat := by
  unfold Tracks at h
  unfold check
  cases hh : w.highest with
  | none =>
    rw [hh] at h
    simpa using h.fresh_of_none p.toNat
  | some g =>
    rw [hh] at h
    rw [h.fresh_iff]
    by_cases hlt : p > g
    · simp [hlt, UInt64.lt_iff_toNat_lt.mp hlt]
    · have hle : p ≤ g := UInt64.not_lt.mp hlt
      have hsub : (g - p).toNat = g.toNat - p.toNat := UInt64.toNat_sub_of_le _ _ hle
      have hnlt : ¬ g.toNat < p.toNat := not_lt.mpr (UInt64.le_iff_toNat_le.mp hle)
      simp only [hlt, if_false, hsub, hnlt, false_or]
      split
      · rename_i hw
        rw [Bool.not_eq_true', Bool.eq_false_iff, ne_eq, bit_iff]
        simp [hw]
      · rename_i hw
        simp [hw]

/-- `accept` adds a number to the set. -/
theorem Tracks.accept {w : ReplayWindow} {taken : Set ℕ} (h : w.Tracks taken) (p : UInt64) :
    (w.accept p).Tracks (insert p.toNat taken) := by
  unfold Tracks at h ⊢
  unfold ReplayWindow.accept
  cases hh : w.highest with
  | none =>
    rw [hh] at h
    exact h.first fun k hk => seen_set _ _ k hk
  | some g =>
    rw [hh] at h
    simp only
    by_cases hlt : p > g
    · have hsub : (p - g).toNat = p.toNat - g.toNat :=
        UInt64.toNat_sub_of_le _ _ (UInt64.le_of_lt hlt)
      rw [if_pos hlt]
      refine h.above (UInt64.lt_iff_toNat_lt.mp hlt) fun k hk => ?_
      have hshift := seen_shift ⟨some g, w.accepted + 1, w.bits⟩ (p - g) k hk
      rw [hsub] at hshift
      exact (seen_set _ _ k hk).trans (or_congr Iff.rfl hshift)
    · have hle : p ≤ g := UInt64.not_lt.mp hlt
      have hle' := UInt64.le_iff_toNat_le.mp hle
      have hsub : (g - p).toNat = g.toNat - p.toNat := UInt64.toNat_sub_of_le _ _ hle
      rw [if_neg hlt]
      split
      · refine h.inside hle' fun k hk => ?_
        rw [← hsub]
        exact seen_set _ _ k hk
      · rename_i hw
        exact h.below hle' (by omega)

/-- The highest number is that of the set. -/
theorem Tracks.highest_eq_none {w : ReplayWindow} {taken : Set ℕ} (h : w.Tracks taken) :
    w.highest = none ↔ taken = ∅ := by
  constructor
  · intro hn
    exact (h.empty (by rw [hn]; rfl)).1
  · intro he
    cases hh : w.highest with
    | none => rfl
    | some g => exact absurd (h.greatest g.toNat (by rw [hh]; rfl)).1 (he ▸ Set.notMem_empty _)

end ReplayWindow

/-! ### Any history of packet numbers -/

/-- A window, and the packet numbers it has accepted. -/
structure Fed where
  window : ReplayWindow
  accepted : List UInt64

/-- Offer a packet number: it is accepted exactly when `check` says it is fresh. -/
def offer (s : Fed) (p : UInt64) : Fed :=
  if s.window.check p then ⟨s.window.accept p, p :: s.accepted⟩ else s

/-- A fresh window after a sequence of packet numbers. -/
def feed (ps : List UInt64) : Fed := ps.foldl offer ⟨ReplayWindow.new, []⟩

/-- The numbers accepted, as a set. -/
def Fed.taken (s : Fed) : Set ℕ := {n | ∃ p ∈ s.accepted, p.toNat = n}

theorem tracks_offer {s : Fed} (h : s.window.Tracks s.taken) (p : UInt64) :
    (offer s p).window.Tracks (offer s p).taken := by
  unfold offer
  split
  · have htaken : Fed.taken ⟨s.window.accept p, p :: s.accepted⟩ = insert p.toNat s.taken := by
      ext n
      simp [Fed.taken, eq_comm]
    rw [htaken]
    exact h.accept p
  · exact h

theorem tracks_feed (ps : List UInt64) : (feed ps).window.Tracks (feed ps).taken := by
  have hrun : ∀ (ps : List UInt64) (s : Fed), s.window.Tracks s.taken →
      (ps.foldl offer s).window.Tracks (ps.foldl offer s).taken := by
    intro ps
    induction ps with
    | nil => exact fun s h => h
    | cons p ps ih => exact fun s h => ih _ (tracks_offer h p)
  refine hrun ps _ ?_
  have hnone : Fed.taken ⟨ReplayWindow.new, []⟩ = ∅ := by
    ext n
    simp [Fed.taken]
  rw [hnone]
  exact ReplayWindow.tracks_new

/-- **The bitmap agrees with the set of accepted numbers**, after any history:
a packet number is fresh exactly when nothing was accepted yet, or it is above
the highest accepted number, or that number minus it is below the width of the
window and it was never accepted. -/
theorem check_feed_iff (ps : List UInt64) (p : UInt64) :
    (feed ps).window.check p = true ↔
      (feed ps).accepted = [] ∨
      ∃ highest ∈ (feed ps).accepted, (∀ q ∈ (feed ps).accepted, q ≤ highest) ∧
        (highest < p ∨
          (highest.toNat - p.toNat < WINDOW ∧ p ∉ (feed ps).accepted)) := by
  set s := feed ps
  rw [(tracks_feed ps).check_iff p]
  have hmem : ∀ q : UInt64, q.toNat ∈ s.taken ↔ q ∈ s.accepted := fun q => by
    simp [Fed.taken, UInt64.toNat_inj]
  refine or_congr ?_ ?_
  · rw [Set.eq_empty_iff_forall_notMem, List.eq_nil_iff_forall_not_mem]
    exact ⟨fun h q hq => h q.toNat ((hmem q).mpr hq), fun h n ⟨q, hq, _⟩ => h q hq⟩
  · constructor
    · rintro ⟨_, ⟨⟨q, hq, rfl⟩, hub⟩, hor⟩
      refine ⟨q, hq, fun r hr => UInt64.le_iff_toNat_le.mpr (hub ((hmem r).mpr hr)), ?_⟩
      rwa [UInt64.lt_iff_toNat_lt, ← hmem]
    · rintro ⟨q, hq, hub, hor⟩
      refine ⟨q.toNat, ⟨(hmem q).mpr hq, ?_⟩, ?_⟩
      · rintro _ ⟨r, hr, rfl⟩
        exact UInt64.le_iff_toNat_le.mp (hub r hr)
      · rwa [hmem, ← UInt64.lt_iff_toNat_lt]

end WindowCast.Bud
