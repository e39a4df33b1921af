import Mathlib

/-!
# Fields of a word

Numbers that share a word, each at a shift of its own and as wide as it may get.

## Main definitions

* `BitField.read` — what a field holds.
* `BitField.Packs` — a word of so many bits that holds the numbers at their shifts.
* `BitField.Fit` — every field lies inside the word, and no two meet.

## Main results

* `BitField.Packs.read_eq` — **in fields that fit, every number is read back**.
* `BitField.fit_of_read` — and only in those: one number alone shows where it is lost, or
  read in another's field.
-/

namespace BitField

variable {ι : Type*} {word bits shift width k n : ℕ} {value shifts widths : ι → ℕ}

/-- The field of this width at this shift. -/
def read (word shift width : ℕ) : ℕ := (word >>> shift) % 2 ^ width

/-- A word of so many bits, with each number at its shift; what is beyond the word is cut. -/
def Packs (word bits : ℕ) (value shifts : ι → ℕ) : Prop :=
  ∀ k, word.testBit k = true ↔ k < bits ∧ ∃ i, shifts i ≤ k ∧ (value i).testBit (k - shifts i) = true

/-- Every field lies inside the word, and no two meet; a field of no width is none. -/
def Fit (bits : ℕ) (shifts widths : ι → ℕ) : Prop :=
  (∀ i, widths i ≠ 0 → shifts i + widths i ≤ bits) ∧
    ∀ i j, i ≠ j → widths i ≠ 0 → widths j ≠ 0 → shifts i + widths i ≤ shifts j ∨ shifts j + widths j ≤ shifts i

instance [Fintype ι] [DecidableEq ι] : Decidable (Fit bits shifts widths) := inferInstanceAs (Decidable (_ ∧ _))

theorem testBit_read : (read word shift width).testBit k = (decide (k < width) && word.testBit (shift + k)) := by
  rw [read, Nat.testBit_mod_two_pow, Nat.testBit_shiftRight]

/-- A number's last bit is one. -/
theorem testBit_size (h : n ≠ 0) : n.testBit (n.size - 1) = true := by
  have hpos : 0 < n.size := Nat.size_pos.mpr (Nat.pos_of_ne_zero h)
  have hle : 2 ^ (n.size - 1) ≤ n := Nat.lt_size.mp (Nat.sub_lt hpos Nat.one_pos)
  have hlt : n < 2 * 2 ^ (n.size - 1) := by
    rw [← Nat.pow_succ', Nat.succ_eq_add_one, Nat.sub_add_cancel hpos]
    exact Nat.lt_size_self n
  have hdiv : n / 2 ^ (n.size - 1) = 1 := Nat.div_eq_of_lt_le (by omega) (by omega)
  rw [Nat.testBit_eq_decide_div_mod_eq, hdiv]
  rfl

namespace Packs

/-- **In fields that fit, every number is read back.** -/
theorem read_eq (hpacks : Packs word bits value shifts) (hfit : Fit bits shifts widths)
    (hvalue : ∀ i, value i < 2 ^ widths i) (i : ι) : read word (shifts i) (widths i) = value i := by
  refine Nat.eq_of_testBit_eq fun k => ?_
  have hbit (j : ι) {m : ℕ} (h : (value j).testBit m = true) : m < widths j :=
    Nat.lt_of_not_le fun hle => Bool.false_ne_true
      ((Nat.testBit_lt_two_pow ((hvalue j).trans_le (Nat.pow_le_pow_right Nat.two_pos hle))).symm.trans h)
  rw [testBit_read, Bool.eq_iff_iff, Bool.and_eq_true, decide_eq_true_iff, hpacks]
  constructor
  · rintro ⟨hk, -, j, hj, htest⟩
    by_cases hij : i = j
    · subst hij
      rwa [Nat.add_sub_cancel_left] at htest
    · -- the bit of another number lies in that one's field
      have hm := hbit j htest
      have hapart := hfit.2 i j hij (by omega) (by omega)
      omega
  · intro htest
    have hk := hbit i htest
    have hinside := hfit.1 i (by omega)
    exact ⟨hk, by omega, i, Nat.le_add_right _ _, by rwa [Nat.add_sub_cancel_left]⟩

end Packs

section

variable [DecidableEq ι] {limit : ι → ℕ} {i j : ι}

/-- A bit of a number alone in a word. -/
theorem packs_single (hpacks : Packs word bits (Function.update 0 i n) shifts) (k : ℕ) :
    word.testBit k = true ↔ k < bits ∧ shifts i ≤ k ∧ n.testBit (k - shifts i) = true := by
  rw [hpacks]
  refine and_congr_right fun _ => ⟨?_, fun h => ⟨i, by rwa [Function.update_self]⟩⟩
  rintro ⟨j, hj, htest⟩
  by_cases hij : j = i
  · subst hij
    rw [Function.update_self] at htest
    exact ⟨hj, htest⟩
  · rw [Function.update_of_ne hij, Pi.zero_apply, Nat.zero_testBit] at htest
    cases htest

/-- **Only in fields that fit is every number read back**, where each may be as large as
its field's width: one alone shows where it is lost, or read in another's field. -/
theorem fit_of_read (hread : ∀ i, ∃ word, Packs word bits (Function.update 0 i (limit i)) shifts ∧
      ∀ j, read word (shifts j) (limit j).size = (Function.update 0 i (limit i) : ι → ℕ) j) :
    Fit bits shifts fun i => (limit i).size := by
  have hinside (i : ι) (hi : (limit i).size ≠ 0) : shifts i + (limit i).size ≤ bits := by
    have hne : limit i ≠ 0 := fun h => hi (Nat.size_eq_zero.mpr h)
    obtain ⟨word, hpacks, hread⟩ := hread i
    have hlast : (read word (shifts i) (limit i).size).testBit ((limit i).size - 1) = true := by
      rw [hread, Function.update_self, testBit_size hne]
    rw [testBit_read, Bool.and_eq_true, packs_single hpacks] at hlast
    omega
  have hapart (i j : ι) (hij : i ≠ j) (hi : (limit i).size ≠ 0) (hlast : shifts j ≤ shifts i + ((limit i).size - 1)) :
      shifts j + (limit j).size ≤ shifts i + ((limit i).size - 1) := by
    have hne : limit i ≠ 0 := fun h => hi (Nat.size_eq_zero.mpr h)
    obtain ⟨word, hpacks, hread⟩ := hread i
    -- the last bit of the number alone, read in the other's field
    have hone : word.testBit (shifts i + ((limit i).size - 1)) = true := by
      rw [packs_single hpacks, Nat.add_sub_cancel_left]
      exact ⟨by have := hinside i hi; omega, Nat.le_add_right _ _, testBit_size hne⟩
    by_contra hlt
    have hzero := congrArg (Nat.testBit · (shifts i + ((limit i).size - 1) - shifts j)) (hread j)
    simp only [testBit_read, Function.update_of_ne hij.symm, Pi.zero_apply, Nat.zero_testBit,
      Nat.add_sub_cancel' hlast, hone, Bool.and_true, decide_eq_false_iff_not] at hzero
    omega
  refine ⟨hinside, fun i j hij (hi : (limit i).size ≠ 0) (hj : (limit j).size ≠ 0) => ?_⟩
  have hij' := hapart i j hij hi
  have hji' := hapart j i hij.symm hj
  show shifts i + (limit i).size ≤ shifts j ∨ shifts j + (limit j).size ≤ shifts i
  omega

end

end BitField
