import Mathlib

/-!
# Serial numbers

Numbers of a fixed width that wrap around, ordered the way a sequence number
is: `a` is later than `b` if it is less than half the circle ahead.  On numbers
that span less than half the circle this is an ordinary linear order.

## Main definitions

* `SerialNumber.Later` — the order.
* `SerialNumber.Near` — a number is in the half circle from a base.

## Main results

* `SerialNumber.later_iff` — the order is that of the distances from the base.
* `SerialNumber.toInt_ofNat_sub` — the signed difference of two numbers that are not
  further apart than half the circle is that of the numbers before they wrap.
-/

namespace SerialNumber

variable {w : ℕ}

def Later (a b : BitVec w) : Prop := a ≠ b ∧ 2 * (a - b).toNat < 2 ^ w

/-- `a` is less than half the circle ahead of `base`. -/
def Near (base a : BitVec w) : Prop := 2 * (a - base).toNat < 2 ^ w

theorem not_later_self (a : BitVec w) : ¬ Later a a := fun h => h.1 rfl

/-- The difference of two numbers, from their distances to a base. -/
theorem toNat_sub_eq (base a b : BitVec w) :
    (a - b).toNat = (2 ^ w - (b - base).toNat + (a - base).toNat) % 2 ^ w := by
  have hsub : a - b = (a - base) - (b - base) := by
    simp only [BitVec.sub_eq_add_neg, BitVec.neg_add, BitVec.neg_neg]
    rw [BitVec.add_assoc, ← BitVec.add_assoc (-base), BitVec.add_comm (-base) (-b),
      BitVec.add_assoc (-b), BitVec.add_comm (-base) base, ← BitVec.sub_eq_add_neg base base,
      BitVec.sub_self, BitVec.add_zero]
  rw [hsub, BitVec.toNat_sub]

/-- Near a base, later means further from it. -/
theorem later_iff {base a b : BitVec w} (ha : Near base a) (hb : Near base b) :
    Later a b ↔ (b - base).toNat < (a - base).toNat := by
  have hdist := toNat_sub_eq base a b
  unfold Near at ha hb
  have hne : a ≠ b ↔ (a - base).toNat ≠ (b - base).toNat := by
    rw [not_iff_not, BitVec.toNat_inj, BitVec.sub_left_inj]
  rw [Later, hne, hdist]
  rcases Nat.lt_trichotomy (b - base).toNat (a - base).toNat with hlt | heq | hgt
  · rw [show 2 ^ w - (b - base).toNat + (a - base).toNat
      = ((a - base).toNat - (b - base).toNat) + 2 ^ w by omega, Nat.add_mod_right,
      Nat.mod_eq_of_lt (by omega)]
    omega
  · omega
  · rw [Nat.mod_eq_of_lt (by omega)]
    omega

/-- The signed difference of numbers that have wrapped. -/
theorem toInt_ofNat_sub {a b : ℕ} (hab : 2 * a < 2 * b + 2 ^ w) (hba : 2 * b ≤ 2 * a + 2 ^ w) :
    (BitVec.ofNat w a - BitVec.ofNat w b).toInt = (a : ℤ) - b := by
  rw [BitVec.toInt_sub, BitVec.toInt_ofNat', BitVec.toInt_ofNat', Int.bmod_sub_bmod, Int.sub_bmod_bmod]
  generalize 2 ^ w = circle at hab hba ⊢
  apply Int.bmod_eq_of_le_mul_two
  · omega
  · omega

/-- Numbers that have wrapped to the same one, and are close, are the same. -/
theorem ofNat_inj {a b : ℕ} (hab : a ≤ b) (hba : b < a + 2 ^ w)
    (h : BitVec.ofNat w a = BitVec.ofNat w b) : a = b := by
  have hmod : a % 2 ^ w = b % 2 ^ w := by
    rw [← BitVec.toNat_ofNat, ← BitVec.toNat_ofNat, h]
  have hdvd : 2 ^ w ∣ b - a := (Nat.modEq_iff_dvd' hab).mp hmod
  rcases Nat.eq_zero_or_pos (b - a) with hzero | hpos
  · omega
  · have := Nat.le_of_dvd hpos hdvd
    omega

end SerialNumber
