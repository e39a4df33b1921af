import Mathlib

/-!
# A check digit

The check digit of Luhn in an even base: every other digit is doubled, and a result of two
digits is added up.  Doubling so is a permutation of the digits, so a changed digit changes
the check.

## Main definitions

* `Luhn.weigh`, `Luhn.total` — what a digit counts for, and what digits come to.
* `Luhn.check` — the check digit.

## Main results

* `weigh_inj` — no two digits count for the same.
* `check_inj` — digits that differ in one place have different check digits.
-/

namespace Luhn

/-- A digit times its factor, the digits of the product added up. -/
def weigh (base factor d : ℕ) : ℕ := factor * d / base + factor * d % base

/-- The factor after a factor. -/
def next (factor : ℕ) : ℕ := if factor = 2 then 1 else 2

def total (base : ℕ) : ℕ → List ℕ → ℕ
  | _, [] => 0
  | factor, d :: ds => weigh base factor d + total base (next factor) ds

/-- What makes the total a multiple of the base. -/
def check (base : ℕ) (ds : List ℕ) : ℕ := (base - total base 1 ds % base) % base

variable {base factor d d' : ℕ} {before after : List ℕ}

theorem next_mem (h : factor = 1 ∨ factor = 2) : next factor = 1 ∨ next factor = 2 := by
  rcases h with rfl | rfl
  · exact Or.inr rfl
  · exact Or.inl rfl

theorem weigh_one (hd : d < base) : weigh base 1 d = d := by
  rw [weigh, Nat.one_mul, Nat.div_eq_of_lt hd, Nat.mod_eq_of_lt hd, Nat.zero_add]

/-- A digit of the lower half counts for an even number, one of the upper half for an odd one. -/
theorem weigh_two (hd : d < base) : weigh base 2 d = if 2 * d < base then 2 * d else 2 * d - base + 1 := by
  rw [weigh]
  split
  · rename_i hlt
    rw [Nat.div_eq_of_lt hlt, Nat.mod_eq_of_lt hlt, Nat.zero_add]
  · have hdiv : 2 * d / base = 1 := Nat.div_eq_of_lt_le (by omega) (by omega)
    have hmod : 2 * d % base = 2 * d - base := by
      rw [Nat.mod_eq_sub_mod (by omega), Nat.mod_eq_of_lt (by omega)]
    rw [hdiv, hmod, Nat.add_comm]

theorem weigh_lt (hfactor : factor = 1 ∨ factor = 2) (hd : d < base) : weigh base factor d < base := by
  rcases hfactor with rfl | rfl
  · rwa [weigh_one hd]
  · rw [weigh_two hd]
    split
    · omega
    · omega

/-- **No two digits count for the same.** -/
theorem weigh_inj (heven : Even base) (hfactor : factor = 1 ∨ factor = 2) (hd : d < base) (hd' : d' < base)
    (h : weigh base factor d = weigh base factor d') : d = d' := by
  obtain ⟨half, rfl⟩ := heven
  rcases hfactor with rfl | rfl
  · rwa [weigh_one hd, weigh_one hd'] at h
  · rw [weigh_two hd, weigh_two hd'] at h
    split at h
    · split at h
      · omega
      · omega
    · split at h
      · omega
      · omega

/-- Digits that differ in one place do not come to the same. -/
theorem total_inj (before after : List ℕ) (heven : Even base) (hfactor : factor = 1 ∨ factor = 2)
    (hd : d < base) (hd' : d' < base)
    (h : total base factor (before ++ d :: after) % base = total base factor (before ++ d' :: after) % base) :
    d = d' := by
  induction before generalizing factor with
  | nil =>
    have hmod : weigh base factor d ≡ weigh base factor d' [MOD base] := Nat.ModEq.add_right_cancel' _ h
    have hweigh := hmod.eq_of_lt_of_lt (weigh_lt hfactor hd) (weigh_lt hfactor hd')
    exact weigh_inj heven hfactor hd hd' hweigh
  | cons x before ih => exact ih (next_mem hfactor) (Nat.ModEq.add_left_cancel' _ h)

/-- **Digits that differ in one place have different check digits.** -/
theorem check_inj (heven : Even base) (hd : d < base) (hd' : d' < base)
    (h : check base (before ++ d :: after) = check base (before ++ d' :: after)) : d = d' := by
  refine total_inj before after heven (Or.inl rfl) hd hd' ?_
  have hlt : total base 1 (before ++ d :: after) % base < base := Nat.mod_lt _ (by omega)
  have hlt' : total base 1 (before ++ d' :: after) % base < base := Nat.mod_lt _ (by omega)
  rw [check, check] at h
  generalize total base 1 (before ++ d :: after) % base = a at h hlt ⊢
  generalize total base 1 (before ++ d' :: after) % base = b at h hlt' ⊢
  have hmod : base - a ≡ base - b [MOD base] := h
  -- `base - a` and `base - b` are the same, so `a` and `b` are
  have hsum : base - a + (a + b) ≡ base - b + (a + b) [MOD base] := hmod.add_right _
  have hleft : base - a + (a + b) = base + b := by omega
  have hright : base - b + (a + b) = base + a := by omega
  rw [hleft, hright] at hsum
  exact ((Nat.ModEq.add_left_cancel' _ hsum).eq_of_lt_of_lt hlt' hlt).symm

theorem check_lt (hbase : 0 < base) (ds : List ℕ) : check base ds < base := Nat.mod_lt _ hbase

end Luhn
