import Mathlib

/-!
# The first and the last place

The first and the last of the numbers below a bound that pass a test, as found by going
up and by going down.

## Main results

* `Extent.first_eq_some`, `Extent.last_eq_some` — what is found passes, and nothing before
  or behind it does.
* `Extent.first_eq_none`, `Extent.last_eq_none` — nothing is found exactly if nothing passes.
* `Extent.le_first`, `Extent.last_le` — what bounds the first or the last bounds all that passes.
-/

namespace Extent

variable {p : ℕ → Bool} {n i : ℕ}

/-- The first number below `n` that passes. -/
def first (p : ℕ → Bool) (n : ℕ) : Option ℕ := (List.range n).find? p

/-- The last number below `n` that passes. -/
def last (p : ℕ → Bool) (n : ℕ) : Option ℕ := (List.range n).reverse.find? p

theorem first_eq_none : first p n = none ↔ ∀ j < n, p j = false := by
  rw [first, List.find?_eq_none]
  simp only [List.mem_range, Bool.not_eq_true]

theorem last_eq_none : last p n = none ↔ ∀ j < n, p j = false := by
  rw [last, List.find?_eq_none]
  simp only [List.mem_reverse, List.mem_range, Bool.not_eq_true]

theorem first_eq_some (h : first p n = some i) : i < n ∧ p i = true ∧ ∀ j < i, p j = false := by
  induction n with
  | zero => cases h
  | succ n ih =>
    rw [first, List.range_succ, List.find?_append] at h
    cases hbefore : first p n with
    | some j =>
      rw [← first, hbefore, Option.some_or, Option.some.injEq] at h
      subst h
      obtain ⟨hlt, hpass, hnone⟩ := ih hbefore
      exact ⟨Nat.lt_succ_of_lt hlt, hpass, hnone⟩
    | none =>
      rw [← first, hbefore, Option.none_or, List.find?_singleton] at h
      split at h
      · rename_i hpass
        cases h
        exact ⟨Nat.lt_succ_self _, hpass, first_eq_none.mp hbefore⟩
      · cases h

theorem first_congr {q : ℕ → Bool} (h : ∀ i < n, p i = q i) : first p n = first q n :=
  List.find?_congr fun i hi => h i (List.mem_range.mp hi)

/-- Below a smaller bound, the first is the same, if it is below. -/
theorem first_of_le {m : ℕ} (hle : n ≤ m) : first p n = (first p m).filter (· < n) := by
  cases hfirst : first p m with
  | none =>
    rw [Option.filter_none, first_eq_none]
    exact fun j hj => first_eq_none.mp hfirst j (Nat.lt_of_lt_of_le hj hle)
  | some i =>
    obtain ⟨-, hpass, hbefore⟩ := first_eq_some hfirst
    rw [Option.filter_some]
    split
    · next hlt =>
      have hlt := of_decide_eq_true hlt
      cases hbelow : first p n with
      | none => rw [first_eq_none.mp hbelow i hlt] at hpass; exact nomatch hpass
      | some j =>
        obtain ⟨-, hpass', hbefore'⟩ := first_eq_some hbelow
        rcases Nat.lt_trichotomy i j with hij | rfl | hji
        · rw [hbefore' i hij] at hpass; exact nomatch hpass
        · rfl
        · rw [hbefore j hji] at hpass'; exact nomatch hpass'
    · next hge =>
      have hge : ¬ i < n := fun hlt => hge (decide_eq_true hlt)
      exact first_eq_none.mpr fun j hj => hbefore j (by omega)

theorem last_eq_some (h : last p n = some i) : i < n ∧ p i = true ∧ ∀ j < n, i < j → p j = false := by
  induction n with
  | zero => cases h
  | succ n ih =>
    rw [last, List.range_succ, List.reverse_append, List.reverse_singleton, List.singleton_append] at h
    by_cases hpass : p n = true
    · rw [List.find?_cons_of_pos hpass, Option.some.injEq] at h
      subst h
      exact ⟨Nat.lt_succ_self _, hpass, fun j hj hlt => absurd hj (by omega)⟩
    · rw [List.find?_cons_of_neg hpass] at h
      obtain ⟨hlt, hi, hnone⟩ := ih h
      refine ⟨Nat.lt_succ_of_lt hlt, hi, fun j hj hij => ?_⟩
      rcases Nat.lt_succ_iff_lt_or_eq.mp hj with hj | rfl
      · exact hnone j hj hij
      · exact Bool.eq_false_iff.mpr hpass

/-- What bounds the first from below bounds all that passes. -/
theorem le_first (h : first p n = some i) {lo : ℕ} : lo ≤ i ↔ ∀ j < n, p j = true → lo ≤ j := by
  obtain ⟨hlt, hpass, hbefore⟩ := first_eq_some h
  constructor
  · intro hle j _ hj
    refine hle.trans (Nat.le_of_not_lt fun hji => ?_)
    rw [hbefore j hji] at hj
    cases hj
  · intro hall
    exact hall i hlt hpass

/-- What bounds the last from above bounds all that passes. -/
theorem last_le (h : last p n = some i) {hi : ℕ} : i ≤ hi ↔ ∀ j < n, p j = true → j ≤ hi := by
  obtain ⟨hlt, hpass, hbehind⟩ := last_eq_some h
  constructor
  · intro hle j hjn hj
    refine le_trans (Nat.le_of_not_lt fun hij => ?_) hle
    rw [hbehind j hjn hij] at hj
    cases hj
  · intro hall
    exact hall i hlt hpass

/-- There is a last exactly if there is a first. -/
theorem last_eq_none_iff : last p n = none ↔ first p n = none :=
  last_eq_none.trans first_eq_none.symm

end Extent
