import WindowCast.Lib.Buffer

/-!
# Sums that may become too large

Numbers that must stay below a bound, added up step by step: the steps fail exactly if
the sum is too large.

## Main definitions

* `Checked.below` — a number, if it is below the bound.
* `Checked.totals` — several numbers, each of them below the bound.

## Main results

* `foldlM_sum` — steps that each add to what is stood for add up over a list.
* `foldlM_eq_none` — a step that fails from everywhere makes the whole fail.
-/

namespace Checked

open Buffer

/-- The number, if it is below the bound. -/
def below (bound n : ℕ) : Option ℕ := if n < bound then some n else none

/-- The first `n` of the numbers, if all of them are below the bound. -/
def totals (bound n : ℕ) (S : ℕ → ℕ) : Option (List ℕ) :=
  if ∀ c < n, S c < bound then some ((List.range n).map S) else none

variable {ι σ τ : Type} {bound n : ℕ}

theorem below_of_lt {m : ℕ} (h : m < bound) : below bound m = some m := if_pos h

theorem below_of_le {m : ℕ} (h : bound ≤ m) : below bound m = none := if_neg (Nat.not_lt.mpr h)

theorem collect_below (S : ℕ → ℕ) : collect (fun c => below bound (S c)) n = totals bound n S := by
  by_cases h : ∀ c < n, S c < bound
  · rw [totals, if_pos h, ← collect_some]
    exact collect_congr fun c hc => below_of_lt (h c hc)
  · rw [totals, if_neg h]
    push Not at h
    obtain ⟨c, hc, hle⟩ := h
    rw [Option.eq_none_iff_forall_ne_some]
    intro values hvalues
    obtain ⟨value, hvalue⟩ := read_eq_some_of_collect hvalues c hc
    rw [below_of_le hle] at hvalue
    cases hvalue

/-- Steps that each add to what is stood for add up over a list. -/
theorem foldlM_sum [AddCommMonoid τ] {f : σ → ι → Option σ} {b : ι → τ} (g : τ → Option σ) {l : List ι}
    (hstep : ∀ i ∈ l, ∀ t, ((g t).bind fun s => f s i) = g (t + b i)) (t : τ) :
    ((g t).bind fun s => l.foldlM f s) = g (t + (l.map b).sum) := by
  induction l generalizing t with
  | nil =>
    rw [List.map_nil, List.sum_nil, add_zero]
    exact Option.bind_fun_some (g t)
  | cons i l ih =>
    have hfirst := hstep i List.mem_cons_self t
    have hrest := ih (fun j hj => hstep j (List.mem_cons_of_mem _ hj)) (t + b i)
    rw [← hfirst, Option.bind_assoc] at hrest
    rw [List.map_cons, List.sum_cons, ← add_assoc]
    exact hrest

theorem foldlM_eq_none {f : σ → ι → Option σ} {l : List ι} {i : ι} (hi : i ∈ l) (h : ∀ s, f s i = none) (s : σ) :
    l.foldlM f s = none := by
  induction l generalizing s with
  | nil => cases hi
  | cons j l ih =>
    rw [List.foldlM_cons]
    rcases List.mem_cons.mp hi with rfl | hi
    · rw [h s]
      rfl
    · exact (congrArg _ (funext fun s => ih hi s)).trans (Option.bind_fun_none _)

theorem sum_range' (f : ℕ → τ) [AddCommMonoid τ] (start stop : ℕ) (h : start ≤ stop) :
    ((List.range' start (stop - start)).map f).sum = ∑ i ∈ Finset.Ico start stop, f i := by
  obtain ⟨k, rfl⟩ := Nat.exists_eq_add_of_le h
  rw [Nat.add_sub_cancel_left]
  induction k with
  | zero => simp
  | succ k ih =>
    rw [List.range'_concat, List.map_append, List.sum_append, ih (Nat.le_add_right start k), ← Nat.add_assoc,
      Finset.sum_Ico_succ_top (Nat.le_add_right start k)]
    simp

end Checked
