import Mathlib

/-!
# Gauss–Jordan inversion

The textbook in-place inversion of a square matrix: a sweep over the columns
keeps a pair of matrices, the one being reduced and the one accumulating the
row operations.  In each column a pivot is looked for at or below the diagonal,
its row is swapped into place and scaled to have a one there, and a multiple of
it is subtracted from every other row.  The sweep gives up on the first column
without a pivot.

## Main definitions

* `GaussJordan.Sweep` — the pair of matrices.
* `GaussJordan.clearColumn` — one column of the sweep, `none` without a pivot.
* `GaussJordan.invert` — the whole sweep, started from the identity.

## Main results

* `GaussJordan.invert_mul` — a matrix the sweep returns is a left inverse.
* `GaussJordan.exists_mulVec_eq_zero` — a matrix the sweep gives up on has a
  non-zero vector in its kernel.
-/

namespace GaussJordan

variable {F : Type*} [Field F] [DecidableEq F] {n : ℕ}

/-- The state of a sweep: the matrix being reduced, and the row operations so far. -/
structure Sweep (F : Type*) (n : ℕ) where
  m : Fin n → Fin n → F
  inv : Fin n → Fin n → F

/-- The first row at or below the diagonal with a non-zero entry in column `col`. -/
def findPivot (m : Fin n → Fin n → F) (col : Fin n) : Option (Fin n) :=
  (List.finRange n).find? fun r => decide (col ≤ r) && decide (m r col ≠ 0)

/-- Swap two rows. -/
def swapRows (a b : Fin n) (m : Fin n → Fin n → F) : Fin n → Fin n → F :=
  fun r => m (Equiv.swap a b r)

/-- Multiply row `col` by `s`. -/
def scaleRow (col : Fin n) (s : F) (m : Fin n → Fin n → F) : Fin n → Fin n → F :=
  Function.update m col (s • m col)

/-- Subtract `f r` times row `col` from every other row `r`. -/
def subtractRow (col : Fin n) (f : Fin n → F) (m : Fin n → Fin n → F) : Fin n → Fin n → F :=
  fun r => if r = col then m r else m r - f r • m col

/-- One column of the sweep. -/
def clearColumn (s : Sweep F n) (col : Fin n) : Option (Sweep F n) :=
  (findPivot s.m col).map fun pivot =>
    let m := swapRows col pivot s.m
    let inv := swapRows col pivot s.inv
    let scale := (m col col)⁻¹
    let m := scaleRow col scale m
    let inv := scaleRow col scale inv
    ⟨subtractRow col (fun r => m r col) m, subtractRow col (fun r => m r col) inv⟩

/-- The sweep over all columns, started from `m` and the identity. -/
def sweep (m : Fin n → Fin n → F) : Option (Sweep F n) :=
  (List.finRange n).foldlM clearColumn ⟨m, (1 : Matrix (Fin n) (Fin n) F)⟩

/-- The inverse the sweep computes. -/
def invert (m : Fin n → Fin n → F) : Option (Fin n → Fin n → F) := (sweep m).map Sweep.inv

/-! ### The pivot -/

theorem findPivot_eq_some {m : Fin n → Fin n → F} {col p : Fin n}
    (h : findPivot m col = some p) : col ≤ p ∧ m p col ≠ 0 := by
  simpa using List.find?_some h

theorem findPivot_eq_none {m : Fin n → Fin n → F} {col : Fin n}
    (h : findPivot m col = none) : ∀ r, col ≤ r → m r col = 0 := by
  intro r hr
  have := List.find?_eq_none.mp h r (List.mem_finRange r)
  simpa [hr] using this

/-! ### What the row operations preserve -/

/-- Each row of `m` is the same row of `inv` applied to `M`. -/
def Combines (M : Matrix (Fin n) (Fin n) F) (s : Sweep F n) : Prop :=
  ∀ r, Matrix.vecMul (s.inv r) M = s.m r

/-- Reducing loses no information: what the reduced rows send to zero, the original rows do. -/
def KeepsKernel (M : Matrix (Fin n) (Fin n) F) (m : Fin n → Fin n → F) : Prop :=
  ∀ v, (∀ r, m r ⬝ᵥ v = 0) → ∀ r, M r ⬝ᵥ v = 0

/-- The columns before the `k`-th are those of the identity. -/
def UnitColumns (k : ℕ) (m : Fin n → Fin n → F) : Prop :=
  ∀ r c : Fin n, c.val < k → m r c = if r = c then 1 else 0

omit [DecidableEq F] in
theorem Combines.swapRows {M : Matrix (Fin n) (Fin n) F} {s : Sweep F n} (h : Combines M s)
    (a b : Fin n) : Combines M ⟨swapRows a b s.m, swapRows a b s.inv⟩ :=
  fun r => h (Equiv.swap a b r)

omit [DecidableEq F] in
theorem Combines.scaleRow {M : Matrix (Fin n) (Fin n) F} {s : Sweep F n} (h : Combines M s)
    (col : Fin n) (x : F) : Combines M ⟨scaleRow col x s.m, scaleRow col x s.inv⟩ := by
  intro r
  by_cases hr : r = col
  · subst hr
    simp only [GaussJordan.scaleRow, Function.update_self]
    rw [Matrix.smul_vecMul, h r]
  · simp only [GaussJordan.scaleRow, Function.update_of_ne hr]
    exact h r

omit [DecidableEq F] in
theorem Combines.subtractRow {M : Matrix (Fin n) (Fin n) F} {s : Sweep F n}
    (h : Combines M s) (col : Fin n) (f : Fin n → F) :
    Combines M ⟨subtractRow col f s.m, subtractRow col f s.inv⟩ := by
  intro r
  by_cases hr : r = col
  · simp only [GaussJordan.subtractRow, if_pos hr]
    exact h r
  · simp only [GaussJordan.subtractRow, if_neg hr]
    rw [Matrix.sub_vecMul, Matrix.smul_vecMul, h r, h col]

omit [DecidableEq F] in
theorem KeepsKernel.swapRows {M : Matrix (Fin n) (Fin n) F} {m : Fin n → Fin n → F}
    (h : KeepsKernel M m) (a b : Fin n) : KeepsKernel M (swapRows a b m) := by
  intro v hv
  refine h v fun r => ?_
  simpa [GaussJordan.swapRows] using hv (Equiv.swap a b r)

omit [DecidableEq F] in
theorem KeepsKernel.scaleRow {M : Matrix (Fin n) (Fin n) F} {m : Fin n → Fin n → F}
    (h : KeepsKernel M m) (col : Fin n) {x : F} (hx : x ≠ 0) :
    KeepsKernel M (scaleRow col x m) := by
  intro v hv
  refine h v fun r => ?_
  have hr := hv r
  by_cases hrc : r = col
  · subst hrc
    simp only [GaussJordan.scaleRow, Function.update_self, smul_dotProduct, smul_eq_mul] at hr
    exact (mul_eq_zero.mp hr).resolve_left hx
  · simpa only [GaussJordan.scaleRow, Function.update_of_ne hrc] using hr

omit [DecidableEq F] in
theorem KeepsKernel.subtractRow {M : Matrix (Fin n) (Fin n) F} {m : Fin n → Fin n → F}
    (h : KeepsKernel M m) (col : Fin n) (f : Fin n → F) :
    KeepsKernel M (subtractRow col f m) := by
  intro v hv
  have hcol : m col ⬝ᵥ v = 0 := by simpa [GaussJordan.subtractRow] using hv col
  refine h v fun r => ?_
  by_cases hrc : r = col
  · rw [hrc]; exact hcol
  · simpa [GaussJordan.subtractRow, if_neg hrc, sub_dotProduct, smul_dotProduct, hcol]
      using hv r

/-! ### One column -/

/-- Everything a successful column does: the pivot it found, and that every row is kept as a
combination, no kernel vector is gained, and one more column is a unit column. -/
theorem clearColumn_spec {M : Matrix (Fin n) (Fin n) F} {s s' : Sweep F n} {col : Fin n}
    (h : clearColumn s col = some s') (hc : Combines M s) (hk : KeepsKernel M s.m)
    (hu : UnitColumns col.val s.m) :
    Combines M s' ∧ KeepsKernel M s'.m ∧ UnitColumns (col.val + 1) s'.m := by
  simp only [clearColumn, Option.map_eq_some_iff] at h
  obtain ⟨p, hp, rfl⟩ := h
  obtain ⟨hle, hne⟩ := findPivot_eq_some hp
  have hpiv : swapRows col p s.m col col = s.m p col := by simp [swapRows]
  have hscale : (swapRows col p s.m col col)⁻¹ ≠ 0 := by
    rw [hpiv]; exact inv_ne_zero hne
  refine ⟨((hc.swapRows col p).scaleRow col _).subtractRow col _,
    ((hk.swapRows col p).scaleRow col hscale).subtractRow col _, ?_⟩
  -- the swap moves two rows that are zero in every earlier column
  have hswap : ∀ r c : Fin n, c.val < col.val →
      swapRows col p s.m r c = if r = c then 1 else 0 := by
    intro r c hcv
    have hcc : c ≠ col := fun e => by rw [e] at hcv; exact lt_irrefl _ hcv
    have hcp : c ≠ p := fun e => by
      rw [e] at hcv; exact absurd hle (not_le.mpr (Fin.lt_def.mpr hcv))
    have hrc : (Equiv.swap col p r = c) ↔ r = c := by
      rw [Equiv.swap_apply_eq_iff, Equiv.swap_apply_of_ne_of_ne hcc hcp]
    simp only [swapRows, hu _ c hcv, hrc]
  intro r c hcv
  rcases Nat.lt_or_ge c.val col.val with hlt | hge
  · -- an earlier column: the pivot row is zero there, so nothing changes
    have hcol0 : swapRows col p s.m col c = 0 := by
      rw [hswap col c hlt, if_neg]
      intro e; rw [e] at hlt; exact lt_irrefl _ hlt
    by_cases hr : r = col
    · simp [subtractRow, scaleRow, hr, hcol0, ← hswap col c hlt]
    · simp [subtractRow, scaleRow, hr, hcol0, ← hswap r c hlt]
  · -- the column itself: one in the pivot row, and every other row is cleared
    have hceq : c = col := Fin.ext (by omega)
    subst hceq
    by_cases hr : r = c
    · simp [subtractRow, scaleRow, hr, hpiv, hne]
    · simp [subtractRow, scaleRow, hr, hpiv, hne]

/-- A column without a pivot shows a non-zero kernel vector. -/
theorem exists_kernel_of_clearColumn {M : Matrix (Fin n) (Fin n) F} {s : Sweep F n}
    {col : Fin n} (h : clearColumn s col = none) (hk : KeepsKernel M s.m)
    (hu : UnitColumns col.val s.m) : ∃ v, v ≠ 0 ∧ M.mulVec v = 0 := by
  have hzero := findPivot_eq_none (Option.map_eq_none_iff.mp h)
  -- one in the column itself, and minus its entries in the unit columns before it
  let v : Fin n → F := fun c => if c = col then 1 else if c < col then -s.m c col else 0
  refine ⟨v, fun hv => ?_, ?_⟩
  · have := congrFun hv col
    simp [v] at this
  · funext r
    refine hk v (fun r => ?_) r
    have hterm : ∀ c, s.m r c * v c
        = (if c = col then s.m r col else 0)
          + (if c = r then (if r < col then -s.m r col else 0) else 0) := by
      intro c
      by_cases hc : c = col
      · subst hc
        by_cases hcr : c = r
        · subst hcr; simp [v]
        · simp [v, hcr]
      · by_cases hlt : c < col
        · rw [hu r c (Fin.lt_def.mp hlt)]
          by_cases hcr : c = r
          · subst hcr; simp [v, hc, hlt]
          · simp [v, hc, hlt, hcr, Ne.symm hcr]
        · by_cases hcr : c = r
          · subst hcr; simp [v, hc, hlt]
          · simp [v, hc, hlt, hcr]
    rw [dotProduct, Finset.sum_congr rfl fun c _ => hterm c, Finset.sum_add_distrib,
      Finset.sum_ite_eq', Finset.sum_ite_eq']
    simp only [Finset.mem_univ, if_true]
    by_cases hlt : r < col
    · simp [hlt]
    · simp [hlt, hzero r (not_lt.mp hlt)]

/-! ### The whole sweep -/

/-- The outcome of the columns `cols`, the next ones after the first `k`. -/
private theorem foldlM_clearColumn {M : Matrix (Fin n) (Fin n) F} :
    ∀ (cols : List (Fin n)) (k : ℕ) (s : Sweep F n), cols.map Fin.val = List.range' k cols.length →
      Combines M s → KeepsKernel M s.m → UnitColumns k s.m →
      match cols.foldlM clearColumn s with
      | some s' => Combines M s' ∧ UnitColumns (k + cols.length) s'.m
      | none => ∃ v, v ≠ 0 ∧ M.mulVec v = 0 := by
  intro cols
  induction cols with
  | nil => intro k s _ hc _ hu; exact ⟨hc, hu⟩
  | cons col cols ih =>
    intro k s hcols hc hk hu
    rw [List.map_cons, List.length_cons, List.range'_succ, List.cons.injEq] at hcols
    obtain ⟨hcol, hrest⟩ := hcols
    rw [← hcol] at hu
    rw [List.foldlM_cons]
    cases hstep : clearColumn s col with
    | none => exact exists_kernel_of_clearColumn hstep hk hu
    | some s' =>
      obtain ⟨hc', hk', hu'⟩ := clearColumn_spec hstep hc hk hu
      rw [hcol] at hu'
      have := ih (k + 1) s' hrest hc' hk' hu'
      rwa [Nat.add_assoc, Nat.add_comm 1] at this

private theorem sweep_spec (m : Fin n → Fin n → F) :
    match sweep m with
    | some s => Combines m s ∧ UnitColumns n s.m
    | none => ∃ v, v ≠ 0 ∧ (Matrix.of m).mulVec v = 0 := by
  have hlist : (List.finRange n).map Fin.val = List.range' 0 (List.finRange n).length := by
    rw [List.length_finRange, List.map_coe_finRange_eq_range, List.range_eq_range']
  have := foldlM_clearColumn (M := m) (List.finRange n) 0
    ⟨m, (1 : Matrix (Fin n) (Fin n) F)⟩ hlist
    (fun r => by
      funext c
      change ((1 : Matrix (Fin n) (Fin n) F) * Matrix.of m) r c = m r c
      rw [Matrix.one_mul, Matrix.of_apply])
    (fun v hv => hv) (fun r c hc => absurd hc (Nat.not_lt_zero _))
  rwa [List.length_finRange, Nat.zero_add] at this

/-- **What the sweep returns is a left inverse.** -/
theorem invert_mul {m inv : Fin n → Fin n → F} (h : invert m = some inv) :
    Matrix.of inv * Matrix.of m = 1 := by
  obtain ⟨s, hs, rfl⟩ := Option.map_eq_some_iff.mp h
  have hspec := sweep_spec m
  rw [hs] at hspec
  ext r c
  change Matrix.vecMul (s.inv r) m c = _
  rw [hspec.1 r, hspec.2 r c c.isLt, Matrix.one_apply]

/-- **A matrix the sweep gives up on is singular.** -/
theorem exists_mulVec_eq_zero {m : Fin n → Fin n → F} (h : invert m = none) :
    ∃ v, v ≠ 0 ∧ (Matrix.of m).mulVec v = 0 := by
  have hspec := sweep_spec m
  rw [Option.map_eq_none_iff.mp h] at hspec
  exact hspec

end GaussJordan
