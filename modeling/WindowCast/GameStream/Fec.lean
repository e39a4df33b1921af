import WindowCast.Fec.Recover

/-!
# Parity for GameStream's sound

Four data packets and two parity packets, from a fixed matrix (`fec.rs`).

## Main results

* `Fec.independent_code` — any four of the six rows are independent.
* `Fec.recover_eq` — **the data comes back from any four shards**, and from no fewer.
-/

namespace WindowCast.GameStream.Fec

open WindowCast.Fec

def DATA_SHARDS : ℕ := 4
def PARITY_SHARDS : ℕ := 2
def SHARDS : ℕ := DATA_SHARDS + PARITY_SHARDS

def PARITY : List (List UInt8) := [[0x77, 0x40, 0x38, 0x0e], [0xc7, 0xa7, 0x0d, 0x6c]]

def code : Code where
  data := DATA_SHARDS
  parity := PARITY
  data_pos := by decide
  row_length := by decide

/-- The fixed matrix is two rows of four. -/
theorem new_eq : Code.new DATA_SHARDS PARITY = .ok code := rfl

/-- The two parity shards for four data shards of one size. -/
def parity (data : List Shard) : Except CodeError (List Shard) := code.encode data

/-- The four data shards from any four of the six (all one size). -/
def recover (shards : Fin SHARDS → Option Shard) : Option (List Shard) := code.recover (List.ofFn shards)

/-! ### The matrix -/

/-- The factors of the matrix, as powers. -/
def exponent : Fin 2 → Fin 4 → ℕ := ![![43, 6, 201, 199], ![118, 205, 104, 250]]

theorem factor_eq : ∀ (j : Fin 2) (c : Fin 4),
    (PARITY.getD j []).getD c 0 = power (exponent j c) := by
  decide +kernel

theorem power_mul (i j : ℕ) (hi : i < 255) (hj : j < 255) :
    (⟨power i⟩ * ⟨power j⟩ : GF256) = ⟨power (i + j)⟩ := by
  apply GF256.ext
  rw [GF256.toByte_mul, mul_eq_power (power_ne_zero i hi) (power_ne_zero j hj), log_power hi, log_power hj]

theorem factor_mul (c d : Fin 4) :
    code.factor 0 c * code.factor 1 d = ⟨power (exponent 0 c + exponent 1 d)⟩ := by
  have h0 : ∀ c, exponent 0 c < 255 := by decide
  have h1 : ∀ d, exponent 1 d < 255 := by decide
  rw [← power_mul _ _ (h0 c) (h1 d), ← factor_eq 0 c, ← factor_eq 1 d]
  rfl

/-- Any four rows of the matrix with the unit rows are independent. -/
theorem independent_code : code.Independent := by
  have hminor : ∀ c d : Fin 4, c ≠ d →
      power (exponent 0 c + exponent 1 d) ≠ power (exponent 0 d + exponent 1 c) := by
    decide +kernel
  have hentry : ∀ (j : Fin 2) (c : Fin 4), (PARITY.getD j []).getD c 0 ≠ 0 := by
    decide
  refine Code.independent_of_minors rfl ?_ fun c d hcd heq => ?_
  · intro j hj c heq
    exact hentry ⟨j, hj⟩ c (congrArg GF256.toByte heq)
  · have hpowers := (factor_mul c d).symm.trans (heq.trans (factor_mul d c))
    exact hminor c d hcd (congrArg GF256.toByte hpowers)

/-! ### Recovery -/

/-- How many shards there are. -/
def present (shards : Fin SHARDS → Option Shard) : ℕ := (Finset.univ.filter fun i => (shards i).isSome).card

theorem countP_ofFn {n : ℕ} (f : Fin n → Option Shard) :
    (List.ofFn f).countP Option.isSome = (Finset.univ.filter fun i => (f i).isSome).card := by
  rw [List.ofFn_eq_map, List.countP_map, List.countP_eq_length_filter, Finset.card_def, Finset.filter_val,
    Fin.univ_def]
  simp [Function.comp_def]

/-- Nothing comes back from fewer. -/
theorem le_present_of_recover {shards : Fin SHARDS → Option Shard} {out : List Shard} (h : recover shards = some out) :
    DATA_SHARDS ≤ present shards := by
  by_contra hfew
  have hnone : code.recover (List.ofFn shards) = none := by
    refine Code.recover_eq_none List.length_ofFn ?_
    rw [countP_ofFn]
    exact Nat.lt_of_not_le hfew
  rw [recover, hnone] at h
  cases h

/-- The shards of four data shards of one size. -/
structure Whole (data all : List Shard) : Prop where
  length : data.length = DATA_SHARDS
  parity : ∃ shards, Fec.parity data = .ok shards ∧ all = data ++ shards

variable {data all : List Shard} {shards : Fin SHARDS → Option Shard}

theorem Whole.length_all (h : Whole data all) : all.length = SHARDS := by
  obtain ⟨par, hpar, rfl⟩ := h.parity
  rw [List.length_append, h.length, Code.length_of_encode hpar]
  rfl

/-- **The data comes back from any four shards**, and from no fewer. -/
theorem recover_eq (h : Whole data all) (hshards : ∀ i s, shards i = some s → all[i.val]? = some s) :
    recover shards = if DATA_SHARDS ≤ present shards then some data else none := by
  have hlength_all := h.length_all
  obtain ⟨par, hpar, hall⟩ := h.parity
  obtain ⟨size, henc⟩ := Code.encodes_of_encode hpar
  rw [← hall] at henc
  have hlength : (List.ofFn shards).length = code.shards := List.length_ofFn
  split
  case isTrue hmany =>
    have hsize : ∀ s, some s ∈ List.ofFn shards → s.length = size := by
      intro s hs
      obtain ⟨i, hi⟩ := List.mem_ofFn.mp hs
      exact henc.size_eq s (List.mem_of_getElem? (hshards i s hi))
    have hcount : code.data ≤ (List.ofFn shards).countP Option.isSome := by
      rw [countP_ofFn]
      exact hmany
    obtain ⟨out, hout, -⟩ := Code.recover_isSome independent_code hlength hcount hsize
    have harr : Code.Arrives all (List.ofFn shards) := by
      refine ⟨by rw [List.length_ofFn, hlength_all], fun i s hs => ?_⟩
      rw [List.getElem?_ofFn] at hs
      split at hs
      case isTrue hi => exact hshards ⟨i, hi⟩ s (Option.some_inj.mp hs)
      case isFalse => cases hs
    rw [recover, hout, Code.recover_sound henc harr hout]
  case isFalse hfew =>
    by_contra hsome
    obtain ⟨out, hout⟩ := Option.ne_none_iff_exists'.mp hsome
    exact hfew (le_present_of_recover hout)

end WindowCast.GameStream.Fec
