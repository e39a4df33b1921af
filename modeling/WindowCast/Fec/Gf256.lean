import WindowCast.Lib.LogTable

/-!
# GF(2^8) by tables

The arithmetic of `fec/src/lib.rs`: the log and exp tables of the polynomial
`0x11d`, filled by one loop over the powers of 2, and the product and inverse
that read them.  Addition is XOR.

## Main definitions

* `tablesAfter i` — the tables and the loop variable after `i` turns of the
  loop that fills them, `TABLES` the finished ones.
* `mul`, `inverse` — the field operations, as the source reads them off.
* `GF256` — a byte as a field element.

## Main results

* `tablesAfter_spec` — the loop invariant: the exp table holds the powers of 2,
  twice over, and the log table inverts it.
* `GF256.instField` — the table-driven operations form a field.
-/

namespace WindowCast.Fec

/-! ### The tables -/

/-- The two tables: `log` of each byte, `exp` of each sum of two logs. -/
structure Tables where
  log : Vector UInt8 256
  exp : Vector UInt8 512

/-- Double `x` and reduce it by the polynomial. -/
def double (x : UInt16) : UInt16 :=
  let x := x <<< 1
  if x &&& 0x100 ≠ 0 then x ^^^ 0x11d else x

/-- One turn of the loop: enter the power `x` at `i`, and double it. -/
def tablesStep (i : ℕ) (s : Tables × UInt16) : Tables × UInt16 :=
  let x := s.2
  let exp := s.1.exp.setIfInBounds i x.toUInt8
  let exp := exp.setIfInBounds (i + 255) x.toUInt8
  let log := s.1.log.setIfInBounds x.toNat (UInt8.ofNat i)
  (⟨log, exp⟩, double x)

/-- The tables and the power `x` after `i` turns of the loop. -/
def tablesAfter : ℕ → Tables × UInt16
  | 0 => (⟨Vector.replicate 256 0, Vector.replicate 512 0⟩, 1)
  | i + 1 => tablesStep i (tablesAfter i)

/-- The log and exp tables, filled by 255 turns of the loop. -/
@[irreducible] def TABLES : Tables := (tablesAfter 255).1

/-- The exponent of a byte. -/
def log (a : UInt8) : UInt8 := TABLES.log.get ⟨a.toNat, a.toNat_lt⟩

/-- Multiplication in the field. -/
def mul (a b : UInt8) : UInt8 :=
  if a = 0 ∨ b = 0 then 0
  else TABLES.exp.get ⟨(log a).toNat + (log b).toNat, by
    have := (log a).toNat_lt
    have := (log b).toNat_lt
    omega⟩

/-- The multiplicative inverse.  `a` must not be 0. -/
def inverse (a : UInt8) : UInt8 :=
  TABLES.exp.get ⟨255 - (log a).toNat, by omega⟩

/-! ### The powers of 2 -/

/-- Doubling, on bytes. -/
def xtime (b : UInt8) : UInt8 := (b <<< 1) ^^^ (if b &&& 0x80 ≠ 0 then 0x1d else 0)

/-- The `i`-th power of 2. -/
def power (i : ℕ) : UInt8 := xtime^[i] 1

theorem double_toUInt16 : ∀ b : UInt8, double b.toUInt16 = (xtime b).toUInt16 := by
  decide +kernel

theorem power_succ (i : ℕ) : power (i + 1) = xtime (power i) :=
  Function.iterate_succ_apply' xtime i 1

theorem power_255 : power 255 = 1 := by decide +kernel

/-- No smaller power of 2 is 1. -/
theorem power_ne_one : ∀ d : Fin 254, power (d.val + 1) ≠ 1 := by decide +kernel

/-- Doubling is additive: the bit shifted out decides the reduction, and it is additive. -/
theorem xtime_xor (a b : UInt8) : xtime (a ^^^ b) = xtime a ^^^ xtime b := by
  have hbit : ∀ c : UInt8, c &&& 0x80 = 0 ∨ c &&& 0x80 = 0x80 := by decide +kernel
  have hand : (a ^^^ b) &&& 0x80 = (a &&& 0x80) ^^^ (b &&& 0x80) := by
    rw [← UInt8.toBitVec_inj]
    ext i hi
    simp [Bool.and_xor_distrib_right]
  unfold xtime
  rw [UInt8.shiftLeft_xor, hand]
  rcases hbit a with ha | ha <;> rcases hbit b with hb | hb <;> rw [ha, hb]
  · simp
  · simp [UInt8.xor_assoc]
  · simp only [UInt8.xor_zero, ne_eq, not_true_eq_false, if_false]
    rw [UInt8.xor_assoc, UInt8.xor_assoc, UInt8.xor_comm (b <<< 1)]
  · simp only [UInt8.xor_self, ne_eq, not_true_eq_false, if_false, UInt8.xor_zero]
    rw [if_pos (by decide), UInt8.xor_assoc, UInt8.xor_comm 29, UInt8.xor_assoc,
      UInt8.xor_self, UInt8.xor_zero]

theorem power_add (i j : ℕ) : power (i + j) = xtime^[i] (power j) :=
  Function.iterate_add_apply xtime i j 1

theorem power_add_255 (i : ℕ) : power (i + 255) = power i := by
  rw [power_add, power_255]; rfl

/-- The powers below the order are different. -/
theorem power_injOn : Set.InjOn power (Set.Iio 255) := by
  have key : ∀ i j, i < j → j < 255 → power i ≠ power j := by
    intro i j hij hj h
    -- complete both to a whole period
    have h' : power (255 - i + i) = power (255 - i + j) := by rw [power_add, power_add, h]
    rw [show 255 - i + i = 255 by omega, show 255 - i + j = (j - i) + 255 by omega, power_255,
      power_add_255] at h'
    exact power_ne_one ⟨j - i - 1, by omega⟩ (by rw [h']; congr 1; simp only; omega)
  intro i hi j hj h
  rcases Nat.lt_trichotomy i j with hij | hij | hij
  · exact absurd h (key i j hij hj)
  · exact hij
  · exact absurd h.symm (key j i hij hi)

theorem power_ne_zero (i : ℕ) (hi : i < 255) : power i ≠ 0 := by
  intro h
  have hz : ∀ k, xtime^[k] (0 : UInt8) = 0 := fun k => Function.iterate_fixed (by decide) k
  have h255 : power (255 - i + i) = 0 := by rw [power_add, h, hz]
  rw [show 255 - i + i = 255 by omega, power_255] at h255
  exact absurd h255 (by decide)

/-- Every non-zero byte is a power of 2. -/
theorem exists_power {a : UInt8} (ha : a ≠ 0) : ∃ i, i < 255 ∧ power i = a := by
  -- 255 different non-zero bytes are all of them
  have hsub : (Finset.range 255).image power ⊆ Finset.univ.erase 0 := by
    intro b hb
    obtain ⟨i, hi, rfl⟩ := Finset.mem_image.mp hb
    exact Finset.mem_erase.mpr ⟨power_ne_zero i (Finset.mem_range.mp hi), Finset.mem_univ _⟩
  have hcard : ((Finset.range 255).image power).card = 255 := by
    rw [Finset.card_image_of_injOn, Finset.card_range]
    intro i hi j hj h
    exact power_injOn (by simpa using hi) (by simpa using hj) h
  have heq := Finset.eq_of_subset_of_card_le hsub (by
    rw [hcard, Finset.card_erase_of_mem (Finset.mem_univ _), Finset.card_univ,
      ← FinEnum.card_eq_fintypeCard, FinEnum.card_UInt8]
    decide)
  have hmem : a ∈ (Finset.range 255).image power := by
    rw [heq]; exact Finset.mem_erase.mpr ⟨ha, Finset.mem_univ _⟩
  obtain ⟨i, hi, hia⟩ := Finset.mem_image.mp hmem
  exact ⟨i, Finset.mem_range.mp hi, hia⟩

/-! ### What the loop leaves in the tables -/

/-- **The loop invariant**: after `i` turns the loop variable is the `i`-th power
of 2 and the tables hold the powers before it. -/
theorem tablesAfter_spec : ∀ i, i ≤ 255 →
    (tablesAfter i).2 = (power i).toUInt16 ∧
    (∀ j, j < i → (tablesAfter i).1.exp[j]? = some (power j)) ∧
    (∀ j, j < i → (tablesAfter i).1.exp[j + 255]? = some (power j)) ∧
    (∀ j, j < i → (tablesAfter i).1.log[(power j).toNat]? = some (UInt8.ofNat j)) := by
  intro i
  induction i with
  | zero => exact fun _ => ⟨by decide, by simp, by simp, by simp⟩
  | succ i ih =>
    intro hi
    obtain ⟨hx, hlo, hhi, hlog⟩ := ih (by omega)
    have hbyte : (tablesAfter i).2.toUInt8 = power i := by rw [hx]; simp
    have hnat : (tablesAfter i).2.toNat = (power i).toNat := by rw [hx]; simp
    refine ⟨?_, ?_, ?_, ?_⟩
    · rw [tablesAfter, tablesStep, hx, double_toUInt16, power_succ]
    · intro j hj
      simp only [tablesAfter, tablesStep, hbyte, Vector.getElem?_setIfInBounds]
      rw [if_neg (by omega)]
      by_cases hji : i = j
      · rw [if_pos hji, if_pos (by omega), hji]
      · rw [if_neg hji]; exact hlo j (by omega)
    · intro j hj
      simp only [tablesAfter, tablesStep, hbyte, Vector.getElem?_setIfInBounds]
      by_cases hji : i = j
      · rw [if_pos (by omega), if_pos (by omega), hji]
      · rw [if_neg (by omega), if_neg (by omega)]; exact hhi j (by omega)
    · intro j hj
      simp only [tablesAfter, tablesStep, hnat, Vector.getElem?_setIfInBounds]
      by_cases hji : i = j
      · rw [if_pos (by rw [hji]), if_pos (UInt8.toNat_lt _), hji]
      · -- the powers are different, so an earlier entry is not overwritten
        have hne : (power i).toNat ≠ (power j).toNat := fun h =>
          hji (power_injOn (by simpa using hi) (by simp only [Set.mem_Iio]; omega)
            (UInt8.toNat_inj.mp h))
        rw [if_neg hne]; exact hlog j (by omega)

theorem log_power {j : ℕ} (hj : j < 255) : (log (power j)).toNat = j := by
  have h := (tablesAfter_spec 255 le_rfl).2.2.2 j hj
  rw [Vector.getElem?_eq_getElem (UInt8.toNat_lt _), Option.some.injEq] at h
  rw [log, Vector.get_eq_getElem]
  unfold TABLES
  rw [h]
  exact UInt8.toNat_ofNat_of_lt (by show j < 256; omega)

theorem log_le (a : UInt8) : (log a).toNat ≤ 255 := by
  have := (log a).toNat_lt
  omega

theorem exp_get (k : Fin 512) (hk : k.val < 510) : TABLES.exp.get k = power k := by
  have h := (tablesAfter_spec 255 le_rfl).2
  rw [Vector.get_eq_getElem]
  unfold TABLES
  rcases Nat.lt_or_ge k.val 255 with hlt | hge
  · have := h.1 k.val hlt
    rw [Vector.getElem?_eq_getElem k.isLt, Option.some.injEq] at this
    exact this
  · have := h.2.1 (k.val - 255) (by omega)
    rw [Nat.sub_add_cancel hge, Vector.getElem?_eq_getElem k.isLt, Option.some.injEq,
      ← power_add_255, Nat.sub_add_cancel hge] at this
    exact this

/-- A non-zero byte is the power its log names. -/
theorem power_log {a : UInt8} (ha : a ≠ 0) : (log a).toNat < 255 ∧ power (log a).toNat = a := by
  obtain ⟨i, hi, rfl⟩ := exists_power ha
  rw [log_power hi]
  exact ⟨hi, rfl⟩

theorem mul_eq_power {a b : UInt8} (ha : a ≠ 0) (hb : b ≠ 0) :
    mul a b = power ((log a).toNat + (log b).toNat) := by
  have := (power_log ha).1
  have := (power_log hb).1
  rw [mul, if_neg (by simp [ha, hb]), exp_get _ (by simp only; omega)]

theorem inverse_eq_power (a : UInt8) : inverse a = power (255 - (log a).toNat) := by
  rw [inverse, exp_get _ (by simp only; omega)]

/-! ### The field -/

/-- A byte as an element of the field. -/
@[ext] structure GF256 where
  toByte : UInt8
  deriving DecidableEq

namespace GF256

instance : Zero GF256 := ⟨⟨0⟩⟩

instance : Add GF256 := ⟨fun a b => ⟨a.toByte ^^^ b.toByte⟩⟩

instance : Neg GF256 := ⟨id⟩

@[simp] theorem toByte_zero : (0 : GF256).toByte = 0 := rfl

@[simp] theorem toByte_add (a b : GF256) : (a + b).toByte = a.toByte ^^^ b.toByte := rfl

instance : AddCommGroup GF256 where
  add_assoc a b c := GF256.ext (UInt8.xor_assoc _ _ _)
  zero_add _ := GF256.ext UInt8.zero_xor
  add_zero _ := GF256.ext UInt8.xor_zero
  add_comm a b := GF256.ext (UInt8.xor_comm _ _)
  neg_add_cancel _ := GF256.ext UInt8.xor_self
  nsmul := nsmulRec
  zsmul := zsmulRec

/-- Doubling as an additive map. -/
def stepHom : GF256 →+ GF256 where
  toFun a := ⟨xtime a.toByte⟩
  map_zero' := by decide
  map_add' a b := GF256.ext (xtime_xor a.toByte b.toByte)

theorem iterate_stepHom (k : ℕ) : stepHom^[k] ⟨1⟩ = ⟨power k⟩ := by
  induction k with
  | zero => rfl
  | succ k ih => rw [Function.iterate_succ_apply', ih, power_succ]; rfl

/-- The log table of the source, as the data of a field. -/
def table : LogTable GF256 where
  step := stepHom
  one := ⟨1⟩
  log a := (log a.toByte).toNat
  period := 255
  period_pos := by decide
  one_ne_zero := by decide
  iterate_period := by rw [iterate_stepHom, power_255]
  iterate_log a ha := by
    have hne : a.toByte ≠ 0 := fun h => ha (GF256.ext h)
    rw [iterate_stepHom, (power_log hne).2]
  log_le a := log_le a.toByte

theorem table_log (a : GF256) : table.log a = (log a.toByte).toNat := rfl

theorem table_period : table.period = 255 := rfl

theorem iterate_table (k : ℕ) : table.step^[k] table.one = ⟨power k⟩ := iterate_stepHom k

instance instField : Field GF256 := table.toField

@[simp] theorem toByte_one : (1 : GF256).toByte = 1 := rfl

@[simp] theorem toByte_mul (a b : GF256) : (a * b).toByte = mul a.toByte b.toByte := by
  change (table.mul a b).toByte = _
  by_cases ha : a = 0
  · simp [ha, mul]
  by_cases hb : b = 0
  · simp [hb, mul]
  have ha' : a.toByte ≠ 0 := fun h => ha (GF256.ext h)
  have hb' : b.toByte ≠ 0 := fun h => hb (GF256.ext h)
  rw [LogTable.mul, if_neg (by simp [ha, hb]), mul_eq_power ha' hb', iterate_table,
    table_log, table_log]

theorem toByte_inv {a : GF256} (ha : a ≠ 0) : a⁻¹.toByte = inverse a.toByte := by
  change (table.inv a).toByte = _
  rw [LogTable.inv, if_neg ha, inverse_eq_power, iterate_table, table_log, table_period]

/-- In characteristic 2 a difference is a sum. -/
theorem sub_eq_add (a b : GF256) : a - b = a + b := sub_eq_add_neg a b

@[simp] theorem toByte_sub (a b : GF256) : (a - b).toByte = a.toByte ^^^ b.toByte := by
  rw [sub_eq_add, toByte_add]

end GF256

end WindowCast.Fec
