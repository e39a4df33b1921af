import WindowCast.Fec.Code
import WindowCast.Lib.GaussJordan
import WindowCast.Lib.Cauchy

/-!
# What an erasure code recovers

Shards are read as columns of field elements, one per byte position, so that
encoding is a matrix product and recovery is a left inverse of the rows that
arrived.  The elimination on bytes is the Gauss–Jordan sweep over `GF256`.

## Main definitions

* `entry s t` — byte `t` of a shard as a field element.
* `Code.Encodes` — the relation between data shards and all the shards made
  from them.
* `erase keep shards` — what arrives of a list of shards.

## Main results

* `Code.recover_eq_none_or` — **recovery never returns wrong data**, whatever
  the matrix.
* `Code.recover_isSome` — a code with independent rows recovers from any `data` shards
  of one size, also from shards nobody encoded.
* `Code.independent_of_minors`, `Code.IsCauchy.independent` — codes that have them.
* `Code.recover_erase_cauchy` — **a Cauchy code recovers exactly when enough
  shards arrived.**
-/

namespace WindowCast.Fec

/-! ### Shards as columns -/

/-- Byte `t` of a shard as a field element; zero past its end. -/
def entry (s : Shard) (t : ℕ) : GF256 := ⟨s.getD t 0⟩

theorem shard_ext {s s' : Shard} (hlen : s.length = s'.length)
    (h : ∀ t, entry s t = entry s' t) : s = s' := by
  refine List.ext_getElem hlen fun t ht ht' => ?_
  have := congrArg GF256.toByte (h t)
  simpa [entry, List.getD_eq_getElem?_getD, ht, ht'] using this

theorem length_addScaled (out : Shard) (c : UInt8) (s : Shard) :
    (addScaled out c s).length = out.length := by
  unfold addScaled
  split
  · rfl
  · simp only [List.length_append, List.length_zipWith, List.length_drop]
    omega

theorem entry_addScaled {out s : Shard} (c : UInt8) (hlen : s.length = out.length) (t : ℕ) :
    entry (addScaled out c s) t = entry out t + ⟨c⟩ * entry s t := by
  apply GF256.ext
  unfold addScaled
  by_cases hc : c = 0
  · subst hc
    simp [entry, mul]
  · rw [if_neg hc, List.drop_of_length_le hlen.ge, List.append_nil]
    by_cases ht : t < out.length
    · have ht' : t < s.length := by omega
      simp [entry, List.getD_eq_getElem?_getD, ht, ht']
    · have ht' : ¬ t < s.length := by omega
      simp [entry, List.getD_eq_getElem?_getD, ht, ht', mul]

namespace Code

private theorem foldl_addScaled {size : ℕ} : ∀ (terms : List (UInt8 × Shard)) (out : Shard),
    (∀ term ∈ terms, term.2.length = size) → out.length = size →
    (terms.foldl (fun out term => addScaled out term.1 term.2) out).length = size ∧
      ∀ t, entry (terms.foldl (fun out term => addScaled out term.1 term.2) out) t
        = entry out t + (terms.map fun term => ⟨term.1⟩ * entry term.2 t).sum := by
  intro terms
  induction terms with
  | nil => intro out _ hout; exact ⟨hout, fun t => by simp⟩
  | cons term terms ih =>
    intro out hterms hout
    have hterm : term.2.length = out.length := (hterms term (by simp)).trans hout.symm
    obtain ⟨hlen, hentry⟩ := ih (addScaled out term.1 term.2)
      (fun term' h => hterms term' (by simp [h])) ((length_addScaled _ _ _).trans hout)
    refine ⟨hlen, fun t => ?_⟩
    rw [List.foldl_cons, hentry, entry_addScaled _ hterm, List.map_cons, List.sum_cons, add_assoc]

/-- A combination of shards of one size has that size, and is the combination
of their columns. -/
theorem combine_spec {size : ℕ} {terms : List (UInt8 × Shard)}
    (h : ∀ term ∈ terms, term.2.length = size) :
    (combine size terms).length = size ∧
      ∀ t, entry (combine size terms) t = (terms.map fun term => ⟨term.1⟩ * entry term.2 t).sum := by
  obtain ⟨hlen, hentry⟩ := foldl_addScaled terms (List.replicate size 0) h List.length_replicate
  refine ⟨hlen, fun t => ?_⟩
  have hzero : entry (List.replicate size 0) t = 0 := by
    apply GF256.ext
    by_cases ht : t < size <;> simp [entry, List.getD_eq_getElem?_getD, ht]
  rw [combine, hentry, hzero, zero_add]

/-! ### The elimination is the Gauss–Jordan sweep -/

/-- A matrix of bytes over the field. -/
def toMatrix {n : ℕ} (m : Rows n) : Fin n → Fin n → GF256 := fun r c => ⟨(m.get r).get c⟩

theorem toByte_toMatrix {n : ℕ} (m : Rows n) (r c : Fin n) :
    (toMatrix m r c).toByte = getElem (getElem m r.val r.isLt) c.val c.isLt := by
  simp [toMatrix, Vector.get_eq_getElem]

/-- The pair of matrices of the elimination as the state of a sweep. -/
def toSweep {n : ℕ} (s : Rows n × Rows n) : GaussJordan.Sweep GF256 n :=
  ⟨toMatrix s.1, toMatrix s.2⟩

theorem toMatrix_swap {n : ℕ} (m : Rows n) (a b : Fin n) :
    toMatrix (m.swap a b a.isLt b.isLt) = GaussJordan.swapRows a b (toMatrix m) := by
  funext r c
  simp only [toMatrix, GaussJordan.swapRows, Vector.get_eq_getElem, Vector.getElem_swap,
    Equiv.swap_apply_def, Fin.ext_iff]
  split_ifs <;> rfl

theorem toMatrix_scale {n : ℕ} (m : Rows n) (col : Fin n) (x : UInt8) :
    toMatrix (m.set col ((m.get col).map fun a => mul a x) col.isLt)
      = GaussJordan.scaleRow col ⟨x⟩ (toMatrix m) := by
  funext r c
  by_cases h : r = col
  · subst h
    apply GF256.ext
    simp only [toMatrix, GaussJordan.scaleRow, Vector.get_eq_getElem, Vector.getElem_set_self,
      Vector.getElem_map, Function.update_self, Pi.smul_apply, smul_eq_mul]
    rw [mul_comm, GF256.toByte_mul]
  · have hne : col.val ≠ r.val := fun e => h (Fin.ext e.symm)
    simp [toMatrix, GaussJordan.scaleRow, Vector.get_eq_getElem, h, hne]

/-- Clearing column `col` of `rows` with the factors found in `m`. -/
theorem toMatrix_clear {n : ℕ} (m rows : Rows n) (col : Fin n) :
    toMatrix (Vector.ofFn fun r =>
        let factor := (m.get r).get col
        if r ≠ col ∧ factor ≠ 0 then
          Vector.zipWith (fun a b => a ^^^ mul factor b) (rows.get r) (rows.get col)
        else rows.get r)
      = GaussJordan.subtractRow col (fun r => toMatrix m r col) (toMatrix rows) := by
  funext r c
  apply GF256.ext
  simp only [toByte_toMatrix, GaussJordan.subtractRow, Vector.get_eq_getElem, Vector.getElem_ofFn]
  by_cases hr : r = col
  · simp [hr, toByte_toMatrix]
  · by_cases hf : (m[r.val])[col.val] = 0
    · simp [hr, hf, toByte_toMatrix, mul]
    · simp [hr, hf, toByte_toMatrix]

theorem find_pivot {n : ℕ} (m : Rows n) (col : Fin n) :
    ((List.finRange n).find? fun r => decide (col ≤ r) && decide ((m.get r).get col ≠ 0))
      = GaussJordan.findPivot (toMatrix m) col := by
  have hne : ∀ x : UInt8, (⟨x⟩ : GF256) ≠ 0 ↔ x ≠ 0 := fun x => by
    simp [GF256.ext_iff]
  simp only [GaussJordan.findPivot, toMatrix, hne]

/-- One column of the elimination is one column of the sweep. -/
theorem map_clearColumn {n : ℕ} (s : Rows n × Rows n) (col : Fin n) :
    (clearColumn s col).map toSweep = GaussJordan.clearColumn (toSweep s) col := by
  obtain ⟨m, inv⟩ := s
  rw [clearColumn, GaussJordan.clearColumn, toSweep, find_pivot]
  cases hp : GaussJordan.findPivot (toMatrix m) col with
  | none => rfl
  | some p =>
    obtain ⟨-, hpiv⟩ := GaussJordan.findPivot_eq_some hp
    simp only [Option.bind_eq_bind, Option.bind_some, Option.map_some, Option.some.injEq,
      Option.pure_def, toSweep, toMatrix_clear, toMatrix_scale, toMatrix_swap]
    -- the pivot is not zero, so the byte the source scales by is its inverse in the field
    have hscale : (⟨inverse (((m.swap col p).get col).get col)⟩ : GF256)
        = (GaussJordan.swapRows col p (toMatrix m) col col)⁻¹ := by
      have hentry : GaussJordan.swapRows col p (toMatrix m) col col
          = ⟨((m.swap col p).get col).get col⟩ := by rw [← toMatrix_swap]; rfl
      have hne : GaussJordan.swapRows col p (toMatrix m) col col ≠ 0 := by
        simpa [GaussJordan.swapRows] using hpiv
      apply GF256.ext
      rw [GF256.toByte_inv hne, hentry]
    rw [hscale]

/-- The elimination computes what the sweep computes. -/
theorem map_invert {n : ℕ} (m : Rows n) :
    (invert m).map toMatrix = GaussJordan.invert (toMatrix m) := by
  have hfold : ∀ (cols : List (Fin n)) (s : Rows n × Rows n),
      (cols.foldlM clearColumn s).map toSweep = cols.foldlM GaussJordan.clearColumn (toSweep s) := by
    intro cols
    induction cols with
    | nil => intro s; rfl
    | cons col cols ih =>
      intro s
      rw [List.foldlM_cons, List.foldlM_cons, ← map_clearColumn]
      cases clearColumn s col with
      | none => rfl
      | some s' => exact ih s'
  have hid : toMatrix (identity n) = (1 : Matrix (Fin n) (Fin n) GF256) := by
    funext r c
    apply GF256.ext
    simp only [toByte_toMatrix, identity, Vector.getElem_ofFn, Matrix.one_apply]
    split <;> rfl
  have hfold' := hfold (List.finRange n) (m, identity n)
  simp only [toSweep, hid] at hfold'
  rw [GaussJordan.invert, GaussJordan.sweep, ← hfold', invert, Option.map_map, Option.map_map]
  rfl

/-! ### What the shards are made of -/

/-- The coefficients of shard `i`, in the field. -/
def coefficients (code : Code) (i : Fin code.shards) : Fin code.data → GF256 :=
  fun c => ⟨(code.row i).get c⟩

/-- Byte `t` of every data shard. -/
def column (data : List Shard) (t : ℕ) {n : ℕ} : Fin n → GF256 :=
  fun c => entry (data.getD c.val []) t

/-- `all` is the list of shards, of size `size`, that `code` makes from `data`. -/
structure Encodes (code : Code) (size : ℕ) (data all : List Shard) : Prop where
  length_data : data.length = code.data
  length_all : all.length = code.shards
  take_all : all.take code.data = data
  size_eq : ∀ s ∈ all, s.length = size
  entry_eq : ∀ (i : Fin code.shards) (s : Shard), all[i.val]? = some s →
    ∀ t, entry s t = coefficients code i ⬝ᵥ column data t

theorem coefficients_data (code : Code) (i : Fin code.shards) (hi : i.val < code.data) :
    coefficients code i = Pi.single ⟨i.val, hi⟩ 1 := by
  funext c
  apply GF256.ext
  simp only [coefficients, row, hi, dif_pos, Vector.get_eq_getElem, Vector.getElem_set,
    Vector.getElem_replicate]
  by_cases h : i.val = c.val
  · rw [if_pos h, show (⟨i.val, hi⟩ : Fin code.data) = c from Fin.ext h, Pi.single_eq_same]
    rfl
  · rw [if_neg h, Pi.single_eq_of_ne fun e => h (congrArg Fin.val e).symm]
    rfl

theorem coefficients_parity (code : Code) (i : Fin code.shards) {row : List UInt8}
    (hi : ¬ i.val < code.data) (hrow : code.parity[i.val - code.data]? = some row)
    (c : Fin code.data) : (coefficients code i c).toByte = row.getD c.val 0 := by
  obtain ⟨hlt, rfl⟩ := List.getElem?_eq_some_iff.mp hrow
  have hlen := code.row_length _ (List.getElem_mem hlt)
  have hc : c.val < (code.parity[i.val - code.data]).length := by rw [hlen]; exact c.isLt
  simp [coefficients, Code.row, hi, Vector.get_eq_getElem, List.getD_eq_getElem?_getD, hc]

/-- What `encode` returns, put behind the data, is what the code encodes. -/
theorem encodes_of_encode {code : Code} {data par : List Shard}
    (h : code.encode data = .ok par) :
    ∃ size, Encodes code size data (data ++ par) := by
  unfold encode at h
  split at h
  · cases h
  rename_i hlen
  have hlen : data.length = code.data := not_not.mp hlen
  have hpos : 0 < data.length := by have := code.data_pos; omega
  simp only at h
  split at h
  · cases h
  rename_i hsize
  simp only [Except.ok.injEq] at h
  subst h
  set size := (data.get ⟨0, hpos⟩).length with hsz
  have hdata : ∀ s ∈ data, s.length = size := by simpa using hsize
  -- the terms of one parity shard
  have hrow : ∀ row ∈ code.parity, ∀ term ∈ row.zip data, term.2.length = size := fun row _ term ht =>
    hdata _ (List.of_mem_zip ht).2
  refine ⟨size, hlen, by simp [shards, hlen], by simp [← hlen], ?_, ?_⟩
  · intro s hs
    rcases List.mem_append.mp hs with hs | hs
    · exact hdata s hs
    · obtain ⟨row, hr, rfl⟩ := List.mem_map.mp hs
      exact (combine_spec (hrow row hr)).1
  · intro i s hs t
    by_cases hi : i.val < code.data
    · rw [coefficients_data code i hi, single_one_dotProduct, column]
      rw [List.getElem?_append_left (by omega)] at hs
      simp [List.getD_eq_getElem?_getD, hs]
    · rw [List.getElem?_append_right (by omega), hlen, List.getElem?_map] at hs
      obtain ⟨row, hr, rfl⟩ := Option.map_eq_some_iff.mp hs
      rw [(combine_spec (hrow row (List.mem_of_getElem? hr))).2 t]
      have hlr : row.length = code.data := code.row_length row (List.mem_of_getElem? hr)
      -- both sides are sums over the columns of the matrix
      rw [dotProduct, ← List.sum_ofFn]
      congr 1
      refine List.ext_getElem (by simp [hlr, hlen]) fun k hk hk' => ?_
      have hkd : k < code.data := by simpa using hk'
      have hcoef := coefficients_parity code i hi hr ⟨k, hkd⟩
      have hkr : k < row.length := by omega
      have hkD : k < data.length := by omega
      simp only [List.getElem_map, List.getElem_zip, List.getElem_ofFn]
      congr 1
      · apply GF256.ext
        rw [hcoef]
        simp [List.getD_eq_getElem?_getD, hkr]
      · simp [column, List.getD_eq_getElem?_getD, hkD]

/-- A code makes as many parity shards as its matrix has rows. -/
theorem length_of_encode {code : Code} {data par : List Shard} (h : code.encode data = .ok par) :
    par.length = code.parity.length := by
  obtain ⟨size, henc⟩ := encodes_of_encode h
  have hall := henc.length_all
  rw [List.length_append, henc.length_data, shards] at hall
  omega

/-! ### Recovery returns nothing wrong -/

/-- The matrix recovery inverts. -/
theorem toMatrix_rows (code : Code) (arrived : Fin code.data → Fin code.shards) :
    toMatrix (Vector.ofFn fun r => code.row (arrived r)) = fun r => coefficients code (arrived r) := by
  funext r c
  apply GF256.ext
  rw [toByte_toMatrix, Vector.getElem_ofFn, coefficients, Vector.get_eq_getElem]

/-- What a successful `rebuild` went through: the first shard's size, the
inverse, and the shards it returns. -/
theorem rebuild_eq_some {code : Code} {shard : Fin code.shards → Option Shard}
    {arrived : Fin code.data → Fin code.shards} {out : List Shard}
    (h : code.rebuild shard arrived = some out) :
    ∃ size inv, (∀ k, (shard (arrived k)).map List.length = some size) ∧
      GaussJordan.invert (fun r => coefficients code (arrived r)) = some (toMatrix inv) ∧
      out = (List.finRange code.data).map fun d =>
        match shard (d.castLE (Nat.le_add_right _ _)) with
        | some shard => shard
        | none => combine size ((List.finRange code.data).map fun k =>
            ((inv.get d).get k, (shard (arrived k)).getD [])) := by
  unfold rebuild at h
  simp only [Option.bind_eq_bind, Option.bind_eq_some_iff] at h
  obtain ⟨first, -, h⟩ := h
  split at h
  · cases h
  rename_i hany
  obtain ⟨inv, hinv, h⟩ := Option.bind_eq_some_iff.mp h
  refine ⟨first.length, inv, fun k => ?_, ?_, (Option.some.inj h).symm⟩
  · by_contra hk
    exact hany (List.any_eq_true.mpr ⟨k, List.mem_finRange k, decide_eq_true hk⟩)
  · rw [← toMatrix_rows, ← map_invert, hinv]
    rfl

/-- Inverting the rows that arrived undoes the encoding, column by column. -/
theorem sum_inverse {code : Code} {arrived : Fin code.data → Fin code.shards} {inv : Rows code.data}
    (hinv : GaussJordan.invert (fun r => coefficients code (arrived r)) = some (toMatrix inv))
    (x : Fin code.data → GF256) (d : Fin code.data) :
    ∑ k, toMatrix inv d k * (coefficients code (arrived k) ⬝ᵥ x) = x d := by
  have hmul := GaussJordan.invert_mul hinv
  have hx := congrFun (congrArg (fun m => Matrix.mulVec m x) hmul) d
  simp only [Matrix.one_mulVec, ← Matrix.mulVec_mulVec] at hx
  exact hx

theorem rebuild_sound {code : Code} {size : ℕ} {data all : List Shard}
    (henc : Encodes code size data all) {shard : Fin code.shards → Option Shard}
    (hshard : ∀ i s, shard i = some s → all[i.val]? = some s)
    {arrived : Fin code.data → Fin code.shards} {out : List Shard}
    (h : code.rebuild shard arrived = some out) : out = data := by
  obtain ⟨size', inv, hsizes, hinv, rfl⟩ := rebuild_eq_some h
  -- the shards that arrived are encoded ones, of the encoded size
  have hmem : ∀ i s, shard i = some s → s ∈ all := fun i s hs =>
    List.mem_of_getElem? (hshard i s hs)
  have harr : ∀ k, ∃ s, shard (arrived k) = some s ∧ s.length = size := by
    intro k
    obtain ⟨s, hs, -⟩ := Option.map_eq_some_iff.mp (hsizes k)
    exact ⟨s, hs, henc.size_eq s (hmem _ s hs)⟩
  have hsize : size' = size := by
    obtain ⟨s, hs, hlen⟩ := harr ⟨0, code.data_pos⟩
    have := hsizes ⟨0, code.data_pos⟩
    rw [hs, Option.map_some, Option.some.injEq, hlen] at this
    exact this.symm
  have hdata : ∀ (d : Fin code.data), all[d.val]? = some (data.getD d.val []) := by
    intro d
    have hd : d.val < data.length := by rw [henc.length_data]; exact d.isLt
    have htake : data[d.val]? = all[d.val]? := by
      rw [← henc.take_all, List.getElem?_take_of_lt d.isLt]
    rw [← htake, List.getElem?_eq_getElem hd, List.getD_eq_getElem _ _ hd]
  refine List.ext_getElem (by simp [henc.length_data]) fun d hd hd' => ?_
  have hdd : d < code.data := by simpa using hd
  have hall := hdata ⟨d, hdd⟩
  rw [List.getD_eq_getElem _ _ hd'] at hall
  simp only [List.getElem_map, List.getElem_finRange, Fin.cast_mk]
  split
  · rename_i s hs
    have hs' : all[d]? = some s := hshard _ s hs
    exact Option.some.inj (hs'.symm.trans hall)
  · -- a shard that did not arrive: the combination of those that did
    have hterms : ∀ term ∈ (List.finRange code.data).map fun k =>
        ((inv.get ⟨d, hdd⟩).get k, (shard (arrived k)).getD []), term.2.length = size' := by
      intro term hterm
      obtain ⟨k, -, rfl⟩ := List.mem_map.mp hterm
      obtain ⟨s, hs, hlen⟩ := harr k
      rw [hs, Option.getD_some, hlen, hsize]
    obtain ⟨hlen, hentry⟩ := combine_spec hterms
    refine shard_ext ?_ fun t => ?_
    · rw [hlen, hsize, henc.size_eq _ (List.mem_of_getElem? hall)]
    · rw [hentry, List.map_map, ← List.ofFn_eq_map, List.sum_ofFn]
      rw [Finset.sum_congr rfl (g := fun k => toMatrix inv ⟨d, hdd⟩ k
        * (coefficients code (arrived k) ⬝ᵥ column data t)), sum_inverse hinv]
      · simp [column, List.getD_eq_getElem?_getD, hd']
      · intro k _
        obtain ⟨s, hs, -⟩ := harr k
        simp only [Function.comp_apply, hs, Option.getD_some]
        rw [henc.entry_eq _ s (hshard _ s hs)]
        rfl

/-- What arrives of the shards `all`: a list as long, each place holding that shard or nothing. -/
def Arrives (all : List Shard) (arr : List (Option Shard)) : Prop :=
  arr.length = all.length ∧ ∀ (i : ℕ) (s : Shard), arr[i]? = some (some s) → all[i]? = some s

/-- **Recovery never returns wrong data.** -/
theorem recover_sound {code : Code} {size : ℕ} {data all : List Shard} {arr : List (Option Shard)}
    (henc : Encodes code size data all) (harr : Arrives all arr) {out : List Shard}
    (h : code.recover arr = some out) : out = data := by
  unfold recover at h
  split at h
  swap
  · cases h
  rename_i hlen
  split at h
  · -- every data shard arrived
    rename_i hall
    rw [Option.some.injEq] at h
    subst h
    have htake : arr.take code.data = data.map some := by
      refine List.ext_getElem ?_ fun i hi hi' => ?_
      · rw [List.length_take, List.length_map, henc.length_data, hlen]
        simp [shards]
      · have hi2 : i < arr.length := by rw [List.length_take] at hi; omega
        obtain ⟨s, hs⟩ := Option.isSome_iff_exists.mp (List.all_eq_true.mp hall _ (List.getElem_mem hi))
        rw [List.getElem_take] at hs ⊢
        have hsome := harr.2 i s (by rw [List.getElem?_eq_getElem hi2, hs])
        have hi3 : i < data.length := by simpa using hi'
        have hdata : data[i]? = some s := by
          rw [← henc.take_all, List.getElem?_take_of_lt (by rw [← henc.length_data]; exact hi3), hsome]
        rw [List.getElem?_eq_getElem hi3, Option.some.injEq] at hdata
        rw [hs, List.getElem_map, hdata]
    rw [htake]
    simp [List.reduceOption]
  · simp only at h
    split at h
    · cases h
    · refine rebuild_sound henc (fun i s hs => harr.2 i.val s ?_) h
      have hi : i.val < arr.length := by rw [hlen]; exact i.isLt
      rw [← hs, List.getElem?_eq_getElem hi]
      rfl

/-! ### Codes that recover from any shards enough -/

/-- Any `data` different rows of the code are independent. -/
def Independent (code : Code) : Prop :=
  ∀ arrived : Fin code.data → Fin code.shards, Function.Injective arrived →
    ∀ v : Fin code.data → GF256, (∀ r, coefficients code (arrived r) ⬝ᵥ v = 0) → v = 0

theorem Independent.invert_ne_none {code : Code} (h : Independent code)
    {arrived : Fin code.data → Fin code.shards} (hinj : Function.Injective arrived) :
    GaussJordan.invert (fun r => coefficients code (arrived r)) ≠ none := by
  intro hnone
  obtain ⟨v, hv, hzero⟩ := GaussJordan.exists_mulVec_eq_zero hnone
  exact hv (h arrived hinj v fun r => congrFun hzero r)

section

variable {code : Code} (arrived : Fin code.data → Fin code.shards)

/-- The data shards that did not arrive. -/
def lost : Finset (Fin code.data) := Finset.univ.filter fun c => ∀ r, (arrived r).val ≠ c.val

/-- Where parity shards arrived. -/
def parityRows : Finset (Fin code.data) := Finset.univ.filter fun r => ¬ (arrived r).val < code.data

variable {arrived}

/-- As many parity shards arrived as data shards are lost. -/
theorem card_lost_le (hinj : Function.Injective arrived) : (lost arrived).card ≤ (parityRows arrived).card := by
  have h1 : (Finset.univ.filter fun r => (arrived r).val < code.data).card
      ≤ (Finset.univ.filter fun c : Fin code.data => ¬ ∀ r, (arrived r).val ≠ c.val).card := by
    refine Finset.card_le_card_of_injOn
      (fun r => if hlt : (arrived r).val < code.data then ⟨(arrived r).val, hlt⟩ else r) ?_ ?_
    · intro r hr
      have hr : (arrived r).val < code.data := by simpa using hr
      simp only [hr, dif_pos, Finset.coe_filter, Finset.mem_univ, true_and, Set.mem_ofPred_eq]
      exact fun hall => hall r rfl
    · intro r hr r' hr' heq
      have hr : (arrived r).val < code.data := by simpa using hr
      have hr' : (arrived r').val < code.data := by simpa using hr'
      simp only [hr, hr', dif_pos, Fin.mk.injEq] at heq
      exact hinj (Fin.ext heq)
  have h2 := Finset.card_filter_add_card_filter_not (s := (Finset.univ : Finset (Fin code.data)))
    (fun r => (arrived r).val < code.data)
  have h3 := Finset.card_filter_add_card_filter_not (s := (Finset.univ : Finset (Fin code.data)))
    (fun c => ∀ r, (arrived r).val ≠ c.val)
  simp only [lost, parityRows]
  omega

variable {v : Fin code.data → GF256}

/-- The data shards that arrived pin their own coordinates. -/
theorem eq_zero_of_kept (hrow : ∀ r, coefficients code (arrived r) ⬝ᵥ v = 0) {c : Fin code.data}
    (hc : c ∉ lost arrived) : v c = 0 := by
  obtain ⟨r, hr⟩ : ∃ r, (arrived r).val = c.val := by simpa [lost] using hc
  have hlt : (arrived r).val < code.data := by rw [hr]; exact c.isLt
  have := hrow r
  rwa [coefficients_data code _ hlt, single_one_dotProduct,
    show (⟨(arrived r).val, hlt⟩ : Fin code.data) = c from Fin.ext hr] at this

/-- The rest are left to the parity shards. -/
theorem sum_lost (hrow : ∀ r, coefficients code (arrived r) ⬝ᵥ v = 0) (r : Fin code.data) :
    ∑ c ∈ lost arrived, coefficients code (arrived r) c * v c = 0 := by
  rw [← hrow r, dotProduct]
  refine Finset.sum_subset (Finset.subset_univ _) fun c _ hc => ?_
  rw [eq_zero_of_kept hrow hc, mul_zero]

end

/-! ### Codes of two parity rows -/

/-- The factor of data shard `c` in parity shard `j`. -/
def factor (code : Code) (j : ℕ) (c : Fin code.data) : GF256 := ⟨(code.parity.getD j []).getD c.val 0⟩

theorem coefficients_eq_factor {code : Code} {i : Fin code.shards} (hi : ¬ i.val < code.data) (c : Fin code.data) :
    coefficients code i c = code.factor (i.val - code.data) c := by
  have hlt : i.val - code.data < code.parity.length := by
    have := i.isLt
    simp only [shards] at this
    omega
  apply GF256.ext
  rw [coefficients_parity code i hi (List.getElem?_eq_getElem hlt), factor, List.getD_eq_getElem _ _ hlt]

/-- Two parity rows without a zero are independent with the data rows if no two of their
columns are proportional. -/
theorem independent_of_minors {code : Code} (hlength : code.parity.length = 2)
    (hentry : ∀ j < 2, ∀ c, code.factor j c ≠ 0)
    (hminor : ∀ c d, c ≠ d → code.factor 0 c * code.factor 1 d ≠ code.factor 0 d * code.factor 1 c) :
    Independent code := by
  intro arrived hinj v hrow
  have hsecond : ∀ i : Fin code.shards, i.val - code.data < 2 := by
    intro i
    have := i.isLt
    simp only [shards, hlength] at this
    omega
  have hparity : ∀ r ∈ parityRows arrived, ¬ (arrived r).val < code.data := fun r hr => (Finset.mem_filter.mp hr).2
  -- a parity row, as what it says of the lost shards
  have hsum : ∀ r ∈ parityRows arrived,
      ∑ c ∈ lost arrived, code.factor ((arrived r).val - code.data) c * v c = 0 := by
    intro r hr
    rw [← sum_lost hrow r]
    exact Finset.sum_congr rfl fun c _ => by rw [coefficients_eq_factor (hparity r hr)]
  have hapart : ∀ r ∈ parityRows arrived, ∀ r' ∈ parityRows arrived,
      (arrived r).val - code.data = (arrived r').val - code.data → r = r' := by
    intro r hr r' hr' heq
    have h1 := hparity r hr
    have h2 := hparity r' hr'
    exact hinj (Fin.ext (by omega))
  have htwo : (parityRows arrived).card ≤ 2 := by
    rw [← Finset.card_range 2]
    refine Finset.card_le_card_of_injOn (fun r => (arrived r).val - code.data) ?_ hapart
    exact fun r _ => Finset.mem_coe.mpr (Finset.mem_range.mpr (hsecond _))
  have hcard := card_lost_le hinj
  have hzero : ∀ c ∈ lost arrived, v c = 0 := by
    intro c hc
    rcases Nat.lt_or_ge 1 (lost arrived).card with hmany | hone
    · obtain ⟨a, b, hab, hlost⟩ := Finset.card_eq_two.mp (show (lost arrived).card = 2 by omega)
      obtain ⟨r, hr, r', hr', hne⟩ := Finset.one_lt_card.mp (show 1 < (parityRows arrived).card by omega)
      -- both parity rows arrived
      have hboth : ∀ j < 2, code.factor j a * v a + code.factor j b * v b = 0 := by
        intro j hj
        have hpick : ∃ r ∈ parityRows arrived, (arrived r).val - code.data = j := by
          have hdiffer : (arrived r).val - code.data ≠ (arrived r').val - code.data :=
            fun heq => hne (hapart r hr r' hr' heq)
          have h1 := hsecond (arrived r)
          have h2 := hsecond (arrived r')
          by_cases hj' : (arrived r).val - code.data = j
          · exact ⟨r, hr, hj'⟩
          · exact ⟨r', hr', by omega⟩
        obtain ⟨r, hr, rfl⟩ := hpick
        rw [← hsum r hr, hlost, Finset.sum_pair hab]
      have h0 := hboth 0 (by decide)
      have h1 := hboth 1 (by decide)
      have hdet : code.factor 0 a * code.factor 1 b - code.factor 0 b * code.factor 1 a ≠ 0 :=
        sub_ne_zero.mpr (hminor a b hab)
      have ha : v a = 0 := by
        refine (mul_eq_zero.mp ?_).resolve_left hdet
        linear_combination code.factor 1 b * h0 - code.factor 0 b * h1
      have hb : v b = 0 := by
        refine (mul_eq_zero.mp ?_).resolve_left hdet
        linear_combination code.factor 0 a * h1 - code.factor 1 a * h0
      rw [hlost] at hc
      rcases Finset.mem_insert.mp hc with rfl | hc
      · exact ha
      · rwa [Finset.mem_singleton.mp hc]
    · have hlost : lost arrived = {c} :=
        Finset.eq_singleton_iff_unique_mem.mpr ⟨hc, fun d hd => Finset.card_le_one.mp hone d hd c hc⟩
      have hpos : 0 < (parityRows arrived).card := by
        rw [hlost, Finset.card_singleton] at hcard
        omega
      obtain ⟨r, hr⟩ := Finset.card_pos.mp hpos
      have heq := hsum r hr
      rw [hlost, Finset.sum_singleton] at heq
      exact (mul_eq_zero.mp heq).resolve_left (hentry _ (hsecond _) c)
  exact funext fun c => if hc : c ∈ lost arrived then hzero c hc else eq_zero_of_kept hrow hc

/-! ### A Cauchy code has no combination it cannot recover from -/

/-- The codes `cauchy` builds. -/
def IsCauchy (code : Code) : Prop :=
  code.shards ≤ 256 ∧ ∀ j, j < code.parity.length → code.parity[j]? = some (cauchyRow code.data j)

theorem isCauchy_of_cauchy {data parity : ℕ} {code : Code} (h : cauchy data parity = .ok code) :
    IsCauchy code ∧ code.data = data ∧ code.parity.length = parity := by
  unfold cauchy at h
  split at h
  · cases h
  split at h
  · cases h
  rename_i hle
  rw [Except.ok.injEq] at h
  subst h
  refine ⟨⟨by simp [shards]; omega, fun j hj => ?_⟩, rfl, by simp⟩
  have hj' : j < parity := by simpa using hj
  simp [hj']

theorem exists_cauchy {data parity : ℕ} (h1 : 1 ≤ data) (h2 : data + parity ≤ 256) :
    ∃ code, cauchy data parity = .ok code := by
  unfold cauchy
  rw [dif_neg (by omega), if_neg (by omega)]
  exact ⟨_, rfl⟩

/-- A number below 256 as a field element. -/
def point (i : ℕ) : GF256 := ⟨UInt8.ofNat i⟩

theorem point_inj {i j : ℕ} (hi : i < 256) (hj : j < 256) (h : point i = point j) : i = j := by
  have := congrArg (fun x => x.toByte.toNat) h
  simpa [point, Nat.mod_eq_of_lt hi, Nat.mod_eq_of_lt hj] using this

/-- The parity rows of a Cauchy code are the inverses of differences of points. -/
theorem IsCauchy.coefficients_eq {code : Code} (h : IsCauchy code) (i : Fin code.shards)
    (hi : ¬ i.val < code.data) (c : Fin code.data) :
    coefficients code i c = (point i.val - point c.val)⁻¹ := by
  have hlt : i.val - code.data < code.parity.length := by
    have := i.isLt
    simp only [shards] at this
    omega
  have hi256 : i.val < 256 := lt_of_lt_of_le i.isLt h.1
  have hne : point i.val - point c.val ≠ 0 := sub_ne_zero.mpr fun e => by
    have := point_inj hi256 (by omega) e
    omega
  have hbyte : UInt8.ofNat ((code.data + (i.val - code.data)) ^^^ c.val)
      = (point i.val - point c.val).toByte := by
    rw [GF256.toByte_sub, Nat.add_sub_cancel' (Nat.le_of_not_lt hi), ← UInt8.toNat_inj]
    simp [point]
  apply GF256.ext
  rw [coefficients_parity code i hi (h.2 _ hlt), GF256.toByte_inv hne, ← hbyte, cauchyRow,
    List.getD_eq_getElem?_getD, List.getElem?_map, List.getElem?_range c.isLt, Option.map_some,
    Option.getD_some]

/-- Any `data` different rows of a Cauchy code are independent. -/
theorem IsCauchy.independent {code : Code} (h : IsCauchy code) : Independent code := by
  intro arrived hinj v hrow
  have hpoint : ∀ i : Fin code.shards, i.val < 256 := fun i => lt_of_lt_of_le i.isLt h.1
  have hdata : ∀ c : Fin code.data, c.val < 256 := fun c => by
    have := h.1
    simp only [shards] at this
    omega
  have hcauchy := Cauchy.eq_zero_of_sum_eq_zero (I := lost arrived) (J := parityRows arrived)
    (x := fun r => point (arrived r).val) (y := fun c => point c.val) (v := v)
    (fun r _ r' _ heq => hinj (Fin.ext (point_inj (hpoint _) (hpoint _) heq)))
    (fun c _ c' _ heq => Fin.ext (point_inj (hdata _) (hdata _) heq))
    (fun r _ c hc heq => (Finset.mem_filter.mp hc).2 r (point_inj (hpoint _) (hdata _) heq))
    (card_lost_le hinj) (fun r hr => by
      rw [← sum_lost hrow r]
      have hr : ¬ (arrived r).val < code.data := (Finset.mem_filter.mp hr).2
      refine Finset.sum_congr rfl fun c _ => ?_
      rw [h.coefficients_eq _ hr])
  exact funext fun c => if hc : c ∈ lost arrived then hcauchy c hc else eq_zero_of_kept hrow hc

/-! ### How many shards arrived -/

/-- The shard that arrived at each index. -/
def shardAt {n : ℕ} (arr : List (Option Shard)) (hlen : arr.length = n) (i : Fin n) : Option Shard :=
  arr.get (i.cast hlen.symm)

theorem length_filter_shardAt {n : ℕ} (arr : List (Option Shard)) (hlen : arr.length = n) :
    ((List.finRange n).filter fun i => (shardAt arr hlen i).isSome).length
      = arr.countP Option.isSome := by
  subst hlen
  conv_rhs => rw [← List.map_get_finRange arr]
  rw [List.countP_map, List.countP_eq_length_filter]
  rfl

theorem length_present (code : Code) (arr : List (Option Shard)) (hlen : arr.length = code.shards) :
    (code.present (shardAt arr hlen)).length = min code.data (arr.countP Option.isSome) := by
  rw [present, List.length_take, length_filter_shardAt]

theorem mem_present {code : Code} {shard : Fin code.shards → Option Shard} {i : Fin code.shards}
    (h : i ∈ code.present shard) : (shard i).isSome := by
  simpa using (List.mem_filter.mp (List.mem_of_mem_take h)).2

theorem nodup_present (code : Code) (shard : Fin code.shards → Option Shard) :
    (code.present shard).Nodup :=
  (((List.nodup_finRange _).filter _).sublist (List.take_sublist _ _))

/-- `recover`, with the shards that arrived as a function of the index. -/
theorem recover_eq (code : Code) (arr : List (Option Shard)) (hlen : arr.length = code.shards) :
    code.recover arr =
      if (arr.take code.data).all Option.isSome then some (arr.take code.data).reduceOption
      else if hp : (code.present (shardAt arr hlen)).length < code.data then none
      else code.rebuild (shardAt arr hlen) fun k =>
        (code.present (shardAt arr hlen)).get
          ⟨k.val, Nat.lt_of_lt_of_le k.isLt (Nat.le_of_not_lt hp)⟩ := by
  rw [recover, dif_pos hlen]
  rfl

/-- Too few shards recover nothing. -/
theorem recover_eq_none {code : Code} {arr : List (Option Shard)} (hlen : arr.length = code.shards)
    (hfew : arr.countP Option.isSome < code.data) : code.recover arr = none := by
  rw [recover_eq code arr hlen, if_neg, dif_pos]
  · rw [length_present]; omega
  · intro hall
    have hle : (arr.take code.data).countP Option.isSome ≤ arr.countP Option.isSome :=
      (List.take_sublist _ _).countP_le
    rw [List.countP_eq_length.mpr (List.all_eq_true.mp hall), List.length_take, hlen] at hle
    simp only [shards] at hle
    omega

/-- With independent rows and one size, rebuilding succeeds and keeps the size. -/
theorem rebuild_isSome {code : Code} (h : Independent code)
    {shard : Fin code.shards → Option Shard} {arrived : Fin code.data → Fin code.shards}
    (hinj : Function.Injective arrived) (harr : ∀ k, (shard (arrived k)).isSome) {size : ℕ}
    (hsize : ∀ i s, shard i = some s → s.length = size) :
    ∃ out, code.rebuild shard arrived = some out ∧ out.length = code.data ∧
      ∀ s ∈ out, s.length = size := by
  have hget : ∀ k, ∃ s, shard (arrived k) = some s ∧ s.length = size := fun k =>
    (Option.isSome_iff_exists.mp (harr k)).imp fun s hs => ⟨hs, hsize _ s hs⟩
  obtain ⟨first, hfirst, hlen⟩ := hget ⟨0, code.data_pos⟩
  have hany : ((List.finRange code.data).any fun k =>
      (shard (arrived k)).map List.length ≠ some first.length) = false := by
    rw [List.any_eq_false]
    intro k _
    obtain ⟨s, hs, hs'⟩ := hget k
    simp [hs, hs', hlen]
  obtain ⟨inv, hinv⟩ : ∃ inv, invert (Vector.ofFn fun r => code.row (arrived r)) = some inv := by
    refine Option.ne_none_iff_exists'.mp fun hnone => h.invert_ne_none hinj ?_
    rw [← toMatrix_rows, ← map_invert, hnone]
    rfl
  refine ⟨_, by simp only [rebuild, hfirst, Option.bind_eq_bind, Option.bind_some, hany, hinv,
    Bool.false_eq_true, if_false]; rfl, by simp, fun s hs => ?_⟩
  obtain ⟨d, -, rfl⟩ := List.mem_map.mp hs
  split
  · exact hsize _ _ ‹_›
  · rw [(combine_spec ?_).1, hlen]
    intro term hterm
    obtain ⟨k, -, rfl⟩ := List.mem_map.mp hterm
    obtain ⟨s, hs, hs'⟩ := hget k
    rw [hs, Option.getD_some, hs', hlen]

/-- Such a code recovers something of the right shape from any `data` shards of one
size, whoever made them. -/
theorem recover_isSome {code : Code} (h : Independent code) {arr : List (Option Shard)}
    (hlen : arr.length = code.shards) (hmany : code.data ≤ arr.countP Option.isSome) {size : ℕ}
    (hsize : ∀ s, some s ∈ arr → s.length = size) :
    ∃ out, code.recover arr = some out ∧ out.length = code.data ∧ ∀ s ∈ out, s.length = size := by
  rw [recover_eq code arr hlen]
  by_cases hall : (arr.take code.data).all Option.isSome
  · rw [if_pos hall]
    refine ⟨_, rfl, ?_, fun s hs => ?_⟩
    · rw [List.reduceOption_length_eq_iff.mpr (List.all_eq_true.mp hall), List.length_take, hlen]
      simp [shards]
    · exact hsize s (List.mem_of_mem_take (List.reduceOption_mem_iff.mp hs))
  · have hp : ¬ (code.present (shardAt arr hlen)).length < code.data := by
      rw [length_present]; omega
    rw [if_neg hall, dif_neg hp]
    refine rebuild_isSome h (fun k k' hkk => ?_) (fun k => mem_present (List.get_mem _ _))
      fun i s hs => hsize s ?_
    · have := (nodup_present code (shardAt arr hlen)).injective_get hkk
      simpa [Fin.ext_iff] using this
    · rw [← hs]
      exact List.get_mem _ _

/-! ### Erasures -/

/-- What arrives of `all` when only the shards `keep` says are kept. -/
def erase (keep : ℕ → Bool) (all : List Shard) : List (Option Shard) :=
  all.mapIdx fun i s => if keep i then some s else none

theorem arrives_erase (keep : ℕ → Bool) (all : List Shard) : Arrives all (erase keep all) := by
  refine ⟨by simp [erase], fun i s h => ?_⟩
  rw [erase, List.getElem?_mapIdx] at h
  obtain ⟨s', hs', h⟩ := Option.map_eq_some_iff.mp h
  split at h
  · rw [hs', h]
  · cases h

/-- Shards of one size are encoded. -/
theorem exists_encode (code : Code) {data : List Shard} (hlen : data.length = code.data) {size : ℕ}
    (hsize : ∀ s ∈ data, s.length = size) : ∃ par, code.encode data = .ok par := by
  unfold encode
  rw [dif_neg (not_not.mpr hlen)]
  simp only
  rw [if_neg]
  · exact ⟨_, rfl⟩
  · simp only [List.any_eq_true, decide_eq_true_eq, not_exists, not_and, not_not]
    intro s hs
    rw [hsize s hs, hsize _ (List.get_mem _ _)]

/-- **Recovery is exact.**  A Cauchy code gives the data back from every erasure
that leaves `data` shards and nothing otherwise; a code with any matrix gives
the data back or nothing. -/
theorem recover_erase :
    (∀ data parity, 1 ≤ data → data + parity ≤ 256 →
      ∃ code, cauchy data parity = .ok code ∧
        ∀ (size : ℕ) (shards : List Shard), shards.length = data →
          (∀ s ∈ shards, s.length = size) →
          ∃ par, code.encode shards = .ok par ∧ ∀ keep : ℕ → Bool,
            code.recover (erase keep (shards ++ par)) =
              if data ≤ (erase keep (shards ++ par)).countP Option.isSome then some shards
              else none) ∧
    (∀ data parity code, Code.new data parity = .ok code →
      ∀ shards par, code.encode shards = .ok par → ∀ keep : ℕ → Bool,
        code.recover (erase keep (shards ++ par)) = none ∨
          code.recover (erase keep (shards ++ par)) = some shards) := by
  constructor
  · intro data parity h1 h2
    obtain ⟨code, hcode⟩ := exists_cauchy h1 h2
    obtain ⟨hcauchy, rfl, -⟩ := isCauchy_of_cauchy hcode
    refine ⟨code, hcode, fun size shards hlen hsize => ?_⟩
    obtain ⟨par, hpar⟩ := exists_encode code hlen hsize
    refine ⟨par, hpar, fun keep => ?_⟩
    obtain ⟨size', henc⟩ := encodes_of_encode hpar
    have harr := arrives_erase keep (shards ++ par)
    have hlen' : (erase keep (shards ++ par)).length = code.shards :=
      harr.1.trans henc.length_all
    split
    · rename_i hmany
      obtain ⟨out, hout, -⟩ := recover_isSome hcauchy.independent hlen' hmany fun s hs => by
        obtain ⟨i, hi⟩ := List.mem_iff_getElem?.mp hs
        exact henc.size_eq s (List.mem_of_getElem? (harr.2 i s hi))
      rw [hout, recover_sound henc harr hout]
    · rename_i hfew
      exact recover_eq_none hlen' (Nat.lt_of_not_le hfew)
  · intro data parity code _ shards par hpar keep
    obtain ⟨size, henc⟩ := encodes_of_encode hpar
    cases hout : code.recover (erase keep (shards ++ par)) with
    | none => exact .inl rfl
    | some out => exact .inr (by rw [recover_sound henc (arrives_erase keep _) hout])

/-- One of two data shards lost, and its only parity shard there to replace it. -/
theorem recover_erase_one_lost :
    ∃ code par, cauchy 2 1 = .ok code ∧ code.encode [[7], [9]] = .ok par ∧
      code.recover (erase (fun i => i ≠ 0) ([[7], [9]] ++ par)) = some [[7], [9]] := by
  obtain ⟨code, hcode, h⟩ := recover_erase.1 2 1 (by decide) (by decide)
  obtain ⟨par, hpar, hrec⟩ := h 1 [[7], [9]] rfl (by simp)
  refine ⟨code, par, hcode, hpar, ?_⟩
  rw [hrec, if_pos]
  obtain ⟨size, henc⟩ := encodes_of_encode hpar
  have hlen := henc.length_all
  have hcount : code.data = 2 ∧ code.parity.length = 1 := (isCauchy_of_cauchy hcode).2
  rw [shards, hcount.1, hcount.2] at hlen
  obtain ⟨a, b, c, habc⟩ := List.length_eq_three.mp hlen
  rw [habc]
  simp [erase]

end Code

end WindowCast.Fec
