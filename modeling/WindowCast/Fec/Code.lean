import WindowCast.Fec.Gf256

/-!
# Erasure codes over GF(2^8)

The `Code` of `fec/src/lib.rs`: a matrix that makes each parity shard from the
data shards, and the recovery that inverts the rows of the shards that arrived.
A shard's *index* says what it is: indices below `data` are data shards, the
rest are parity shard `index - data`.

## Main definitions

* `Code` — a code, carrying the shape that `Code.new` checks.
* `Code.new`, `Code.cauchy` — the two ways to build one.
* `Code.encode` — the parity shards of some data shards.
* `Code.recover` — the data shards from any shards that arrived.
-/

namespace WindowCast.Fec

/-- A shard: a string of bytes. -/
abbrev Shard := List UInt8

inductive CodeError
  /-- No data shard, or a matrix row of the wrong length. -/
  | shape
  | tooManyShards (data parity : ℕ)
  | shardCount (expected got : ℕ)
  /-- The shards are not all the same size. -/
  | shardSize
  deriving DecidableEq, Repr

/-- `out ^= coefficient * shard`, byte by byte. -/
def addScaled (out : Shard) (coefficient : UInt8) (shard : Shard) : Shard :=
  if coefficient = 0 then out
  else List.zipWith (fun o b => o ^^^ mul coefficient b) out shard ++ out.drop shard.length

/-- An erasure code: the matrix that makes each parity shard from the data. -/
structure Code where
  data : ℕ
  /-- `parity[j][i]` times data shard `i`, summed over `i`, is parity shard `j`. -/
  parity : List (List UInt8)
  data_pos : 0 < data
  row_length : ∀ row ∈ parity, row.length = data

namespace Code

/-- A code from an explicit parity matrix. -/
def new (data : ℕ) (parity : List (List UInt8)) : Except CodeError Code :=
  if h : data = 0 ∨ ∃ row ∈ parity, row.length ≠ data then .error .shape
  else .ok {
    data := data
    parity := parity
    data_pos := Nat.pos_of_ne_zero fun h0 => h (.inl h0)
    row_length := fun row hrow => by
      by_contra hne
      exact h (.inr ⟨row, hrow, hne⟩) }

/-- Row `j` of the Cauchy matrix: the inverses of `x_j + y_i`. -/
def cauchyRow (data j : ℕ) : List UInt8 :=
  (List.range data).map fun i => inverse (UInt8.ofNat ((data + j) ^^^ i))

/-- A code from a Cauchy matrix. -/
def cauchy (data parity : ℕ) : Except CodeError Code :=
  if h : data = 0 then .error .shape
  else if data + parity > 256 then .error (.tooManyShards data parity)
  else .ok {
    data := data
    parity := (List.range parity).map (cauchyRow data)
    data_pos := Nat.pos_of_ne_zero h
    row_length := by simp [cauchyRow] }

/-- How many shards there are in all. -/
def shards (self : Code) : ℕ := self.data + self.parity.length

/-- The coefficients that make shard `index` from the data shards: a unit row
for a data shard, the matrix row for a parity shard. -/
def row (self : Code) (index : Fin self.shards) : Vector UInt8 self.data :=
  if h : index.val < self.data then (Vector.replicate self.data 0).set index.val 1
  else
    have hlt : index.val - self.data < self.parity.length := by
      have := index.isLt
      simp only [shards] at this
      omega
    ⟨(self.parity.get ⟨index.val - self.data, hlt⟩).toArray,
      self.row_length _ (List.get_mem _ _)⟩

/-- The sum of `coefficients` times `shards`. -/
def combine (size : ℕ) (terms : List (UInt8 × Shard)) : Shard :=
  terms.foldl (fun out term => addScaled out term.1 term.2) (List.replicate size 0)

/-- The parity shards for `data`, which must be `self.data` shards of one size. -/
def encode (self : Code) (data : List Shard) : Except CodeError (List Shard) :=
  if h : data.length ≠ self.data then
    .error (.shardCount self.data data.length)
  else
    have hpos : 0 < data.length := by have := self.data_pos; omega
    let size := (data.get ⟨0, hpos⟩).length
    if data.any fun shard => shard.length ≠ size then .error .shardSize
    else .ok (self.parity.map fun row => combine size (row.zip data))

/-! ### Inverting the rows that arrived -/

/-- A square matrix of bytes. -/
abbrev Rows (n : ℕ) := Vector (Vector UInt8 n) n

/-- One column of the Gauss–Jordan elimination of `m`, done to `inv` as well;
`none` when there is no pivot. -/
def clearColumn {n : ℕ} (s : Rows n × Rows n) (col : Fin n) : Option (Rows n × Rows n) := do
  let (m, inv) := s
  let pivot ← (List.finRange n).find? fun r => decide (col ≤ r) && decide ((m.get r).get col ≠ 0)
  let m := m.swap col pivot
  let inv := inv.swap col pivot
  let scale := inverse ((m.get col).get col)
  let m := m.set col ((m.get col).map fun x => mul x scale)
  let inv := inv.set col ((inv.get col).map fun x => mul x scale)
  -- The loop over the other rows reads row `col` and never writes it.
  let clear (rows : Rows n) : Rows n := Vector.ofFn fun r =>
    let factor := (m.get r).get col
    if r ≠ col ∧ factor ≠ 0 then
      Vector.zipWith (fun a b => a ^^^ mul factor b) (rows.get r) (rows.get col)
    else rows.get r
  return (clear m, clear inv)

/-- The identity matrix. -/
def identity (n : ℕ) : Rows n := Vector.ofFn fun r => Vector.ofFn fun c => if r = c then 1 else 0

/-- The inverse of `m` by Gauss–Jordan elimination. -/
def invert {n : ℕ} (m : Rows n) : Option (Rows n) :=
  ((List.finRange n).foldlM clearColumn (m, identity n)).map Prod.snd

/-- The first `self.data` indices, in order, whose shard arrived. -/
def present (self : Code) (shard : Fin self.shards → Option Shard) : List (Fin self.shards) :=
  ((List.finRange self.shards).filter fun i => (shard i).isSome).take self.data

/-- The data shards from the shards at the indices `arrived`: row `r` of the
matrix to invert says how shard `arrived r` was made from the data. -/
def rebuild (self : Code) (shard : Fin self.shards → Option Shard)
    (arrived : Fin self.data → Fin self.shards) : Option (List Shard) := do
  let first ← shard (arrived ⟨0, self.data_pos⟩)
  let size := first.length
  if (List.finRange self.data).any fun k => (shard (arrived k)).map List.length ≠ some size then
    none
  else
    let inv ← invert (Vector.ofFn fun r => self.row (arrived r))
    return (List.finRange self.data).map fun d =>
      match shard (d.castLE (Nat.le_add_right _ _)) with
      | some shard => shard
      | none => combine size ((List.finRange self.data).map fun k =>
          ((inv.get d).get k, (shard (arrived k)).getD []))

/-- The data shards from any `self.data` of the shards.  `shards` is in index
order with `none` for a missing one.  `none` when too few arrived, they differ
in size, or the ones that did arrive cannot recover the data. -/
def recover (self : Code) (shards : List (Option Shard)) : Option (List Shard) :=
  if hlen : shards.length = self.shards then
    if (shards.take self.data).all Option.isSome then
      some (shards.take self.data).reduceOption
    else
      let shard (i : Fin self.shards) : Option Shard := shards.get (i.cast hlen.symm)
      let present := self.present shard
      if hpresent : present.length < self.data then none
      else self.rebuild shard fun k =>
        present.get ⟨k.val, Nat.lt_of_lt_of_le k.isLt (Nat.le_of_not_lt hpresent)⟩
  else none

end Code

end WindowCast.Fec
