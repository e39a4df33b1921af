import Mathlib

/-!
# Lists cut into pieces of one size

A list cut into consecutive pieces, each of one size but the last, which may be
shorter.

## Main definitions

* `Chunks.of` — the pieces.

## Main results

* `Chunks.flatten_of` — the pieces, one behind the other, are the list.
* `Chunks.length_last` — how long the last piece is.
* `Chunks.drop_flatten` — the rows behind the first ones.
-/

namespace Chunks

variable {α : Type} {size : ℕ} {l : List α} {i : ℕ}

/-- How many pieces there are. -/
def count (size n : ℕ) : ℕ := (n + size - 1) / size

/-- The piece with a number. -/
def piece (size : ℕ) (l : List α) (i : ℕ) : List α := (l.drop (i * size)).take size

def of (size : ℕ) (l : List α) : List (List α) := (List.range (count size l.length)).map (piece size l)

theorem lt_count_iff (hsize : 0 < size) {n : ℕ} : i < count size n ↔ i * size < n := by
  rw [count, Nat.lt_iff_add_one_le, Nat.le_div_iff_mul_le hsize, Nat.succ_mul]
  omega

@[simp] theorem length_of : (of size l).length = count size l.length := by
  rw [of, List.length_map, List.length_range]

theorem getElem?_of (h : i < count size l.length) : (of size l)[i]? = some (piece size l i) := by
  rw [of, List.getElem?_map, List.getElem?_range h]
  rfl

theorem length_piece : (piece size l i).length = min size (l.length - i * size) := by
  rw [piece, List.length_take, List.length_drop]

theorem flatten_pieces (n : ℕ) : ((List.range n).map (piece size l)).flatten = l.take (n * size) := by
  induction n with
  | zero => simp
  | succ n ih =>
    rw [List.range_succ, List.map_append, List.flatten_append, ih, List.map_singleton, List.flatten_singleton,
      Nat.succ_mul, List.take_add]
    rfl

theorem flatten_of (hsize : 0 < size) : (of size l).flatten = l := by
  rw [of, flatten_pieces, List.take_of_length_le]
  by_contra hlt
  exact absurd ((lt_count_iff hsize).mpr (Nat.lt_of_not_le hlt)) (Nat.lt_irrefl _)

/-- Every piece but the last is full. -/
theorem length_full (hsize : 0 < size) (h : i + 1 < count size l.length) : (piece size l i).length = size := by
  have hlt := (lt_count_iff hsize).mp h
  rw [Nat.succ_mul] at hlt
  rw [length_piece]
  omega

/-- How long the last piece is. -/
theorem length_last (hsize : 0 < size) (h : i + 1 = count size l.length) :
    (piece size l i).length = (l.length - 1) % size + 1 := by
  have hlt := (lt_count_iff hsize).mp (show i < count size l.length by omega)
  have hle : l.length ≤ (i + 1) * size := by
    by_contra hgt
    have := (lt_count_iff hsize).mpr (Nat.lt_of_not_le hgt)
    omega
  rw [Nat.succ_mul] at hle
  have hmod : (l.length - 1) % size = l.length - 1 - i * size := by
    have hsplit : l.length - 1 = (l.length - 1 - i * size) + size * i := by
      rw [Nat.mul_comm size i]
      omega
    rw [hsplit, Nat.add_mul_mod_self_left, Nat.mod_eq_of_lt (by omega)]
    omega
  rw [length_piece, hmod]
  omega

theorem of_eq_concat (h : i + 1 = count size l.length) :
    of size l = (List.range i).map (piece size l) ++ [piece size l i] := by
  rw [of, ← h, List.range_succ, List.map_append, List.map_singleton]

/-- Past the first rows, where they are of one length, is the next row. -/
theorem drop_flatten {rows : List (List α)} (hrows : ∀ row ∈ rows, row.length = size) (i : ℕ) :
    rows.flatten.drop (i * size) = (rows.drop i).flatten := by
  induction rows generalizing i with
  | nil => rw [List.flatten_nil, List.drop_nil, List.drop_nil, List.flatten_nil]
  | cons row rows ih =>
    cases i with
    | zero => rw [Nat.zero_mul, List.drop_zero, List.drop_zero]
    | succ i =>
      have hrow : row.length = size := hrows row List.mem_cons_self
      rw [List.flatten_cons, Nat.succ_mul, Nat.add_comm, ← hrow, List.drop_length_add_append, List.drop_succ_cons,
        hrow, ih fun r hr => hrows r (List.mem_cons_of_mem _ hr)]

end Chunks
