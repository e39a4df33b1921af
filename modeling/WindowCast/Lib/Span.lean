import Mathlib

/-!
# A span kept inside a size

A span of places, given by where it begins and how long it is, may begin before the
first place or end behind the last.  Moved inside and shortened, it is what was inside
of it only if no place was moved.

## Main definitions

* `Span.covered` — the places of a span.
* `Span.start`, `Span.length` — the span, kept inside.
* `Span.Fits` — what is kept is what was inside.

## Main results

* `Span.ico_eq_of_fits`, `Span.fits_of_ico_eq` — which spans are kept as they are.
-/

namespace Span

variable {offset : ℤ} {extent size x : ℕ}

def covered (offset : ℤ) (extent : ℕ) : Set ℕ := {i | offset ≤ i ∧ (i : ℤ) < offset + extent}

/-- The beginning, moved to the first place or the last. -/
def start (offset : ℤ) (size : ℕ) : ℕ := (max 0 (min offset (size - 1))).toNat

/-- What is left of the extent there, but at least one place. -/
def length (offset : ℤ) (extent size : ℕ) : ℕ := max (min extent (size - start offset size)) 1

/-- It begins inside and is not empty, or it begins before and reaches the end. -/
def Fits (offset : ℤ) (extent size : ℕ) : Prop :=
  0 < size ∧ (0 ≤ offset ∧ offset < size ∧ 0 < extent ∨ offset < 0 ∧ (size : ℤ) ≤ offset + extent)

instance : Decidable (Fits offset extent size) := inferInstanceAs (Decidable (_ ∧ _))

theorem length_pos (offset : ℤ) (extent size : ℕ) : 0 < length offset extent size :=
  Nat.lt_of_lt_of_le Nat.one_pos (Nat.le_max_right _ _)

theorem start_lt (offset : ℤ) (hsize : 0 < size) : start offset size < size := by
  unfold start
  omega

theorem start_add_length_le (hsize : 0 < size) : start offset size + length offset extent size ≤ size := by
  have := start_lt offset hsize
  unfold length
  omega

theorem mem_inside {i : ℕ} :
    i ∈ covered offset extent ∩ Set.Iio size ↔ (offset ≤ i ∧ (i : ℤ) < offset + extent) ∧ i < size := Iff.rfl

theorem ico_eq_of_fits (h : Fits offset extent size) :
    Set.Ico (start offset size) (start offset size + length offset extent size) =
      covered offset extent ∩ Set.Iio size := by
  obtain ⟨hsize, h⟩ := h
  ext i
  rw [Set.mem_Ico, mem_inside]
  unfold length start
  omega

/-- What is kept has the places of the span inside only if no place was moved. -/
theorem fits_of_ico_eq (hsize : 0 < size)
    (h : Set.Ico x (x + length offset extent size) = covered offset extent ∩ Set.Iio size) :
    Fits offset extent size := by
  have hmem (i : ℕ) : x ≤ i ∧ i < x + length offset extent size ↔
      (offset ≤ i ∧ (i : ℤ) < offset + extent) ∧ i < size := by
    rw [← mem_inside, ← h, Set.mem_Ico]
  have hpos := length_pos offset extent size
  -- the first place and the last say how long the span is inside
  have hfirst := (hmem x).mp ⟨Nat.le_refl x, Nat.lt_add_of_pos_right hpos⟩
  have hlast := (hmem (x + length offset extent size - 1)).mp ⟨by omega, by omega⟩
  refine ⟨hsize, ?_⟩
  by_cases hneg : offset < 0
  · refine .inr ⟨hneg, ?_⟩
    have hstart : start offset size = 0 := by
      unfold start
      omega
    have hlength : length offset extent size = max (min extent size) 1 := by
      rw [length, hstart, Nat.sub_zero]
    have hzero := hmem 0
    generalize length offset extent size = n at *
    omega
  · refine .inl ?_
    omega

end Span
