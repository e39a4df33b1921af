import Mathlib

/-!
# Sliding windows

A receiver that must take every number once cannot remember all of them: it
remembers those within `width` of the highest one it took, and refuses what is
older.  Here the window is what it is for, a set of numbers, and a
representation of it by the highest number and a bit per distance below it.

## Main definitions

* `SlidingWindow.Fresh` — whether a number may still be taken.
* `SlidingWindow.Represents` — the highest number and the bits describe a set.

## Main results

* `Represents.fresh_iff` — the representation decides freshness.
* `Represents.first`, `Represents.above`, `Represents.inside`, `Represents.below` —
  what taking a number must do to the bits, by where the number lies.
-/

namespace SlidingWindow

/-- A number may be taken if none was, or it is above all of them, or it is
within the window and was not. -/
def Fresh (width : ℕ) (taken : Set ℕ) (p : ℕ) : Prop :=
  taken = ∅ ∨ ∃ h, IsGreatest taken h ∧ (h < p ∨ (h - p < width ∧ p ∉ taken))

/-- What was taken is not fresh. -/
theorem not_mem_of_fresh {width : ℕ} {taken : Set ℕ} {p : ℕ} (h : Fresh width taken p) :
    p ∉ taken := by
  rcases h with rfl | ⟨g, hg, hlt | ⟨-, hp⟩⟩
  · exact Set.notMem_empty p
  · exact fun hp => absurd (hg.2 hp) (not_le.mpr hlt)
  · exact hp

/-- The highest number taken and a bit for each distance below it. -/
structure Represents (width : ℕ) (highest : Option ℕ) (bit : ℕ → Prop) (taken : Set ℕ) : Prop where
  empty : highest = none → taken = ∅ ∧ ∀ k, k < width → ¬ bit k
  greatest : ∀ h, highest = some h → IsGreatest taken h
  bit_iff : ∀ h, highest = some h → ∀ k, k < width → k ≤ h → (bit k ↔ h - k ∈ taken)

namespace Represents

variable {width h p : ℕ} {bit bit' : ℕ → Prop} {taken : Set ℕ}

/-- Nothing taken yet: everything is fresh. -/
theorem fresh_of_none (r : Represents width none bit taken) (p : ℕ) : Fresh width taken p :=
  .inl (r.empty rfl).1

/-- Freshness read off the highest number and the bits. -/
theorem fresh_iff (r : Represents width (some h) bit taken) :
    Fresh width taken p ↔ h < p ∨ (h - p < width ∧ ¬ bit (h - p)) := by
  have hg := r.greatest h rfl
  have hne : taken ≠ ∅ := Set.nonempty_iff_ne_empty.mp ⟨h, hg.1⟩
  have hbit : p ≤ h → h - p < width → (bit (h - p) ↔ p ∈ taken) := by
    intro hp hw
    have := r.bit_iff h rfl (h - p) hw (Nat.sub_le h p)
    rwa [Nat.sub_sub_self hp] at this
  constructor
  · rintro (he | ⟨g, hg', hlt | ⟨hw, hp⟩⟩)
    · exact absurd he hne
    · exact .inl (hg'.unique hg ▸ hlt)
    · rw [hg'.unique hg] at hw
      rcases Nat.lt_or_ge h p with hlt | hle
      · exact .inl hlt
      · exact .inr ⟨hw, fun hb => hp ((hbit hle hw).mp hb)⟩
  · rintro (hlt | ⟨hw, hb⟩)
    · exact .inr ⟨h, hg, .inl hlt⟩
    · rcases Nat.lt_or_ge h p with hlt | hle
      · exact .inr ⟨h, hg, .inl hlt⟩
      · exact .inr ⟨h, hg, .inr ⟨hw, fun hp => hb ((hbit hle hw).mpr hp)⟩⟩

/-- Taking the first number sets the bit of distance zero. -/
theorem first (r : Represents width none bit taken)
    (hbit : ∀ k, k < width → (bit' k ↔ k = 0 ∨ bit k)) :
    Represents width (some p) bit' (insert p taken) := by
  obtain ⟨rfl, hzero⟩ := r.empty rfl
  refine ⟨nofun, ?_, ?_⟩
  · rintro _ ⟨⟩
    simp
  · rintro _ ⟨⟩ k hk hkp
    rw [hbit k hk]
    simp only [hzero k hk, or_false, insert_empty_eq, Set.mem_singleton_iff]
    omega

/-- Taking a number above the highest moves every bit by the difference. -/
theorem above (r : Represents width (some h) bit taken) (hp : h < p)
    (hbit : ∀ k, k < width → (bit' k ↔ k = 0 ∨ (p - h ≤ k ∧ bit (k - (p - h))))) :
    Represents width (some p) bit' (insert p taken) := by
  have hg := r.greatest h rfl
  refine ⟨nofun, ?_, ?_⟩
  · rintro _ ⟨⟩
    refine ⟨Set.mem_insert _ _, fun q hq => ?_⟩
    rcases Set.mem_insert_iff.mp hq with rfl | hq
    · exact le_rfl
    · exact (hg.2 hq).trans hp.le
  · rintro _ ⟨⟩ k hk hkp
    rw [hbit k hk, Set.mem_insert_iff]
    refine or_congr (by omega) ?_
    rcases Nat.lt_or_ge k (p - h) with hlt | hle
    · -- nothing between the two was taken
      refine iff_of_false (fun hc => by omega) fun hmem => ?_
      have := hg.2 hmem
      omega
    · have := r.bit_iff h rfl (k - (p - h)) (by omega) (by omega)
      rw [this, show h - (k - (p - h)) = p - k by omega]
      simp [hle]

/-- Taking a number inside the window sets its bit. -/
theorem inside (r : Represents width (some h) bit taken) (hp : p ≤ h)
    (hbit : ∀ k, k < width → (bit' k ↔ k = h - p ∨ bit k)) :
    Represents width (some h) bit' (insert p taken) := by
  have hg := r.greatest h rfl
  refine ⟨nofun, ?_, ?_⟩
  · rintro _ ⟨⟩
    refine ⟨Set.mem_insert_of_mem _ hg.1, fun q hq => ?_⟩
    rcases Set.mem_insert_iff.mp hq with rfl | hq
    · exact hp
    · exact hg.2 hq
  · rintro _ ⟨⟩ k hk hkh
    rw [hbit k hk, Set.mem_insert_iff, r.bit_iff h rfl k hk hkh]
    exact or_congr (by omega) Iff.rfl

/-- A number below the window changes no bit. -/
theorem below (r : Represents width (some h) bit taken) (hp : p ≤ h) (hw : width ≤ h - p) :
    Represents width (some h) bit (insert p taken) := by
  refine ⟨nofun, fun g hgh => ?_, ?_⟩
  · obtain rfl : h = g := Option.some.inj hgh
    have hg := r.greatest h rfl
    refine ⟨Set.mem_insert_of_mem _ hg.1, fun q hq => ?_⟩
    rcases Set.mem_insert_iff.mp hq with rfl | hq
    · exact hp
    · exact hg.2 hq
  · rintro _ ⟨⟩ k hk hkh
    rw [r.bit_iff h rfl k hk hkh, Set.mem_insert_iff]
    exact ⟨.inr, fun hor => hor.resolve_left (by omega)⟩

end Represents

end SlidingWindow
