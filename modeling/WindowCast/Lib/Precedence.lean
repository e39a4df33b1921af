import Mathlib

/-!
# What comes before what in a history

A history is a list with the newest entry at its end.

## Main results

* `before_concat` — what an entry adds.
* `Before.or` — of two entries, one comes before the other.
* `Before.asymm` — and only one, where none is there twice.
-/

section

variable {α : Type} {a b c : α} {history : List α}

/-- One entry comes before another. -/
def Before (a b : α) (history : List α) : Prop := [a, b].Sublist history

instance [DecidableEq α] : Decidable (Before a b history) := inferInstanceAs (Decidable (List.Sublist _ _))

theorem before_concat : Before a b (history ++ [c]) ↔ Before a b history ∨ a ∈ history ∧ b = c := by
  constructor
  · intro h
    obtain ⟨l, l', heq, hl, hl'⟩ := List.sublist_append_iff.mp h
    rcases List.sublist_singleton.mp hl' with rfl | rfl
    · rw [List.append_nil] at heq
      rw [← heq] at hl
      exact Or.inl hl
    · have heq : [a] ++ [b] = l ++ [c] := heq
      obtain ⟨hfirst, hsecond⟩ := List.append_inj' heq rfl
      rw [← hfirst] at hl
      exact Or.inr ⟨List.singleton_sublist.mp hl, List.singleton_inj.mp hsecond⟩
  · rintro (h | ⟨h, rfl⟩)
    · exact h.trans (List.sublist_append_left _ _)
    · exact (List.singleton_sublist.mpr h).append (List.Sublist.refl [b])

namespace Before

theorem left (h : Before a b history) : a ∈ history := h.subset List.mem_cons_self

theorem right (h : Before a b history) : b ∈ history := h.subset (List.mem_cons_of_mem _ List.mem_cons_self)

theorem concat (h : Before a b history) (c : α) : Before a b (history ++ [c]) := before_concat.mpr (Or.inl h)

/-- Of two entries, one comes before the other. -/
theorem or (ha : a ∈ history) (hb : b ∈ history) (hne : a ≠ b) : Before a b history ∨ Before b a history := by
  induction history using List.reverseRecOn with
  | nil => cases ha
  | append_singleton history c ih =>
    rcases List.mem_append.mp ha with ha | ha
    · rcases List.mem_append.mp hb with hb | hb
      · exact (ih ha hb).imp (fun h => h.concat c) (fun h => h.concat c)
      · exact Or.inl (before_concat.mpr (Or.inr ⟨ha, List.mem_singleton.mp hb⟩))
    · rcases List.mem_append.mp hb with hb | hb
      · exact Or.inr (before_concat.mpr (Or.inr ⟨hb, List.mem_singleton.mp ha⟩))
      · exact absurd ((List.mem_singleton.mp ha).trans (List.mem_singleton.mp hb).symm) hne

theorem asymm (hnodup : history.Nodup) (h : Before a b history) : ¬ Before b a history := by
  induction history using List.reverseRecOn with
  | nil => exact absurd h.left List.not_mem_nil
  | append_singleton history c ih =>
    rw [← List.concat_eq_append, List.nodup_concat] at hnodup
    obtain ⟨hlast, hnodup⟩ := hnodup
    intro h'
    rcases before_concat.mp h with hold | ⟨ha, hb⟩
    · rcases before_concat.mp h' with hold' | ⟨-, ha⟩
      · exact ih hnodup hold hold'
      · exact hlast (ha ▸ hold.left)
    · rcases before_concat.mp h' with hold' | ⟨-, ha'⟩
      · exact hlast (hb ▸ hold'.left)
      · exact hlast (ha' ▸ ha)

end Before

end
