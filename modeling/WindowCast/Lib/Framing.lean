import Mathlib

/-!
# Words that can be told apart

Words that are put in front of others are read back from what was joined only if
none of them is a proper beginning of another.  Words that all stop at the same
letter, and have it nowhere else, are such words.

## Main definitions

* `Framing.Apart` — neither of two words is a proper beginning of the other.
* `Framing.StopsAt` — the last letter of the word, and only that, is the stop.

## Main results

* `Framing.Apart.append_inj` — joined words give back the first and the rest.
* `Framing.StopsAt.apart` — words with a common stop are apart.
-/

namespace Framing

variable {α : Type} {a b x y : List α}

/-- Neither word is a proper beginning of the other. -/
def Apart (a b : List α) : Prop := (a <+: b → a = b) ∧ (b <+: a → a = b)

/-- The word ends with `stop`, which is nowhere else in it. -/
def StopsAt (stop : α) (a : List α) : Prop := ∃ body, stop ∉ body ∧ a = body ++ [stop]

theorem Apart.refl (a : List α) : Apart a a := ⟨fun _ => rfl, fun _ => rfl⟩

theorem Apart.symm (h : Apart a b) : Apart b a := ⟨fun hp => (h.2 hp).symm, fun hp => (h.1 hp).symm⟩

/-- Joined words give back the first and the rest. -/
theorem Apart.append_inj (h : Apart a b) (heq : a ++ x = b ++ y) : a = b ∧ x = y := by
  have ha : a <+: b ++ y := ⟨x, heq⟩
  have hab : a = b := by
    rcases List.prefix_or_prefix_of_prefix ha (List.prefix_append b y) with hp | hp
    · exact h.1 hp
    · exact h.2 hp
  subst hab
  exact ⟨rfl, List.append_cancel_left heq⟩

/-- A word that stops is no proper beginning of another. -/
theorem StopsAt.eq_of_prefix {stop : α} (ha : StopsAt stop a) (hb : StopsAt stop b) (h : a <+: b) :
    a = b := by
  obtain ⟨body, -, rfl⟩ := ha
  obtain ⟨body', hbody', rfl⟩ := hb
  obtain ⟨rest, hrest⟩ := h
  rcases List.eq_nil_or_concat rest with rfl | ⟨rest, last, rfl⟩
  · rw [← hrest, List.append_nil]
  · -- the stop of the first would be inside the second
    rw [List.concat_eq_append, ← List.append_assoc] at hrest
    have hinside := (List.append_inj' hrest rfl).1
    refine absurd ?_ hbody'
    rw [← hinside]
    exact List.mem_append_left _ (List.mem_append_right _ (List.mem_singleton_self stop))

/-- Words with a common stop are apart. -/
theorem StopsAt.apart {stop : α} (ha : StopsAt stop a) (hb : StopsAt stop b) : Apart a b :=
  ⟨ha.eq_of_prefix hb, fun h => (hb.eq_of_prefix ha h).symm⟩

end Framing
