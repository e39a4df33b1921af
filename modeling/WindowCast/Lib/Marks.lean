import Mathlib

/-!
# What stands before a mark, and behind it

A list cut at the first place where a mark occurs in it.

## Main definitions

* `Marks.cut` — what is before the first occurrence, and what is behind it.

## Main results

* `Marks.cut_eq_some` — **where the cut is**, for a mark that begins with what it does not hold
  again.
-/

namespace Marks

variable {α : Type} [DecidableEq α] {mark l before behind : List α} {m : α}

/-- What is before the first occurrence of the mark, and what is behind it. -/
def cut (mark : List α) : List α → Option (List α × List α)
  | [] => if mark = [] then some ([], []) else none
  | a :: l =>
    if mark <+: a :: l then some ([], (a :: l).drop mark.length)
    else (cut mark l).map fun p => (a :: p.1, p.2)

theorem cut_of_prefix (behind : List α) : cut mark (mark ++ behind) = some ([], behind) := by
  cases hl : mark ++ behind with
  | nil =>
    obtain ⟨rfl, rfl⟩ := List.append_eq_nil_iff.mp hl
    rfl
  | cons a l => rw [cut, if_pos (hl ▸ List.prefix_append mark behind), ← hl, List.drop_left]

/-- What is cut is the list, and the mark is not in what is before it. -/
theorem eq_of_cut (hmark : mark ≠ []) (h : cut mark l = some (before, behind)) :
    l = before ++ mark ++ behind ∧ ¬ mark <:+: before := by
  induction l generalizing before with
  | nil =>
    rw [cut, if_neg hmark] at h
    cases h
  | cons a l ih =>
    rw [cut] at h
    split at h
    · rename_i hprefix
      obtain ⟨rest, hrest⟩ := hprefix
      obtain ⟨rfl, rfl⟩ := Prod.mk.inj (Option.some.inj h)
      rw [← hrest, List.drop_left, List.nil_append]
      exact ⟨rfl, fun h => hmark (List.infix_nil.mp h)⟩
    · rename_i hno
      obtain ⟨p, hp, h⟩ := Option.map_eq_some_iff.mp h
      obtain ⟨rfl, rfl⟩ := Prod.mk.inj h
      obtain ⟨hl, hnot⟩ := ih hp
      refine ⟨congrArg (a :: ·) hl, fun hin => ?_⟩
      rcases List.infix_cons_iff.mp hin with hin | hin
      · refine hno (hin.trans ?_)
        rw [hl, List.append_assoc]
        exact List.prefix_append (a :: p.1) _
      · exact hnot hin

/-- A mark that begins with what it does not hold again is found where it stands first. -/
theorem cut_append (hm : m ∉ mark) (hnot : ¬ m :: mark <:+: before) :
    cut (m :: mark) (before ++ m :: mark ++ behind) = some (before, behind) := by
  induction before with
  | nil => exact cut_of_prefix behind
  | cons a before ih =>
    have hno : ¬ m :: mark <+: a :: (before ++ m :: mark ++ behind) := by
      rw [List.append_assoc, ← List.cons_append]
      intro hprefix
      rcases List.prefix_or_prefix_of_prefix hprefix (List.prefix_append (a :: before) _) with h | ⟨rest, hrest⟩
      · exact hnot h.isInfix
      · -- what of the mark is behind would begin as the mark does
        rw [← hrest, List.prefix_append_right_inj] at hprefix
        cases rest with
        | nil => exact hnot (hrest ▸ (List.append_nil (a :: before)).symm ▸ List.infix_rfl)
        | cons m' rest =>
          rw [List.cons_append] at hprefix
          obtain ⟨hm', -⟩ := List.cons_prefix_cons.mp hprefix
          obtain ⟨rfl, rfl⟩ := List.cons.inj hrest
          exact hm (List.mem_append_right _ (hm' ▸ List.mem_cons_self))
    rw [List.cons_append, List.cons_append, cut, if_neg hno, ih fun h => hnot (h.trans (List.suffix_cons a _).isInfix)]
    rfl

end Marks
