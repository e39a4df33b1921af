import Mathlib

/-!
# Always on to the next that is preferred

A walk along a list that moves on whenever it comes to something preferred to what it
holds.  The preference need not be transitive; where it goes by a rank, the walk ends at
the least.

## Main definitions

* `Descent.last` — where the walk ends.
* `Descent.Ends` — the walk, told by its moves.

## Main results

* `ends_iff` — the walk ends where its moves lead.
* `last_le` — where the preference goes by a rank, the walk ends at the least.
-/

namespace Descent

variable {α β : Type}

/-- Where the walk ends that starts with `a`; `moves a b` says to move on from `a` to `b`. -/
def last (moves : α → α → Bool) (a : α) (l : List α) : α := l.foldl (fun a b => if moves a b then b else a) a

/-- The walk along a list stays with `a`, or passes some things by and moves on. -/
inductive Ends (moves : α → α → Bool) : α → List α → α → Prop
  | stays {a : α} {l : List α} (h : ∀ b ∈ l, moves a b = false) : Ends moves a l a
  | moves {a b v : α} {passed rest : List α} (hpassed : ∀ c ∈ passed, moves a c = false)
      (hb : moves a b = true) (h : Ends moves b rest v) : Ends moves a (passed ++ b :: rest) v

variable {moves : α → α → Bool} {a b v : α} {l : List α}

theorem last_cons : last moves a (b :: l) = last moves (if moves a b then b else a) l := List.foldl_cons ..

theorem last_of_stays (h : ∀ b ∈ l, moves a b = false) : last moves a l = a := by
  induction l with
  | nil => rfl
  | cons b l ih =>
    rw [last_cons, h b List.mem_cons_self]
    exact ih fun c hc => h c (List.mem_cons_of_mem _ hc)

/-- The walk ends where its moves lead. -/
theorem ends_iff : Ends moves a l v ↔ last moves a l = v := by
  constructor
  · intro h
    induction h with
    | stays h => exact last_of_stays h
    | @moves a b v passed rest hpassed hb h ih =>
      have hstart : last moves a (passed ++ b :: rest) = last moves (last moves a passed) (b :: rest) :=
        List.foldl_append ..
      rw [hstart, last_of_stays hpassed, last_cons, if_pos hb]
      exact ih
  · rintro rfl
    induction l generalizing a with
    | nil => exact .stays fun b hb => absurd hb List.not_mem_nil
    | cons b l ih =>
      rw [last_cons]
      cases hb : moves a b with
      | true =>
        have hnone : ∀ c ∈ ([] : List α), moves a c = false := fun c hc => absurd hc List.not_mem_nil
        exact .moves hnone hb ih
      | false =>
        rw [if_neg Bool.false_ne_true]
        have hrest := ih (a := a)
        generalize last moves a l = v at hrest ⊢
        cases hrest with
        | stays h =>
          exact .stays fun c hc => (List.mem_cons.mp hc).elim (fun heq => heq ▸ hb) (h c)
        | @moves _ c _ passed rest hpassed hc h =>
          have hmore : ∀ d ∈ b :: passed, moves a d = false := fun d hd =>
            (List.mem_cons.mp hd).elim (fun heq => heq ▸ hb) (hpassed d)
          exact .moves hmore hc h

theorem last_mem (moves : α → α → Bool) (a : α) (l : List α) : last moves a l ∈ a :: l := by
  induction l generalizing a with
  | nil => exact List.mem_cons_self
  | cons b l ih =>
    rw [last_cons]
    rcases List.mem_cons.mp (ih (if moves a b then b else a)) with heq | hmem
    · rw [heq]
      split
      · exact List.mem_cons_of_mem _ List.mem_cons_self
      · exact List.mem_cons_self
    · exact List.mem_cons_of_mem _ (List.mem_cons_of_mem _ hmem)

/-- What the walk looks at is all that matters. -/
theorem last_map (moves : α → α → Bool) (f : β → α) (b : β) (l : List β) :
    f (last (fun b c => moves (f b) (f c)) b l) = last moves (f b) (l.map f) := by
  induction l generalizing b with
  | nil => rfl
  | cons c l ih =>
    rw [last_cons, ih, List.map_cons, last_cons]
    congr 1
    split <;> rfl

/-- Where the preference goes by a rank, the walk ends at the least. -/
theorem last_le (rank : α → ℕ) (hrank : ∀ b ∈ a :: l, ∀ c ∈ a :: l, moves b c = true ↔ rank c < rank b) :
    ∀ b ∈ a :: l, rank (last moves a l) ≤ rank b := by
  induction l generalizing a with
  | nil =>
    intro b hb
    rw [List.mem_singleton.mp hb]
    exact Nat.le_refl _
  | cons c l ih =>
    have hstep := hrank a List.mem_cons_self c (List.mem_cons_of_mem _ List.mem_cons_self)
    -- what is held after the first step is no more than either
    have hheld : ∃ d ∈ a :: c :: l, last moves a (c :: l) = last moves d l ∧ rank d ≤ rank a ∧ rank d ≤ rank c ∧
        ∀ e ∈ d :: l, e ∈ a :: c :: l := by
      rw [last_cons]
      cases hc : moves a c with
      | true =>
        refine ⟨c, List.mem_cons_of_mem _ List.mem_cons_self, by rw [if_pos rfl], (hstep.mp hc).le, Nat.le_refl _,
          fun e he => List.mem_cons_of_mem _ he⟩
      | false =>
        rw [hc] at hstep
        refine ⟨a, List.mem_cons_self, by rw [if_neg Bool.false_ne_true], Nat.le_refl _,
          Nat.le_of_not_lt fun hlt => Bool.false_ne_true (hstep.mpr hlt), fun e he => ?_⟩
        exact (List.mem_cons.mp he).elim (fun heq => heq ▸ List.mem_cons_self)
          fun he => List.mem_cons_of_mem _ (List.mem_cons_of_mem _ he)
    obtain ⟨d, -, hlast, hda, hdc, hsub⟩ := hheld
    have hleast := ih fun b hb e he => hrank b (hsub b hb) e (hsub e he)
    have hd := hleast d List.mem_cons_self
    intro b hb
    rw [hlast]
    rcases List.mem_cons.mp hb with rfl | hb
    · exact hd.trans hda
    · rcases List.mem_cons.mp hb with rfl | hb
      · exact hd.trans hdc
      · exact hleast b (List.mem_cons_of_mem _ hb)

end Descent
