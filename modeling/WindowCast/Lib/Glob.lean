import Mathlib

/-!
# Patterns with stars

What a pattern with `*` for any run of characters and `?` for any one of them
describes.  Beside it is a narrower reading, in which a star that meets a star of
the text stands for just that one: a matcher that compares characters before it
looks for a star accepts exactly what can be read so.

## Main definitions

* `Glob.Matches` — the texts of a pattern.
* `Glob.Strict` — the narrower reading.

## Main results

* `Glob.Strict.matches` — it is narrower.
* `Glob.Matches.strict` — for a text without stars there is no difference.
* `Glob.SuffixStrict.step`, `Glob.SuffixStrict.star` — a match further along is
  still there after a character is matched, and after a star is reached: why one
  place to go back to is enough.
-/

namespace Glob

variable {p t : List Char} {c x : Char}

/-- The text matches the pattern. -/
inductive Matches : List Char → List Char → Prop
  | nil : Matches [] []
  /-- `*` stands for any run of characters. -/
  | star (run : List Char) {p t : List Char} (h : Matches p t) : Matches ('*' :: p) (run ++ t)
  /-- `?` stands for any one. -/
  | any (c : Char) {p t : List Char} (h : Matches p t) : Matches ('?' :: p) (c :: t)
  | char {c : Char} {p t : List Char} (hstar : c ≠ '*') (hany : c ≠ '?') (h : Matches p t) :
    Matches (c :: p) (c :: t)

/-- The text matches the pattern in a way in which every star of the pattern whose run
would begin at a star of the text stands for just that star. -/
inductive Strict : List Char → List Char → Prop
  | nil : Strict [] []
  | star (run : List Char) {p t : List Char} (hhead : (run ++ t).head? ≠ some '*') (h : Strict p t) :
    Strict ('*' :: p) (run ++ t)
  | itself {p t : List Char} (h : Strict p t) : Strict ('*' :: p) ('*' :: t)
  | any (c : Char) {p t : List Char} (h : Strict p t) : Strict ('?' :: p) (c :: t)
  | char {c : Char} {p t : List Char} (hstar : c ≠ '*') (hany : c ≠ '?') (h : Strict p t) :
    Strict (c :: p) (c :: t)

/-! ### One character of the pattern -/

theorem matches_nil_iff : Matches [] t ↔ t = [] := by
  constructor
  · intro h
    cases h
    rfl
  · rintro rfl
    exact .nil

theorem matches_star_iff : Matches ('*' :: p) t ↔ ∃ t', t' <:+ t ∧ Matches p t' := by
  constructor
  · intro h
    cases h with
    | star run h => exact ⟨_, List.suffix_append _ _, h⟩
    | char hstar _ _ => exact absurd rfl hstar
  · rintro ⟨t', ⟨run, rfl⟩, h⟩
    exact .star run h

theorem matches_any_iff : Matches ('?' :: p) t ↔ ∃ c t', t = c :: t' ∧ Matches p t' := by
  constructor
  · intro h
    cases h with
    | any c h => exact ⟨c, _, rfl, h⟩
    | char _ hany _ => exact absurd rfl hany
  · rintro ⟨c, t', rfl, h⟩
    exact .any c h

theorem matches_char_iff (hstar : c ≠ '*') (hany : c ≠ '?') :
    Matches (c :: p) t ↔ ∃ t', t = c :: t' ∧ Matches p t' := by
  constructor
  · intro h
    cases h with
    | star => exact absurd rfl hstar
    | any => exact absurd rfl hany
    | char _ _ h => exact ⟨_, rfl, h⟩
  · rintro ⟨t', rfl, h⟩
    exact .char hstar hany h

/-- Nothing but stars matches the empty text, in either reading. -/
theorem strict_nil_right_iff : Strict p [] ↔ ∀ c ∈ p, c = '*' := by
  constructor
  · intro h
    generalize ht : ([] : List Char) = t at h
    induction h with
    | nil => exact nofun
    | star run hhead h ih =>
      obtain ⟨-, rfl⟩ := List.append_eq_nil_iff.mp ht.symm
      intro c hc
      rcases List.mem_cons.mp hc with rfl | hc
      · rfl
      · exact ih rfl c hc
    | itself => cases ht
    | any => cases ht
    | char => cases ht
  · intro h
    induction p with
    | nil => exact .nil
    | cons c p ih =>
      obtain rfl := h c List.mem_cons_self
      exact .star [] (by simp) (ih fun d hd => h d (List.mem_cons_of_mem _ hd))

theorem strict_nil_left_iff : Strict [] t ↔ t = [] := by
  constructor
  · intro h
    cases h
    rfl
  · rintro rfl
    exact .nil

theorem strict_itself_iff : Strict ('*' :: p) ('*' :: t) ↔ Strict p t := by
  constructor
  · intro h
    generalize hp : '*' :: p = p' at h
    generalize ht : '*' :: t = t' at h
    cases h with
    | nil => cases hp
    | star run hhead h =>
      rw [← ht] at hhead
      exact absurd rfl hhead
    | itself h =>
      cases hp
      cases ht
      exact h
    | any => cases hp
    | char hstar _ _ =>
      cases hp
      exact absurd rfl hstar
  · exact .itself

theorem strict_star_iff (hhead : t.head? ≠ some '*') :
    Strict ('*' :: p) t ↔ ∃ t', t' <:+ t ∧ Strict p t' := by
  constructor
  · intro h
    cases h with
    | star run _ h => exact ⟨_, List.suffix_append _ _, h⟩
    | itself => exact absurd rfl hhead
    | char hstar _ _ => exact absurd rfl hstar
  · rintro ⟨t', ⟨run, rfl⟩, h⟩
    exact .star run hhead h

/-- A character of the pattern other than a star is matched by one character. -/
theorem Strict.cons_inv (h : Strict (x :: p) (c :: t)) (hstar : x ≠ '*') :
    (x = '?' ∨ x = c) ∧ Strict p t := by
  generalize ht : c :: t = t' at h
  cases h with
  | star => exact absurd rfl hstar
  | itself => exact absurd rfl hstar
  | any _ h =>
    cases ht
    exact ⟨.inl rfl, h⟩
  | char _ _ h =>
    cases ht
    exact ⟨.inr rfl, h⟩

/-- A character of the text that the pattern's stands for, or is, is matched by it. -/
theorem strict_cons_iff (hx : x = '?' ∨ x = c) : Strict (x :: p) (c :: t) ↔ Strict p t := by
  by_cases hstar : x = '*'
  · obtain rfl : c = '*' := by
      rcases hx with hx | hx
      · exact absurd (hstar.symm.trans hx) (by decide)
      · exact hx ▸ hstar
    subst hstar
    exact strict_itself_iff
  · refine ⟨fun h => (h.cons_inv hstar).2, fun h => ?_⟩
    by_cases hany : x = '?'
    · subst hany
      exact .any c h
    · obtain rfl := hx.resolve_left hany
      exact .char hstar hany h

/-! ### The two readings -/

/-- The narrower reading is narrower. -/
theorem Strict.matches (h : Strict p t) : Matches p t := by
  induction h with
  | nil => exact .nil
  | star run _ _ ih => exact .star run ih
  | itself _ ih => exact .star ['*'] ih
  | any c _ ih => exact .any c ih
  | char hstar hany _ ih => exact .char hstar hany ih

/-- A text without stars is read in one way. -/
theorem Matches.strict (h : Matches p t) (htext : '*' ∉ t) : Strict p t := by
  induction h with
  | nil => exact .nil
  | star run _ ih =>
    refine .star run (fun hhead => ?_) (ih fun hmem => htext (List.mem_append_right _ hmem))
    exact htext (List.mem_of_mem_head? hhead)
  | any c _ ih => exact .any c (ih fun hmem => htext (List.mem_cons_of_mem _ hmem))
  | char hstar hany _ ih => exact .char hstar hany (ih fun hmem => htext (List.mem_cons_of_mem _ hmem))

/-- So is any text, by a pattern without stars. -/
theorem Matches.strict_of_pattern (h : Matches p t) (hpattern : '*' ∉ p) : Strict p t := by
  induction h with
  | nil => exact .nil
  | star => exact absurd List.mem_cons_self hpattern
  | any c _ ih => exact .any c (ih fun hmem => hpattern (List.mem_cons_of_mem _ hmem))
  | char hstar hany _ ih => exact .char hstar hany (ih fun hmem => hpattern (List.mem_cons_of_mem _ hmem))

/-! ### Going back to the last star -/

/-- Some end of the text matches. -/
def SuffixStrict (p t : List Char) : Prop := ∃ t', t' <:+ t ∧ Strict p t'

theorem suffixStrict_cons_iff : SuffixStrict p (c :: t) ↔ Strict p (c :: t) ∨ SuffixStrict p t := by
  constructor
  · rintro ⟨t', hsuffix, h⟩
    rcases List.suffix_cons_iff.mp hsuffix with rfl | hsuffix
    · exact .inl h
    · exact .inr ⟨t', hsuffix, h⟩
  · rintro (h | ⟨t', hsuffix, h⟩)
    · exact ⟨_, List.suffix_rfl, h⟩
    · exact ⟨t', hsuffix.trans (List.suffix_cons c t), h⟩

theorem suffixStrict_nil_iff : SuffixStrict p [] ↔ Strict p [] := by
  constructor
  · rintro ⟨t', hsuffix, h⟩
    rwa [List.suffix_nil.mp hsuffix] at h
  · intro h
    exact ⟨[], List.suffix_rfl, h⟩

/-- What matches an end of the text still does when one character of each is passed. -/
theorem SuffixStrict.step (h : SuffixStrict (x :: p) (c :: t)) (hx : x = '?' ∨ x = c) :
    SuffixStrict p t := by
  obtain ⟨t', hsuffix, h⟩ := h
  -- an end of what is behind the first character of the matching end
  have hshorter {d : Char} {t'' : List Char} (ht : d :: t'' <:+ c :: t) : t'' <:+ t := by
    rcases List.suffix_cons_iff.mp ht with heq | hsuffix
    · rw [(List.cons.inj heq).2]
    · exact (List.suffix_cons d t'').trans hsuffix
  cases h with
  | star run hhead h =>
    rename_i t''
    rcases List.suffix_cons_iff.mp ((List.suffix_append run t'').trans hsuffix) with heq | hsuffix'
    · -- then the run is empty and the star is met
      obtain rfl : c = '*' := (hx.resolve_left (by decide)).symm
      have hrun : run = [] := by
        have hlen := hsuffix.length_le
        rw [List.length_append, heq, List.length_cons] at hlen
        exact List.eq_nil_of_length_eq_zero (by omega)
      rw [hrun, heq] at hhead
      exact absurd rfl hhead
    · exact ⟨_, hsuffix', h⟩
  | itself h => exact ⟨_, hshorter hsuffix, h⟩
  | any d h => exact ⟨_, hshorter hsuffix, h⟩
  | char _ _ h => exact ⟨_, hshorter hsuffix, h⟩

/-- What matches an end of a text from a star on matches the text itself. -/
theorem SuffixStrict.star (h : SuffixStrict ('*' :: p) t) (hhead : t.head? ≠ some '*') :
    Strict ('*' :: p) t := by
  obtain ⟨t', hsuffix, h⟩ := h
  refine (strict_star_iff hhead).mpr ?_
  cases h with
  | star run _ h => exact ⟨_, (List.suffix_append _ _).trans hsuffix, h⟩
  | itself h => exact ⟨_, (List.suffix_cons _ _).trans hsuffix, h⟩
  | char hstar _ _ => exact absurd rfl hstar

end Glob
