import WindowCast.Lib.Lines
import WindowCast.SecureHelper.Permission

/-!
# The texts of a SID

A grant names an account by the text of its SID, which goes into a security descriptor.
The text is taken apart at its dashes, and its numbers are read by the parser of the
standard library, which takes a sign.

## Main definitions

* `IsNumber` — decimal digits below a bound.
* `IsSid` — the text of a SID.
* `Form` — what such a text is put together of, whatever its numbers are.

## Main results

* `validSidText_iff` — which texts are taken for one.
* `sid_exact_iff` — **only where there is a plus before a number, is a text taken for a SID
  that is none**.
-/

namespace WindowCast.SecureHelper

/-- Decimal digits, of a number below `bound`. -/
def IsNumber (bound : ℕ) (digits : Text) : Prop :=
  digits ≠ [] ∧ (∀ c ∈ digits, c.isDigit = true) ∧ Nat.ofDigitChars 10 digits 0 < bound

/-- The same, with a plus before them or not. -/
def IsSigned (bound : ℕ) (number : Text) : Prop :=
  IsNumber bound number ∨ ∃ digits, number = '+' :: digits ∧ IsNumber bound digits

/-- At most 184 bytes: `S-1-`, an authority, and 1 to 15 subauthorities behind a dash each. -/
def Form (number : ℕ → Text → Prop) (value : Text) : Prop :=
  value.utf8Size ≤ 184 ∧ ∃ authority subauthorities,
    value = 'S' :: '-' :: '1' :: '-' :: (authority ++ subauthorities.flatMap fun part => '-' :: part) ∧
      number (2 ^ 64) authority ∧ subauthorities ≠ [] ∧ subauthorities.length ≤ 15 ∧
      ∀ part ∈ subauthorities, number (2 ^ 32) part

/-- The text of a SID. -/
def IsSid : Text → Prop := Form IsNumber

section

variable {bound : ℕ} {number value : Text}

theorem IsNumber.not_mem {c : Char} (h : IsNumber bound number) (hc : c.isDigit = false) : c ∉ number := fun hmem => by
  rw [h.2.1 c hmem] at hc
  cases hc

theorem IsSigned.dash_not_mem (h : IsSigned bound number) : '-' ∉ number := by
  rcases h with h | ⟨digits, rfl, h⟩
  · exact h.not_mem rfl
  · rw [List.mem_cons, not_or]
    exact ⟨by decide, h.not_mem rfl⟩

/-- What the parser takes for a number. -/
theorem parseUnsigned_isSome_iff : (parseUnsigned bound number).isSome ↔ IsSigned bound number := by
  -- once the sign is taken off
  have hdigits (digits : Text) :
      (if digits ≠ [] ∧ digits.all Char.isDigit = true then
        if Nat.ofDigitChars 10 digits 0 < bound then some (Nat.ofDigitChars 10 digits 0) else none
      else none).isSome ↔ IsNumber bound digits := by
    rw [IsNumber, ← List.all_eq_true]
    split
    · rename_i hrun
      split
      · rename_i hlt
        exact iff_of_true rfl ⟨hrun.1, hrun.2, hlt⟩
      · rename_i hlt
        exact iff_of_false nofun fun h => hlt h.2.2
    · rename_i hrun
      exact iff_of_false nofun fun h => hrun ⟨h.1, h.2.1⟩
  cases number with
  | nil =>
    refine iff_of_false nofun ?_
    rintro (h | ⟨_, h, -⟩)
    · exact h.1 rfl
    · cases h
  | cons c digits =>
    by_cases hc : c = '+'
    · subst hc
      refine (hdigits digits).trans ⟨fun h => .inr ⟨digits, rfl, h⟩, ?_⟩
      rintro (h | ⟨_, heq, h⟩)
      · exact absurd List.mem_cons_self (h.not_mem rfl)
      · cases heq
        exact h
    · have hhead : ¬ (c :: digits).head? = some '+' := fun h => hc (Option.some.inj h)
      have hparse : parseUnsigned bound (c :: digits) =
          if c :: digits ≠ [] ∧ (c :: digits).all Char.isDigit = true then
            if Nat.ofDigitChars 10 (c :: digits) 0 < bound then some (Nat.ofDigitChars 10 (c :: digits) 0) else none
          else none := by
        rw [parseUnsigned, if_neg hhead]
        rfl
      rw [hparse, hdigits]
      refine ⟨.inl, ?_⟩
      rintro (h | ⟨_, heq, -⟩)
      · exact h
      · exact absurd (List.cons.inj heq).1 hc

theorem parseUnsigned_ne_nil (h : (parseUnsigned bound number).isSome) : number ≠ [] := by
  rintro rfl
  rcases parseUnsigned_isSome_iff.mp h with h | ⟨_, h, -⟩
  · exact h.1 rfl
  · cases h

/-- What is checked of the numbers. -/
theorem checked_iff {authority : Text} {subauthorities : List Text} :
    (!authority.isEmpty && (parseUnsigned (2 ^ 64) authority).isSome && !subauthorities.isEmpty &&
        subauthorities.length ≤ 15 &&
        subauthorities.all fun part => !part.isEmpty && (parseUnsigned (2 ^ 32) part).isSome) = true ↔
      IsSigned (2 ^ 64) authority ∧ subauthorities ≠ [] ∧ subauthorities.length ≤ 15 ∧
        ∀ part ∈ subauthorities, IsSigned (2 ^ 32) part := by
  have hnumber (bound : ℕ) (number : Text) :
      (!number.isEmpty && (parseUnsigned bound number).isSome) = true ↔ IsSigned bound number := by
    rw [Bool.and_eq_true, Bool.not_eq_true', List.isEmpty_eq_false_iff]
    exact ⟨fun h => parseUnsigned_isSome_iff.mp h.2, fun h =>
      ⟨parseUnsigned_ne_nil (parseUnsigned_isSome_iff.mpr h), parseUnsigned_isSome_iff.mpr h⟩⟩
  rw [Bool.and_eq_true, Bool.and_eq_true, Bool.and_eq_true, hnumber, Bool.not_eq_true', List.isEmpty_eq_false_iff,
    decide_eq_true_eq, List.all_eq_true]
  simp only [hnumber, and_assoc]

/-- **Which texts are taken for that of a SID.** -/
theorem validSidText_iff : validSidText value = true ↔ Form IsSigned value := by
  rw [validSidText, Form]
  by_cases hlong : value.utf8Size > 184
  · rw [if_pos hlong]
    exact iff_of_false Bool.false_ne_true fun h => Nat.not_lt.mpr h.1 hlong
  rw [if_neg hlong, and_iff_right (Nat.not_lt.mp hlong)]
  constructor
  · intro h
    split at h
    · rename_i authority subauthorities hpieces
      obtain ⟨hvalue, -, -⟩ := Text.split_eq_cons_iff.mp hpieces
      exact ⟨authority, subauthorities, hvalue, checked_iff.mp h⟩
    · cases h
  · rintro ⟨authority, subauthorities, hvalue, hchecked⟩
    -- no number has a dash in it, so the text comes apart where it was put together
    have hpieces : Text.split '-' value = ['S'] :: ['1'] :: authority :: subauthorities := by
      refine Text.split_eq_cons_iff.mpr ⟨hvalue, by decide, ?_⟩
      rw [List.forall_mem_cons, List.forall_mem_cons]
      exact ⟨by decide, hchecked.1.dash_not_mem, fun part hpart => (hchecked.2.2.2 part hpart).dash_not_mem⟩
    rw [hpieces]
    exact checked_iff.mpr hchecked

/-! ### Signs -/

theorem IsSigned.isNumber (h : IsSigned bound number) (hplus : '+' ∉ number) : IsNumber bound number := by
  rcases h with h | ⟨digits, rfl, -⟩
  · exact h
  · exact absurd List.mem_cons_self hplus

/-- The text of a SID has no plus in it. -/
theorem isSid_iff : IsSid value ↔ Form IsSigned value ∧ '+' ∉ value := by
  constructor
  · rintro ⟨hsize, authority, subauthorities, rfl, hauthority, hne, hlength, hparts⟩
    refine ⟨⟨hsize, authority, subauthorities, rfl, .inl hauthority, hne, hlength, fun part hpart =>
      .inl (hparts part hpart)⟩, ?_⟩
    simp only [List.mem_cons, List.mem_append, List.mem_flatMap, not_or, not_exists, not_and]
    exact ⟨by decide, by decide, by decide, by decide, hauthority.not_mem rfl, fun part hpart =>
      ⟨by decide, (hparts part hpart).not_mem rfl⟩⟩
  · rintro ⟨⟨hsize, authority, subauthorities, rfl, hauthority, hne, hlength, hparts⟩, hplus⟩
    simp only [List.mem_cons, List.mem_append, List.mem_flatMap, not_or, not_exists, not_and] at hplus
    exact ⟨hsize, authority, subauthorities, rfl, hauthority.isNumber hplus.2.2.2.2.1, hne, hlength, fun part hpart =>
      (hparts part hpart).isNumber (hplus.2.2.2.2.2 part hpart).2⟩

end

/-- **A text that is taken for a SID is one, and a grant names one, unless there is a plus
before one of its numbers.** -/
theorem sid_exact_iff (value : Text) :
    ((validSidText value = true ↔ IsSid value) ∧
        ∀ enabled sid permission, Permission.fromValues enabled sid = some permission →
          permission.grantSid = some value → IsSid value) ↔
      ¬ (Form IsSigned value ∧ '+' ∈ value) := by
  constructor
  · rintro ⟨hvalid, -⟩ ⟨hform, hplus⟩
    exact (isSid_iff.mp (hvalid.mp (validSidText_iff.mpr hform))).2 hplus
  · intro hplus
    have hvalid : validSidText value = true ↔ IsSid value := by
      rw [validSidText_iff, isSid_iff]
      exact ⟨fun hform => ⟨hform, fun hmem => hplus ⟨hform, hmem⟩⟩, And.left⟩
    refine ⟨hvalid, fun enabled sid permission hgrant hvalue => ?_⟩
    obtain ⟨text, htext, hvalidText⟩ := valid_of_fromValues hgrant
    obtain rfl := Option.some.inj (htext.symm.trans hvalue)
    exact hvalid.mp hvalidText

/-- A plus before the authority is taken. -/
theorem plus_taken : ¬ (validSidText "S-1-+5-21".toList = true ↔ IsSid "S-1-+5-21".toList) := by
  intro h
  have hvalid : validSidText "S-1-+5-21".toList = true := by decide
  exact (isSid_iff.mp (h.mp hvalid)).2 (by decide)

end WindowCast.SecureHelper
