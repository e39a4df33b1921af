import Mathlib

/-!
# Text

Text as its characters, with the few operations of a standard library that
take it apart.

## Main definitions

* `Text`, `Casing` — characters, and a mapping to lower and to upper case.
* `Text.split`, `Text.splitOnce` — at a separator: everywhere, or at the first.
* `Text.utf8Size`, `Text.isControl` — the size in bytes, and control characters.

## Main results

* `Text.mem_split` — no piece of a text has the separator in it.
* `Text.splitOnce_eq_some` — a text is what comes before the first separator, it, and what comes after it.
-/

/-- A text, as its characters. -/
abbrev Text := List Char

/-- Lower and upper case, as a standard library maps them. -/
class Casing where
  toLowercase : Text → Text
  toUppercase : Text → Text

namespace Text

/-- The case mapping of the letters a to z alone. -/
@[reducible] def asciiCasing : Casing := ⟨List.map Char.toLower, List.map Char.toUpper⟩

/-- The pieces between the separators; one more than there are separators. -/
def split (separator : Char) : Text → List Text
  | [] => [[]]
  | c :: rest =>
    if c = separator then [] :: split separator rest
    else
      match split separator rest with
      | [] => [[c]]
      | piece :: pieces => (c :: piece) :: pieces

/-- What comes before the first separator, and what comes after it. -/
def splitOnce (separator : Char) : Text → Option (Text × Text)
  | [] => none
  | c :: rest =>
    if c = separator then some ([], rest)
    else (splitOnce separator rest).map fun p => (c :: p.1, p.2)

/-- How many bytes the text is. -/
def utf8Size (text : Text) : ℕ := (text.map Char.utf8Size).sum

/-- The control characters of Unicode. -/
def isControl (c : Char) : Bool := c.val < 0x20 || 0x7f ≤ c.val && c.val ≤ 0x9f

theorem split_ne_nil (separator : Char) (text : Text) : split separator text ≠ [] := by
  induction text with
  | nil => exact List.cons_ne_nil _ _
  | cons c rest ih =>
    unfold split
    split
    · exact List.cons_ne_nil _ _
    · split <;> exact List.cons_ne_nil _ _

/-- No piece has the separator in it, and its characters are the text's. -/
theorem mem_split {separator : Char} {text : Text} :
    ∀ piece ∈ split separator text, ∀ c ∈ piece, c ≠ separator ∧ c ∈ text := by
  induction text with
  | nil =>
    intro piece hpiece c hc
    rw [split, List.mem_singleton] at hpiece
    subst hpiece
    cases hc
  | cons d rest ih =>
    intro piece hpiece c hc
    unfold split at hpiece
    split at hpiece
    · rcases List.mem_cons.mp hpiece with rfl | hpiece
      · cases hc
      · exact (ih piece hpiece c hc).imp_right (List.mem_cons_of_mem _)
    rename_i hd
    split at hpiece
    · rename_i hnil
      exact absurd hnil (split_ne_nil _ _)
    rename_i first pieces heq
    rcases List.mem_cons.mp hpiece with rfl | hpiece
    · rcases List.mem_cons.mp hc with rfl | hc
      · exact ⟨hd, List.mem_cons_self⟩
      · exact (ih first (heq ▸ List.mem_cons_self) c hc).imp_right (List.mem_cons_of_mem _)
    · exact (ih piece (heq ▸ List.mem_cons_of_mem _ hpiece) c hc).imp_right (List.mem_cons_of_mem _)

/-- A text is what comes before the first separator, it, and what comes after it. -/
theorem splitOnce_eq_some {separator : Char} {text before after : Text} :
    splitOnce separator text = some (before, after) ↔ text = before ++ separator :: after ∧ separator ∉ before := by
  induction text generalizing before with
  | nil => exact iff_of_false nofun fun h => List.append_ne_nil_of_right_ne_nil _ (List.cons_ne_nil _ _) h.1.symm
  | cons c rest ih =>
    rw [splitOnce]
    split
    · rename_i hc
      subst hc
      rw [Option.some.injEq, Prod.mk.injEq]
      cases before with
      | nil => simp only [List.nil_append, List.cons.injEq, true_and, List.not_mem_nil, not_false_eq_true, and_true]
      | cons d before =>
        refine iff_of_false (fun h => nomatch h.1) fun ⟨h, hnot⟩ => hnot ?_
        rw [(List.cons.inj h).1]
        exact List.mem_cons_self
    · rename_i hc
      cases before with
      | nil =>
        refine iff_of_false (fun h => ?_) fun h => hc (List.cons.inj h.1).1
        obtain ⟨_, -, h⟩ := Option.map_eq_some_iff.mp h
        cases (Prod.mk.inj h).1
      | cons d before =>
        rw [List.cons_append, List.cons.injEq, List.mem_cons, not_or]
        constructor
        · intro h
          obtain ⟨⟨before', after'⟩, hrest, h⟩ := Option.map_eq_some_iff.mp h
          obtain ⟨hd, rfl⟩ := List.cons.inj (Prod.mk.inj h).1
          obtain rfl := (Prod.mk.inj h).2
          obtain ⟨htext, hnot⟩ := ih.mp hrest
          exact ⟨⟨hd, htext⟩, fun h => hc (hd.trans h.symm), hnot⟩
        · rintro ⟨⟨rfl, htext⟩, -, hnot⟩
          rw [ih.mpr ⟨htext, hnot⟩]
          rfl

end Text
