import WindowCast.Lib.Text

/-!
# Lines, blanks and byte offsets of texts

## Main definitions

* `Text.lines` — the lines of a text, each without what ends it.
* `Text.trim` — a text without the blanks around it.
* `Text.splitAtByte` — a text cut at a byte offset, where a character begins there.

## Main results

* `Text.lines_flatMap` — lines that are written each with an end are read back.
-/

namespace Text

/-! ### Lines -/

/-- A line without the carriage return that is before its end. -/
def stripCr (line : Text) : Text := if line.getLast? = some '\r' then line.dropLast else line

/-- The lines of a text; what is behind the last end is one too, unless it is empty. -/
def lines (text : Text) : List Text :=
  (split '\n' text).dropLast.map stripCr ++ ((split '\n' text).getLast?.filter fun last => last ≠ []).toList

theorem stripCr_of_not_mem {line : Text} (h : '\r' ∉ line) : stripCr line = line := by
  refine if_neg fun hlast => h ?_
  exact List.mem_of_getLast? hlast

theorem split_of_not_mem {separator : Char} {piece : Text} (h : separator ∉ piece) :
    split separator piece = [piece] := by
  induction piece with
  | nil => rfl
  | cons c piece ih =>
    have hc : ¬ c = separator := fun heq => h (heq ▸ List.mem_cons_self)
    rw [split, if_neg hc, ih fun hmem => h (List.mem_cons_of_mem _ hmem)]

/-- A separator parts what is before it from what is behind it. -/
theorem split_append (separator : Char) (text rest : Text) :
    split separator (text ++ separator :: rest) = split separator text ++ split separator rest := by
  induction text with
  | nil => exact if_pos rfl
  | cons c text ih =>
    rw [List.cons_append, split, split, ih]
    split
    · rfl
    · cases hpieces : split separator text with
      | nil => exact absurd hpieces (split_ne_nil _ _)
      | cons piece pieces => rfl

/-- A text is its pieces, with a separator before each but the first. -/
theorem split_eq_cons_iff {separator : Char} {text first : Text} {others : List Text} :
    split separator text = first :: others ↔ text = first ++ others.flatMap (fun piece => separator :: piece) ∧
      separator ∉ first ∧ ∀ piece ∈ others, separator ∉ piece := by
  constructor
  · intro h
    have hpieces : ∀ piece ∈ first :: others, separator ∉ piece := fun piece hpiece hmem =>
      (mem_split piece (h ▸ hpiece) separator hmem).1 rfl
    rw [List.forall_mem_cons] at hpieces
    refine ⟨?_, hpieces⟩
    clear hpieces
    induction text generalizing first others with
    | nil =>
      cases h
      rfl
    | cons c text ih =>
      rw [split] at h
      split at h
      · rename_i hc
        obtain ⟨rfl, hothers⟩ := List.cons.inj h
        cases others with
        | nil => exact absurd hothers (split_ne_nil _ _)
        | cons second others =>
          rw [List.nil_append, List.flatMap_cons, hc, ih hothers, List.cons_append]
      · split at h
        · rename_i hnil
          exact absurd hnil (split_ne_nil _ _)
        · rename_i piece pieces hpieces
          obtain ⟨rfl, rfl⟩ := List.cons.inj h
          rw [ih hpieces, List.cons_append]
  · rintro ⟨rfl, hfirst, hothers⟩
    induction others generalizing first with
    | nil => rw [List.flatMap_nil, List.append_nil, split_of_not_mem hfirst]
    | cons second others ih =>
      rw [List.forall_mem_cons] at hothers
      rw [List.flatMap_cons, List.cons_append, split_append, split_of_not_mem hfirst, ih hothers.1 hothers.2]
      rfl

theorem lines_append {line : Text} (h : '\n' ∉ line) (rest : Text) :
    lines (line ++ '\n' :: rest) = stripCr line :: lines rest := by
  have hne := split_ne_nil '\n' rest
  rw [lines, split_append, split_of_not_mem h, List.singleton_append, List.dropLast_cons_of_ne_nil hne,
    List.getLast?_cons_of_ne_nil hne]
  rfl

/-- Lines that are written, each with an end, are read back. -/
theorem lines_flatMap {ls : List Text} (h : ∀ line ∈ ls, '\n' ∉ line ∧ '\r' ∉ line) :
    lines (ls.flatMap fun line => line ++ ['\n']) = ls := by
  induction ls with
  | nil => rfl
  | cons line ls ih =>
    obtain ⟨hn, hr⟩ := h line List.mem_cons_self
    rw [List.flatMap_cons, List.append_assoc, List.singleton_append, lines_append hn, stripCr_of_not_mem hr,
      ih fun line' hmem => h line' (List.mem_cons_of_mem _ hmem)]

/-! ### Blanks -/

/-- White space, as Unicode has it. -/
def isWhitespace (c : Char) : Bool :=
  0x9 ≤ c.toNat && c.toNat ≤ 0xd || 0x2000 ≤ c.toNat && c.toNat ≤ 0x200a ||
    [0x20, 0x85, 0xa0, 0x1680, 0x2028, 0x2029, 0x202f, 0x205f, 0x3000].contains c.toNat

/-- A text without the blanks around it. -/
def trim (text : Text) : Text := (text.dropWhile isWhitespace).rdropWhile isWhitespace

theorem trim_of_forall {text : Text} (h : ∀ c ∈ text, isWhitespace c = false) : trim text = text := by
  have hdrop : text.dropWhile isWhitespace = text := by
    rw [List.dropWhile_eq_self_iff]
    intro hlt
    rw [h _ (List.getElem_mem hlt)]
    exact Bool.false_ne_true
  rw [trim, hdrop, List.rdropWhile_eq_self_iff]
  intro hne
  rw [h _ (List.getLast_mem hne)]
  exact Bool.false_ne_true

theorem trim_sublist (text : Text) : List.Sublist text.trim text :=
  (List.rdropWhile_prefix _ _).sublist.trans (List.dropWhile_sublist _)

/-- Blanks are taken from a text that is put together of pieces, where a blank is a piece
for itself, and no other piece begins or ends with one. -/
theorem dropWhile_flatMap {f : Char → Text} (hblank : ∀ c, isWhitespace c = true → f c = [c])
    (hother : ∀ c, isWhitespace c = false → ∃ d rest, f c = d :: rest ∧ isWhitespace d = false) (text : Text) :
    (text.flatMap f).dropWhile isWhitespace = (text.dropWhile isWhitespace).flatMap f := by
  induction text with
  | nil => rfl
  | cons c text ih =>
    cases hc : isWhitespace c with
    | true =>
      rw [List.flatMap_cons, hblank c hc, List.singleton_append, List.dropWhile_cons_of_pos hc,
        List.dropWhile_cons_of_pos hc, ih]
    | false =>
      obtain ⟨d, rest, hpiece, hd⟩ := hother c hc
      rw [List.dropWhile_cons_of_neg (Bool.not_eq_true _ ▸ hc), List.flatMap_cons, hpiece, List.cons_append,
        List.dropWhile_cons_of_neg (Bool.not_eq_true _ ▸ hd)]

theorem trim_flatMap {f : Char → Text} (hblank : ∀ c, isWhitespace c = true → f c = [c])
    (hfirst : ∀ c, isWhitespace c = false → ∃ d rest, f c = d :: rest ∧ isWhitespace d = false)
    (hlast : ∀ c, isWhitespace c = false → ∃ rest d, f c = rest ++ [d] ∧ isWhitespace d = false) (text : Text) :
    trim (text.flatMap f) = (trim text).flatMap f := by
  have hback := dropWhile_flatMap (f := List.reverse ∘ f) (fun c hc => by rw [Function.comp_apply, hblank c hc]; rfl)
    (fun c hc => by
      obtain ⟨rest, d, hpiece, hd⟩ := hlast c hc
      exact ⟨d, rest.reverse, by rw [Function.comp_apply, hpiece, List.reverse_concat], hd⟩)
  rw [trim, trim, dropWhile_flatMap hblank hfirst, List.rdropWhile, List.rdropWhile, List.reverse_flatMap, hback,
    List.reverse_flatMap]
  simp only [Function.comp_def, List.reverse_reverse]

/-! ### Byte offsets -/

/-- The characters of the first `n` bytes, and those behind them; none, where a character
is across the cut, or the text is too short. -/
def splitAtByte : ℕ → Text → Option (Text × Text)
  | 0, text => some ([], text)
  | _ + 1, [] => none
  | n + 1, c :: text =>
    if c.utf8Size ≤ n + 1 then (splitAtByte (n + 1 - c.utf8Size) text).map fun p => (c :: p.1, p.2) else none

section

variable {c d : Char} {rest : Text}

@[simp] theorem utf8Size_cons : utf8Size (c :: rest) = c.utf8Size + utf8Size rest := by
  rw [utf8Size, List.map_cons, List.sum_cons, ← utf8Size]

/-- Two characters of one byte are the first two bytes. -/
theorem splitAtByte_ones (hc : c.utf8Size = 1) (hd : d.utf8Size = 1) :
    splitAtByte 2 (c :: d :: rest) = some ([c, d], rest) := by simp [splitAtByte, hc, hd]

/-- So is one of two. -/
theorem splitAtByte_two (hc : c.utf8Size = 2) : splitAtByte 2 (c :: rest) = some ([c], rest) := by
  simp [splitAtByte, hc]

end

/-- A cut is where so many bytes end. -/
theorem splitAtByte_eq_some {n : ℕ} {text before behind : Text} (h : splitAtByte n text = some (before, behind)) :
    text = before ++ behind ∧ before.utf8Size = n := by
  induction text generalizing n before with
  | nil =>
    cases n with
    | zero =>
      cases h
      exact ⟨rfl, rfl⟩
    | succ n => cases h
  | cons c text ih =>
    cases n with
    | zero =>
      cases h
      exact ⟨rfl, rfl⟩
    | succ n =>
      rw [splitAtByte] at h
      split at h
      · rename_i hle
        obtain ⟨⟨before', behind'⟩, hrest, heq⟩ := Option.map_eq_some_iff.mp h
        cases heq
        obtain ⟨htext, hsize⟩ := ih hrest
        refine ⟨by rw [htext, List.cons_append], ?_⟩
        rw [utf8Size_cons, hsize]
        exact Nat.add_sub_cancel' hle
      · cases h

theorem utf8Size_le_of_sublist {text text' : Text} (h : List.Sublist text text') : text.utf8Size ≤ text'.utf8Size :=
  (h.map Char.utf8Size).sum_le_sum fun _ _ => Nat.zero_le _

end Text
