import WindowCast.Lib.Text

/-!
# A pattern in a text

Where a pattern first occurs in a text, and a text with every occurrence of a pattern
replaced, from the left and without overlaps.

## Main definitions

* `Text.cut` — what comes before the first occurrence, and what comes behind it.
* `Text.replace` — every occurrence replaced.
* `Passes` — no occurrence begins in a text, whatever follows it.

## Main results

* `cut_append_of_passes` — the search goes on behind a text that passes.
* `replace_flatMap` — **a replacement is one of the pieces that a text is put together of**,
  where all others pass.
-/

namespace Text

/-- What comes before the first occurrence of a pattern, and what comes behind it. -/
def cut (pattern : Text) : Text → Option (Text × Text)
  | [] => if pattern = [] then some ([], []) else none
  | c :: rest =>
    if pattern <+: c :: rest then some ([], (c :: rest).drop pattern.length)
    else (cut pattern rest).map fun p => (c :: p.1, p.2)

/-- The text with every occurrence of a pattern replaced, where the first `skip` characters
belong to an occurrence already. -/
def replaceFrom (pattern new : Text) : ℕ → Text → Text
  | _, [] => []
  | skip + 1, _ :: rest => replaceFrom pattern new skip rest
  | 0, c :: rest =>
    if pattern <+: c :: rest then new ++ replaceFrom pattern new (pattern.length - 1) rest
    else c :: replaceFrom pattern new 0 rest

/-- The text with every occurrence of a pattern replaced. -/
def replace (pattern new : Text) (text : Text) : Text := replaceFrom pattern new 0 text

/-- No occurrence of the pattern begins in the text, whatever follows it. -/
def Passes (pattern text : Text) : Prop :=
  ∀ before c behind, text = before ++ c :: behind → ∀ rest, ¬ pattern <+: c :: behind ++ rest

section

variable {pattern new text rest : Text} {c : Char}

/-! ### Texts that pass -/

theorem passes_cons (hhead : ∀ rest, ¬ pattern <+: c :: text ++ rest) (h : Passes pattern text) :
    Passes pattern (c :: text) := by
  rintro (_ | ⟨d, before⟩) c' behind heq
  · cases heq
    exact hhead
  · exact h before c' behind (List.cons.inj heq).2

theorem Passes.of_cons (h : Passes pattern (c :: text)) : Passes pattern text :=
  fun before c' behind heq => h (c :: before) c' behind (by rw [heq, List.cons_append])

theorem Passes.append {text' : Text} (h : Passes pattern text) (h' : Passes pattern text') :
    Passes pattern (text ++ text') := by
  induction text with
  | nil => exact h'
  | cons c text ih =>
    refine passes_cons (fun rest hprefix => h [] c text rfl (text' ++ rest) ?_) (ih h.of_cons)
    rw [List.cons_append, ← List.append_assoc]
    exact hprefix

/-- A text without the pattern's first character passes. -/
theorem passes_of_not_mem {d : Char} {pattern : Text} (h : d ∉ text) : Passes (d :: pattern) text := by
  rintro before c behind rfl rest hprefix
  rw [List.cons_append, List.cons_prefix_cons] at hprefix
  exact h (List.mem_append_right _ ( hprefix.1 ▸ List.mem_cons_self))

/-- An occurrence in a text that begins with the pattern's first character, and has no
other of it, is at its beginning. -/
theorem passes_cons_of_not_mem {d : Char} {pattern : Text} (hhead : ∀ rest, ¬ pattern <+: text ++ rest)
    (h : d ∉ text) : Passes (d :: pattern) (d :: text) := by
  refine passes_cons (fun rest hprefix => ?_) (passes_of_not_mem h)
  rw [List.cons_append, List.cons_prefix_cons] at hprefix
  exact hhead rest hprefix.2

/-! ### Searching -/

theorem cut_append (pattern text : Text) : cut pattern (pattern ++ text) = some ([], text) := by
  cases h : pattern ++ text with
  | nil =>
    obtain ⟨rfl, rfl⟩ := List.append_eq_nil_iff.mp h
    rfl
  | cons c rest =>
    rw [cut, if_pos (h ▸ List.prefix_append pattern text), ← h, List.drop_left]

/-- The search goes on behind a text that passes. -/
theorem cut_append_of_passes (h : Passes pattern text) :
    cut pattern (text ++ rest) = (cut pattern rest).map fun p => (text ++ p.1, p.2) := by
  induction text with
  | nil =>
    rw [List.nil_append]
    exact Option.map_id'.symm ▸ rfl
  | cons c text ih =>
    have hhead : ¬ pattern <+: c :: (text ++ rest) := h [] c text rfl rest
    rw [List.cons_append, cut, if_neg hhead, ih h.of_cons, Option.map_map]
    rfl

/-- A pattern is found behind a text that passes. -/
theorem cut_eq_some (h : Passes pattern text) : cut pattern (text ++ (pattern ++ rest)) = some (text, rest) := by
  rw [cut_append_of_passes h, cut_append, Option.map_some, List.append_nil]

theorem cut_eq_none (hne : pattern ≠ []) (h : Passes pattern text) : cut pattern text = none := by
  have hcut : cut pattern (text ++ []) = _ := cut_append_of_passes h
  rw [List.append_nil, cut, if_neg hne] at hcut
  exact hcut

/-! ### Replacing -/

@[simp] theorem replace_nil : replace pattern new [] = [] := by
  rw [replace, replaceFrom]

theorem replaceFrom_length (text rest : Text) :
    replaceFrom pattern new text.length (text ++ rest) = replace pattern new rest := by
  induction text with
  | nil => rfl
  | cons c text ih => exact ih

theorem replace_append (hne : pattern ≠ []) :
    replace pattern new (pattern ++ rest) = new ++ replace pattern new rest := by
  cases pattern with
  | nil => exact absurd rfl hne
  | cons c pattern =>
    have hprefix : c :: pattern <+: c :: (pattern ++ rest) := List.prefix_append (c :: pattern) rest
    rw [List.cons_append, replace, replaceFrom, if_pos hprefix]
    exact congrArg (new ++ ·) (replaceFrom_length pattern rest)

theorem replace_append_of_passes (h : Passes pattern text) :
    replace pattern new (text ++ rest) = text ++ replace pattern new rest := by
  induction text with
  | nil => rfl
  | cons c text ih =>
    have hhead : ¬ pattern <+: c :: (text ++ rest) := h [] c text rfl rest
    rw [List.cons_append, replace, replaceFrom, if_neg hhead]
    exact congrArg (c :: ·) (ih h.of_cons)

/-- **A replacement is one of the pieces that a text is put together of**, where all
others pass. -/
theorem replace_flatMap {α : Type} {f g : α → Text} (hne : pattern ≠ []) {l : List α}
    (h : ∀ a ∈ l, f a = pattern ∧ g a = new ∨ Passes pattern (f a) ∧ g a = f a) :
    replace pattern new (l.flatMap f) = l.flatMap g := by
  induction l with
  | nil => exact replace_nil
  | cons a l ih =>
    have hl := ih fun b hb => h b (List.mem_cons_of_mem _ hb)
    rw [List.flatMap_cons, List.flatMap_cons]
    rcases h a List.mem_cons_self with ⟨hf, hg⟩ | ⟨hpass, hg⟩
    · rw [hf, hg, replace_append hne, hl]
    · rw [hg, replace_append_of_passes hpass, hl]

end

end Text
