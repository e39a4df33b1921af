import WindowCast.Lib.Text

/-!
# Command lines of Windows

How a program of Windows takes its command line apart.  Arguments stand between blanks;
a quote begins and ends a stretch in which blanks count as any character; backslashes are
special right before a quote only, where two stand for one, and one that is left over
makes the quote a character.  Readers differ in what two quotes in a row are within such a
stretch.

## Main definitions

* `CommandLine.argument` — the argument at the front, and what is behind it.
* `CommandLine.arguments`, `CommandLine.split` — all of them, without and with a program name.
* `CommandLine.weight`, `CommandLine.yields` — what backslashes and quotes weigh in arguments,
  and in a command line that is still to be read.

## Main results

* `CommandLine.arguments_line` — words that are each read back are read back one by one.
* `CommandLine.weight_arguments` — **the arguments weigh what the command line yields**.
-/

namespace CommandLine

/-- What a quote is, right behind one that would end a stretch. -/
inductive Doubled
  /-- The beginning of another. -/
  | begins
  /-- With that one it stands for a quote, behind which the stretch goes on or not. -/
  | literal (quoted : Bool)
  deriving DecidableEq, Repr

def isBlank (c : Char) : Bool := c = ' ' || c = '\t'

/-- The argument at the front, and what is behind it: `backslashes` have come that are not
accounted for, and `arg` is what there is of it. -/
def argument (doubled : Doubled) : Bool → ℕ → Text → Text → Text × Text
  | _, backslashes, arg, [] => (arg ++ List.replicate backslashes '\\', [])
  | quoted, backslashes, arg, '\\' :: rest => argument doubled quoted (backslashes + 1) arg rest
  | quoted, backslashes, arg, '"' :: rest =>
    let arg := arg ++ List.replicate (backslashes / 2) '\\'
    if backslashes % 2 = 1 then argument doubled quoted 0 (arg ++ ['"']) rest
    else if quoted then
      match doubled, rest with
      | .literal quoted, '"' :: rest => argument doubled quoted 0 (arg ++ ['"']) rest
      | _, rest => argument doubled false 0 arg rest
    else argument doubled true 0 arg rest
  | quoted, backslashes, arg, c :: rest =>
    let arg := arg ++ List.replicate backslashes '\\'
    if isBlank c && !quoted then (arg, c :: rest) else argument doubled quoted 0 (arg ++ [c]) rest

section

variable {doubled : Doubled} {quoted : Bool} {n : ℕ} {arg rest : Text} {c : Char}

theorem argument_replicate (k : ℕ) :
    argument doubled quoted n arg (List.replicate k '\\' ++ rest) = argument doubled quoted (n + k) arg rest := by
  induction k generalizing n with
  | zero => rfl
  | succ k ih =>
    rw [List.replicate_succ, List.cons_append, argument, ih]
    congr 1
    omega

/-- A character that is neither a backslash nor a quote. -/
theorem argument_cons (hback : c ≠ '\\') (hquote : c ≠ '"') :
    argument doubled quoted n arg (c :: rest) =
      if isBlank c && !quoted then (arg ++ List.replicate n '\\', c :: rest)
      else argument doubled quoted 0 (arg ++ List.replicate n '\\' ++ [c]) rest := by
  rw [argument]
  · exact hback
  · exact hquote

theorem isBlank_backslash : isBlank '\\' = false := rfl

theorem isBlank_quote : isBlank '"' = false := rfl

/-- An argument ends at a blank that is not quoted. -/
theorem argument_blank (hblank : isBlank c = true) :
    argument doubled false n arg (c :: rest) = (arg ++ List.replicate n '\\', c :: rest) := by
  have hback : c ≠ '\\' := fun h => Bool.false_ne_true (isBlank_backslash.symm.trans (h ▸ hblank))
  have hquote : c ≠ '"' := fun h => Bool.false_ne_true (isBlank_quote.symm.trans (h ▸ hblank))
  rw [argument_cons hback hquote, hblank]
  rfl

theorem argument_quote :
    argument doubled quoted n arg ('"' :: rest) =
      if n % 2 = 1 then argument doubled quoted 0 (arg ++ List.replicate (n / 2) '\\' ++ ['"']) rest
      else if quoted then
        match doubled, rest with
        | .literal quoted, '"' :: rest =>
          argument doubled quoted 0 (arg ++ List.replicate (n / 2) '\\' ++ ['"']) rest
        | _, rest => argument doubled false 0 (arg ++ List.replicate (n / 2) '\\') rest
      else argument doubled true 0 (arg ++ List.replicate (n / 2) '\\') rest := by
  rw [argument.eq_def]
  rfl

/-- A quote behind backslashes of which one is left over. -/
theorem argument_escaped (k : ℕ) :
    argument doubled quoted (2 * k + 1) arg ('"' :: rest) =
      argument doubled quoted 0 (arg ++ List.replicate k '\\' ++ ['"']) rest := by
  have hodd : (2 * k + 1) % 2 = 1 := by omega
  have hhalf : (2 * k + 1) / 2 = k := by omega
  rw [argument_quote, if_pos hodd, hhalf]

/-- A quote that begins a stretch. -/
theorem argument_begins (k : ℕ) :
    argument doubled false (2 * k) arg ('"' :: rest) =
      argument doubled true 0 (arg ++ List.replicate k '\\') rest := by
  have heven : ¬ (2 * k) % 2 = 1 := by omega
  have hhalf : 2 * k / 2 = k := by omega
  rw [argument_quote, if_neg heven, hhalf]
  rfl

/-- A quote that ends a stretch, with no quote behind it. -/
theorem argument_ends (k : ℕ) (hrest : rest.head? ≠ some '"') :
    argument doubled true (2 * k) arg ('"' :: rest) =
      argument doubled false 0 (arg ++ List.replicate k '\\') rest := by
  have heven : ¬ (2 * k) % 2 = 1 := by omega
  have hhalf : 2 * k / 2 = k := by omega
  rw [argument_quote, if_neg heven, hhalf, if_pos rfl]
  split
  · exact absurd rfl hrest
  · rfl

theorem length_argument (quoted : Bool) (n : ℕ) (arg text : Text) :
    (argument doubled quoted n arg text).2.length ≤ text.length := by
  fun_induction argument doubled quoted n arg text with
  | case1 => exact Nat.le_refl 0
  | case2 _ _ _ _ ih => exact Nat.le_succ_of_le ih
  | case3 _ _ _ _ _ _ ih => exact Nat.le_succ_of_le ih
  | case4 _ _ _ _ _ _ _ ih => exact Nat.le_succ_of_le (Nat.le_succ_of_le ih)
  | case5 _ _ _ _ _ _ ih => exact Nat.le_succ_of_le ih
  | case6 _ _ _ _ _ _ _ ih => exact Nat.le_succ_of_le ih
  | case7 => exact Nat.le_refl _
  | case8 _ _ _ _ _ _ _ _ _ ih => exact Nat.le_succ_of_le ih

/-- An argument has a character at least. -/
theorem length_argument_cons (hblank : isBlank c = false) :
    (argument doubled false 0 [] (c :: rest)).2.length ≤ rest.length := by
  by_cases hback : c = '\\'
  · rw [hback, argument]
    exact length_argument false 1 [] rest
  by_cases hquote : c = '"'
  · rw [hquote]
    exact (congrArg (fun r => r.2.length) (argument_begins 0)).trans_le (length_argument true 0 _ rest)
  · rw [argument_cons hback hquote, hblank]
    exact length_argument false 0 _ rest

end

theorem isBlank_of_dropWhile {text : Text} (h : text.dropWhile isBlank = c :: rest) : isBlank c = false := by
  have hne : text.dropWhile isBlank ≠ [] := h ▸ List.cons_ne_nil c rest
  have hhead := List.head_dropWhile_not isBlank hne
  simp only [h, List.head_cons] at hhead
  exact hhead

/-- The arguments, from the first to the last. -/
def arguments (doubled : Doubled) (text : Text) : List Text :=
  match _h : text.dropWhile isBlank with
  | [] => []
  | c :: rest =>
    let r := argument doubled false 0 [] (c :: rest)
    r.1 :: arguments doubled r.2
termination_by text.length
decreasing_by
  have hle := (List.dropWhile_sublist (l := text) isBlank).length_le
  rw [_h, List.length_cons] at hle
  exact lt_of_le_of_lt (length_argument_cons (isBlank_of_dropWhile _h)) hle

section

variable {doubled : Doubled} {c : Char} {rest text : Text}

theorem arguments_of_nil (h : text.dropWhile isBlank = []) : arguments doubled text = [] := by
  rw [arguments]
  split
  · rfl
  · rename_i heq
    rw [h] at heq
    cases heq

theorem arguments_of_cons (h : text.dropWhile isBlank = c :: rest) :
    arguments doubled text =
      (argument doubled false 0 [] (c :: rest)).1 :: arguments doubled (argument doubled false 0 [] (c :: rest)).2 := by
  rw [arguments]
  split
  · rename_i heq
    rw [h] at heq
    cases heq
  · rename_i heq
    rw [h] at heq
    cases heq
    rfl

/-- Blanks in front make no difference. -/
theorem arguments_dropWhile : arguments doubled (text.dropWhile isBlank) = arguments doubled text := by
  have hidem : (text.dropWhile isBlank).dropWhile isBlank = text.dropWhile isBlank := List.dropWhile_idempotent isBlank text
  cases h : text.dropWhile isBlank with
  | nil =>
    rw [arguments_of_nil h]
    exact arguments_of_nil rfl
  | cons c rest =>
    rw [arguments_of_cons h]
    exact arguments_of_cons (h ▸ hidem)

end

/-! ### Words that are read back -/

/-- A word as it is written, whatever comes behind it. -/
def ReadBack (doubled : Doubled) (written word : Text) : Prop :=
  (∃ c rest, written = c :: rest ∧ isBlank c = false) ∧
    ∀ behind : Text, (behind = [] ∨ ∃ rest, behind = ' ' :: rest) →
      argument doubled false 0 [] (written ++ behind) = (word, behind)

section

variable {doubled : Doubled} {behind : Text}

theorem argument_behind (hbehind : behind = [] ∨ ∃ rest, behind = ' ' :: rest) (n : ℕ) (arg : Text) :
    argument doubled false n arg behind = (arg ++ List.replicate n '\\', behind) := by
  rcases hbehind with rfl | ⟨rest, rfl⟩
  · rw [argument]
  · exact argument_blank rfl

/-- A text without blanks and quotes is read as it is. -/
theorem argument_plain {text : Text} (hplain : ∀ c ∈ text, isBlank c = false ∧ c ≠ '"')
    (hbehind : behind = [] ∨ ∃ rest, behind = ' ' :: rest) (n : ℕ) (arg : Text) :
    argument doubled false n arg (text ++ behind) = (arg ++ List.replicate n '\\' ++ text, behind) := by
  induction text generalizing n arg with
  | nil => rw [List.nil_append, List.append_nil, argument_behind hbehind]
  | cons c text ih =>
    obtain ⟨⟨hblank, hquote⟩, hplain⟩ := List.forall_mem_cons.mp hplain
    rw [List.cons_append]
    by_cases hback : c = '\\'
    · rw [hback, argument, ih hplain, List.replicate_succ', List.append_assoc, List.append_assoc, List.append_assoc,
        List.singleton_append]
    · rw [argument_cons hback hquote, hblank, ih hplain, List.replicate_zero, List.append_nil, List.append_assoc,
        List.singleton_append]
      rfl

/-- A word without blanks and quotes is read back as it is. -/
theorem readBack_plain {word : Text} (hne : word ≠ []) (hplain : ∀ c ∈ word, isBlank c = false ∧ c ≠ '"') :
    ReadBack doubled word word := by
  obtain ⟨c, rest, rfl⟩ := List.exists_cons_of_ne_nil hne
  exact ⟨⟨c, rest, rfl, (hplain c List.mem_cons_self).1⟩, fun behind hbehind => argument_plain hplain hbehind 0 []⟩

end

section

variable {doubled : Doubled} {write : Text → Text} {words : List Text}

/-- Behind a word there is nothing, or a blank. -/
theorem line_behind (write : Text → Text) (words : List Text) :
    (words.flatMap fun word => ' ' :: write word) = [] ∨
      ∃ rest, (words.flatMap fun word => ' ' :: write word) = ' ' :: rest := by
  cases words with
  | nil => exact .inl rfl
  | cons word words => exact .inr ⟨_, rfl⟩

/-- Words that are each read back are read back one by one. -/
theorem arguments_line (h : ∀ word ∈ words, ReadBack doubled (write word) word) :
    arguments doubled (words.flatMap fun word => ' ' :: write word) = words := by
  induction words with
  | nil => exact arguments_of_nil rfl
  | cons word words ih =>
    obtain ⟨⟨⟨c, rest, hwrite, hblank⟩, hread⟩, hwords⟩ := List.forall_mem_cons.mp h
    have hread := hread _ (line_behind write words)
    have hdrop : (' ' :: (c :: rest ++ words.flatMap fun word => ' ' :: write word)).dropWhile isBlank =
        c :: (rest ++ words.flatMap fun word => ' ' :: write word) := by
      rw [List.dropWhile_cons_of_pos rfl, List.cons_append, List.dropWhile_cons_of_neg (Bool.not_eq_true _ ▸ hblank)]
    rw [hwrite] at hread
    rw [List.flatMap_cons, List.cons_append, hwrite, arguments_of_cons hdrop, ← List.cons_append, hread, ih hwords]

/-- Words with one blank between them. -/
theorem intercalate_cons (first : Text) (rest : List Text) :
    List.intercalate [' '] (first :: rest) = first ++ rest.flatMap fun word => ' ' :: word := by
  induction rest generalizing first with
  | nil => rw [List.intercalate_singleton, List.flatMap_nil, List.append_nil]
  | cons second rest ih =>
    rw [List.intercalate_cons_cons, ih, List.flatMap_cons, List.append_assoc]
    rfl

/-- And so they are with one blank between them. -/
theorem arguments_intercalate (h : ∀ word ∈ words, ReadBack doubled (write word) word) :
    arguments doubled (List.intercalate [' '] (words.map write)) = words := by
  have hline := arguments_line h
  cases words with
  | nil => exact arguments_of_nil rfl
  | cons word words =>
    rw [← arguments_dropWhile, List.flatMap_cons, List.cons_append, List.dropWhile_cons_of_pos rfl,
      arguments_dropWhile] at hline
    rw [List.map_cons, intercalate_cons, List.flatMap_map]
    exact hline

end

/-! ### What the arguments weigh -/

/-- What the backslashes and the quotes of an argument weigh. -/
def weight (text : Text) : ℕ := 2 * text.count '\\' + text.count '"'

/-- What those of the arguments weigh that are still to be read, where quotes only begin
and end stretches. -/
def yields : ℕ → Text → ℕ
  | n, [] => 2 * n
  | n, '\\' :: rest => yields (n + 1) rest
  | n, '"' :: rest => n + yields 0 rest
  | n, _ :: rest => 2 * n + yields 0 rest

section

variable {c : Char} {rest : Text}

@[simp] theorem weight_nil : weight [] = 0 := rfl

@[simp] theorem weight_append (text text' : Text) : weight (text ++ text') = weight text + weight text' := by
  unfold weight
  rw [List.count_append, List.count_append]
  omega

@[simp] theorem weight_replicate (n : ℕ) : weight (List.replicate n '\\') = 2 * n := by
  have hnone : '"' ∉ List.replicate n '\\' := fun h => absurd (List.eq_of_mem_replicate h) (by decide)
  rw [weight, List.count_replicate_self, List.count_eq_zero_of_not_mem hnone, Nat.add_zero]

@[simp] theorem weight_quote : weight ['"'] = 1 := rfl

theorem weight_singleton (hback : c ≠ '\\') (hquote : c ≠ '"') : weight [c] = 0 := by
  rw [weight, List.count_singleton, List.count_singleton, if_neg (by simpa using hback), if_neg (by simpa using hquote)]

theorem yields_cons (n : ℕ) (hback : c ≠ '\\') (hquote : c ≠ '"') : yields n (c :: rest) = 2 * n + yields 0 rest := by
  rw [yields]
  · exact hback
  · exact hquote

theorem yields_behind {behind : Text} (hbehind : behind = [] ∨ ∃ rest, behind = ' ' :: rest) (n : ℕ) :
    yields n behind = 2 * n + yields 0 behind := by
  rcases hbehind with rfl | ⟨rest, rfl⟩
  · rfl
  · rw [yields_cons n (by decide) (by decide), yields_cons 0 (by decide) (by decide)]
    omega

/-- A text without quotes yields what it weighs. -/
theorem yields_plain {text behind : Text} (hquote : '"' ∉ text)
    (hbehind : behind = [] ∨ ∃ rest, behind = ' ' :: rest) (n : ℕ) :
    yields n (text ++ behind) = 2 * n + weight text + yields 0 behind := by
  induction text generalizing n with
  | nil => rw [List.nil_append, yields_behind hbehind, weight_nil, Nat.add_zero]
  | cons c text ih =>
    rw [List.mem_cons, not_or] at hquote
    obtain ⟨hc, hquote⟩ := hquote
    have hweight : weight (c :: text) = weight [c] + weight text := weight_append [c] text
    rw [List.cons_append, hweight]
    by_cases hback : c = '\\'
    · have hone : weight ['\\'] = 2 := rfl
      rw [hback, yields, ih hquote, hone]
      omega
    · rw [yields_cons n hback (Ne.symm hc), ih hquote, weight_singleton hback (Ne.symm hc)]
      omega

theorem weight_argument (quoted : Bool) (n : ℕ) (arg text : Text) :
    weight (argument .begins quoted n arg text).1 + yields 0 (argument .begins quoted n arg text).2 =
      weight arg + yields n text := by
  generalize hdoubled : Doubled.begins = doubled
  fun_induction argument doubled quoted n arg text with
  | case1 quoted n arg => simp only [weight_append, weight_replicate, yields, Nat.mul_zero, Nat.add_zero]
  | case2 quoted n arg rest ih => exact ih
  | case3 quoted n arg rest half hodd ih =>
    rw [ih, weight_append, weight_append, weight_replicate, weight_quote, yields]
    omega
  | case4 n arg half heven quoted rest hsame =>
    cases hdoubled.trans hsame
  | case5 n arg half heven rest hrest ih =>
    rw [ih, weight_append, weight_replicate, yields]
    omega
  | case6 quoted n arg rest half heven hquoted ih =>
    rw [ih, weight_append, weight_replicate, yields]
    omega
  | case7 quoted n arg c rest hback hquote hblank =>
    rw [weight_append, weight_replicate, yields_cons n hback hquote, yields_cons 0 hback hquote]
    omega
  | case8 quoted n arg c rest hback hquote half hblank ih =>
    rw [ih, weight_append, weight_append, weight_replicate, weight_singleton hback hquote,
      yields_cons n hback hquote]
    omega

/-- Blanks weigh nothing. -/
theorem yields_dropWhile (text : Text) : yields 0 (text.dropWhile isBlank) = yields 0 text := by
  induction text with
  | nil => rfl
  | cons c rest ih =>
    by_cases hblank : isBlank c = true
    · have hback : c ≠ '\\' := fun h => Bool.false_ne_true (isBlank_backslash.symm.trans (h ▸ hblank))
      have hquote : c ≠ '"' := fun h => Bool.false_ne_true (isBlank_quote.symm.trans (h ▸ hblank))
      rw [List.dropWhile_cons_of_pos hblank, ih, yields_cons 0 hback hquote, Nat.mul_zero, Nat.zero_add]
    · rw [List.dropWhile_cons_of_neg hblank]

/-- **The arguments weigh what the command line yields.** -/
theorem weight_arguments (text : Text) : ((arguments .begins text).map weight).sum = yields 0 text := by
  induction hlength : text.length using Nat.strong_induction_on generalizing text with
  | _ length ih =>
    rw [← yields_dropWhile]
    cases hdrop : text.dropWhile isBlank with
    | nil =>
      rw [arguments_of_nil hdrop]
      rfl
    | cons c rest =>
      have hblank := isBlank_of_dropWhile hdrop
      have hle := (List.dropWhile_sublist (l := text) isBlank).length_le
      rw [hdrop, List.length_cons, hlength] at hle
      have hshort := lt_of_le_of_lt (@length_argument_cons .begins rest c hblank) hle
      have hweight := weight_argument false 0 [] (c :: rest)
      rw [arguments_of_cons hdrop, List.map_cons, List.sum_cons, ih _ hshort _ rfl, hweight, weight_nil, Nat.zero_add]

end

/-! ### With the name of the program -/

/-- The name of the program, and what is behind it: quotes begin and end stretches, and
nothing is escaped. -/
def program : Bool → Text → Text → Text × Text
  | _, name, [] => (name, [])
  | quoted, name, c :: rest =>
    if c = '"' then program (!quoted) name rest
    else if isBlank c && !quoted then (name, c :: rest)
    else program quoted (name ++ [c]) rest

/-- A command line as the C runtime takes it apart. -/
def split (text : Text) : List Text :=
  let r := program false [] text
  r.1 :: arguments (.literal true) r.2

theorem program_append {quoted : Bool} {name text behind : Text} (hquote : '"' ∉ text)
    (hblank : quoted = false → ∀ c ∈ text, isBlank c = false) :
    program quoted name (text ++ behind) = program quoted (name ++ text) behind := by
  induction text generalizing name with
  | nil => rw [List.append_nil, List.nil_append]
  | cons c text ih =>
    rw [List.mem_cons, not_or] at hquote
    obtain ⟨hc, hquote⟩ := hquote
    have hstays : (isBlank c && !quoted) = false := by
      cases quoted with
      | false => rw [hblank rfl c List.mem_cons_self]; rfl
      | true => exact Bool.and_false _
    rw [List.cons_append, program, if_neg (Ne.symm hc), hstays, if_neg Bool.false_ne_true,
      ih hquote fun h c hmem => hblank h c (List.mem_cons_of_mem _ hmem), List.append_assoc, List.singleton_append]

end CommandLine
