import WindowCast.Agents.Cmdline

/-!
# The arguments of a RemoteApp

What a RemoteApp is launched with: one text of arguments, which Windows takes apart by the
rules that `CommandLineToArgvW` documents.  An argument in quotes has its own quotes
escaped, and its backslashes left as they are.

## Main definitions

* `quote`, `arguments` — an argument, and the text that a RemoteApp is launched with.
* `Escapes` — a backslash that escapes a quote which it is not meant for.

## Main results

* `yields_quote` — what such backslashes cost.
* `arguments_iff` — **which arguments come back**.
-/

namespace WindowCast.Rdp

open CommandLine (Doubled ReadBack isBlank weight yields)

namespace Launch

/-- The characters that an argument is quoted for. -/
def isSpecial (c : Char) : Bool := c = ' ' || c = '\t' || c = '"'

/-- The text with each quote escaped. -/
def escaped (argument : Text) : Text := argument.flatMap fun c => if c = '"' then ['\\', '"'] else [c]

/-- Windows quotes an argument with spaces or quotes in it. -/
def quote (argument : Text) : Text :=
  if argument ≠ [] ∧ argument.any isSpecial = false then argument else '"' :: escaped argument ++ ['"']

/-- The text that a RemoteApp is launched with. -/
def arguments (args : List Text) : Text := List.intercalate [' '] (args.map quote)

/-- A backslash right before a quote, or at the end of an argument that is quoted. -/
def Escapes (argument : Text) : Prop :=
  ∃ before behind, argument = before ++ '\\' :: behind ∧
    (behind.head? = some '"' ∨ behind = [] ∧ argument.any isSpecial = true)

/-! ### What backslashes cost -/

/-- How many backslashes are lost in an argument in quotes, behind so many of them. -/
def lost : ℕ → Text → ℕ
  | n, [] => n
  | n, '\\' :: rest => lost (n + 1) rest
  | n, '"' :: rest => n + lost 0 rest
  | _, _ :: rest => lost 0 rest

/-- How many are lost in an argument. -/
def cost (argument : Text) : ℕ := if argument ≠ [] ∧ argument.any isSpecial = false then 0 else lost 0 argument

section

variable {behind : Text}

theorem escaped_cons {c : Char} {rest : Text} (hquote : c ≠ '"') : escaped (c :: rest) = c :: escaped rest := by
  rw [escaped, List.flatMap_cons, if_neg hquote]
  rfl

/-- Where none is lost, the quotes are those that the agent for Windows writes. -/
theorem escaped_of_lost {n : ℕ} {text : Text} (h : lost n text = 0) :
    Agents.quoteLoop n text = List.replicate n '\\' ++ escaped text ++ ['"'] := by
  fun_induction lost n text with
  | case1 n =>
    obtain rfl : n = 0 := h
    rfl
  | case2 n rest ih =>
    rw [Agents.quoteLoop, ih h, List.replicate_succ']
    simp only [escaped, List.flatMap_cons, List.append_assoc, List.singleton_append]
    rfl
  | case3 n rest ih =>
    obtain ⟨rfl, hrest⟩ := Nat.add_eq_zero_iff.mp h
    rw [Agents.quoteLoop, ih hrest]
    rfl
  | case4 n c rest hback hquote ih =>
    rw [Agents.quoteLoop, ih h, escaped_cons hquote]
    · simp only [List.replicate_zero, List.nil_append, List.append_assoc, List.cons_append]
    · exact hback
    · exact hquote

theorem yields_escaped (n : ℕ) (text : Text) :
    yields n (escaped text ++ '"' :: behind) + lost n text = 2 * n + weight text + yields 0 behind := by
  fun_induction lost n text with
  | case1 n =>
    have hend : yields n (escaped [] ++ '"' :: behind) = n + yields 0 behind := rfl
    rw [hend, CommandLine.weight_nil]
    omega
  | case2 n rest ih =>
    have hchar : yields n (escaped ('\\' :: rest) ++ '"' :: behind) = yields (n + 1) (escaped rest ++ '"' :: behind) :=
      rfl
    have hweight : weight ('\\' :: rest) = 2 + weight rest := CommandLine.weight_append ['\\'] rest
    rw [hchar, ih, hweight]
    omega
  | case3 n rest ih =>
    have hchar : yields n (escaped ('"' :: rest) ++ '"' :: behind) =
        n + 1 + yields 0 (escaped rest ++ '"' :: behind) := rfl
    have hweight : weight ('"' :: rest) = 1 + weight rest := CommandLine.weight_append ['"'] rest
    rw [hchar, hweight]
    omega
  | case4 n c rest hback hquote ih =>
    have hweight : weight (c :: rest) = weight [c] + weight rest := CommandLine.weight_append [c] rest
    rw [escaped_cons hquote, List.cons_append, CommandLine.yields_cons n hback hquote, hweight,
      CommandLine.weight_singleton hback hquote]
    omega

/-- An argument yields what it weighs, less what is lost in it. -/
theorem yields_quote (argument : Text) (hbehind : behind = [] ∨ ∃ rest, behind = ' ' :: rest) :
    yields 0 (quote argument ++ behind) + cost argument = weight argument + yields 0 behind := by
  unfold quote cost
  split
  · rename_i h
    have hquote : '"' ∉ argument := fun hmem => List.any_eq_false.mp h.2 '"' hmem rfl
    rw [CommandLine.yields_plain hquote hbehind 0]
    omega
  · have hquoted : yields 0 ('"' :: escaped argument ++ ['"'] ++ behind) =
        yields 0 (escaped argument ++ '"' :: behind) := by
      rw [List.append_assoc, List.cons_append, yields, Nat.zero_add]
      rfl
    rw [hquoted, yields_escaped]
    omega

theorem yields_line (args : List Text) :
    yields 0 (args.flatMap fun arg => ' ' :: quote arg) + (args.map cost).sum = (args.map weight).sum := by
  induction args with
  | nil => rfl
  | cons arg args ih =>
    have hfirst := yields_quote arg (CommandLine.line_behind quote args)
    rw [List.flatMap_cons, List.cons_append, CommandLine.yields_cons 0 (by decide) (by decide), List.map_cons,
      List.sum_cons, List.map_cons, List.sum_cons]
    omega

theorem yields_arguments (args : List Text) :
    yields 0 (arguments args) + (args.map cost).sum = (args.map weight).sum := by
  cases args with
  | nil => rfl
  | cons arg args =>
    have hline := yields_line (arg :: args)
    rw [List.flatMap_cons, List.cons_append, CommandLine.yields_cons 0 (by decide) (by decide), Nat.mul_zero,
      Nat.zero_add] at hline
    rw [arguments, List.map_cons, CommandLine.intercalate_cons, List.flatMap_map]
    exact hline

/-! ### Which backslashes are lost -/

/-- No backslash is right before a quote, or at the end. -/
def Kept (text : Text) : Prop :=
  ∀ before behind, text = before ++ '\\' :: behind → behind.head? ≠ some '"' ∧ behind ≠ []

theorem kept_cons {c : Char} {rest : Text} :
    Kept (c :: rest) ↔ (c = '\\' → rest.head? ≠ some '"' ∧ rest ≠ []) ∧ Kept rest := by
  constructor
  · intro h
    exact ⟨fun hc => h [] rest (hc ▸ rfl), fun before behind heq => h (c :: before) behind (heq ▸ rfl)⟩
  · rintro ⟨hc, hrest⟩ before behind heq
    cases before with
    | nil =>
      obtain ⟨rfl, rfl⟩ := List.cons.inj heq
      exact hc rfl
    | cons first before =>
      obtain ⟨-, rfl⟩ := List.cons.inj heq
      exact hrest before behind rfl

theorem lost_eq_zero {n : ℕ} {text : Text} :
    lost n text = 0 ↔ (0 < n → text.head? ≠ some '"' ∧ text ≠ []) ∧ Kept text := by
  fun_induction lost n text with
  | case1 n =>
    have hkept : Kept [] := fun before behind heq => absurd heq (by simp)
    simp only [hkept, and_true, ne_eq, not_true_eq_false, and_false, imp_false, Nat.pos_iff_ne_zero, not_not]
  | case2 n rest ih =>
    rw [ih, kept_cons]
    simp
  | case3 n rest ih =>
    rw [Nat.add_eq_zero_iff, ih, kept_cons]
    simp [Nat.pos_iff_ne_zero]
  | case4 n c rest hback hquote ih =>
    rw [ih, kept_cons]
    constructor
    · rintro ⟨-, hrest⟩
      exact ⟨fun _ => ⟨fun h => hquote (Option.some.inj h), List.cons_ne_nil _ _⟩, fun h => absurd h hback, hrest⟩
    · rintro ⟨-, -, hrest⟩
      exact ⟨fun h => absurd h (Nat.lt_irrefl 0), hrest⟩

theorem cost_eq_zero {argument : Text} : cost argument = 0 ↔ ¬ Escapes argument := by
  unfold cost
  split
  · rename_i h
    refine iff_of_true rfl ?_
    rintro ⟨before, behind, rfl, hhead | ⟨-, hspecial⟩⟩
    · have hmem : '"' ∈ before ++ '\\' :: behind :=
        List.mem_append_right _ (List.mem_cons_of_mem _ (List.mem_of_head? hhead))
      exact List.any_eq_false.mp h.2 '"' hmem rfl
    · exact Bool.eq_false_iff.mp h.2 hspecial
  · rename_i h
    rw [lost_eq_zero, and_iff_right fun h => absurd h (Nat.lt_irrefl 0)]
    constructor
    · rintro hkept ⟨before, behind, heq, hhead | ⟨hnil, -⟩⟩
      · exact (hkept before behind heq).1 hhead
      · exact (hkept before behind heq).2 hnil
    · intro hnot before behind heq
      refine ⟨fun hhead => hnot ⟨before, behind, heq, .inl hhead⟩, fun hnil => hnot ⟨before, behind, heq, .inr ⟨hnil, ?_⟩⟩⟩
      have hne : argument ≠ [] := heq ▸ by simp
      exact Bool.not_eq_false _ ▸ fun hplain => h ⟨hne, hplain⟩

/-- An argument of which nothing is lost is read back. -/
theorem readBack_quote {doubled : Doubled} {argument : Text} (h : cost argument = 0) :
    ReadBack doubled (quote argument) argument := by
  unfold cost at h
  unfold quote
  split
  · rename_i hplain
    refine CommandLine.readBack_plain hplain.1 fun c hc => ?_
    have hspecial : isSpecial c = false := Bool.eq_false_iff.mpr (List.any_eq_false.mp hplain.2 c hc)
    simp only [isSpecial, Bool.or_eq_false_iff, decide_eq_false_iff_not] at hspecial
    obtain ⟨⟨hspace, htab⟩, hquote⟩ := hspecial
    refine ⟨?_, hquote⟩
    rw [isBlank, decide_eq_false hspace, decide_eq_false htab]
    rfl
  · rename_i hplain
    rw [if_neg hplain] at h
    refine ⟨⟨'"', _, rfl, rfl⟩, fun behind hbehind => ?_⟩
    have hsame : '"' :: escaped argument ++ ['"'] = '"' :: Agents.quoteLoop 0 argument := by
      rw [escaped_of_lost h]
      rfl
    rw [hsame, List.cons_append]
    exact (CommandLine.argument_begins 0).trans (Agents.argument_quoteLoop hbehind 0 [] argument)

end

/-- **Which arguments come back.**  By the documented rules, the arguments of a RemoteApp are
taken apart into those it was launched with exactly if no backslash is right before a quote,
or at the end of an argument in quotes; and then they are whatever two quotes in a row are.
The arguments as the agent for Windows writes them always are. -/
theorem arguments_iff (args : List Text) :
    (CommandLine.arguments .begins (arguments args) = args ↔ ∀ arg ∈ args, ¬ Escapes arg) ∧
    (∀ doubled, (∀ arg ∈ args, ¬ Escapes arg) → CommandLine.arguments doubled (arguments args) = args) ∧
    ∀ doubled, CommandLine.arguments doubled (args.flatMap fun arg => ' ' :: Agents.quote arg) = args := by
  have henough : ∀ doubled, (∀ arg ∈ args, ¬ Escapes arg) → CommandLine.arguments doubled (arguments args) = args :=
    fun doubled h => CommandLine.arguments_intercalate fun arg harg => readBack_quote (cost_eq_zero.mpr (h arg harg))
  refine ⟨⟨fun heq => ?_, henough .begins⟩, henough, fun doubled =>
    CommandLine.arguments_line fun arg _ => Agents.readBack_quote arg⟩
  -- the arguments weigh what they did, so that nothing was lost
  have hweight := CommandLine.weight_arguments (arguments args)
  have hyields := yields_arguments args
  rw [heq] at hweight
  have hsum : (args.map cost).sum = 0 := by omega
  intro arg harg
  exact cost_eq_zero.mp (List.sum_eq_zero_iff.mp hsum (cost arg) (List.mem_map_of_mem harg))

/-- A path with a space that ends in a backslash does not come back. -/
theorem path_escapes : ¬ ∀ args : List Text, CommandLine.arguments .begins (arguments args) = args := by
  intro h
  have hread : CommandLine.arguments .begins (arguments ["a b\\".toList]) = ["a b\"".toList] := by
    have hline : (arguments ["a b\\".toList]).dropWhile isBlank = '"' :: "a b\\\"".toList := by decide
    have hfirst : CommandLine.argument .begins false 0 [] ('"' :: "a b\\\"".toList) = ("a b\"".toList, []) := by decide
    rw [CommandLine.arguments_of_cons hline, hfirst, CommandLine.arguments_of_nil rfl]
  exact absurd ((h ["a b\\".toList]).symm.trans hread) (by decide)

end Launch

end WindowCast.Rdp
