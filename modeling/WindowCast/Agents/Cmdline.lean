import WindowCast.Lib.CommandLine

/-!
# The command line of a launched program

What the agent for Windows makes of a list of words: one command line, which the program's
runtime takes apart again.

## Main definitions

* `quote`, `join` — an argument, and the whole command line.

## Main results

* `readBack_quote` — an argument is read back as it was.
* `split_join` — **the command line is taken apart into the words it was made of**.
-/

namespace WindowCast.Agents

open CommandLine (Doubled ReadBack argument isBlank)

/-- The characters that an argument is quoted for. -/
def isSpecial (c : Char) : Bool := c = ' ' || c = '\t' || c = '\n' || c = '\x0b' || c = '"'

/-- The rest of a quoted argument, behind so many backslashes. -/
def quoteLoop : ℕ → Text → Text
  -- backslashes before the closing quote are doubled
  | backslashes, [] => List.replicate (backslashes * 2) '\\' ++ ['"']
  | backslashes, '\\' :: rest => quoteLoop (backslashes + 1) rest
  | backslashes, '"' :: rest => List.replicate (backslashes * 2 + 1) '\\' ++ '"' :: quoteLoop 0 rest
  | backslashes, c :: rest => List.replicate backslashes '\\' ++ c :: quoteLoop 0 rest

def quote (arg : Text) : Text :=
  if arg ≠ [] ∧ arg.any isSpecial = false then arg else '"' :: quoteLoop 0 arg

/-- The program name is only quoted: nothing is escaped in it. -/
def quoteProgram (arg : Text) : Text :=
  if arg = [] ∨ arg.any isBlank = true then '"' :: arg ++ ['"'] else arg

/-- The command line that programs of Windows take apart into `argv`. -/
def join : List Text → Text
  | [] => []
  | program :: args => quoteProgram program ++ args.flatMap fun arg => ' ' :: quote arg

section

variable {doubled : Doubled} {behind : Text}

/-- Behind backslashes, the rest of a quoted argument is read back. -/
theorem argument_quoteLoop (hbehind : behind = [] ∨ ∃ rest, behind = ' ' :: rest) (n : ℕ) (arg text : Text) :
    argument doubled true 0 arg (quoteLoop n text ++ behind) =
      (arg ++ List.replicate n '\\' ++ text, behind) := by
  have hhead : behind.head? ≠ some '"' := by
    rcases hbehind with rfl | ⟨rest, rfl⟩ <;> nofun
  fun_induction quoteLoop n text generalizing arg with
  | case1 n =>
    rw [List.append_assoc, CommandLine.argument_replicate, Nat.zero_add, Nat.mul_comm, List.singleton_append,
      CommandLine.argument_ends n hhead, CommandLine.argument_behind hbehind, List.replicate_zero]
  | case2 n rest ih =>
    rw [ih, List.replicate_succ', List.append_assoc, List.append_assoc, List.append_assoc, List.singleton_append]
  | case3 n rest ih =>
    rw [List.append_assoc, CommandLine.argument_replicate, Nat.zero_add, Nat.mul_comm, List.cons_append,
      CommandLine.argument_escaped, ih, List.replicate_zero]
    simp only [List.append_nil, List.append_assoc, List.singleton_append]
  | case4 n c rest hback hquote ih =>
    rw [List.append_assoc, CommandLine.argument_replicate, Nat.zero_add, List.cons_append,
      CommandLine.argument_cons hback hquote, Bool.not_true, Bool.and_false, if_neg Bool.false_ne_true, ih,
      List.replicate_zero]
    simp only [List.append_nil, List.append_assoc, List.singleton_append]

theorem isBlank_of_isSpecial {c : Char} (h : isSpecial c = false) : isBlank c = false ∧ c ≠ '"' := by
  simp only [isSpecial, Bool.or_eq_false_iff, decide_eq_false_iff_not] at h
  obtain ⟨⟨⟨⟨hspace, htab⟩, -⟩, -⟩, hquote⟩ := h
  refine ⟨?_, hquote⟩
  rw [isBlank, decide_eq_false hspace, decide_eq_false htab]
  rfl

/-- **An argument is read back as it was**, whatever two quotes in a row are. -/
theorem readBack_quote (arg : Text) : ReadBack doubled (quote arg) arg := by
  unfold quote
  split
  · rename_i h
    refine CommandLine.readBack_plain h.1 fun c hc => isBlank_of_isSpecial ?_
    exact Bool.eq_false_iff.mpr (List.any_eq_false.mp h.2 c hc)
  · refine ⟨⟨'"', _, rfl, rfl⟩, fun behind hbehind => ?_⟩
    rw [List.cons_append]
    refine (CommandLine.argument_begins 0).trans ?_
    exact argument_quoteLoop hbehind 0 [] arg

/-- The program's name is read as it is given. -/
theorem program_quoteProgram {name : Text} (hquote : '"' ∉ name) (hbehind : behind = [] ∨ ∃ rest, behind = ' ' :: rest) :
    CommandLine.program false [] (quoteProgram name ++ behind) = (name, behind) := by
  have hends : ∀ name, CommandLine.program false name behind = (name, behind) := by
    intro name
    rcases hbehind with rfl | ⟨rest, rfl⟩ <;> rfl
  unfold quoteProgram
  split
  · have hinside := @CommandLine.program_append true [] _ ('"' :: behind) hquote nofun
    rw [List.append_assoc, List.singleton_append, List.cons_append]
    exact hinside.trans (hends name)
  · rename_i h
    rw [not_or] at h
    have hblank : ∀ c ∈ name, isBlank c = false := fun c hc =>
      Bool.eq_false_iff.mpr fun hblank => h.2 (List.any_eq_true.mpr ⟨c, hc, hblank⟩)
    rw [CommandLine.program_append hquote fun _ => hblank]
    exact hends name

/-- **The command line is taken apart into the words it was made of**, where the name of the
program has no quote in it. -/
theorem split_join (program : Text) (args : List Text) (hquote : '"' ∉ program) :
    CommandLine.split (join (program :: args)) = program :: args := by
  rw [CommandLine.split, join, program_quoteProgram hquote (CommandLine.line_behind quote args),
    CommandLine.arguments_line fun arg _ => readBack_quote arg]

/-- A path with spaces, quotes within an argument, and a backslash at the end of one. -/
theorem split_join_path :
    CommandLine.split (join ["C:\\Program Files\\x.exe".toList, "a\\\"b c".toList, [], "C:\\with space\\".toList]) =
      ["C:\\Program Files\\x.exe".toList, "a\\\"b c".toList, [], "C:\\with space\\".toList] :=
  split_join _ _ (by decide)

end

end WindowCast.Agents
