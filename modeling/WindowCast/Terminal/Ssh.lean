import WindowCast.Lib.Shell

/-!
# Commands of an SSH connection

What a command with its arguments becomes on its way to the shell of an SSH server: each word
in single quotes, and behind them, for an application that is launched, what puts it into the
background.

## Main definitions

* `quote`, `commandLine` — a word, and a command.
* `exec`, `launch` — the lines of a command that is run, and of an application that is launched.

## Main results

* `run_quote` — a word is read as it is.
* `commandLine_read` — **a shell reads the command as it is**, and nothing of it takes effect.
-/

namespace WindowCast.Terminal

open Shell (literal run tokens)

/-- Single-quotes `word` for a POSIX shell. -/
def quote (word : Text) : Text :=
  '\'' :: (word.flatMap fun c => if c = '\'' then ['\'', '\\', '\'', '\''] else [c]) ++ ['\'']

def commandLine (argv : List Text) : Text := [' '].intercalate (argv.map quote)

/-- The line of a command that is run. -/
def exec (argv : List Text) : Except Text Text :=
  if argv = [] then .error "no command".toList else .ok (commandLine argv)

/-- The line of an application that is launched. -/
def launch (argv : List Text) : Except Text Text :=
  if argv = [] then .error "no application".toList
  else .ok ("nohup ".toList ++ commandLine argv ++ " >/dev/null 2>&1 </dev/null & echo $!".toList)

/-- The word that is not quoted. -/
def bare (text : Text) : Shell.Token := .word (text.map .plain)

/-- What stands behind an application: where its output goes, and the report of its process. -/
def background : List Shell.Token :=
  [.operator ['>'], bare "/dev/null".toList, .ioNumber [.plain '2'], .operator ['>', '&'], bare ['1'], .operator ['<'],
    bare "/dev/null".toList, .operator ['&'], bare "echo".toList, .word [.expansion '$', .plain '!']]

/-- A shell reads the words of `argv`, each as it is and nothing of it taking effect, between
tokens of its own. -/
def Reads (line : Text) (ahead : List Shell.Token) (argv : List Text) (behind : List Shell.Token) : Prop :=
  ∃ words : List Shell.Word, tokens line = some (ahead ++ words.map .word ++ behind) ∧
    words.map Shell.quoteRemoval = argv ∧ ∀ word ∈ words, Shell.Inert word

section

variable {out : List Shell.Token}

/-- **A word is read as it is.** -/
theorem run_quote (out : List Shell.Token) (word : Text) :
    run ⟨.plain, .nothing, out⟩ (quote word) = ⟨.plain, .word (literal word), out⟩ := by
  have hopen : Shell.State.feed ⟨.plain, .nothing, out⟩ '\'' = ⟨.single, .word [], out⟩ := rfl
  rw [quote, List.cons_append, Shell.run_cons, hopen, Shell.run_append, Shell.run_replace, List.nil_append]
  rfl

theorem commandLine_append_singleton (argv : List Text) (word : Text) :
    commandLine (argv ++ [word]) = (argv.flatMap fun word => quote word ++ [' ']) ++ quote word := by
  induction argv with
  | nil => exact List.intercalate_singleton
  | cons first argv ih =>
    obtain ⟨second, rest, hrest⟩ := List.exists_cons_of_ne_nil (List.append_ne_nil_of_right_ne_nil argv (List.cons_ne_nil word []))
    have hstep : commandLine (first :: (argv ++ [word])) = quote first ++ [' '] ++ commandLine (argv ++ [word]) := by
      rw [hrest, commandLine, commandLine, List.map_cons, List.map_cons, List.intercalate_cons_cons]
    rw [List.cons_append, hstep, ih, List.flatMap_cons, List.append_assoc _ _ (quote word), List.append_assoc]

/-- A command is read up to its last word. -/
theorem run_commandLine (argv : List Text) (word : Text) :
    run ⟨.plain, .nothing, out⟩ (commandLine (argv ++ [word])) =
      ⟨.plain, .word (literal word), out ++ argv.map fun word => .word (literal word)⟩ := by
  rw [commandLine_append_singleton, Shell.run_append, Shell.run_words run_quote, run_quote]

theorem run_background (word : Shell.Word) :
    run ⟨.plain, .word word, out⟩ " >/dev/null 2>&1 </dev/null & echo $!".toList =
      ⟨.plain, .word [.expansion '$', .plain '!'], out ++ .word word :: background.dropLast⟩ := by
  have hblank : Shell.State.feed ⟨.plain, .word word, out⟩ ' ' = Shell.State.behind (out ++ [.word word]) {} :=
    congrArg (Shell.State.mk .plain .nothing) (List.append_nil _).symm
  have hline : " >/dev/null 2>&1 </dev/null & echo $!".toList = ' ' :: ">/dev/null 2>&1 </dev/null & echo $!".toList := by
    decide
  have hrun : run {} ">/dev/null 2>&1 </dev/null & echo $!".toList =
      ⟨.plain, .word [.expansion '$', .plain '!'], background.dropLast⟩ := by decide
  rw [hline, Shell.run_cons, hblank, Shell.run_behind, hrun, Shell.State.behind, List.append_assoc, List.singleton_append]

theorem reads_literal {line : Text} {ahead behind : List Shell.Token} {argv : List Text}
    (h : tokens line = some (ahead ++ argv.map (fun word => .word (literal word)) ++ behind)) :
    Reads line ahead argv behind := by
  refine ⟨argv.map literal, by rw [h, List.map_map]; rfl, ?_, fun word hword => ?_⟩
  · rw [List.map_map]
    exact (List.map_congr_left fun word _ => Shell.quoteRemoval_literal word).trans (List.map_id argv)
  · obtain ⟨text, -, rfl⟩ := List.mem_map.mp hword
    exact Shell.inert_literal text

/-- **A shell reads the command as it is**, and nothing of it takes effect: the words are those of
`argv`, each character of them quoted, and there is nothing else; and what is launched is such a
command behind `nohup`, with nothing behind it but what puts it into the background. -/
theorem commandLine_read (argv : List Text) :
    Reads (commandLine argv) [] argv [] ∧
      (∀ line ∈ (exec argv).toOption, Reads line [] argv []) ∧
        ∀ line ∈ (launch argv).toOption, Reads line [bare "nohup".toList] argv background := by
  rcases List.eq_nil_or_concat' argv with rfl | ⟨init, last, rfl⟩
  · exact ⟨reads_literal rfl, nofun, nofun⟩
  have hne : init ++ [last] ≠ [] := List.append_ne_nil_of_right_ne_nil init (List.cons_ne_nil last [])
  have hcommand : Reads (commandLine (init ++ [last])) [] (init ++ [last]) [] := by
    refine reads_literal ?_
    rw [tokens, run_commandLine, Shell.finish_word, List.map_append, List.append_nil, List.append_assoc]
    rfl
  refine ⟨hcommand, fun line hline => ?_, fun line hline => reads_literal ?_⟩
  · rw [exec, if_neg hne] at hline
    exact Option.some.inj hline ▸ hcommand
  · rw [launch, if_neg hne] at hline
    obtain rfl := Option.some.inj hline
    have hnohup : run {} "nohup ".toList = ⟨.plain, .nothing, [bare "nohup".toList]⟩ := by decide
    have hlast : background = background.dropLast ++ [.word [.expansion '$', .plain '!']] := rfl
    rw [tokens, Shell.run_append, Shell.run_append, hnohup, run_commandLine, run_background, Shell.finish_word,
      hlast, List.map_append]
    simp only [List.append_assoc, List.cons_append, List.nil_append, List.map_cons, List.map_nil, List.dropLast_concat]

end

end WindowCast.Terminal
