import WindowCast.Lib.Text

/-!
# Command lines of a POSIX shell

How a shell takes a command line apart: into words, the characters of which are quoted or
not, and operators.  What a shell goes on to expand, and what it takes for a word of its own
language, is never a character that is quoted.  Here-documents are left out.

## Main definitions

* `Shell.Part`, `Shell.Word` — a character of a word, and how it came to be there.
* `Shell.tokens` — the words and the operators of a line.
* `Shell.quoteRemoval`, `Shell.Inert` — what remains of a word, and words in which nothing takes effect.

## Main results

* `Shell.run_replace` — **between single quotes every character but them stands for itself**, and
  they do where each is written `'\''`.
* `Shell.run_words` — words in such quotes are read one by one.
-/

namespace Shell

/-- A character of a word. -/
inductive Part
  /-- It stands for itself, whatever it is. -/
  | quoted (c : Char)
  /-- It is not quoted: part of a pattern, of a tilde prefix, of an assignment, of a reserved word. -/
  | plain (c : Char)
  /-- It begins an expansion or a substitution. -/
  | expansion (c : Char)
  deriving DecidableEq, Repr

abbrev Word := List Part

inductive Token
  | word (word : Word)
  /-- The digits right before a redirection. -/
  | ioNumber (digits : Word)
  | operator (text : Text)
  deriving DecidableEq, Repr

/-- The operators, the newline among them. -/
def OPERATORS : List Text :=
  [['&'], ['|'], [';'], ['<'], ['>'], ['('], [')'], ['\n'], ['&', '&'], ['|', '|'], [';', ';'], ['<', '<'], ['>', '>'],
    ['<', '&'], ['>', '&'], ['<', '>'], ['<', '<', '-'], ['>', '|']]

inductive Mode
  | plain
  | escaped
  | single
  | double
  | doubleEscaped
  | comment
  deriving DecidableEq, Repr

/-- What is being read. -/
inductive Pending
  | nothing
  | word (word : Word)
  | operator (text : Text)
  deriving DecidableEq, Repr

structure State where
  mode : Mode := .plain
  pending : Pending := .nothing
  tokens : List Token := []
  deriving DecidableEq, Repr

def isBlank (c : Char) : Bool := c = ' ' || c = '\t'

def isDigit : Part → Bool
  | .plain c => c.isDigit
  | _ => false

namespace State

/-- What was being read ends. -/
def flush (s : State) : State :=
  match s.pending with
  | .nothing => s
  | .word word => { s with pending := .nothing, tokens := s.tokens ++ [.word word] }
  | .operator text => { s with pending := .nothing, tokens := s.tokens ++ [.operator text] }

/-- A word goes on, or begins. -/
def push (s : State) (parts : Word) : State :=
  match s.pending with
  | .word word => { s with pending := .word (word ++ parts) }
  | _ => { s.flush with pending := .word parts }

/-- An operator begins; digits right before a redirection are a number. -/
def operate (s : State) (c : Char) : State :=
  match s.pending with
  | .word word =>
    if (c = '<' || c = '>') && word ≠ [] && word.all isDigit then
      { s with pending := .operator [c], tokens := s.tokens ++ [.ioNumber word] }
    else { s.flush with pending := .operator [c] }
  | _ => { s.flush with pending := .operator [c] }

def inWord (s : State) : Bool :=
  match s.pending with
  | .word _ => true
  | _ => false

/-- Texts that are told apart are different. -/
local instance lawfulTexts : LawfulBEq (List Char) := inferInstance

/-- A character that is not quoted, and that no operator goes on with. -/
def feedPlain (s : State) (c : Char) : State :=
  if c = '\'' then { s.push [] with mode := .single }
  else if c = '"' then { s.push [] with mode := .double }
  else if c = '\\' then { s with mode := .escaped }
  else if c = '#' && !s.inWord then { s.flush with mode := .comment }
  else if isBlank c then s.flush
  else if [c] ∈ OPERATORS then s.operate c
  else if c = '$' || c = '`' then s.push [.expansion c]
  else s.push [.plain c]

def feed (s : State) (c : Char) : State :=
  match s.mode with
  | .plain =>
    match s.pending with
    | .operator text =>
      if text ++ [c] ∈ OPERATORS then { s with pending := .operator (text ++ [c]) } else s.feedPlain c
    | _ => s.feedPlain c
  -- a newline that is escaped is none
  | .escaped => if c = '\n' then { s with mode := .plain } else { s.push [.quoted c] with mode := .plain }
  | .single => if c = '\'' then { s with mode := .plain } else s.push [.quoted c]
  | .double =>
    if c = '"' then { s with mode := .plain }
    else if c = '\\' then { s with mode := .doubleEscaped }
    else if c = '$' || c = '`' then s.push [.expansion c]
    else s.push [.quoted c]
  | .doubleEscaped =>
    if c = '\n' then { s with mode := .double }
    else if c = '$' || c = '`' || c = '"' || c = '\\' then { s.push [.quoted c] with mode := .double }
    else { s.push [.quoted '\\', .quoted c] with mode := .double }
  | .comment => if c = '\n' then { s with mode := .plain, pending := .operator [c] } else s

/-- The tokens, unless a quote is open. -/
def finish (s : State) : Option (List Token) :=
  match s.mode with
  | .plain | .comment => some s.flush.tokens
  | .escaped => some (s.push [.quoted '\\']).flush.tokens
  | .single | .double | .doubleEscaped => none

end State

def run (s : State) (text : Text) : State := text.foldl State.feed s

/-- The words and the operators of a line. -/
def tokens (line : Text) : Option (List Token) := (run {} line).finish

def Part.char : Part → Char
  | .quoted c | .plain c | .expansion c => c

/-- What remains of a word. -/
def quoteRemoval (word : Word) : Text := word.map Part.char

/-- A word in which nothing takes effect. -/
def Inert (word : Word) : Prop := ∀ part ∈ word, ∃ c, part = .quoted c

/-- The word that is the text as it is. -/
def literal (text : Text) : Word := text.map Part.quoted

theorem inert_literal (text : Text) : Inert (literal text) := by
  intro part h
  obtain ⟨c, -, rfl⟩ := List.mem_map.mp h
  exact ⟨c, rfl⟩

@[simp] theorem quoteRemoval_literal (text : Text) : quoteRemoval (literal text) = text := by
  rw [quoteRemoval, literal, List.map_map]
  exact List.map_id text

section

variable {s : State} {out : List Token} {word : Word} {line line' : Text} {c : Char}

theorem run_append (s : State) (line line' : Text) : run s (line ++ line') = run (run s line) line' := List.foldl_append

theorem run_cons (s : State) (c : Char) (line : Text) : run s (c :: line) = run (s.feed c) line := rfl

/-- What has been read before stays ahead. -/
def State.behind (out : List Token) (s : State) : State := { s with tokens := out ++ s.tokens }

@[simp] theorem flush_behind (out : List Token) (s : State) : (s.behind out).flush = s.flush.behind out := by
  obtain ⟨mode, pending, tokens⟩ := s
  cases pending with
  | nothing => rfl
  | word word => simp only [State.flush, State.behind, List.append_assoc]
  | operator text => simp only [State.flush, State.behind, List.append_assoc]

@[simp] theorem push_behind (out : List Token) (s : State) (parts : Word) :
    (s.behind out).push parts = (s.push parts).behind out := by
  obtain ⟨mode, pending, tokens⟩ := s
  cases pending with
  | nothing => rfl
  | word word => rfl
  | operator text => simp only [State.push, State.flush, State.behind, List.append_assoc]

@[simp] theorem operate_behind (out : List Token) (s : State) (c : Char) :
    (s.behind out).operate c = (s.operate c).behind out := by
  obtain ⟨mode, pending, tokens⟩ := s
  cases pending with
  | nothing => rfl
  | word word =>
    simp only [State.operate, State.flush, State.behind]
    split <;> simp only [List.append_assoc]
  | operator text => simp only [State.operate, State.flush, State.behind, List.append_assoc]

theorem feedPlain_behind (out : List Token) (s : State) (c : Char) :
    (s.behind out).feedPlain c = (s.feedPlain c).behind out := by
  have hword : (s.behind out).inWord = s.inWord := rfl
  simp only [State.feedPlain, push_behind, flush_behind, operate_behind, hword]
  split_ifs <;> rfl

theorem feed_behind (out : List Token) (s : State) (c : Char) : (s.behind out).feed c = (s.feed c).behind out := by
  obtain ⟨mode, pending, tokens⟩ := s
  have hpush (parts : Word) := push_behind out ⟨mode, pending, tokens⟩ parts
  have hplain := feedPlain_behind out ⟨mode, pending, tokens⟩ c
  unfold State.feed
  cases mode with
  | plain =>
    cases pending with
    | nothing => exact hplain
    | word word => exact hplain
    | operator text =>
      dsimp only [State.behind]
      split
      · rfl
      · exact hplain
  | comment =>
    dsimp only [State.behind]
    split_ifs <;> rfl
  | _ =>
    simp only [State.behind] at hpush ⊢
    simp only [hpush]
    split_ifs <;> rfl

/-- What has been read before changes nothing. -/
theorem run_behind (out : List Token) (s : State) (line : Text) : run (s.behind out) line = (run s line).behind out := by
  induction line generalizing s with
  | nil => rfl
  | cons c line ih => rw [run_cons, run_cons, feed_behind, ih]

theorem finish_word (word : Word) (out : List Token) :
    State.finish ⟨.plain, .word word, out⟩ = some (out ++ [.word word]) := rfl

theorem feed_single (h : c ≠ '\'') :
    State.feed ⟨.single, .word word, out⟩ c = ⟨.single, .word (word ++ [.quoted c]), out⟩ := if_neg h

/-- A quote within a word opens a quoted stretch of it. -/
theorem feed_open (word : Word) : State.feed ⟨.plain, .word word, out⟩ '\'' = ⟨.single, .word word, out⟩ :=
  congrArg (fun word => State.mk .single (.word word) out) (List.append_nil word)

/-- **Between single quotes every character but them stands for itself.** -/
theorem run_replace (word : Word) (text : Text) :
    run ⟨.single, .word word, out⟩ (text.flatMap fun c => if c = '\'' then ['\'', '\\', '\'', '\''] else [c]) =
      ⟨.single, .word (word ++ literal text), out⟩ := by
  induction text generalizing word with
  | nil =>
    rw [literal, List.map_nil, List.append_nil]
    rfl
  | cons c text ih =>
    have hword : word ++ literal (c :: text) = word ++ [.quoted c] ++ literal text := by
      rw [List.append_assoc]
      rfl
    rw [List.flatMap_cons, run_append, hword, ← ih]
    by_cases hc : c = '\''
    · -- the stretch ends, the quote is escaped, and another stretch begins
      have hstretch : run ⟨.single, .word word, out⟩ ['\'', '\\', '\'', '\''] =
          ⟨.single, .word (word ++ [Part.quoted '\'']), out⟩ := feed_open (word ++ [Part.quoted '\''])
      rw [if_pos hc, hc, hstretch]
    · rw [if_neg hc, run_cons, feed_single hc]
      rfl

/-- Words that are read as they are, a blank behind each, are read one by one. -/
theorem run_words {write : Text → Text} (hwrite : ∀ out text,
      run ⟨.plain, .nothing, out⟩ (write text) = ⟨.plain, .word (literal text), out⟩) (argv : List Text) :
    run ⟨.plain, .nothing, out⟩ (argv.flatMap fun text => write text ++ [' ']) =
      ⟨.plain, .nothing, out ++ argv.map fun text => .word (literal text)⟩ := by
  induction argv generalizing out with
  | nil => rw [List.map_nil, List.append_nil]; rfl
  | cons text argv ih =>
    have hblank : run ⟨.plain, .nothing, out⟩ (write text ++ [' ']) =
        ⟨.plain, .nothing, out ++ [.word (literal text)]⟩ := by
      rw [run_append, hwrite]
      rfl
    rw [List.flatMap_cons, run_append, hblank, ih, List.map_cons, List.append_assoc]
    rfl

end

end Shell
