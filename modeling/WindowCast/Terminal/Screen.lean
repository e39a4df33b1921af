import WindowCast.Lib.Text

/-!
# What a viewer draws

A snapshot of the emulator's screen: every row as runs of cells with one look, the cursor,
and the modes that change what the viewer sends.

## Main definitions

* `Screen`, `Cell` — the emulator's screen.
* `color`, `palette` — the colours of cells.
* `rowRuns`, `snapshot` — a row, and all that a viewer draws.

## Main results

* `text_rowRuns` — **the runs of a row are its cells' text**.
* `isChain_rowRuns` — two runs next to each other look different.
-/

namespace WindowCast.Terminal

/-- The colour of a cell. -/
inductive Color
  | default
  | idx (i : UInt8)
  | rgb (r g b : UInt8)
  deriving DecidableEq, Repr

def BASE : List ℕ :=
  [0x000000, 0xcd0000, 0x00cd00, 0xcdcd00, 0x0000ee, 0xcd00cd, 0x00cdcd, 0xe5e5e5, 0x7f7f7f, 0xff0000, 0x00ff00,
    0xffff00, 0x5c5cff, 0xff00ff, 0x00ffff, 0xffffff]

def level (v : ℕ) : ℕ := if v = 0 then 0 else 55 + v * 40

def palette (index : UInt8) : ℕ :=
  let i := index.toNat
  if i ≤ 15 then BASE.getD i 0
  else if i ≤ 231 then
    let n := i - 16
    level (n / 36) <<< 16 ||| level (n / 6 % 6) <<< 8 ||| level (n % 6)
  else
    let v := 8 + (i - 232) * 10
    v <<< 16 ||| v <<< 8 ||| v

def color : Color → Option ℕ
  | .default => none
  | .idx i => some (palette i)
  | .rgb r g b => some (r.toNat <<< 16 ||| g.toNat <<< 8 ||| b.toNat)

structure Cell where
  /-- Empty for a cell that nothing was written to. -/
  contents : Text
  isWideContinuation : Bool
  fgcolor : Color
  bgcolor : Color
  bold : Bool
  italic : Bool
  underline : Bool
  inverse : Bool
  deriving DecidableEq, Repr

structure Screen where
  rows : ℕ
  cols : ℕ
  cell : ℕ → ℕ → Option Cell
  hideCursor : Bool
  cursorPosition : ℕ × ℕ
  alternateScreen : Bool
  /-- How far the view is scrolled back, in lines. -/
  scrollback : ℕ

/-- What the cells of a run have in common. -/
structure Look where
  fg : Option ℕ
  bg : Option ℕ
  bold : Bool
  italic : Bool
  underline : Bool
  inverse : Bool
  deriving DecidableEq, Repr

structure Run where
  text : Text
  look : Look
  deriving DecidableEq, Repr

structure Snapshot where
  cols : ℕ
  rows : ℕ
  lines : List (List Run)
  cursor : Option (ℕ × ℕ)
  alternateScreen : Bool
  scrollback : ℕ
  version : ℕ
  deriving DecidableEq, Repr

def Cell.text (cell : Cell) : Text := if cell.contents = [] then [' '] else cell.contents

def Cell.look (cell : Cell) : Look :=
  ⟨color cell.fgcolor, color cell.bgcolor, cell.bold, cell.italic, cell.underline, cell.inverse⟩

/-- One cell more: in the last run, if it looks the same. -/
def addCell (runs : List Run) (cell : Cell) : List Run :=
  match runs.getLast? with
  | some last =>
    if last.look = cell.look then runs.dropLast ++ [{ last with text := last.text ++ cell.text }]
    else runs ++ [⟨cell.text, cell.look⟩]
  | none => runs ++ [⟨cell.text, cell.look⟩]

/-- The cells of a row that are drawn. -/
def Screen.drawn (screen : Screen) (row : ℕ) : List Cell :=
  ((List.range screen.cols).filterMap (screen.cell row)).filter fun cell => !cell.isWideContinuation

def rowRuns (screen : Screen) (row : ℕ) : List Run := (screen.drawn row).foldl addCell []

def snapshot (version : ℕ) (screen : Screen) : Snapshot where
  cols := screen.cols
  rows := screen.rows
  lines := (List.range screen.rows).map (rowRuns screen)
  cursor := if !screen.hideCursor && screen.scrollback = 0 then some screen.cursorPosition else none
  alternateScreen := screen.alternateScreen
  scrollback := screen.scrollback
  version

section

variable {runs : List Run} {cell : Cell}

theorem text_addCell (runs : List Run) (cell : Cell) :
    (addCell runs cell).flatMap Run.text = runs.flatMap Run.text ++ cell.text := by
  unfold addCell
  split
  · rename_i last hlast
    split
    · have hruns := List.dropLast_append_getLast? last hlast
      conv_rhs => rw [← hruns]
      rw [List.flatMap_append, List.flatMap_append, List.flatMap_singleton, List.flatMap_singleton, List.append_assoc]
    · rw [List.flatMap_append, List.flatMap_singleton]
  · rw [List.flatMap_append, List.flatMap_singleton]

/-- **The runs of a row are its cells' text.** -/
theorem text_rowRuns (screen : Screen) (row : ℕ) :
    (rowRuns screen row).flatMap Run.text = (screen.drawn row).flatMap Cell.text := by
  have hfold (cells : List Cell) (runs : List Run) :
      (cells.foldl addCell runs).flatMap Run.text = runs.flatMap Run.text ++ cells.flatMap Cell.text := by
    induction cells generalizing runs with
    | nil => rw [List.foldl_nil, List.flatMap_nil, List.append_nil]
    | cons cell cells ih => rw [List.foldl_cons, ih, text_addCell, List.flatMap_cons, List.append_assoc]
  exact hfold _ []

/-- Two runs next to each other look different. -/
theorem isChain_addCell (h : runs.IsChain fun r s => r.look ≠ s.look) :
    (addCell runs cell).IsChain fun r s => r.look ≠ s.look := by
  unfold addCell
  split
  · rename_i last hlast
    obtain ⟨init, rfl⟩ := List.getLast?_eq_some_iff.mp hlast
    split
    · rw [List.dropLast_concat]
      obtain ⟨hinit, -, hne⟩ := List.isChain_append.mp h
      refine hinit.append (List.isChain_singleton _) fun r hr s hs => ?_
      obtain rfl := Option.some.inj hs
      exact hne r hr last rfl
    · rename_i hlook
      refine h.append (List.isChain_singleton _) fun r hr s hs => ?_
      obtain rfl := Option.some.inj hs
      obtain rfl := Option.some.inj (hlast.symm.trans hr)
      exact hlook
  · rename_i hnone
    rw [List.getLast?_eq_none_iff.mp hnone]
    exact List.isChain_singleton _

theorem isChain_rowRuns (screen : Screen) (row : ℕ) : (rowRuns screen row).IsChain fun r s => r.look ≠ s.look := by
  have hfold (cells : List Cell) (runs : List Run) (h : runs.IsChain fun r s => r.look ≠ s.look) :
      (cells.foldl addCell runs).IsChain fun r s => r.look ≠ s.look := by
    induction cells generalizing runs with
    | nil => exact h
    | cons cell cells ih => exact ih _ (isChain_addCell h)
  exact hfold _ [] List.IsChain.nil

end

end WindowCast.Terminal
