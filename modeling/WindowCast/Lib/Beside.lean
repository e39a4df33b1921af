import Mathlib

/-!
# A file that is written beside and renamed over

What is to be in a file is written under another name beside it, and that is renamed
over it.  Everyone who writes uses the same name beside it.

## Main definitions

* `Beside` — the file, and what is beside it.
* `Beside.write`, `Beside.rename` — the two steps of a save, each of which can fail.

## Main results

* `Beside.file_write` — the first step leaves the file alone.
* `Beside.rename_write` — **the two steps, one behind the other, put the whole text in
  place**.
-/

/-- What is under a name: a whole text, or what was written of one. -/
inductive Written (α : Type)
  | whole (text : α)
  | torn
  deriving DecidableEq

/-- What comes of writing: the text, a part of it and an error, or an error alone. -/
inductive Writing
  | ok
  | cut
  | refused
  deriving DecidableEq

/-- A file, and the one beside it. -/
structure Beside (α : Type) where
  file : Option (Written α)
  temp : Option (Written α)
  deriving DecidableEq

namespace Beside

variable {α : Type}

/-- What the file holds, if it is a text. -/
def text (self : Beside α) : Option α :=
  match self.file with
  | some (.whole text) => some text
  | _ => none

/-- A text is written beside the file. -/
def write (self : Beside α) (text : α) : Writing → Beside α
  | .ok => { self with temp := some (.whole text) }
  | .cut => { self with temp := some .torn }
  | .refused => self

/-- What is beside the file is renamed over it, if there is something. -/
def rename (self : Beside α) : Option (Beside α) := self.temp.map fun written => ⟨some written, none⟩

@[simp] theorem file_write (self : Beside α) (text : α) (writing : Writing) :
    (self.write text writing).file = self.file := by
  cases writing <;> rfl

@[simp] theorem text_write (self : Beside α) (text : α) (writing : Writing) :
    (self.write text writing).text = self.text := by
  rw [Beside.text, Beside.text, file_write]

@[simp] theorem temp_write_ok (self : Beside α) (text : α) : (self.write text .ok).temp = some (.whole text) := rfl

/-- The whole text is put in place, where it is what is beside the file. -/
theorem rename_of_whole {self : Beside α} {text : α} (h : self.temp = some (.whole text)) :
    self.rename = some ⟨some (.whole text), none⟩ := by
  rw [rename, h]
  rfl

theorem rename_write (self : Beside α) (text : α) :
    (self.write text .ok).rename = some ⟨some (.whole text), none⟩ := rename_of_whole (temp_write_ok self text)

end Beside
