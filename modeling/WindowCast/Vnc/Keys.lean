import WindowCast.Stream.HeldInput

/-!
# A VNC viewer's keys

Keysyms as RFB sends them become windowcast input.  Printable characters are typed as
text; with Ctrl, Alt or the logo key held, letters and digits go as keys, so that
shortcuts work; the keys that are not characters always go as keys.  Whether a letter
is a key or text is decided at its press, and again at its release.

## Main definitions

* `Modifiers.event` — the input that one KeyEvent makes.
* `Reader.serve` — a viewer's KeyEvents, one behind the other.
* `Released` — every key code pressed for a keysym is released with it.
* `Steady` — a letter pressed as a key is let go of while a modifier is held.

## Main results

* `Modifiers.mem_event` — which key codes an event has, and that it says whether they
  are pressed.
* `Reader.Kept.serve` — what every KeyEvent preserves.
* `released_iff_steady` — **keys are released with their keysyms, and none stays down,
  exactly where every sequence is steady**.
-/

namespace WindowCast.Vnc

open WindowCast.Host (WindowId)
open WindowCast.Stream (InputEvent Input Item Down)

/-! ### Keysyms -/

/-- Keysyms that are keys, and their evdev codes. -/
def keys : List (UInt32 × UInt32) :=
  [(0xff08, 14),  -- BackSpace
   (0xff09, 15),  -- Tab
   (0xff0d, 28),  -- Return
   (0xff1b, 1),   -- Escape
   (0xffff, 111), -- Delete
   (0xff50, 102), -- Home
   (0xff51, 105), -- Left
   (0xff52, 103), -- Up
   (0xff53, 106), -- Right
   (0xff54, 108), -- Down
   (0xff55, 104), -- Page Up
   (0xff56, 109), -- Page Down
   (0xff57, 107), -- End
   (0xff63, 110), -- Insert
   (0xff67, 127), -- Menu
   (0xff8d, 96),  -- keypad Enter
   (0xffbe, 59),  -- F1
   (0xffbf, 60), (0xffc0, 61), (0xffc1, 62), (0xffc2, 63), (0xffc3, 64), (0xffc4, 65), (0xffc5, 66),
   (0xffc6, 67),
   (0xffc7, 68),  -- F10
   (0xffc8, 87),  -- F11
   (0xffc9, 88),  -- F12
   (0xffe1, 42),  -- Shift (left)
   (0xffe2, 54),  -- Shift (right)
   (0xffe3, 29),  -- Control (left)
   (0xffe4, 97),  -- Control (right)
   (0xffe9, 56),  -- Alt (left)
   (0xffea, 100), -- Alt (right)
   (0xffeb, 125), -- logo (left)
   (0xffec, 126)] -- logo (right)

/-- Letters a to z on a US layout, as evdev codes. -/
def letters : Vector UInt32 26 :=
  #v[30, 48, 46, 32, 18, 33, 34, 35, 23, 36, 37, 38, 50, 49, 24, 25, 16, 19, 31, 20, 22, 47, 17, 45,
    21, 44]

/-- The key a letter or digit is on, for shortcuts. -/
def shortcutKey (c : Char) : Option UInt32 :=
  let l := c.toLower
  if 'a' ≤ l ∧ l ≤ 'z' then letters[l.toNat - 'a'.toNat]?
  else if l = '0' then some 11
  else if '1' ≤ l ∧ l ≤ '9' then some (UInt32.ofNat (l.toNat - '1'.toNat) + 2)
  else if l = ' ' then some 57
  else none

/-- The character with a code point, if it is one of a character. -/
def fromU32 (code : UInt32) : Option Char := if h : code.isValidChar then some ⟨code, h⟩ else none

/-- The character a keysym types, if it is one: Latin-1 directly, the rest of Unicode as
0x01000000 plus the code point. -/
def character (keysym : UInt32) : Option Char :=
  if 0x20 ≤ keysym ∧ keysym ≤ 0x7e ∨ 0xa0 ≤ keysym ∧ keysym ≤ 0xff then fromU32 keysym
  else if 0x01000000 ≤ keysym ∧ keysym ≤ 0x0110ffff then fromU32 (keysym - 0x01000000)
  else none

/-! ### The input that one KeyEvent makes -/

/-- Which modifiers the viewer holds. -/
structure Modifiers where
  control : Bool
  alt : Bool
  logo : Bool
  deriving DecidableEq, Repr

namespace Modifiers

def default : Modifiers := ⟨false, false, false⟩

/-- A modifier's own keysym sets it. -/
def note (self : Modifiers) (keysym : UInt32) (down : Bool) : Modifiers :=
  if keysym = 0xffe3 ∨ keysym = 0xffe4 then { self with control := down }
  else if keysym = 0xffe9 ∨ keysym = 0xffea then { self with alt := down }
  else if keysym = 0xffeb ∨ keysym = 0xffec then { self with logo := down }
  else self

def shortcut (self : Modifiers) : Bool := self.control || self.alt || self.logo

/-- The input one KeyEvent makes. -/
def event (self : Modifiers) (keysym : UInt32) (down : Bool) : Modifiers × List InputEvent :=
  let self := self.note keysym down
  (self, match keys.find? fun key => key.1 = keysym with
    | some (_, keycode) => [.key keycode down]
    | none =>
      match character keysym with
      | none => []
      | some c =>
        match if self.shortcut then shortcutKey c else none with
        | some keycode => [.key keycode down]
        | none => if down then [.text [c]] else [])

end Modifiers

/-- The key of a keysym that always goes as a key. -/
def ownKey (keysym : UInt32) : Option UInt32 := (keys.find? fun key => key.1 = keysym).map Prod.snd

/-- The key of a keysym that goes as a key only with a modifier held. -/
def letterKey (keysym : UInt32) : Option UInt32 :=
  if (ownKey keysym).isSome then none else (character keysym).bind shortcutKey

/-- A key code is in the input exactly if the keysym has it, in its own right or for a
modifier that is held; and it is pressed there exactly if the keysym is. -/
theorem Modifiers.mem_event {self : Modifiers} {keysym keycode : UInt32} {down pressed : Bool} :
    .key keycode pressed ∈ (self.event keysym down).2 ↔ pressed = down ∧
      (ownKey keysym = some keycode ∨
        letterKey keysym = some keycode ∧ (self.note keysym down).shortcut = true) := by
  have hmem : ∀ code : UInt32, .key keycode pressed ∈ [InputEvent.key code down] ↔ pressed = down ∧ code = keycode := by
    intro code
    rw [List.mem_singleton, InputEvent.key.injEq, and_comm, eq_comm (a := keycode)]
  unfold event letterKey ownKey
  dsimp only
  cases hkey : keys.find? fun key => key.1 = keysym with
  | some key => simp [hmem]
  | none =>
    cases hc : character keysym with
    | none => simp
    | some c =>
      cases hshortcut : (self.note keysym down).shortcut with
      | false => simp
      | true =>
        cases hletter : shortcutKey c with
        | none => simp [hletter]
        | some letter => simp [hletter, hmem]

theorem Modifiers.note_control {self : Modifiers} {keysym : UInt32} {down : Bool} :
    (self.note keysym down).control = if keysym ∈ [(0xffe3 : UInt32), 0xffe4] then down else self.control := by
  unfold note
  grind

theorem Modifiers.note_alt {self : Modifiers} {keysym : UInt32} {down : Bool} :
    (self.note keysym down).alt = if keysym ∈ [(0xffe9 : UInt32), 0xffea] then down else self.alt := by
  unfold note
  grind

theorem Modifiers.note_logo {self : Modifiers} {keysym : UInt32} {down : Bool} :
    (self.note keysym down).logo = if keysym ∈ [(0xffeb : UInt32), 0xffec] then down else self.logo := by
  unfold note
  grind

/-- The modifiers are no letters. -/
theorem Modifiers.note_of_letterKey {self : Modifiers} {keysym : UInt32} {down : Bool}
    (h : letterKey keysym ≠ none) : self.note keysym down = self := by
  have hmodifiers : ∀ modifier ∈ ([0xffe3, 0xffe4, 0xffe9, 0xffea, 0xffeb, 0xffec] : List UInt32),
      (ownKey modifier).isSome = true := by simp [ownKey, keys]
  have hnot : ∀ modifier ∈ ([0xffe3, 0xffe4, 0xffe9, 0xffea, 0xffeb, 0xffec] : List UInt32), keysym ≠ modifier := by
    intro modifier hmem heq
    rw [heq, letterKey, if_pos (hmodifiers modifier hmem)] at h
    exact h rfl
  simp only [List.mem_cons, List.not_mem_nil, or_false, forall_eq_or_imp, forall_eq] at hnot
  simp [note, hnot]

/-! ### A viewer's KeyEvents -/

structure KeyEvent where
  keysym : UInt32
  down : Bool
  deriving DecidableEq, Repr

/-- What reads a viewer's messages, for its window. -/
structure Reader where
  window : WindowId
  keys : Modifiers

/-- A KeyEvent, and the input it made. -/
abbrev Emission := KeyEvent × List Input

namespace Reader

def new (window : WindowId) : Reader := ⟨window, .default⟩

/-- One KeyEvent is read: what it makes goes to the window. -/
def keyEvent (self : Reader) (e : KeyEvent) : Reader × List Input :=
  let (keys, events) := self.keys.event e.keysym e.down
  ({ self with keys := keys }, events.map fun event => (event, some self.window))

/-- KeyEvents are read, behind others. -/
def serve (self : Reader × List Emission) (e : KeyEvent) : Reader × List Emission :=
  ((self.1.keyEvent e).1, self.2 ++ [(e, (self.1.keyEvent e).2)])

/-- All that a viewer's KeyEvents have made. -/
def history (window : WindowId) (es : List KeyEvent) : List Emission := (es.foldl serve (new window, [])).2

end Reader

/-- Whether a keysym is down: pressed, and not released since. -/
def IsDown (keysym : UInt32) (es : List KeyEvent) : Prop :=
  latest (fun e => if e.keysym = keysym then some e.down else none) es = some true

/-- The key codes that a keysym was pressed with since it was last released. -/
def pressedFor (keysym : UInt32) (history : List Emission) : List UInt32 :=
  history.foldl (fun codes e =>
    if e.1.keysym = keysym then
      if e.1.down then codes ++ e.2.filterMap fun event => match event.1 with
        | .key keycode true => some keycode
        | _ => none
      else []
    else codes) []

/-- With every release of a keysym, all the key codes that it was pressed with are
released. -/
def Released (history : List Emission) : Prop :=
  Run.Always (fun before e => e.1.down = false → ∀ keycode ∈ pressedFor e.1.keysym before,
    ∃ event ∈ e.2, event.1 = .key keycode false) history

/-! ### Where that holds -/

/-- Whether the viewer holds a modifier: of Ctrl, Alt or the logo key, left or right, the
last one that it pressed or released was pressed. -/
def Holding (es : List KeyEvent) : Prop :=
  ∃ modifier ∈ ([[0xffe3, 0xffe4], [0xffe9, 0xffea], [0xffeb, 0xffec]] : List (List UInt32)),
    latest (fun e => if e.keysym ∈ modifier then some e.down else none) es = some true

/-- Whether a keysym was pressed while a modifier was held, and not released since. -/
def pressedHolding (keysym : UInt32) (es : List KeyEvent) : Prop :=
  ∃ before after, es = before ++ ⟨keysym, true⟩ :: after ∧ Holding before ∧ ⟨keysym, false⟩ ∉ after

/-- A letter or digit that was pressed while a modifier was held is released while one is
held. -/
def Steady (es : List KeyEvent) : Prop :=
  Run.Always (fun before e => e.down = false → letterKey e.keysym ≠ none → pressedHolding e.keysym before →
    Holding before) es

/-! ### What every KeyEvent preserves -/

variable {keysym keycode : UInt32} {es : List KeyEvent} {history : List Emission}

theorem isDown_concat {e : KeyEvent} :
    IsDown keysym (es ++ [e]) ↔ if e.keysym = keysym then e.down = true else IsDown keysym es := by
  rw [IsDown, latest_concat]
  by_cases hkeysym : e.keysym = keysym
  · rw [if_pos hkeysym, if_pos hkeysym, Option.some_or, Option.some.injEq]
  · rw [if_neg hkeysym, if_neg hkeysym, Option.none_or]
    exact Iff.rfl

theorem pressedHolding_concat {e : KeyEvent} :
    pressedHolding keysym (es ++ [e]) ↔
      if e.keysym = keysym then e.down = true ∧ (Holding es ∨ pressedHolding keysym es)
      else pressedHolding keysym es := by
  have hsnoc : pressedHolding keysym (es ++ [e]) ↔
      e = ⟨keysym, true⟩ ∧ Holding es ∨ pressedHolding keysym es ∧ e ≠ ⟨keysym, false⟩ := by
    constructor
    · rintro ⟨before, after, heq, hholding, hnot⟩
      rcases List.eq_nil_or_concat after with rfl | ⟨after, e', rfl⟩
      · obtain ⟨rfl, he⟩ := List.append_inj' heq rfl
        cases he
        exact Or.inl ⟨rfl, hholding⟩
      · rw [List.concat_eq_append] at heq hnot
        rw [← List.cons_append, ← List.append_assoc] at heq
        obtain ⟨rfl, he⟩ := List.append_inj' heq rfl
        cases he
        rw [List.mem_append, List.mem_singleton, not_or] at hnot
        exact Or.inr ⟨⟨before, after, rfl, hholding, hnot.1⟩, fun he => hnot.2 he.symm⟩
    · rintro (⟨rfl, hholding⟩ | ⟨⟨before, after, rfl, hholding, hnot⟩, hne⟩)
      · exact ⟨es, [], rfl, hholding, List.not_mem_nil⟩
      · refine ⟨before, after ++ [e], by simp, hholding, ?_⟩
        rw [List.mem_append, List.mem_singleton, not_or]
        exact ⟨hnot, fun he => hne he.symm⟩
  obtain ⟨code, down⟩ := e
  rw [hsnoc]
  by_cases hkeysym : code = keysym <;> cases down <;> simp [hkeysym]

/-- The keys that an emission presses. -/
theorem mem_pressedFor_concat {e : Emission} :
    keycode ∈ pressedFor keysym (history ++ [e]) ↔
      if e.1.keysym = keysym then e.1.down = true ∧
        (keycode ∈ pressedFor keysym history ∨ ∃ event ∈ e.2, event.1 = .key keycode true)
      else keycode ∈ pressedFor keysym history := by
  rw [pressedFor, List.foldl_append, List.foldl_cons, List.foldl_nil, ← pressedFor]
  by_cases hkeysym : e.1.keysym = keysym
  · rw [if_pos hkeysym, if_pos hkeysym]
    cases e.1.down with
    | false => simp
    | true =>
      simp only [if_true, true_and, List.mem_append, List.mem_filterMap]
      refine or_congr_right (exists_congr fun event => and_congr_right fun _ => ?_)
      obtain ⟨event, focus⟩ := event
      cases event with
      | key code pressed => cases pressed <;> simp
      | _ => simp
  · rw [if_neg hkeysym, if_neg hkeysym]

namespace Reader

/-- What one KeyEvent makes has a key code exactly if the event of its keysym does. -/
theorem mem_keyEvent {self : Reader} {e : KeyEvent} {pressed : Bool} :
    (∃ event ∈ (self.keyEvent e).2, event.1 = .key keycode pressed) ↔
      pressed = e.down ∧ (ownKey e.keysym = some keycode ∨
        letterKey e.keysym = some keycode ∧ self.keys.shortcut = true) := by
  have hmem : (∃ event ∈ (self.keyEvent e).2, event.1 = .key keycode pressed) ↔
      .key keycode pressed ∈ (self.keys.event e.keysym e.down).2 := by
    simp [keyEvent]
  rw [hmem, Modifiers.mem_event]
  refine and_congr_right fun _ => or_congr_right (and_congr_right fun hletter => ?_)
  rw [Modifiers.note_of_letterKey (hletter ▸ Option.some_ne_none _)]

/-- What holds of a viewer's reader behind its KeyEvents. -/
structure Kept (es : List KeyEvent) (s : Reader × List Emission) : Prop where
  control : s.1.keys.control = true ↔
    latest (fun e : KeyEvent => if e.keysym ∈ [(0xffe3 : UInt32), 0xffe4] then some e.down else none) es = some true
  alt : s.1.keys.alt = true ↔
    latest (fun e : KeyEvent => if e.keysym ∈ [(0xffe9 : UInt32), 0xffea] then some e.down else none) es = some true
  logo : s.1.keys.logo = true ↔
    latest (fun e : KeyEvent => if e.keysym ∈ [(0xffeb : UInt32), 0xffec] then some e.down else none) es = some true
  /-- A keysym was pressed as a key: one with a key of its own, or a letter with a
  modifier held. -/
  pressed : ∀ keysym keycode, keycode ∈ pressedFor keysym s.2 ↔
    ownKey keysym = some keycode ∧ IsDown keysym es ∨
      letterKey keysym = some keycode ∧ pressedHolding keysym es
  released : Released s.2 ↔ Steady es
  /-- Where keys are released with their keysyms, one that is down has its keysym down. -/
  down : Released s.2 → ∀ keycode, Down (.key keycode) (s.2.flatMap Prod.snd) →
    ∃ keysym, IsDown keysym es ∧ keycode ∈ pressedFor keysym s.2

theorem Kept.new (window : WindowId) : Kept [] (new window, []) := by
  refine ⟨by simp [Reader.new, Modifiers.default], by simp [Reader.new, Modifiers.default],
    by simp [Reader.new, Modifiers.default], ?_, ?_, ?_⟩
  · intro keysym keycode
    simp [pressedFor, IsDown, pressedHolding]
  · exact iff_of_true Run.always_nil Run.always_nil
  · intro _ keycode hdown
    simp [Down] at hdown

theorem Kept.holding {s : Reader × List Emission} (h : Kept es s) : s.1.keys.shortcut = true ↔ Holding es := by
  simp [Modifiers.shortcut, Holding, h.control, h.alt, h.logo, or_assoc]

/-- A modifier's flag is what the last event of one of its keysyms said. -/
theorem latest_note {modifier : List UInt32} {flag : Bool} {e : KeyEvent}
    (h : flag = true ↔ latest (fun e : KeyEvent => if e.keysym ∈ modifier then some e.down else none) es = some true) :
    (if e.keysym ∈ modifier then e.down else flag) = true ↔
      latest (fun e : KeyEvent => if e.keysym ∈ modifier then some e.down else none) (es ++ [e]) = some true := by
  rw [latest_concat]
  by_cases hmem : e.keysym ∈ modifier
  · rw [if_pos hmem, if_pos hmem, Option.some_or, Option.some.injEq]
  · rw [if_neg hmem, if_neg hmem, Option.none_or]
    exact h

/-- What a release must release is what the keysym was pressed with, and a letter was
pressed as a key with a modifier held. -/
theorem Kept.pressed_serve {s : Reader × List Emission} (h : Kept es s) (e : KeyEvent) (keysym keycode : UInt32) :
    keycode ∈ pressedFor keysym (serve s e).2 ↔
      ownKey keysym = some keycode ∧ IsDown keysym (es ++ [e]) ∨
        letterKey keysym = some keycode ∧ pressedHolding keysym (es ++ [e]) := by
  rw [serve, mem_pressedFor_concat, isDown_concat, pressedHolding_concat, mem_keyEvent, h.pressed, h.holding]
  by_cases hkeysym : e.keysym = keysym
  · subst hkeysym
    cases e.down with
    | false => simp
    | true =>
      simp only [if_true, true_and, and_true]
      -- pressed once more, the key is pressed in any case
      by_cases hown : ownKey e.keysym = some keycode
      · simp [hown]
      · simp only [hown, false_and, false_or]
        rw [← and_or_left, or_comm]
  · simp only [if_neg hkeysym]

/-- A release gives back what the keysym was pressed with exactly where a letter was
pressed as a key only if a modifier is held now. -/
theorem Kept.release_iff {s : Reader × List Emission} (h : Kept es s) {e : KeyEvent} (hdown : e.down = false) :
    (∀ keycode ∈ pressedFor e.keysym s.2, ∃ event ∈ (s.1.keyEvent e).2, event.1 = .key keycode false) ↔
      (letterKey e.keysym ≠ none → pressedHolding e.keysym es → Holding es) := by
  constructor
  · intro hrelease hletter hpressed
    obtain ⟨letter, hletter⟩ := Option.ne_none_iff_exists'.mp hletter
    obtain ⟨-, hown | ⟨-, hshortcut⟩⟩ :=
      mem_keyEvent.mp (hrelease letter ((h.pressed _ _).mpr (Or.inr ⟨hletter, hpressed⟩)))
    · -- a letter has no key of its own
      rw [letterKey, hown, Option.isSome_some, if_pos rfl] at hletter
      cases hletter
    · exact h.holding.mp hshortcut
  · intro hsteady keycode hmem
    rw [mem_keyEvent, h.holding]
    rcases (h.pressed _ _).mp hmem with ⟨hown, -⟩ | ⟨hletter, hpressed⟩
    · exact ⟨hdown.symm, Or.inl hown⟩
    · exact ⟨hdown.symm, Or.inr ⟨hletter, hsteady (hletter ▸ Option.some_ne_none _) hpressed⟩⟩

/-- An event says that a key code is pressed, or released, if it is the key's. -/
theorem mark_key {event : InputEvent} {pressed : Bool} :
    event.mark (.key keycode) = some pressed ↔ event = .key keycode pressed := by
  cases event with
  | key code down =>
    rw [InputEvent.mark, Option.ite_none_right_eq_some, InputEvent.key.injEq]
    simp [InputEvent.item, InputEvent.presses]
  | _ => simp [InputEvent.mark, InputEvent.item]

/-- A key that is down behind a KeyEvent was pressed by it, or was down before and is not
released. -/
theorem down_serve {s : Reader × List Emission} {e : KeyEvent}
    (h : Down (.key keycode) ((serve s e).2.flatMap Prod.snd)) :
    (e.down = true ∧ ∃ event ∈ (s.1.keyEvent e).2, event.1 = .key keycode true) ∨
      Down (.key keycode) (s.2.flatMap Prod.snd) ∧
        ¬ ∃ event ∈ (s.1.keyEvent e).2, event.1 = .key keycode false := by
  rw [serve, List.flatMap_append, List.flatMap_singleton, Down, latest_append] at h
  -- all that one KeyEvent says of a key is that it is as the keysym is
  have hwords : ∀ event ∈ (s.1.keyEvent e).2, event.1.mark (.key keycode) = none ∨
      event.1.mark (.key keycode) = some e.down := by
    intro event hmem
    cases hmark : event.1.mark (.key keycode) with
    | none => exact Or.inl rfl
    | some pressed =>
      rw [(mem_keyEvent.mp ⟨event, hmem, mark_key.mp hmark⟩).1]
      exact Or.inr rfl
  by_cases hsome : ∃ event ∈ (s.1.keyEvent e).2, event.1.mark (.key keycode) = some e.down
  · rw [latest_eq_some hwords hsome, Option.some_or, Option.some.injEq] at h
    simp only [mark_key, h] at hsome
    exact Or.inl ⟨h, hsome⟩
  · have hnone : ∀ event ∈ (s.1.keyEvent e).2, event.1.mark (.key keycode) = none :=
      fun event hmem => (hwords event hmem).resolve_right fun hmark => hsome ⟨event, hmem, hmark⟩
    rw [latest_eq_none hnone, Option.none_or] at h
    refine Or.inr ⟨h, ?_⟩
    rintro ⟨event, hmem, hkey⟩
    have hmark := mark_key.mpr hkey
    rw [hnone event hmem] at hmark
    cases hmark

/-- Every KeyEvent preserves what holds of the reader. -/
theorem Kept.serve {s : Reader × List Emission} (h : Kept es s) (e : KeyEvent) : Kept (es ++ [e]) (serve s e) where
  control := by
    rw [← latest_note h.control]
    exact Iff.of_eq (congrArg (· = true) Modifiers.note_control)
  alt := by
    rw [← latest_note h.alt]
    exact Iff.of_eq (congrArg (· = true) Modifiers.note_alt)
  logo := by
    rw [← latest_note h.logo]
    exact Iff.of_eq (congrArg (· = true) Modifiers.note_logo)
  pressed := h.pressed_serve e
  released := by
    rw [Released, Reader.serve, Run.always_concat, Steady, Run.always_concat]
    exact and_congr h.released (forall_congr' h.release_iff)
  down := by
    intro hreleased keycode hdown
    obtain ⟨hbefore, hrelease⟩ := Run.always_concat.mp hreleased
    rcases down_serve hdown with ⟨hpress, hkey⟩ | ⟨hdown, hnot⟩
    · refine ⟨e.keysym, isDown_concat.mpr ?_, mem_pressedFor_concat.mpr ?_⟩
      · rw [if_pos rfl]
        exact hpress
      · rw [if_pos rfl]
        exact ⟨hpress, Or.inr hkey⟩
    · obtain ⟨keysym, hkeysym, hmem⟩ := h.down hbefore keycode hdown
      -- it was not released, so the keysym it was pressed for was not either
      have hheld : e.keysym = keysym → e.down = true := by
        rintro rfl
        by_contra hup
        exact hnot (hrelease (Bool.eq_false_of_not_eq_true hup) keycode hmem)
      refine ⟨keysym, isDown_concat.mpr ?_, mem_pressedFor_concat.mpr ?_⟩
      · split_ifs with heq
        · exact hheld heq
        · exact hkeysym
      · split_ifs with heq
        · exact ⟨hheld heq, Or.inl hmem⟩
        · exact hmem

theorem Kept.foldl (window : WindowId) (es : List KeyEvent) : Kept es (es.foldl Reader.serve (Reader.new window, [])) := by
  induction es using List.reverseRecOn with
  | nil => exact Kept.new window
  | append_singleton es e ih =>
    rw [List.foldl_append]
    exact ih.serve e

end Reader

/-- All key codes that are pressed for a keysym are released with it, and none is down
once no keysym is, exactly where a letter or digit that was pressed while a modifier was
held is released while one is held. -/
theorem released_iff_steady (window : WindowId) (es : List KeyEvent) :
    (Released (Reader.history window es) ∧
      ((∀ keysym, ¬ IsDown keysym es) →
        ∀ keycode, ¬ Down (.key keycode) ((Reader.history window es).flatMap Prod.snd))) ↔
      Steady es := by
  have hkept := Reader.Kept.foldl window es
  constructor
  · rintro ⟨hreleased, -⟩
    exact hkept.released.mp hreleased
  · intro hsteady
    have hreleased := hkept.released.mpr hsteady
    refine ⟨hreleased, fun hup keycode hdown => ?_⟩
    obtain ⟨keysym, hkeysym, -⟩ := hkept.down hreleased keycode hdown
    exact hup keysym hkeysym

/-- Ctrl is pressed and C, and Ctrl is released before C: the key of C stays down. -/
theorem letter_stays_down :
    ¬ ∀ window es, Released (Reader.history window es) ∧
      ((∀ keysym, ¬ IsDown keysym es) →
        ∀ keycode, ¬ Down (.key keycode) ((Reader.history window es).flatMap Prod.snd)) := by
  intro h
  have hall := h 1 [⟨0xffe3, true⟩, ⟨0x63, true⟩, ⟨0xffe3, false⟩, ⟨0x63, false⟩]
  refine hall.2 ?_ 46 ?_
  · intro keysym hdown
    simp only [IsDown, latest, List.reverse_cons, List.reverse_nil, List.nil_append, List.cons_append,
      List.findSome?_cons] at hdown
    split_ifs at hdown <;> cases hdown
  · rfl

end WindowCast.Vnc
