import WindowCast.Lib.Utf16
import WindowCast.Rdp.RemoteApps

/-!
# What a Remote Desktop client types

The keyboard of a client of the host's own Remote Desktop server (`host.rs`): keys by
their scan code, and text in units of 16 bits, each pressed and released.

## Main definitions

* `evdevFromScan` — the key of a scan code.
* `WindowInput.keyboard` — what one event gives the window.
* `typed` — the text of all that was given.

## Main results

* `evdevFromScan_of_scanFromEvdev` — a key that is sent by its scan code arrives as itself.
* `typed_run` — the text of a run.
* `typed_eq_iff` — **which text arrives as it was typed**.
-/

namespace WindowCast.Rdp

open WindowCast.Host (WindowId)
open WindowCast.Stream (InputEvent)

/-- The evdev key code for a scan code and its E0 flag. -/
def evdevFromScan (scan : UInt8) (isExtended : Bool) : Option UInt32 :=
  if isExtended = false then if 1 ≤ scan ∧ scan ≤ 88 then some scan.toUInt32 else none
  else (extended.find? fun key => key.1 = scan).map Prod.snd

inductive KeyboardEvent
  | pressed (code : UInt8) (isExtended : Bool)
  | released (code : UInt8) (isExtended : Bool)
  | unicodePressed (unit : UInt16)
  | unicodeReleased (unit : UInt16)
  | synchronize (flags : UInt8)
  deriving DecidableEq

/-- The character of a number, if it is one. -/
def charFromU32 (number : UInt32) : Option Char :=
  if h : number.isValidChar then some ⟨number, h⟩ else none

/-- The character of one unit, taken for itself. -/
def charOfUnit (unit : UInt16) : Option Char := charFromU32 unit.toUInt32

structure WindowInput where
  window : WindowId

abbrev Delivered := InputEvent × Option WindowId

namespace WindowInput

def send (self : WindowInput) (event : InputEvent) : Delivered := (event, some self.window)

def key (self : WindowInput) (code : UInt8) (isExtended pressed : Bool) : List Delivered :=
  match evdevFromScan code isExtended with
  | some keycode => [self.send (.key keycode pressed)]
  | none => []

def keyboard (self : WindowInput) : KeyboardEvent → List Delivered
  | .pressed code isExtended => self.key code isExtended true
  | .released code isExtended => self.key code isExtended false
  | .unicodePressed unit =>
    match charOfUnit unit with
    | some c => [self.send (.text [c])]
    | none => []
  | .unicodeReleased _ | .synchronize _ => []

def run (self : WindowInput) (events : List KeyboardEvent) : List Delivered := events.flatMap self.keyboard

end WindowInput

/-- The text of what was given. -/
def typed (delivered : List Delivered) : Text :=
  delivered.flatMap fun d => match d.1 with
    | .text text => text
    | _ => []

/-- The units that were pressed. -/
def units (events : List KeyboardEvent) : List UInt16 :=
  events.filterMap fun
    | .unicodePressed unit => some unit
    | _ => none

/-- The extended keys are listed in order. -/
theorem ascending_extended : (extended.map fun key => key.1.toNat).IsChain (· < ·) := by decide

/-- A key that is sent by its scan code arrives as itself. -/
theorem evdevFromScan_of_scanFromEvdev {keycode : UInt32} {scan : Scancode} (h : scanFromEvdev keycode = some scan) :
    evdevFromScan scan.2 scan.1 = some keycode := by
  unfold scanFromEvdev at h
  split at h
  · rename_i hmain
    cases h
    rw [UInt32.le_iff_toNat_le, UInt32.le_iff_toNat_le] at hmain
    have hlow : 1 ≤ keycode.toNat := hmain.1
    have hhigh : keycode.toNat ≤ 88 := hmain.2
    have hnat : keycode.toUInt8.toNat = keycode.toNat := by
      rw [UInt32.toNat_toUInt8]
      omega
    have hback : keycode.toUInt8.toUInt32 = keycode := by
      rw [← UInt32.toNat_inj, UInt8.toNat_toUInt32, hnat]
    have hmain' : 1 ≤ keycode.toUInt8 ∧ keycode.toUInt8 ≤ 88 := by
      rw [UInt8.le_iff_toNat_le, UInt8.le_iff_toNat_le, hnat]
      exact ⟨hlow, hhigh⟩
    rw [evdevFromScan, if_pos rfl, if_pos hmain', hback]
  · obtain ⟨key, hfind, rfl⟩ := Option.map_eq_some_iff.mp h
    have hkey := List.find?_some hfind
    show evdevFromScan key.1 true = some keycode
    rw [evdevFromScan, if_neg (by decide), Table.find?_of_ascending UInt8.toNat ascending_extended
      (List.mem_of_find?_eq_some hfind), ← of_decide_eq_true hkey]
    rfl

section

variable {unit : UInt16} {c : Char} {text : Text} {events : List KeyboardEvent}

/-- A character of one unit is the character of its number. -/
theorem charOfUnit_encodeChar (h : c.toNat < 0x10000) : charOfUnit (UInt16.ofNat c.toNat) = some c := by
  have hnumber : (UInt16.ofNat c.toNat).toUInt32 = c.val := by
    rw [← UInt32.toNat_inj, UInt16.toNat_toUInt32, Utf16.toNat_ofNat h]
    rfl
  rw [charOfUnit, hnumber, charFromU32, dif_pos c.valid]

/-- Half a character is none. -/
theorem charOfUnit_surrogate {n : ℕ} (h : 0xd800 ≤ n ∧ n ≤ 0xdfff) : charOfUnit (UInt16.ofNat n) = none := by
  have hnumber : (UInt16.ofNat n).toUInt32.toNat = n := by
    rw [UInt16.toNat_toUInt32, Utf16.toNat_ofNat (by omega)]
  rw [charOfUnit, charFromU32, dif_neg]
  rw [UInt32.isValidChar, Nat.isValidChar, hnumber]
  omega

/-- Of the units of a text, those that are characters. -/
theorem filterMap_encode (text : Text) :
    (Utf16.encode text).filterMap charOfUnit = text.filter fun c => c.toNat < 0x10000 := by
  induction text with
  | nil => rfl
  | cons c text ih =>
    rw [Utf16.encode, List.flatMap_cons, List.filterMap_append, ← Utf16.encode, ih]
    by_cases hc : c.toNat < 0x10000
    · rw [List.filter_cons_of_pos (p := _) (by exact decide_eq_true hc), Utf16.encodeChar, if_pos hc,
        List.filterMap_cons_some (charOfUnit_encodeChar hc)]
      rfl
    · have hbound := Utf16.toNat_lt c
      have hhigh : 0xd800 ≤ 0xd800 + (c.toNat - 0x10000) / 0x400 ∧ 0xd800 + (c.toNat - 0x10000) / 0x400 ≤ 0xdfff := by
        omega
      have hlow : 0xd800 ≤ 0xdc00 + (c.toNat - 0x10000) % 0x400 ∧ 0xdc00 + (c.toNat - 0x10000) % 0x400 ≤ 0xdfff := by
        omega
      rw [List.filter_cons_of_neg (by rwa [decide_eq_true_eq]), Utf16.encodeChar, if_neg hc,
        List.filterMap_cons_none (charOfUnit_surrogate hhigh), List.filterMap_cons_none (charOfUnit_surrogate hlow)]
      rfl

theorem typed_key (self : WindowInput) (code : UInt8) (isExtended pressed : Bool) :
    typed (self.key code isExtended pressed) = [] := by
  unfold WindowInput.key
  split <;> rfl

/-- The text of one event. -/
theorem typed_keyboard (self : WindowInput) (event : KeyboardEvent) :
    typed (self.keyboard event) = (units [event]).filterMap charOfUnit := by
  cases event with
  | pressed code isExtended => exact typed_key self code isExtended true
  | released code isExtended => exact typed_key self code isExtended false
  | unicodePressed unit =>
    have hunits : units [.unicodePressed unit] = [unit] := rfl
    rw [WindowInput.keyboard, hunits]
    cases hc : charOfUnit unit with
    | none => rw [List.filterMap_cons_none hc]; rfl
    | some c => rw [List.filterMap_cons_some hc]; rfl
  | unicodeReleased unit => rfl
  | synchronize flags => rfl

/-- **The text of a run** is the characters among the units that were pressed. -/
theorem typed_run (self : WindowInput) (events : List KeyboardEvent) :
    typed (self.run events) = (units events).filterMap charOfUnit := by
  induction events with
  | nil => rfl
  | cons event events ih =>
    have hrun : self.run (event :: events) = self.keyboard event ++ self.run events := List.flatMap_cons
    have hunits : units (event :: events) = units [event] ++ units events := List.filterMap_append (l := [event])
    rw [hrun, typed, List.flatMap_append, ← typed, ← typed, typed_keyboard, ih, hunits, List.filterMap_append]

/-- **Which text arrives as it was typed**, whatever else is pressed or released between its units. -/
theorem typed_eq_iff (self : WindowInput) (htext : units events = Utf16.encode text) :
    typed (self.run events) = text ↔ ∀ c ∈ text, c.toNat < 0x10000 := by
  rw [typed_run, htext, filterMap_encode, List.filter_eq_self]
  exact forall₂_congr fun c _ => decide_eq_true_iff

theorem typed_eq_iff_pair :
    typed ((WindowInput.mk 1).run
        [.unicodePressed 97, .unicodePressed 233, .unicodeReleased 97, .unicodeReleased 233]) = ['a', 'é'] ↔
      ∀ c ∈ ['a', 'é'], c.toNat < 0x10000 :=
  typed_eq_iff (WindowInput.mk 1) rfl

end

/-- A character that takes two units does not arrive. -/
theorem halves_dropped :
    units [.unicodePressed 0xd83d, .unicodeReleased 0xd83d, .unicodePressed 0xde00, .unicodeReleased 0xde00] =
        Utf16.encode ['😀'] ∧
      typed ((WindowInput.mk 1).run
        [.unicodePressed 0xd83d, .unicodeReleased 0xd83d, .unicodePressed 0xde00, .unicodeReleased 0xde00]) = [] := by
  decide

end WindowCast.Rdp
