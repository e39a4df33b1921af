import WindowCast.Stream.HeldInput

/-!
# Input on Wayland

The agent for Linux hands a client's input to a virtual pointer and a virtual keyboard.
Text is typed by pressing keys of the same keyboard: what each character takes is read off
its keymap, and Shift is pressed where it takes Shift.

## Main definitions

* `Xkb` — the keymap, the modifiers' state, and what a program reads.
* `Xkb.typeable` — the key of a character.
* `Injector.inject` — what the client's input comes to, as requests to the compositor.
* `KeyDown`, `ButtonDown`, `Xkb.reads` — what the compositor and a program make of those.

## Main results

* `Injector.keyDown_key` — **what a key presses and releases**.
* `Injector.Told.key`, `Injector.reads_key` — the program has the modifiers that the injector keeps, and
  reads the key with those.
* `Injector.Elsewhere` — what does not touch the keyboard.
-/

namespace WindowCast.Agents

open WindowCast.Host (WindowId)
open WindowCast.Stream (InputEvent Input PointerButton TouchPhase F32)

/-! ### The keyboard -/

/-- The characters that the keys of a keymap have on their levels. -/
structure Keymap where
  minKeycode : ℕ
  maxKeycode : ℕ
  /-- A symbol that is no character has a NUL. -/
  syms : UInt32 → ℕ → List Char

/-- `xkbcommon`, and the program that reads keys with the same keymap. -/
structure Xkb where
  keymap : Keymap
  State : Type
  Mods : Type
  new : State
  /-- The state behind a key, and whether something of it has changed. -/
  updateKey : State → UInt32 → Bool → State × Bool
  /-- The modifiers that are held, latched and locked, and the layout. -/
  serialize : State → Mods
  /-- The modifiers with Shift held as well. -/
  withShift : Mods → Mods
  /-- What a program reads from a key. -/
  char : Mods → UInt32 → Option Char

/-- A keyboard of no keys. -/
def keyless : Xkb where
  keymap := ⟨8, 8, fun _ _ => []⟩
  State := Unit
  Mods := Unit
  new := ()
  updateKey s _ _ := (s, false)
  serialize s := s
  withShift mods := mods
  char _ _ := none

/-- The evdev code of the left Shift key. -/
def KEY_LEFTSHIFT : UInt32 := 42

/-- The characters of the keymap, as they are put into a table that keeps the first of each. -/
def Xkb.entries (x : Xkb) : List (Char × UInt32 × Bool) :=
  (List.range' x.keymap.minKeycode (x.keymap.maxKeycode + 1 - x.keymap.minKeycode)).flatMap fun code =>
    [(0, false), (1, true)].flatMap fun (level, shift) =>
      (x.keymap.syms (UInt32.ofNat code) level).filterMap fun c =>
        if c ≠ '\x00' ∧ 8 ≤ code then some (c, UInt32.ofNat code - 8, shift) else none

/-- The evdev code of a character's key, and whether it needs Shift. -/
def Xkb.typeable (x : Xkb) (c : Char) : Option (UInt32 × Bool) :=
  (x.entries.find? fun entry => entry.1 = c).map Prod.snd

/-- Whether a character can be typed. -/
def Xkb.types (x : Xkb) (c : Char) : Bool := (x.typeable c).isSome

/-- The evdev codes of the pointer's buttons. -/
def buttonCode : PointerButton → UInt32
  | .left => 0x110
  | .right => 0x111
  | .middle => 0x112
  | .back => 0x113
  | .forward => 0x114

/-! ### The injector -/

/-- What is asked of the compositor. Where a motion leads and how far an axis turns is worked
out from the numbers here in floating point. -/
inductive Request (Mods : Type)
  | key (code : UInt32) (pressed : Bool)
  | modifiers (mods : Mods)
  | button (code : UInt32) (pressed : Bool)
  | motion (window : WindowId) (x y : F32)
  | axis (dx dy : F32)
  | focus (conId : ℕ)
  deriving DecidableEq, Repr

structure Injector (x : Xkb) where
  xkb : x.State
  focused : Option WindowId
  /-- What was asked so far. -/
  requests : List (Request x.Mods)

/-- What sway says. -/
structure Sway where
  /-- The container that a window is. -/
  placed : WindowId → Option ℕ
  /-- Whether it tells the layout of its outputs. -/
  layout : Bool

/-- An event, and what sway says when it comes. -/
structure Arrival where
  input : Input
  sway : Sway

namespace Injector

variable {x : Xkb}

def new (x : Xkb) : Injector x := ⟨x.new, none, []⟩

def ask (self : Injector x) (request : Request x.Mods) : Injector x :=
  { self with requests := self.requests ++ [request] }

def focus (self : Injector x) (sway : Sway) (window : WindowId) : Injector x :=
  if self.focused = some window then self
  else
    match sway.placed window with
    | some conId => { self.ask (.focus conId) with focused := some window }
    | none => self

def moveTo (self : Injector x) (sway : Sway) (window : WindowId) (dx dy : F32) : Injector x :=
  match sway.placed window with
  | some _ => if sway.layout then self.ask (.motion window dx dy) else self
  | none => self

def button (self : Injector x) (code : UInt32) (pressed : Bool) : Injector x := self.ask (.button code pressed)

def key (self : Injector x) (code : UInt32) (pressed : Bool) : Injector x :=
  let self := self.ask (.key code pressed)
  let update := x.updateKey self.xkb (code + 8) pressed
  let self := { self with xkb := update.1 }
  if update.2 then self.ask (.modifiers (x.serialize update.1)) else self

/-- One character of a text. -/
def typeChar (self : Injector x) (c : Char) : Injector x :=
  match x.typeable c with
  | none => self
  | some (code, shift) =>
    let self := if shift then self.key KEY_LEFTSHIFT true else self
    let self := (self.key code true).key code false
    if shift then self.key KEY_LEFTSHIFT false else self

/-- Keys and text go to the window that has the focus. -/
def focusOn (self : Injector x) (sway : Sway) (focus : Option WindowId) : Injector x :=
  match focus with
  | some window => self.focus sway window
  | none => self

def inject (self : Injector x) (arrival : Arrival) : Injector x :=
  let sway := arrival.sway
  match arrival.input.1 with
  | .pointerMove window dx dy => self.moveTo sway window dx dy
  | .pointerButton window button pressed =>
    let self := if pressed then self.focus sway window else self
    self.button (buttonCode button) pressed
  | .pointerScroll _ dx dy => self.ask (.axis dx dy)
  | .key keycode pressed => (self.focusOn sway arrival.input.2).key keycode pressed
  | .text text => text.foldl typeChar (self.focusOn sway arrival.input.2)
  | .touch window _ dx dy phase =>
    let self := self.moveTo sway window dx dy
    match phase with
    | .start => (self.focus sway window).button (buttonCode .left) true
    | .«end» | .cancel => self.button (buttonCode .left) false
    | .move => self
  -- gamepads have devices of their own
  | .gamepad _ _ | .gamepadGone _ => self

/-- The injector behind some input. -/
def run (x : Xkb) (past : List Arrival) : Injector x := past.foldl inject (new x)

theorem run_concat (x : Xkb) (past : List Arrival) (arrival : Arrival) :
    run x (past ++ [arrival]) = (run x past).inject arrival := List.foldl_concat _ _ _ _

end Injector

/-! ### The compositor and a program -/

section

variable {Mods : Type}

def Request.marksKey (code : UInt32) : Request Mods → Option Bool
  | .key code' pressed => if code' = code then some pressed else none
  | _ => none

def Request.marksButton (code : UInt32) : Request Mods → Option Bool
  | .button code' pressed => if code' = code then some pressed else none
  | _ => none

def Request.ofKeyboard : Request Mods → Bool
  | .key _ _ | .modifiers _ => true
  | _ => false

/-- A key is down behind requests, on the virtual keyboard. -/
def KeyDown (code : UInt32) (requests : List (Request Mods)) : Prop :=
  latest (Request.marksKey code) requests = some true

instance (code : UInt32) (requests : List (Request Mods)) : Decidable (KeyDown code requests) :=
  inferInstanceAs (Decidable (latest (Request.marksKey code) requests = some true))

/-- A button is down, on the virtual pointer. -/
def ButtonDown (code : UInt32) (requests : List (Request Mods)) : Prop :=
  latest (Request.marksButton code) requests = some true

end

def Request.mods {Mods : Type} : Request Mods → Option Mods
  | .modifiers mods => some mods
  | _ => none

namespace Xkb

variable (x : Xkb)

/-- The modifiers that a program has, which was told those first. -/
def told (mods : x.Mods) (requests : List (Request x.Mods)) : x.Mods := (latest Request.mods requests).getD mods

/-- What a program reads of one request. -/
def readsOne (mods : x.Mods) : Request x.Mods → Text
  | .key code true => (x.char mods code).toList
  | _ => []

/-- What a program reads. -/
def reads : x.Mods → List (Request x.Mods) → Text
  | _, [] => []
  | mods, request :: rest => x.readsOne mods request ++ reads (request.mods.getD mods) rest

/-- What `xkbcommon` says of its states: what they are told to have changed in is all there is, a
key that has a character on it is no modifier, and Shift is one, and no character. -/
structure Lawful : Prop where
  unchanged : ∀ s code pressed, (x.updateKey s code pressed).2 = false →
    x.serialize (x.updateKey s code pressed).1 = x.serialize s
  typing : ∀ s code pressed level c, c ∈ x.keymap.syms code level → c ≠ '\x00' →
    x.serialize (x.updateKey s code pressed).1 = x.serialize s
  shift : ∀ s, x.serialize (x.updateKey s (KEY_LEFTSHIFT + 8) true).1 = x.withShift (x.serialize s)
  silent : ∀ mods, x.char mods KEY_LEFTSHIFT = none
  shifted : ∀ s code level c, c ∈ x.keymap.syms code level → c ≠ '\x00' →
    let s' := (x.updateKey (x.updateKey (x.updateKey s (KEY_LEFTSHIFT + 8) true).1 code true).1 code false).1
    x.serialize (x.updateKey s' (KEY_LEFTSHIFT + 8) false).1 = x.serialize s

variable {x} {mods : x.Mods} {requests requests' : List (Request x.Mods)}

theorem told_append :
    x.told mods (requests ++ requests') = x.told (x.told mods requests) requests' := by
  rw [told, told, told, latest_append]
  cases latest Request.mods requests' <;> rfl

theorem reads_append :
    x.reads mods (requests ++ requests') = x.reads mods requests ++ x.reads (x.told mods requests) requests' := by
  induction requests generalizing mods with
  | nil => rfl
  | cons request requests ih =>
    have htold : x.told mods (request :: requests) = x.told (request.mods.getD mods) requests := by
      have hone : x.told mods [request] = request.mods.getD mods := by
        rw [told, ← List.nil_append [request], latest_concat, latest_nil, Option.or_none]
      rw [← List.singleton_append, told_append, hone]
    rw [List.cons_append, reads, reads, ih, htold, List.append_assoc]

/-- A character's key has it on it. -/
theorem mem_syms {c : Char} {code : UInt32} {shift : Bool} (h : x.typeable c = some (code, shift)) :
    ∃ level, c ∈ x.keymap.syms (code + 8) level ∧ c ≠ '\x00' := by
  obtain ⟨⟨c', code', shift'⟩, hfind, hentry⟩ := Option.map_eq_some_iff.mp h
  have hc : c' = c := of_decide_eq_true (@List.find?_some _ (fun entry : Char × UInt32 × Bool => decide (entry.1 = c)) _ _ hfind)
  obtain ⟨rfl, rfl⟩ := Prod.mk.inj hentry
  obtain ⟨keycode, -, hmem⟩ := List.mem_flatMap.mp (List.mem_of_find?_eq_some hfind)
  obtain ⟨⟨level, shift''⟩, -, hmem⟩ := List.mem_flatMap.mp hmem
  obtain ⟨c'', hsyms, hmem⟩ := List.mem_filterMap.mp hmem
  rw [Option.ite_none_right_eq_some] at hmem
  obtain ⟨⟨hne, -⟩, hsome⟩ := hmem
  obtain ⟨rfl, hcode⟩ := Prod.mk.inj (Option.some.inj hsome)
  obtain ⟨rfl, -⟩ := Prod.mk.inj hcode
  rw [hc] at hsyms hne
  exact ⟨level, by rwa [UInt32.sub_add_cancel], hne⟩

end Xkb

namespace Injector

section

variable {x : Xkb} {self : Injector x} {code code' : UInt32} {pressed : Bool} {sway : Sway}

theorem typeChar_none {c : Char} (h : x.typeable c = none) : self.typeChar c = self := by
  rw [typeChar, h]

theorem typeChar_plain {c : Char} (h : x.typeable c = some (code, false)) :
    self.typeChar c = (self.key code true).key code false := by
  rw [typeChar, h]
  rfl

theorem typeChar_shift {c : Char} (h : x.typeable c = some (code, true)) :
    self.typeChar c =
      (((self.key KEY_LEFTSHIFT true).key code true).key code false).key KEY_LEFTSHIFT false := by
  rw [typeChar, h]
  rfl

theorem requests_key (self : Injector x) (code : UInt32) (pressed : Bool) :
    (self.key code pressed).requests = self.requests ++ .key code pressed ::
      if (x.updateKey self.xkb (code + 8) pressed).2 then
        [.modifiers (x.serialize (x.updateKey self.xkb (code + 8) pressed).1)] else [] := by
  unfold key ask
  dsimp only
  split
  · exact List.append_assoc _ _ _
  · rfl

@[simp] theorem xkb_key (self : Injector x) (code : UInt32) (pressed : Bool) :
    (self.key code pressed).xkb = (x.updateKey self.xkb (code + 8) pressed).1 := by
  unfold key
  dsimp only
  split <;> rfl

/-- **What a key presses and releases**: itself. -/
theorem keyDown_key : KeyDown code' (self.key code pressed).requests ↔
    if code = code' then pressed = true else KeyDown code' self.requests := by
  have hmods : latest (Request.marksKey code') ((self.key code pressed).requests) =
      latest (Request.marksKey code') (self.requests ++ [.key code pressed]) := by
    rw [requests_key]
    split
    · rw [← List.singleton_append, ← List.append_assoc, latest_concat]
      rfl
    · rfl
  rw [KeyDown, hmods, latest_concat, Request.marksKey]
  split
  · rw [Option.some_or, Option.some.injEq]
  · rw [Option.none_or, KeyDown]

/-- The program has the modifiers that the injector keeps. -/
def Told (self : Injector x) : Prop := x.told (x.serialize x.new) self.requests = x.serialize self.xkb

theorem Told.key (hx : x.Lawful) (h : self.Told) (code : UInt32) (pressed : Bool) : (self.key code pressed).Told := by
  rw [Told, requests_key, Xkb.told_append, h, xkb_key]
  split
  · rfl
  · rename_i hsame
    exact (hx.unchanged _ _ _ (Bool.eq_false_iff.mpr hsame)).symm

theorem reads_key (h : self.Told) (code : UInt32) (pressed : Bool) :
    x.reads (x.serialize x.new) (self.key code pressed).requests = x.reads (x.serialize x.new) self.requests ++
      if pressed then (x.char (x.serialize self.xkb) code).toList else [] := by
  have hmods (mods : x.Mods) (update : Bool) (mods' : x.Mods) :
      x.reads mods (if update then [.modifiers mods'] else []) = [] := by
    cases update <;> rfl
  rw [requests_key, Xkb.reads_append, h, Xkb.reads, hmods, List.append_nil]
  cases pressed <;> rfl

end

/-! ### What has nothing to do with the keyboard -/

/-- What was asked between the two does not touch the keyboard. -/
structure Elsewhere (before after : Injector x) : Prop where
  kept : after.xkb = before.xkb
  added : ∃ more, after.requests = before.requests ++ more ∧ ∀ request ∈ more, request.ofKeyboard = false

section

variable {self self' self'' : Injector x} {sway : Sway} {window : WindowId} {code : UInt32}
  {request : Request x.Mods}

theorem Elsewhere.refl (self : Injector x) : self.Elsewhere self :=
  ⟨rfl, [], (List.append_nil _).symm, nofun⟩

theorem Elsewhere.trans (h : self.Elsewhere self') (h' : self'.Elsewhere self'') : self.Elsewhere self'' := by
  obtain ⟨more, hmore, hnone⟩ := h.added
  obtain ⟨more', hmore', hnone'⟩ := h'.added
  refine ⟨h'.kept.trans h.kept, more ++ more', by rw [hmore', hmore, List.append_assoc], fun request hmem => ?_⟩
  exact (List.mem_append.mp hmem).elim (hnone request) (hnone' request)

theorem elsewhere_ask (self : Injector x) (hrequest : request.ofKeyboard = false) : self.Elsewhere (self.ask request) :=
  ⟨rfl, [request], rfl, fun _ hmem => List.mem_singleton.mp hmem ▸ hrequest⟩

theorem elsewhere_focus (self : Injector x) : self.Elsewhere (self.focus sway window) := by
  unfold focus
  split
  · exact .refl self
  · split
    · rename_i conId _
      exact ⟨rfl, (@elsewhere_ask x (.focus conId) self rfl).added⟩
    · exact .refl self

theorem elsewhere_focusOn (self : Injector x) (focus : Option WindowId) : self.Elsewhere (self.focusOn sway focus) := by
  cases focus with
  | none => exact .refl self
  | some window => exact elsewhere_focus self

theorem elsewhere_moveTo (self : Injector x) (dx dy : F32) : self.Elsewhere (self.moveTo sway window dx dy) := by
  unfold moveTo
  split
  · split
    · exact elsewhere_ask self rfl
    · exact .refl self
  · exact .refl self

theorem elsewhere_button (self : Injector x) (code : UInt32) (pressed : Bool) : self.Elsewhere (self.button code pressed) :=
  elsewhere_ask self rfl

theorem Elsewhere.keyDown (h : self.Elsewhere self') : KeyDown code self'.requests ↔ KeyDown code self.requests := by
  obtain ⟨more, hmore, hnone⟩ := h.added
  have hmarks : ∀ request ∈ more, request.marksKey code = none := fun request hmem => by
    have := hnone request hmem
    cases request <;> first | rfl | cases this
  rw [KeyDown, hmore, latest_append, latest_eq_none hmarks, Option.none_or, KeyDown]

theorem told_of_ofKeyboard {mods : x.Mods} {more : List (Request x.Mods)} (h : ∀ request ∈ more, request.ofKeyboard = false) :
    x.told mods more = mods := by
  have hmods : ∀ request ∈ more, request.mods = none := fun request hmem => by
    have := h request hmem
    cases request <;> first | rfl | cases this
  rw [Xkb.told, latest_eq_none hmods]
  rfl

theorem Elsewhere.told (h : self.Elsewhere self') (htold : self.Told) : self'.Told := by
  obtain ⟨more, hmore, hnone⟩ := h.added
  rw [Told, hmore, Xkb.told_append, htold, told_of_ofKeyboard hnone, h.kept]

theorem Elsewhere.reads (h : self.Elsewhere self') :
    x.reads (x.serialize x.new) self'.requests = x.reads (x.serialize x.new) self.requests := by
  obtain ⟨more, hmore, hnone⟩ := h.added
  have hnothing (mods : x.Mods) : x.reads mods more = [] := by
    clear hmore
    induction more generalizing mods with
    | nil => rfl
    | cons request more ih =>
      have hrequest := hnone request List.mem_cons_self
      rw [Xkb.reads, ih fun r hr => hnone r (List.mem_cons_of_mem _ hr), List.append_nil]
      cases request <;> first | rfl | cases hrequest
  rw [hmore, Xkb.reads_append, hnothing, List.append_nil]

end

end Injector

end WindowCast.Agents
