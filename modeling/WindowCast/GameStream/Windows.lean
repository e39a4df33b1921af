import WindowCast.Stream.HeldInput

/-!
# Windows as GameStream apps

Each window the host lists is an app under a number of 31 bits, and of the windows only
those in compatibility mode are shown (`windows.rs`, `compat.rs`).  Whether an app is
shown is asked by its number, and so is its window: the first that is listed under it.

## Main definitions

* `appId` — a window's app number.
* `CompatApps.shows`, `CompatApps.window` — whether an app is shown, and its window.
* `WindowInput.input` — a client's input, into its window.
* `Delivering.step` — the thread that delivers it.

## Main results

* `WindowInput.of_mem_input` — a sink sends only into its own window.
* `Delivering.Into.step` — and so does the thread behind it.
-/

namespace WindowCast.GameStream

open WindowCast.Host (WindowId)
open WindowCast.Stream (F32 GamepadState InputEvent PointerButton TouchPhase HeldInput inputWindow)

/-! ### Apps -/

/-- A window's app number: GameStream's are positive 32-bit numbers. -/
def appId (window : WindowId) : UInt32 := max ((window ^^^ (window >>> 32)).toUInt32 &&& 0x7fffffff) 1

/-- The windows in compatibility mode, as apps. -/
structure CompatApps where
  /-- The host's windows, as they are listed. -/
  windows : List WindowId
  shown : AList fun _ : WindowId => Text
  deriving DecidableEq

namespace CompatApps

/-- An app is shown if a window in compatibility mode has its number. -/
def shows (self : CompatApps) (app : UInt32) : Bool := self.shown.keys.any fun w => appId w = app

/-- The first window with the number, of all the host lists. -/
def window (self : CompatApps) (app : UInt32) : Option WindowId := self.windows.find? fun id => appId id = app

/-- A window goes into compatibility mode. -/
def «open» (self : CompatApps) (window : WindowId) (title : Text) : CompatApps :=
  { self with shown := self.shown.insert window title }

/-- Its guard is dropped. -/
def drop (self : CompatApps) (window : WindowId) : CompatApps := { self with shown := self.shown.erase window }

end CompatApps

/-! ### A client's input -/

/-- One input event of a client. -/
inductive Input
  | pointerTo (x y : F32)
  | pointerBy (dx dy : Int16)
  | button (button : PointerButton) (pressed : Bool)
  | scroll (dx dy : F32)
  | key (keycode : UInt32) (pressed : Bool)
  | text (text : Text)
  | touch (id : UInt32) (x y : F32) (phase : TouchPhase)
  | gamepad (pad : UInt8) (active : UInt16) (state : GamepadState)
  deriving DecidableEq

/-- What the client's bytes are read as, and the arithmetic of pointer positions. -/
structure Reading where
  parse : List UInt8 → List Input
  /-- Cut to between 0 and 1. -/
  clamp : F32 → F32
  /-- A position moved by so many of the picture's pixels. -/
  moved : F32 → Int16 → UInt32 → F32

/-- One stream's input, into its window. -/
structure WindowInput where
  window : WindowId
  /-- The client's picture, which relative mouse moves are in pixels of. -/
  size : UInt32 × UInt32
  pointer : F32 × F32
  /-- The pads the client has (bit per pad). -/
  pads : UInt16
  deriving DecidableEq

namespace WindowInput

/-- One half, as its bits. -/
def half : F32 := 0x3f000000

def new (window : WindowId) (width height : UInt32) : WindowInput := ⟨window, (max width 1, max height 1), (half, half), 0⟩

def send (self : WindowInput) (event : InputEvent) : Stream.Input := (event, some self.window)

def pointerTo (reading : Reading) (self : WindowInput) (x y : F32) : List Stream.Input × WindowInput :=
  let self := { self with pointer := (reading.clamp x, reading.clamp y) }
  ([self.send (.pointerMove self.window self.pointer.1 self.pointer.2)], self)

/-- What an event sends on. -/
def input (reading : Reading) (self : WindowInput) (event : Input) : List Stream.Input × WindowInput :=
  match event with
  | .pointerTo x y => self.pointerTo reading x y
  | .pointerBy dx dy =>
    self.pointerTo reading (reading.moved self.pointer.1 dx self.size.1) (reading.moved self.pointer.2 dy self.size.2)
  | .button button pressed => ([self.send (.pointerButton self.window button pressed)], self)
  | .scroll dx dy => ([self.send (.pointerScroll self.window dx dy)], self)
  | .key keycode pressed => ([self.send (.key keycode pressed)], self)
  | .text text => ([self.send (.text text)], self)
  | .touch id x y phase => ([self.send (.touch self.window id x y phase)], self)
  | .gamepad pad active state =>
    -- pads that left the active mask are unplugged
    let gone := (List.range 16).filter fun pad => self.pads &&& ~~~active &&& (1 <<< UInt16.ofNat pad) ≠ 0
    let here := if active &&& (1 <<< (pad &&& 0x0f).toUInt16) ≠ 0 then [self.send (.gamepad pad state)] else []
    (gone.map (fun pad => self.send (.gamepadGone (UInt8.ofNat pad))) ++ here, { self with pads := active })

/-- The events of a message, one after the other. -/
def inputs (reading : Reading) (self : WindowInput) : List Input → List Stream.Input × WindowInput
  | [] => ([], self)
  | event :: events =>
    let (sent, self) := self.input reading event
    let (rest, self) := inputs reading self events
    (sent ++ rest, self)

end WindowInput

/-- The window some input goes to: the one it names, else the one with the focus. -/
def target (input : Stream.Input) : Option WindowId := (inputWindow input.1).or input.2

namespace WindowInput

variable {reading : Reading} {self self' : WindowInput} {sent : List Stream.Input}

theorem target_send {event : InputEvent} (h : ∀ w ∈ inputWindow event, w = self.window) :
    target (self.send event) = some self.window := by
  unfold target send
  cases hwindow : inputWindow event with
  | none => rfl
  | some w =>
    rw [h w hwindow]
    rfl

/-- A sink sends only into its own window. -/
theorem of_mem_input {event : Input} (h : self.input reading event = (sent, self')) :
    self'.window = self.window ∧ ∀ input ∈ sent, target input = some self.window := by
  have hsend : ∀ event, (∀ w ∈ inputWindow event, w = self.window) → ∀ input ∈ [self.send event],
      target input = some self.window := by
    intro event hwindow input hinput
    rw [List.mem_singleton.mp hinput]
    exact target_send hwindow
  have hown : ∀ w ∈ some self.window, w = self.window := fun w hw => (Option.some_inj.mp hw).symm
  have hnone : ∀ w ∈ (none : Option WindowId), w = self.window := fun w hw => by cases hw
  cases event with
  | pointerTo x y =>
    cases h
    exact ⟨rfl, hsend _ hown⟩
  | pointerBy dx dy =>
    cases h
    exact ⟨rfl, hsend _ hown⟩
  | button button pressed =>
    cases h
    exact ⟨rfl, hsend _ hown⟩
  | scroll dx dy =>
    cases h
    exact ⟨rfl, hsend _ hown⟩
  | key keycode pressed =>
    cases h
    exact ⟨rfl, hsend _ hnone⟩
  | text text =>
    cases h
    exact ⟨rfl, hsend _ hnone⟩
  | touch id x y phase =>
    cases h
    exact ⟨rfl, hsend _ hown⟩
  | gamepad pad active state =>
    cases h
    refine ⟨rfl, fun input hinput => ?_⟩
    rcases List.mem_append.mp hinput with hgone | hhere
    · obtain ⟨pad', -, rfl⟩ := List.mem_map.mp hgone
      exact target_send hnone
    · split at hhere
      · exact hsend (.gamepad pad state) hnone input hhere
      · cases hhere

theorem of_mem_inputs {events : List Input} (h : self.inputs reading events = (sent, self')) :
    self'.window = self.window ∧ ∀ input ∈ sent, target input = some self.window := by
  induction events generalizing self sent with
  | nil =>
    cases h
    exact ⟨rfl, fun input hinput => by cases hinput⟩
  | cons event events ih =>
    rw [inputs] at h
    cases hinput : self.input reading event with
    | mk first self₁ =>
      cases hrest : self₁.inputs reading events with
      | mk rest self₂ =>
        rw [hinput] at h
        dsimp only at h
        rw [hrest] at h
        cases h
        obtain ⟨hwindow₁, hfirst⟩ := of_mem_input hinput
        obtain ⟨hwindow₂, hall⟩ := ih hrest
        refine ⟨hwindow₂.trans hwindow₁, fun input hmem => ?_⟩
        rcases List.mem_append.mp hmem with hmem | hmem
        · exact hfirst input hmem
        · rw [hall input hmem, hwindow₁]

end WindowInput

/-! ### The thread that delivers it -/

/-- What the thread has been handed, and what is held down. -/
structure Delivering where
  queue : List Stream.Input
  held : HeldInput
  /-- The sink is gone. -/
  closed : Bool
  /-- The thread has ended. -/
  ended : Bool
  deriving DecidableEq

namespace Delivering

def new : Delivering := ⟨[], .default, false, false⟩

/-- The thread takes what is next, and delivers it; once the sink is gone, it releases what
is held.  With nothing to take, it waits. -/
def step (self : Delivering) : Option (List Stream.Input × Delivering) :=
  if self.ended then none
  else
    match self.queue with
    | (event, focus) :: queue => some ([(event, focus)], { self with queue := queue, held := self.held.track event focus })
    | [] => if self.closed then some (self.held.release, { self with ended := true }) else none

theorem live_of_step {self self' : Delivering} {out : List Stream.Input} (h : self.step = some (out, self')) :
    self.ended = false := by
  unfold step at h
  split at h
  case isTrue => cases h
  case isFalse hended => exact Bool.eq_false_of_not_eq_true hended

/-- All that waits, and all that is held, is of one window. -/
structure Into (thread : Delivering) (window : WindowId) : Prop where
  queue : ∀ input ∈ thread.queue, target input = some window
  keys : ∀ keycode focus, thread.held.keys.lookup keycode = some focus → focus = some window
  buttons : ∀ held ∈ thread.held.buttons, held.1 = window
  touches : ∀ held ∈ thread.held.touches, held.1 = window

variable {self self' : Delivering} {window : WindowId} {out : List Stream.Input}

theorem into_new (window : WindowId) : new.Into window where
  queue := fun _ h => by cases h
  keys := fun _ _ h => by cases h
  buttons := fun _ h => by cases h
  touches := fun _ h => absurd h (AList.notMem_empty _)

theorem Into.push (h : self.Into window) {sent : List Stream.Input} (hsent : ∀ input ∈ sent, target input = some window) :
    { self with queue := self.queue ++ sent }.Into window where
  queue := fun input hinput => (List.mem_append.mp hinput).elim (h.queue input) (hsent input)
  keys := h.keys
  buttons := h.buttons
  touches := h.touches

theorem Into.release (h : self.Into window) : ∀ input ∈ self.held.release, target input = some window := by
  intro input hinput
  rw [HeldInput.release, List.mem_append, List.mem_append, List.mem_map, List.mem_map, List.mem_map] at hinput
  rcases hinput with (⟨⟨keycode, focus⟩, hmem, rfl⟩ | ⟨held, hmem, rfl⟩) | ⟨⟨held, place⟩, hmem, rfl⟩
  · exact h.keys keycode focus (AList.mem_lookup_iff.mpr hmem)
  · exact congrArg some (h.buttons held hmem)
  · refine congrArg some (h.touches held ?_)
    exact AList.lookup_isSome.mp (by rw [AList.mem_lookup_iff.mpr hmem]; rfl)

theorem Into.track {event : InputEvent} {focus : Option WindowId} (h : self.Into window)
    (htarget : target (event, focus) = some window) : { self with held := self.held.track event focus }.Into window := by
  cases event with
  | key keycode pressed =>
    refine ⟨h.queue, fun keycode' focus' hlookup => ?_, ?_, ?_⟩
    · cases pressed with
      | true =>
        change (self.held.keys.insert keycode focus).lookup keycode' = some focus' at hlookup
        by_cases heq : keycode' = keycode
        · rw [heq, AList.lookup_insert] at hlookup
          have hfocus : focus = focus' := Option.some_inj.mp hlookup
          rw [← hfocus]
          exact htarget
        · rw [AList.lookup_insert_ne heq] at hlookup
          exact h.keys keycode' focus' hlookup
      | false =>
        change (self.held.keys.erase keycode).lookup keycode' = some focus' at hlookup
        by_cases heq : keycode' = keycode
        · rw [heq, AList.lookup_erase] at hlookup
          cases hlookup
        · rw [AList.lookup_erase_ne heq] at hlookup
          exact h.keys keycode' focus' hlookup
    · cases pressed <;> exact h.buttons
    · cases pressed <;> exact h.touches
  | pointerButton w button pressed =>
    have hw : w = window := Option.some_inj.mp htarget
    refine ⟨h.queue, ?_, fun held hheld => ?_, ?_⟩
    · cases pressed <;> exact h.keys
    · cases pressed with
      | true =>
        rcases List.mem_insert_iff.mp hheld with rfl | hheld
        · exact hw
        · exact h.buttons held hheld
      | false => exact h.buttons held (List.mem_filter.mp hheld).1
    · cases pressed <;> exact h.touches
  | touch w id x y phase =>
    have hw : w = window := Option.some_inj.mp htarget
    refine ⟨h.queue, ?_, ?_, fun held hheld => ?_⟩
    · cases phase <;> exact h.keys
    · cases phase <;> exact h.buttons
    · have hcases : held = (w, id) ∨ held ∈ self.held.touches := by
        cases phase with
        | start => exact (AList.mem_insert _).mp hheld
        | move => exact (AList.mem_insert _).mp hheld
        | «end» => exact Or.inr (AList.mem_erase.mp hheld).2
        | cancel => exact Or.inr (AList.mem_erase.mp hheld).2
      rcases hcases with rfl | hmem
      · exact hw
      · exact h.touches held hmem
  | pointerMove => exact h
  | pointerScroll => exact h
  | text => exact h
  | gamepad => exact h
  | gamepadGone => exact h

/-- What the thread delivers goes into the window. -/
theorem Into.step (h : self.Into window) (hstep : self.step = some (out, self')) :
    self'.Into window ∧ ∀ input ∈ out, target input = some window := by
  unfold Delivering.step at hstep
  split at hstep
  case isTrue => cases hstep
  split at hstep
  case h_1 event focus queue hqueue =>
    cases hstep
    have hhead : target (event, focus) = some window := h.queue _ (by rw [hqueue]; exact List.mem_cons_self)
    have hrest : { self with queue := queue }.Into window :=
      ⟨fun input hinput => h.queue input (by rw [hqueue]; exact List.mem_cons_of_mem _ hinput), h.keys, h.buttons,
        h.touches⟩
    refine ⟨hrest.track hhead, fun input hinput => ?_⟩
    rw [List.mem_singleton.mp hinput]
    exact hhead
  case h_2 hqueue =>
    split at hstep
    case isTrue =>
      cases hstep
      exact ⟨⟨h.queue, h.keys, h.buttons, h.touches⟩, h.release⟩
    case isFalse => cases hstep

end Delivering

end WindowCast.GameStream
