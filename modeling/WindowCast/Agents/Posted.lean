import WindowCast.Lib.Run
import WindowCast.Lib.Utf16
import WindowCast.Rdp.RemoteApps

/-!
# Input that is posted

While the desktop of a Windows session is out of reach, an event is posted to the
window it is for as the message it would have become (`posted.rs`).  The message goes
to what is under the pointer at that moment, and has the buttons that are held.

## Main definitions

* `State.inject` — what an event makes of the state, and the messages it posts.
* `Pressed` — what was posted as pressed, and not released since.
* `Releases`, `Clean` — what is released is posted as released, and behind that nothing is held.
* `Reaches` — what is released is still under the pointer, and its window is there.

## Main results

* `State.buttons_inject` — which buttons are held behind an event.
* `posted_released_iff` — **in which runs everything that is released is posted as released**.
-/

namespace WindowCast.Agents.Posted

open WindowCast.Host (WindowId)
open WindowCast.Stream (InputEvent PointerButton TouchPhase F32 isZero)
open WindowCast.Rdp (scanFromEvdev)

/-! ### Windows -/

abbrev HWND := UInt64

structure Point where
  x : Int32
  y : Int32
  deriving DecidableEq

structure Bounds where
  left : Int32
  top : Int32
  right : Int32
  bottom : Int32
  deriving DecidableEq

/-- What Windows answers at the moment of an event. -/
structure Layout where
  isInvalid : HWND → Bool
  bounds : HWND → Option Bounds
  screenToClient : HWND → Point → Point
  /-- The child of a window under a point in it, neither invisible nor disabled nor transparent. -/
  childFromPoint : HWND → Point → HWND
  isChild : HWND → HWND → Bool
  isWindow : HWND → Bool
  /-- The window with the keyboard focus in the thread of a window, if the thread says. -/
  focus : HWND → Option HWND
  virtualKey : UInt32 → UInt32

/-- What is worked out in floating point: the place on the screen of a place in a picture, and how far
a wheel was turned. -/
structure Rounding where
  screenPoint : Bounds → F32 → F32 → Point
  wheel : F32 → UInt16

structure Message where
  window : HWND
  message : UInt32
  wparam : UInt64
  lparam : UInt64
  deriving DecidableEq

def WM_KEYDOWN : UInt32 := 0x0100
def WM_KEYUP : UInt32 := 0x0101
def WM_CHAR : UInt32 := 0x0102
def WM_SYSKEYDOWN : UInt32 := 0x0104
def WM_SYSKEYUP : UInt32 := 0x0105
def WM_MOUSEMOVE : UInt32 := 0x0200
def WM_LBUTTONDOWN : UInt32 := 0x0201
def WM_LBUTTONUP : UInt32 := 0x0202
def WM_RBUTTONDOWN : UInt32 := 0x0204
def WM_RBUTTONUP : UInt32 := 0x0205
def WM_MBUTTONDOWN : UInt32 := 0x0207
def WM_MBUTTONUP : UInt32 := 0x0208
def WM_MOUSEWHEEL : UInt32 := 0x020a
def WM_XBUTTONDOWN : UInt32 := 0x020b
def WM_XBUTTONUP : UInt32 := 0x020c
def WM_MOUSEHWHEEL : UInt32 := 0x020e

def VK_SHIFT : UInt32 := 0x10
def VK_CONTROL : UInt32 := 0x11
def VK_MENU : UInt32 := 0x12

def MK_SHIFT : UInt64 := 0x4
def MK_CONTROL : UInt64 := 0x8

/-- Whether a message has the buttons that are held. -/
def Message.IsMouse (self : Message) : Prop := WM_MOUSEMOVE ≤ self.message

instance (self : Message) : Decidable self.IsMouse := inferInstanceAs (Decidable (_ ≤ _))

/-- How a button is posted: pressed, released, its flag, and which of the extra buttons it is. -/
structure Posting where
  down : UInt32
  up : UInt32
  flag : UInt64
  extra : UInt16

def posting : PointerButton → Posting
  | .left => ⟨WM_LBUTTONDOWN, WM_LBUTTONUP, 0x1, 0⟩
  | .right => ⟨WM_RBUTTONDOWN, WM_RBUTTONUP, 0x2, 0⟩
  | .middle => ⟨WM_MBUTTONDOWN, WM_MBUTTONUP, 0x10, 0⟩
  | .back => ⟨WM_XBUTTONDOWN, WM_XBUTTONUP, 0x20, 1⟩
  | .forward => ⟨WM_XBUTTONDOWN, WM_XBUTTONUP, 0x40, 2⟩

/-- The generic codes of Shift, Ctrl and Alt. -/
def genericKey (vk : UInt32) : UInt32 :=
  if vk = 0xa0 ∨ vk = 0xa1 then VK_SHIFT
  else if vk = 0xa2 ∨ vk = 0xa3 then VK_CONTROL
  else if vk = 0xa4 ∨ vk = 0xa5 then VK_MENU
  else vk

/-- One repeat, the scan code, the extended flag, Alt held, and for a release the previous-state and
transition bits. -/
def keyLparam (scan : UInt16) (extended alt pressed : Bool) : UInt64 :=
  let value : UInt32 := (1 : UInt32) ||| (scan &&& 0xff).toUInt32 <<< 16
  let value := if extended then value ||| (1 : UInt32) <<< 24 else value
  let value := if alt then value ||| (1 : UInt32) <<< 29 else value
  let value := if pressed then value else value ||| (1 : UInt32) <<< 30 ||| (1 : UInt32) <<< 31
  value.toUInt64

/-- x in the low word, y in the high. -/
def pointLparam (p : Point) : UInt64 :=
  (p.y.toUInt32.toUInt16.toUInt32 <<< 16 ||| p.x.toUInt32.toUInt16.toUInt32).toUInt64

/-- Where a pointer message goes. -/
structure Target where
  window : HWND
  screen : Point
  client : Point

section

variable (layout : Layout) (rounding : Rounding)

/-- Down through the children under the point, at most so many. -/
def descend (screen : Point) : ℕ → HWND → HWND
  | 0, current => current
  | n + 1, current =>
    let child := layout.childFromPoint current (layout.screenToClient current screen)
    if layout.isInvalid child ∨ child = current then current else descend screen n child

/-- The deepest child under the point, and the point on the screen and in that child. -/
def target (window : WindowId) (x y : F32) : Option Target := do
  let screen := rounding.screenPoint (← layout.bounds window) x y
  let current := descend layout screen 32 window
  return ⟨current, screen, layout.screenToClient current screen⟩

end

/-! ### The state -/

structure State where
  /-- Where the client last put the pointer: a window and a point in its picture. -/
  pointer : Option (WindowId × F32 × F32)
  /-- Mouse buttons held down, as flags. -/
  buttons : UInt64
  shift : Bool
  control : Bool
  alt : Bool
  /-- The touch that drives the pointer while it is down. -/
  touch : Option UInt32
  /-- The child window last clicked. -/
  clicked : Option HWND
  deriving DecidableEq

namespace State

def default : State := ⟨none, 0, false, false, false, none, none⟩

def mouseKeys (self : State) : UInt64 :=
  let keys := self.buttons
  let keys := if self.shift then keys ||| MK_SHIFT else keys
  if self.control then keys ||| MK_CONTROL else keys

variable (layout : Layout) (rounding : Rounding) (self : State)

def button (window : WindowId) (x y : F32) (button : PointerButton) (pressed : Bool) : State × List Message :=
  match target layout rounding window x y with
  | none => (self, [])
  | some target =>
    let code := posting button
    let next :=
      if pressed then { self with buttons := self.buttons ||| code.flag, clicked := some target.window }
      else { self with buttons := self.buttons &&& ~~~ code.flag }
    (next, [⟨target.window, if pressed then code.down else code.up, code.extra.toUInt64 <<< 16 ||| next.mouseKeys,
      pointLparam target.client⟩])

/-- Where keys for `focus` go: the window with the keyboard focus in its thread when that is inside it,
else the child last clicked inside it, else the window itself. -/
def keyboardTarget (focus : WindowId) : HWND :=
  let inside := fun w => !layout.isInvalid w && (w = focus || layout.isChild focus w)
  match (layout.focus focus).filter inside with
  | some window => window
  | none => ((self.clicked.filter inside).filter layout.isWindow).getD focus

/-- The pointer is moved where a window is. -/
def move (window : WindowId) (x y : F32) : State × List Message :=
  let next := { self with pointer := some (window, x, y) }
  (next, ((target layout rounding window x y).map fun target =>
    ⟨target.window, WM_MOUSEMOVE, next.mouseKeys, pointLparam target.client⟩).toList)

def scroll (window : WindowId) (dx dy : F32) : List Message :=
  let (x, y) :=
    match self.pointer with
    | some (w, x, y) => if w = window then (x, y) else (0x3f000000, 0x3f000000)
    | none => (0x3f000000, 0x3f000000)
  match target layout rounding window x y with
  | none => []
  | some target =>
    [(dy, WM_MOUSEWHEEL), (dx, WM_MOUSEHWHEEL)].filterMap fun (delta, message) =>
      if isZero delta then none
      else some ⟨target.window, message, (rounding.wheel delta).toUInt64 <<< 16 ||| self.mouseKeys,
        pointLparam target.screen⟩

def key (keycode : UInt32) (pressed : Bool) (focus : WindowId) : State × List Message :=
  match scanFromEvdev keycode with
  | none => (self, [])
  | some (extended, scan) =>
    let vk := genericKey (layout.virtualKey (scan.toUInt32 ||| if extended then 0xe000 else 0))
    let next :=
      if vk = VK_SHIFT then { self with shift := pressed }
      else if vk = VK_CONTROL then { self with control := pressed }
      else if vk = VK_MENU then { self with alt := pressed }
      else self
    -- Alt (without Ctrl) makes system keys
    let system := next.alt && !next.control || vk = VK_MENU
    let message :=
      match system, pressed with
      | false, true => WM_KEYDOWN
      | false, false => WM_KEYUP
      | true, true => WM_SYSKEYDOWN
      | true, false => WM_SYSKEYUP
    (next, [⟨next.keyboardTarget layout focus, message, vk.toUInt64,
      keyLparam scan.toUInt16 extended next.alt pressed⟩])

def inject (event : InputEvent) (focus : Option WindowId) : State × List Message :=
  match event with
  | .pointerMove window x y => self.move layout rounding window x y
  | .pointerButton window button pressed =>
    -- a press without a position would land on a guess
    match self.pointer with
    | some (w, x, y) => if w = window then self.button layout rounding window x y button pressed else (self, [])
    | none => (self, [])
  | .pointerScroll window dx dy => (self, self.scroll layout rounding window dx dy)
  | .key keycode pressed =>
    match focus with
    | some focus => self.key layout keycode pressed focus
    | none => (self, [])
  | .text text =>
    match focus with
    | some focus =>
      (self, (Utf16.encode text).map fun unit => ⟨self.keyboardTarget layout focus, WM_CHAR, unit.toUInt64, 1⟩)
    | none => (self, [])
  | .touch window id x y phase =>
    match phase with
    | .start =>
      if self.touch = none then
        { self with touch := some id, pointer := some (window, x, y) }.button layout rounding window x y .left true
      else (self, [])
    | .move => if self.touch = some id then self.move layout rounding window x y else (self, [])
    | .«end» | .cancel =>
      if self.touch = some id then
        { self with touch := none, pointer := some (window, x, y) }.button layout rounding window x y .left false
      else (self, [])
  -- delivered to the session's pads
  | .gamepad _ _ | .gamepadGone _ => (self, [])

end State

/-! ### Runs -/

/-- What is asked of the injector: to keep the pointer's place while input goes another way, or an
event, with the window that has the focus and what Windows answers. -/
inductive Call
  | rememberPointer (window : WindowId) (x y : F32)
  | inject (event : InputEvent) (focus : Option WindowId) (layout : Layout)

section

variable (rounding : Rounding)

def State.step (self : State) : Call → State × List Message
  | .rememberPointer window x y => ({ self with pointer := some (window, x, y) }, [])
  | .inject event focus layout => self.inject layout rounding event focus

def run (calls : List Call) : State := calls.foldl (fun state call => (state.step rounding call).1) .default

/-- What a call posts, behind others. -/
def posts (past : List Call) (call : Call) : List Message := ((run rounding past).step rounding call).2

/-- What can be held. -/
inductive Item
  | button (button : PointerButton)
  | touch (window : WindowId) (id : UInt32)
  deriving DecidableEq

/-- The button that is posted for it. -/
def Item.posted : Item → PointerButton
  | .button b => b
  | .touch _ _ => .left

/-- What an event says of it: that the client presses it, or releases it. -/
def Item.mark (item : Item) : InputEvent → Option Bool
  | .pointerButton _ b pressed => if item = .button b then some pressed else none
  | .touch window id _ _ phase =>
    if item = .touch window id then
      match phase with
      | .start => some true
      | .move => none
      | .«end» | .cancel => some false
    else none
  | _ => none

def Item.word (item : Item) : Call → Option Bool
  | .inject event _ _ => item.mark event
  | .rememberPointer _ _ _ => none

/-- The client holds it. -/
def Held (item : Item) (past : List Call) : Prop := latest item.word past = some true

/-- A message of a button's, with what is held behind the call. -/
def Posts (past : List Call) (call : Call) (code : UInt32) (button : PointerButton) : Prop :=
  ∃ message ∈ posts rounding past call, message.message = code ∧
    message.wparam = (posting button).extra.toUInt64 <<< 16 ||| (run rounding (past ++ [call])).mouseKeys

/-- It was posted as pressed, and the client has not released it since. -/
def Pressed (item : Item) (past : List Call) : Prop :=
  ∃ before call after, past = before ++ call :: after ∧ item.word call = some true ∧
    Posts rounding before call (posting item.posted).down item.posted ∧
      ∀ call' ∈ after, item.word call' ≠ some false

/-- What was posted as pressed, and is released, is posted as released, and its flag is cleared. -/
def Releases (past : List Call) (call : Call) : Prop :=
  ∀ item, Pressed rounding item past → item.word call = some false →
    Posts rounding past call (posting item.posted).up item.posted ∧
      (run rounding (past ++ [call])).buttons &&& (posting item.posted).flag = 0

/-- When the client has released everything, no message has a button that is held. -/
def Clean (past : List Call) (call : Call) : Prop :=
  (∀ item, ¬ Held item (past ++ [call])) →
    ∀ message ∈ posts rounding past call, message.IsMouse → ∀ button, message.wparam &&& (posting button).flag = 0

/-- The pointer was last put in the window of a button, a touch drives the pointer, and the window is
there. -/
def State.Finds (self : State) : Call → Prop
  | .inject (.pointerButton window _ _) _ layout =>
    self.pointer.map Prod.fst = some window ∧ (layout.bounds window).isSome
  | .inject (.touch window id _ _ _) _ layout => self.touch = some id ∧ (layout.bounds window).isSome
  | _ => True

/-- Where something that was posted as pressed is released, it is found. -/
def Reaches (past : List Call) (call : Call) : Prop :=
  ∀ item, Pressed rounding item past → item.word call = some false → (run rounding past).Finds call

end

/-! ### Flags -/

section

theorem and_or (x m n : UInt64) : (x ||| m) &&& n = (x &&& n) ||| (m &&& n) := by
  refine UInt64.toBitVec_inj.mp ?_
  rw [UInt64.toBitVec_and, UInt64.toBitVec_or, UInt64.toBitVec_or, UInt64.toBitVec_and, UInt64.toBitVec_and,
    BitVec.and_or_distrib_right]

/-- What is in the high words is not in the low one. -/
theorem shiftLeft_and (x : UInt64) {n : UInt64} (h : n.toNat < 2 ^ 16) : x <<< 16 &&& n = 0 := by
  refine UInt64.toNat_inj.mp (Nat.eq_of_testBit_eq fun i => ?_)
  rw [UInt64.toNat_and, UInt64.toNat_shiftLeft, UInt64.toNat_zero, Nat.zero_testBit, Nat.testBit_and]
  rcases Nat.lt_or_ge i 16 with hi | hi
  · have : ¬ i ≥ (16 : UInt64).toNat % 64 := Nat.not_le_of_lt hi
    rw [Nat.testBit_mod_two_pow, Nat.testBit_shiftLeft, decide_eq_false this, Bool.false_and, Bool.and_false,
      Bool.false_and]
  · rw [Nat.testBit_lt_two_pow (Nat.lt_of_lt_of_le h (Nat.pow_le_pow_right Nat.two_pos hi)), Bool.and_false]

theorem shiftLeft_and_flag (x : UInt64) (button : PointerButton) : x <<< 16 &&& (posting button).flag = 0 := by
  refine shiftLeft_and x ?_
  cases button <;> decide

/-- Flags of different buttons have nothing in common. -/
theorem flag_and_flag {b b' : PointerButton} (h : b ≠ b') : (posting b).flag &&& (posting b').flag = 0 := by
  cases b <;> cases b' <;> first | exact absurd rfl h | decide

theorem not_flag_and_flag (b b' : PointerButton) :
    ~~~ (posting b).flag &&& (posting b').flag = if b = b' then 0 else (posting b').flag := by
  cases b <;> cases b' <;> decide

/-- Shift and Ctrl are no buttons. -/
theorem mouseKeys_and_flag (self : State) (b : PointerButton) :
    self.mouseKeys &&& (posting b).flag = self.buttons &&& (posting b).flag := by
  have hshift : MK_SHIFT &&& (posting b).flag = 0 := by cases b <;> decide
  have hcontrol : MK_CONTROL &&& (posting b).flag = 0 := by cases b <;> decide
  unfold State.mouseKeys
  split <;> split <;> simp only [and_or, hshift, hcontrol, UInt64.or_zero]

end

/-! ### What an event does -/

namespace State

section

variable {layout : Layout} {rounding : Rounding} {self : State} {window : WindowId} {x y : F32} {b : PointerButton}
  {pressed : Bool} {event : InputEvent} {focus : Option WindowId}

/-- The button that an event presses or releases there and then. -/
def acts (layout : Layout) (self : State) : InputEvent → Option (PointerButton × Bool)
  | .pointerButton window b pressed =>
    if self.pointer.map Prod.fst = some window ∧ (layout.bounds window).isSome then some (b, pressed) else none
  | .touch window id _ _ phase =>
    match phase with
    | .start => if self.touch = none ∧ (layout.bounds window).isSome then some (.left, true) else none
    | .move => none
    | .«end» | .cancel => if self.touch = some id ∧ (layout.bounds window).isSome then some (.left, false) else none
  | _ => none

/-- The buttons that are held behind that. -/
def held (buttons : UInt64) : Option (PointerButton × Bool) → UInt64
  | some (b, true) => buttons ||| (posting b).flag
  | some (b, false) => buttons &&& ~~~ (posting b).flag
  | none => buttons

theorem target_isSome (layout : Layout) (rounding : Rounding) (window : WindowId) (x y : F32) :
    (target layout rounding window x y).isSome = (layout.bounds window).isSome := by
  unfold target
  cases layout.bounds window <;> rfl

theorem button_of_none (h : (layout.bounds window).isSome = false) :
    self.button layout rounding window x y b pressed = (self, []) := by
  have htarget := target_isSome layout rounding window x y
  rw [h, Option.isSome_eq_false_iff, Option.isNone_iff_eq_none] at htarget
  rw [button, htarget]

/-- A button is pressed or released, and posted with what is held then. -/
theorem button_of_some (self : State) (h : (layout.bounds window).isSome = true) :
    ∃ message, (self.button layout rounding window x y b pressed).2 = [message] ∧
      message.message = (if pressed then (posting b).down else (posting b).up) ∧
      message.wparam = (posting b).extra.toUInt64 <<< 16 |||
        (self.button layout rounding window x y b pressed).1.mouseKeys ∧
      (self.button layout rounding window x y b pressed).1.buttons = held self.buttons (some (b, pressed)) := by
  rw [← target_isSome layout rounding window x y, Option.isSome_iff_exists] at h
  obtain ⟨found, htarget⟩ := h
  rw [button, htarget]
  refine ⟨_, rfl, rfl, rfl, ?_⟩
  cases pressed with
  | true => rfl
  | false => rfl

/-- Where the pointer is in the window, the button is at its place. -/
theorem inject_pointerButton (layout : Layout) (rounding : Rounding) (focus : Option WindowId) (b : PointerButton)
    (pressed : Bool) (h : self.pointer.map Prod.fst = some window) : ∃ x y,
    self.inject layout rounding (.pointerButton window b pressed) focus =
      self.button layout rounding window x y b pressed := by
  obtain ⟨⟨w, x, y⟩, hpointer, rfl⟩ := Option.map_eq_some_iff.mp h
  refine ⟨x, y, ?_⟩
  rw [inject, hpointer]
  exact if_pos rfl

theorem inject_pointerButton_of_ne (h : self.pointer.map Prod.fst ≠ some window) :
    self.inject layout rounding (.pointerButton window b pressed) focus = (self, []) := by
  rw [inject]
  split
  · next w x y hpointer =>
    refine if_neg fun hw => h ?_
    rw [hpointer, hw]
    rfl
  · rfl

/-- A button that is pressed or released is posted with what is held then. -/
theorem inject_of_acts (rounding : Rounding) (focus : Option WindowId)
    (h : acts layout self event = some (b, pressed)) :
    ∃ message, (self.inject layout rounding event focus).2 = [message] ∧
      message.message = (if pressed then (posting b).down else (posting b).up) ∧
      message.wparam = (posting b).extra.toUInt64 <<< 16 ||| (self.inject layout rounding event focus).1.mouseKeys ∧
      (self.inject layout rounding event focus).1.buttons = held self.buttons (some (b, pressed)) := by
  cases event with
  | pointerButton window b' pressed' =>
    rw [acts, Option.ite_none_right_eq_some] at h
    obtain ⟨⟨hpointer, hbounds⟩, h⟩ := h
    obtain ⟨rfl, rfl⟩ := Prod.mk.inj (Option.some.inj h)
    obtain ⟨x, y, hinject⟩ := inject_pointerButton layout rounding focus b' pressed' hpointer
    rw [hinject]
    exact button_of_some self hbounds
  | touch window id x y phase =>
    cases phase with
    | start =>
      rw [acts, Option.ite_none_right_eq_some] at h
      obtain ⟨⟨htouch, hbounds⟩, h⟩ := h
      obtain ⟨rfl, rfl⟩ := Prod.mk.inj (Option.some.inj h)
      rw [inject, if_pos htouch]
      exact button_of_some { self with touch := some id, pointer := some (window, x, y) } hbounds
    | move => exact nomatch h
    | «end» | cancel =>
      rw [acts, Option.ite_none_right_eq_some] at h
      obtain ⟨⟨htouch, hbounds⟩, h⟩ := h
      obtain ⟨rfl, rfl⟩ := Prod.mk.inj (Option.some.inj h)
      rw [inject, if_pos htouch]
      exact button_of_some { self with touch := none, pointer := some (window, x, y) } hbounds
  | _ => exact nomatch h

/-- A button that is not found is dropped. -/
theorem silent_pointerButton (rounding : Rounding) (focus : Option WindowId)
    (h : acts layout self (.pointerButton window b pressed) = none) : ∃ next,
    self.inject layout rounding (.pointerButton window b pressed) focus = (next, []) ∧
      next.buttons = self.buttons := by
  rw [acts, ite_eq_right_iff] at h
  refine ⟨self, ?_, rfl⟩
  by_cases hpointer : self.pointer.map Prod.fst = some window
  · have hbounds : (layout.bounds window).isSome = false := by
      by_contra hsome
      exact nomatch h ⟨hpointer, (Bool.not_eq_false _).mp hsome⟩
    obtain ⟨x, y, hinject⟩ := inject_pointerButton layout rounding focus b pressed hpointer
    rw [hinject, button_of_none hbounds]
  · exact inject_pointerButton_of_ne hpointer

/-- A touch that is not found only moves the pointer. -/
theorem silent_touch (rounding : Rounding) (focus : Option WindowId) {id : UInt32} {phase : TouchPhase}
    (hphase : phase ≠ .move) (h : acts layout self (.touch window id x y phase) = none) : ∃ next,
    self.inject layout rounding (.touch window id x y phase) focus = (next, []) ∧ next.buttons = self.buttons := by
  cases phase with
  | move => exact absurd rfl hphase
  | start =>
    rw [acts, ite_eq_right_iff] at h
    by_cases htouch : self.touch = none
    · have hbounds : (layout.bounds window).isSome = false := by
        by_contra hsome
        exact nomatch h ⟨htouch, (Bool.not_eq_false _).mp hsome⟩
      rw [inject, if_pos htouch, button_of_none hbounds]
      exact ⟨_, rfl, rfl⟩
    · exact ⟨self, by rw [inject, if_neg htouch], rfl⟩
  | «end» | cancel =>
    rw [acts, ite_eq_right_iff] at h
    by_cases htouch : self.touch = some id
    · have hbounds : (layout.bounds window).isSome = false := by
        by_contra hsome
        exact nomatch h ⟨htouch, (Bool.not_eq_false _).mp hsome⟩
      rw [inject, if_pos htouch, button_of_none hbounds]
      exact ⟨_, rfl, rfl⟩
    · exact ⟨self, by rw [inject, if_neg htouch], rfl⟩

/-- An event that presses or releases none changes none, and what it posts has those that are held. -/
structure Quiet (state : State) (outcome : State × List Message) : Prop where
  buttons : outcome.1.buttons = state.buttons
  wparam : ∀ message ∈ outcome.2, message.IsMouse → ∀ b,
    message.wparam &&& (posting b).flag = state.buttons &&& (posting b).flag

theorem Quiet.nil {next : State} (h : next.buttons = self.buttons) : Quiet self (next, []) := ⟨h, nofun⟩

theorem quiet_move : Quiet self (self.move layout rounding window x y) where
  buttons := rfl
  wparam := by
    intro message hmem _ b
    obtain ⟨found, -, rfl⟩ := Option.map_eq_some_iff.mp (Option.mem_toList.mp hmem)
    exact mouseKeys_and_flag _ b

theorem quiet_scroll {dx dy : F32} : Quiet self (self, self.scroll layout rounding window dx dy) where
  buttons := rfl
  wparam := by
    intro message hmem _ b
    unfold scroll at hmem
    dsimp only at hmem
    split at hmem
    · exact nomatch hmem
    · obtain ⟨⟨delta, code⟩, -, hmessage⟩ := List.mem_filterMap.mp hmem
      rw [Option.ite_none_left_eq_some] at hmessage
      obtain ⟨-, hmessage⟩ := hmessage
      rw [← Option.some.inj hmessage]
      show (_ ||| self.mouseKeys) &&& _ = _
      rw [and_or, shiftLeft_and_flag, UInt64.zero_or, mouseKeys_and_flag]

theorem quiet_key {keycode : UInt32} {focus : WindowId} : Quiet self (self.key layout keycode pressed focus) := by
  unfold key
  split
  · exact Quiet.nil rfl
  · refine ⟨?_, fun message hmem hmouse => ?_⟩
    · dsimp only
      split_ifs <;> rfl
    · -- a key's message is none of the mouse
      rw [List.mem_singleton] at hmem
      subst hmem
      revert hmouse
      dsimp only [Message.IsMouse]
      split <;> exact fun h => absurd h (by decide)

theorem quiet_of_acts (rounding : Rounding) (focus : Option WindowId) (h : acts layout self event = none) :
    Quiet self (self.inject layout rounding event focus) := by
  cases event with
  | pointerMove window x y => exact quiet_move
  | pointerScroll window dx dy => exact quiet_scroll
  | key keycode pressed =>
    cases focus with
    | none => exact Quiet.nil rfl
    | some focus => exact quiet_key
  | text text =>
    cases focus with
    | none => exact Quiet.nil rfl
    | some focus =>
      refine ⟨rfl, fun message hmem hmouse => ?_⟩
      obtain ⟨unit, -, rfl⟩ := List.mem_map.mp hmem
      exact absurd hmouse (show ¬ WM_MOUSEMOVE ≤ WM_CHAR by decide)
  | gamepad pad state => exact Quiet.nil rfl
  | gamepadGone pad => exact Quiet.nil rfl
  | pointerButton window b pressed =>
    obtain ⟨next, hinject, hbuttons⟩ := silent_pointerButton rounding focus h
    rw [hinject]
    exact Quiet.nil hbuttons
  | touch window id x y phase =>
    by_cases hphase : phase = .move
    · subst hphase
      rw [inject]
      split
      · exact quiet_move
      · exact Quiet.nil rfl
    · obtain ⟨next, hinject, hbuttons⟩ := silent_touch rounding focus hphase h
      rw [hinject]
      exact Quiet.nil hbuttons

end

end State

/-! ### What a call does -/

section

variable {rounding : Rounding} {item : Item} {past : List Call} {call : Call} {b : PointerButton}

theorem run_concat : run rounding (past ++ [call]) = ((run rounding past).step rounding call).1 := by
  rw [run, List.foldl_append]
  rfl

/-- The button that a call presses or releases there and then. -/
def State.does (self : State) : Call → Option (PointerButton × Bool)
  | .rememberPointer _ _ _ => none
  | .inject event _ layout => acts layout self event

theorem buttons_concat :
    (run rounding (past ++ [call])).buttons =
      State.held (run rounding past).buttons ((run rounding past).does call) := by
  rw [run_concat]
  cases call with
  | rememberPointer window x y => rfl
  | inject event focus layout =>
    rw [State.does, State.step]
    cases hacts : State.acts layout (run rounding past) event with
    | none => exact (State.quiet_of_acts rounding focus hacts).buttons
    | some act =>
      obtain ⟨message, -, -, -, hbuttons⟩ := State.inject_of_acts rounding focus hacts
      exact hbuttons

/-- What is pressed or released is posted. -/
theorem posts_of_does {pressed : Bool} (h : (run rounding past).does call = some (b, pressed)) :
    Posts rounding past call (if pressed then (posting b).down else (posting b).up) b := by
  cases call with
  | rememberPointer window x y => exact nomatch h
  | inject event focus layout =>
    obtain ⟨message, hposts, hcode, hwparam, -⟩ := State.inject_of_acts rounding focus h
    refine ⟨message, ?_, hcode, ?_⟩
    · rw [posts, State.step, hposts]
      exact List.mem_singleton_self message
    · rw [run_concat]
      exact hwparam

/-- A message of the mouse has the buttons that are held behind the call. -/
theorem wparam_and_flag {message : Message} (hmem : message ∈ posts rounding past call) (hmouse : message.IsMouse) :
    message.wparam &&& (posting b).flag = (run rounding (past ++ [call])).buttons &&& (posting b).flag := by
  rw [run_concat]
  cases call with
  | rememberPointer window x y => exact nomatch hmem
  | inject event focus layout =>
    rw [posts, State.step] at hmem
    cases hacts : State.acts layout (run rounding past) event with
    | none =>
      have hquiet := State.quiet_of_acts rounding focus hacts
      rw [State.step, hquiet.buttons]
      exact hquiet.wparam message hmem hmouse b
    | some act =>
      obtain ⟨message', hposts, -, hwparam, -⟩ := State.inject_of_acts rounding focus hacts
      rw [hposts, List.mem_singleton] at hmem
      rw [State.step, hmem, hwparam, and_or, shiftLeft_and_flag, UInt64.zero_or, mouseKeys_and_flag]

theorem Item.mark_pointerButton (window : WindowId) {pressed p : Bool}
    (h : item.mark (.pointerButton window b pressed) = some p) : item = .button b ∧ pressed = p := by
  obtain ⟨hitem, hp⟩ := Option.ite_none_right_eq_some.mp h
  exact ⟨hitem, Option.some.inj hp⟩

theorem Item.mark_touch (window : WindowId) (id : UInt32) (x y : F32) {phase : TouchPhase} {p : Bool}
    (h : item.mark (.touch window id x y phase) = some p) : item = .touch window id ∧ phase ≠ .move ∧
      (p = true ↔ phase = .start) := by
  obtain ⟨hitem, hp⟩ := Option.ite_none_right_eq_some.mp h
  cases phase <;> simp_all

/-- What the client releases is released there and then, or it is not found, and nothing is posted. -/
theorem does_of_released (rounding : Rounding) (past : List Call) (h : item.word call = some false) :
    ((run rounding past).Finds call ∧ (run rounding past).does call = some (item.posted, false)) ∨
      (¬ (run rounding past).Finds call ∧ posts rounding past call = []) := by
  have hposts {event : InputEvent} {focus : Option WindowId} {layout : Layout}
      (hsilent : ∃ next, (run rounding past).inject layout rounding event focus = (next, []) ∧
        next.buttons = (run rounding past).buttons) : posts rounding past (.inject event focus layout) = [] := by
    obtain ⟨next, hinject, -⟩ := hsilent
    rw [posts, State.step, hinject]
  cases call with
  | rememberPointer window x y => exact nomatch h
  | inject event focus layout =>
    cases event with
    | pointerButton window b pressed =>
      obtain ⟨rfl, rfl⟩ := Item.mark_pointerButton window h
      by_cases hfinds : (run rounding past).Finds (.inject (.pointerButton window b false) focus layout)
      · exact .inl ⟨hfinds, if_pos hfinds⟩
      · exact .inr ⟨hfinds, hposts (State.silent_pointerButton rounding focus (if_neg hfinds))⟩
    | touch window id x y phase =>
      obtain ⟨rfl, hmove, hstart⟩ := Item.mark_touch window id x y h
      by_cases hfinds : (run rounding past).Finds (.inject (.touch window id x y phase) focus layout)
      · refine .inl ⟨hfinds, ?_⟩
        cases phase with
        | start => exact nomatch hstart.mpr rfl
        | move => exact absurd rfl hmove
        | «end» | cancel => exact if_pos hfinds
      · refine .inr ⟨hfinds, hposts (State.silent_touch rounding focus hmove ?_)⟩
        cases phase with
        | start => exact nomatch hstart.mpr rfl
        | move => exact absurd rfl hmove
        | «end» | cancel => exact if_neg hfinds
    | _ => exact nomatch h

/-- What is pressed there and then is pressed for the client. -/
theorem exists_item_of_does {pressed : Bool} (h : (run rounding past).does call = some (b, pressed)) :
    ∃ item : Item, item.posted = b ∧ item.word call = some pressed := by
  cases call with
  | rememberPointer window x y => exact nomatch h
  | inject event focus layout =>
    cases event with
    | pointerButton window b' pressed' =>
      obtain ⟨-, h⟩ := Option.ite_none_right_eq_some.mp h
      obtain ⟨rfl, rfl⟩ := Prod.mk.inj (Option.some.inj h)
      exact ⟨.button b', rfl, if_pos rfl⟩
    | touch window id x y phase =>
      cases phase with
      | move => exact nomatch h
      | start | «end» | cancel =>
        obtain ⟨-, h⟩ := Option.ite_none_right_eq_some.mp h
        obtain ⟨rfl, rfl⟩ := Prod.mk.inj (Option.some.inj h)
        exact ⟨.touch window id, rfl, if_pos rfl⟩
    | _ => exact nomatch h

/-! ### What is pressed -/

/-- What was posted as pressed, one call later. -/
theorem pressed_concat : Pressed rounding item (past ++ [call]) ↔
    (item.word call = some true ∧ Posts rounding past call (posting item.posted).down item.posted) ∨
      (Pressed rounding item past ∧ item.word call ≠ some false) := by
  constructor
  · rintro ⟨before, call', after, hsplit, hword, hposts, hafter⟩
    rcases List.eq_nil_or_concat after with rfl | ⟨after, last, rfl⟩
    · obtain ⟨rfl, hcall⟩ := List.append_inj' hsplit rfl
      cases hcall
      exact .inl ⟨hword, hposts⟩
    · rw [List.concat_eq_append, ← List.cons_append, ← List.append_assoc] at hsplit
      obtain ⟨rfl, hcall⟩ := List.append_inj' hsplit rfl
      cases hcall
      rw [List.concat_eq_append] at hafter
      exact .inr ⟨⟨before, call', after, rfl, hword, hposts, fun c hc => hafter c (List.mem_append_left _ hc)⟩,
        hafter call (List.mem_append_right _ (List.mem_singleton_self call))⟩
  · rintro (⟨hword, hposts⟩ | ⟨⟨before, call', after, rfl, hword, hposts, hafter⟩, hlast⟩)
    · exact ⟨past, call, [], rfl, hword, hposts, nofun⟩
    · refine ⟨before, call', after ++ [call], by rw [List.append_assoc, List.cons_append], hword, hposts, ?_⟩
      intro c hc
      rcases List.mem_append.mp hc with hc | hc
      · exact hafter c hc
      · rw [List.mem_singleton.mp hc]
        exact hlast

/-- What was posted as pressed and not released since, the client holds. -/
theorem Pressed.held (h : Pressed rounding item past) : Held item past := by
  induction past using List.reverseRecOn with
  | nil =>
    obtain ⟨before, call', after, hsplit, -⟩ := h
    exact absurd hsplit (by simp)
  | append_singleton past call ih =>
    rw [Held, latest_concat]
    rcases pressed_concat.mp h with ⟨hword, -⟩ | ⟨hpast, hnot⟩
    · rw [hword, Option.some_or]
    · cases hword : item.word call with
      | none => exact (Option.none_or).trans (ih hpast)
      | some pressed =>
        cases pressed with
        | true => rfl
        | false => exact absurd hword hnot

/-- Every button that is held belongs to something that was posted as pressed. -/
def Owned (rounding : Rounding) (past : List Call) : Prop :=
  ∀ b, (run rounding past).buttons &&& (posting b).flag ≠ 0 →
    ∃ item : Item, item.posted = b ∧ Pressed rounding item past

theorem owned_nil : Owned rounding [] := fun _ h => absurd UInt64.zero_and h

/-- A button that is held behind a call was held before, or the call presses it. -/
theorem held_before (h : (run rounding (past ++ [call])).buttons &&& (posting b).flag ≠ 0) :
    (run rounding past).buttons &&& (posting b).flag ≠ 0 ∨ (run rounding past).does call = some (b, true) := by
  rw [buttons_concat] at h
  match hdoes : (run rounding past).does call with
  | none =>
    rw [hdoes] at h
    exact .inl h
  | some (b', true) =>
    rw [hdoes, State.held, and_or] at h
    by_cases hb : b' = b
    · exact .inr (hb ▸ rfl)
    · rw [flag_and_flag hb, UInt64.or_zero] at h
      exact .inl h
  | some (b', false) =>
    rw [hdoes, State.held, UInt64.and_assoc, not_flag_and_flag] at h
    split at h
    · exact absurd UInt64.and_zero h
    · exact .inl h

theorem owned_concat (h : Owned rounding past) (hreleases : Releases rounding past call) :
    Owned rounding (past ++ [call]) := by
  intro b hb
  rcases held_before hb with hbefore | hdoes
  · obtain ⟨item, hposted, hpressed⟩ := h b hbefore
    refine ⟨item, hposted, pressed_concat.mpr (.inr ⟨hpressed, fun hword => ?_⟩)⟩
    -- what was released is not held any more
    have := (hreleases item hpressed hword).2
    rw [hposted] at this
    exact hb this
  · obtain ⟨item, hposted, hword⟩ := exists_item_of_does hdoes
    refine ⟨item, hposted, pressed_concat.mpr (.inl ⟨hword, ?_⟩)⟩
    rw [hposted]
    exact posts_of_does hdoes

/-- What is released is posted as released exactly if it is found. -/
theorem releases_iff_reaches : Releases rounding past call ↔ Reaches rounding past call := by
  refine forall_congr' fun item => forall_congr' fun _ => forall_congr' fun hword => ?_
  rcases does_of_released rounding past hword with ⟨hfinds, hdoes⟩ | ⟨hfinds, hposts⟩
  · refine iff_of_true ⟨posts_of_does hdoes, ?_⟩ hfinds
    rw [buttons_concat, hdoes, State.held, UInt64.and_assoc, not_flag_and_flag, if_pos rfl, UInt64.and_zero]
  · refine iff_of_false (fun h => ?_) hfinds
    obtain ⟨message, hmem, -⟩ := h.1
    rw [hposts] at hmem
    exact nomatch hmem

theorem clean_of_owned (h : Owned rounding (past ++ [call])) : Clean rounding past call := by
  intro hnothing message hmem hmouse b
  rw [wparam_and_flag hmem hmouse]
  by_contra hb
  obtain ⟨item, -, hpressed⟩ := h b hb
  exact hnothing item hpressed.held

theorem clean_of_releases {calls : List Call} (h : Run.Always (Releases rounding) calls) :
    Owned rounding calls ∧ Run.Always (Clean rounding) calls := by
  induction calls using List.reverseRecOn with
  | nil => exact ⟨owned_nil, Run.always_nil⟩
  | append_singleton past call ih =>
    obtain ⟨hpast, hcall⟩ := Run.always_concat.mp h
    obtain ⟨howned, hclean⟩ := ih hpast
    have howned' := owned_concat howned hcall
    exact ⟨howned', Run.always_concat.mpr ⟨hclean, clean_of_owned howned'⟩⟩

end

/-- In which runs everything that was posted as pressed and is released is posted as released, and no
message has a held button once the client has released everything: those in which each is still
found where it is released. -/
theorem posted_released_iff (rounding : Rounding) (calls : List Call) :
    Run.Always (Releases rounding) calls ∧ Run.Always (Clean rounding) calls ↔
      Run.Always (Reaches rounding) calls := by
  have hsame : Run.Always (Releases rounding) calls ↔ Run.Always (Reaches rounding) calls :=
    Run.always_congr (I := fun _ _ => True) (fun _ _ _ _ => trivial) fun _ _ _ => releases_iff_reaches
  exact ⟨fun h => hsame.mp h.1, fun h => ⟨hsame.mpr h, (clean_of_releases (hsame.mpr h)).2⟩⟩

/-- Windows of one pixel, without children. -/
def plain : Layout where
  isInvalid w := w = 0
  bounds _ := some ⟨0, 0, 1, 1⟩
  screenToClient _ p := p
  childFromPoint _ _ := 0
  isChild _ _ := false
  isWindow _ := true
  focus _ := none
  virtualKey code := code

def still : Rounding := ⟨fun rect _ _ => ⟨rect.left, rect.top⟩, fun delta => delta.toUInt16⟩

/-- The left button is pressed in window 1, and the pointer is moved to window 2. -/
def dragged : List Call :=
  [.inject (.pointerMove 1 0 0) none plain, .inject (.pointerButton 1 .left true) none plain,
   .inject (.pointerMove 2 0 0) none plain]

/-- Its release in window 1 is dropped. -/
theorem release_dropped : ¬ ∀ rounding calls,
    Run.Always (Releases rounding) calls ∧ Run.Always (Clean rounding) calls := by
  intro h
  let release : Call := .inject (.pointerButton 1 .left false) none plain
  have hpressed : Pressed still (.button .left) dragged := by
    refine ⟨dragged.take 1, .inject (.pointerButton 1 .left true) none plain, dragged.drop 2, rfl, rfl, ?_, ?_⟩
    · exact posts_of_does (show (run still (dragged.take 1)).does _ = some (.left, true) by decide)
    · intro call hmem
      obtain rfl := List.mem_singleton.mp hmem
      exact nofun
  have hreleases := (Run.always_concat.mp (h still (dragged ++ [release])).1).2
  exact absurd (releases_iff_reaches.mp hreleases (.button .left) hpressed rfl).1 (by decide)

end WindowCast.Agents.Posted
