import WindowCast.GameStream.Control
import WindowCast.GameStream.Windows
import WindowCast.Lib.Utf8

/-!
# Input on the wire

The packets that a client's input comes in, inside control messages (`input.rs`): read on
the host, and written by our client.  The arithmetic of floating point is a parameter.

## Main definitions

* `encode`, `parse` — an input event as a packet with its channel, and the events of a packet.
* `Input.Integral` — an event without fractions.
* `Input.xinput` — the event as far as it is kept: a pad's buttons have XInput's bits.

## Main results

* `evdevOfVk_of_vkOfEvdev` — a key that has a virtual key comes back as itself.
* `parse_packet` — what is read of a packet is what is read of its body.
* `parseBody_encode` — **what is written of an event is read back**.
* `parse_sealed` — **sealed and opened, it still is**.
-/

namespace WindowCast.GameStream

open WindowCast.Stream (F32 GamepadState PointerButton TouchPhase isZero)

/-! ### Keys -/

/-- Windows' virtual keys and the evdev key codes, for the keys that a client sends. -/
def KEYS : List (UInt8 × UInt32) :=
  [(0x08, 14), (0x09, 15), (0x0d, 28), (0x10, 42), (0x11, 29), (0x12, 56), (0x13, 119), (0x14, 58), (0x1b, 1),
   (0x20, 57), (0x21, 104), (0x22, 109), (0x23, 107), (0x24, 102), (0x25, 105), (0x26, 103), (0x27, 106),
   (0x28, 108), (0x2c, 99), (0x2d, 110), (0x2e, 111), (0x30, 11), (0x31, 2), (0x32, 3), (0x33, 4), (0x34, 5),
   (0x35, 6), (0x36, 7), (0x37, 8), (0x38, 9), (0x39, 10), (0x41, 30), (0x42, 48), (0x43, 46), (0x44, 32),
   (0x45, 18), (0x46, 33), (0x47, 34), (0x48, 35), (0x49, 23), (0x4a, 36), (0x4b, 37), (0x4c, 38), (0x4d, 50),
   (0x4e, 49), (0x4f, 24), (0x50, 25), (0x51, 16), (0x52, 19), (0x53, 31), (0x54, 20), (0x55, 22), (0x56, 47),
   (0x57, 17), (0x58, 45), (0x59, 21), (0x5a, 44), (0x5b, 125), (0x5c, 126), (0x5d, 127), (0x60, 82), (0x61, 79),
   (0x62, 80), (0x63, 81), (0x64, 75), (0x65, 76), (0x66, 77), (0x67, 71), (0x68, 72), (0x69, 73), (0x6a, 55),
   (0x6b, 78), (0x6d, 74), (0x6e, 83), (0x6f, 98), (0x70, 59), (0x71, 60), (0x72, 61), (0x73, 62), (0x74, 63),
   (0x75, 64), (0x76, 65), (0x77, 66), (0x78, 67), (0x79, 68), (0x7a, 87), (0x7b, 88), (0x7c, 183), (0x7d, 184),
   (0x7e, 185), (0x7f, 186), (0x80, 187), (0x81, 188), (0x82, 189), (0x83, 190), (0x84, 191), (0x85, 192),
   (0x86, 193), (0x87, 194), (0x90, 69), (0x91, 70), (0xa0, 42), (0xa1, 54), (0xa2, 29), (0xa3, 97), (0xa4, 56),
   (0xa5, 100), (0xad, 113), (0xae, 114), (0xaf, 115), (0xb0, 163), (0xb1, 165), (0xb2, 166), (0xb3, 164),
   (0xba, 39), (0xbb, 13), (0xbc, 51), (0xbd, 12), (0xbe, 52), (0xbf, 53), (0xc0, 41), (0xdb, 26), (0xdc, 43),
   (0xdd, 27), (0xde, 40), (0xe2, 86)]

def evdevOfVk (vk : UInt8) : Option UInt32 := (KEYS.find? fun key => key.1 = vk).map Prod.snd

/-- The sided virtual key for an evdev code. -/
def vkOfEvdev (keycode : UInt32) : Option UInt8 :=
  ((KEYS.filter fun key => ¬ (0x10 ≤ key.1 ∧ key.1 ≤ 0x12)).find? fun key => key.2 = keycode).map Prod.fst

set_option maxRecDepth 4000 in
/-- The keys are listed in order. -/
theorem ascending_keys : (KEYS.map fun key => key.1.toNat).IsChain (· < ·) := by decide

/-- A key that has a virtual key comes back as itself. -/
theorem evdevOfVk_of_vkOfEvdev {keycode : UInt32} {vk : UInt8} (h : vkOfEvdev keycode = some vk) :
    evdevOfVk vk = some keycode := by
  obtain ⟨key, hfind, rfl⟩ := Option.map_eq_some_iff.mp h
  have hkey := List.find?_some hfind
  have hmem : key ∈ KEYS := List.mem_of_mem_filter (List.mem_of_find?_eq_some hfind)
  rw [evdevOfVk, Table.find?_of_ascending UInt8.toNat ascending_keys hmem, ← of_decide_eq_true hkey]
  rfl

/-! ### Packets -/

def KEY_DOWN : UInt32 := 0x03
def KEY_UP : UInt32 := 0x04
def MOUSE_ABSOLUTE : UInt32 := 0x05
def MOUSE_RELATIVE : UInt32 := 0x07
def MOUSE_BUTTON_DOWN : UInt32 := 0x08
def MOUSE_BUTTON_UP : UInt32 := 0x09
def SCROLL : UInt32 := 0x0a
def MULTI_CONTROLLER : UInt32 := 0x0c
def TEXT : UInt32 := 0x17
def HORIZONTAL_SCROLL : UInt32 := 0x55000001
def TOUCH : UInt32 := 0x55000002
def PEN : UInt32 := 0x55000003

def CHANNEL_KEYBOARD : UInt8 := 0x02
def CHANNEL_MOUSE : UInt8 := 0x03
def CHANNEL_TOUCH : UInt8 := 0x05
def CHANNEL_TEXT : UInt8 := 0x06
def CHANNEL_GAMEPAD : UInt8 := 0x10

/-- The arithmetic of positions and scroll amounts. -/
structure Fractions where
  /-- Cut to between 0 and 1. -/
  clamp : F32 → F32
  /-- A position of a reference size that is sent less one, cut to between 0 and 1. -/
  ratio : Int16 → Int16 → F32
  /-- A position of a reference size of 4096. -/
  scaled : F32 → Int16
  /-- An amount in notches, 120 each. -/
  notches : Int16 → F32
  /-- Notches as an amount. -/
  amount : F32 → Int16
  one : F32

/-- The length without the length's own bytes, the magic, and the body. -/
def packet (magic : UInt32) (body : List UInt8) : List UInt8 :=
  BigEndian.toBytes 4 (4 + body.length) ++ LittleEndian.toBytes 4 magic.toNat ++ body

/-- So many bytes at an offset, if they are there. -/
def slice (b : List UInt8) (offset n : ℕ) : Option (List UInt8) :=
  if offset + n ≤ b.length then some ((b.drop offset).take n) else none

def be16 (b : List UInt8) (offset : ℕ) : Option Int16 :=
  (slice b offset 2).map fun s => (UInt16.ofNat (BigEndian.ofBytes s)).toInt16

def le16 (b : List UInt8) (offset : ℕ) : Option Int16 :=
  (slice b offset 2).map fun s => (UInt16.ofNat (LittleEndian.ofBytes s)).toInt16

def le32 (b : List UInt8) (offset : ℕ) : Option UInt32 :=
  (slice b offset 4).map fun s => UInt32.ofNat (LittleEndian.ofBytes s)

def float (b : List UInt8) (offset : ℕ) : Option F32 := le32 b offset

def buttonNumber : PointerButton → UInt8
  | .left => 1
  | .middle => 2
  | .right => 3
  | .back => 4
  | .forward => 5

def buttonOf (number : UInt8) : Option PointerButton :=
  if number = 1 then some .left
  else if number = 2 then some .middle
  else if number = 3 then some .right
  else if number = 4 then some .back
  else if number = 5 then some .forward
  else none

/-- The phase of a touch event. -/
def phaseOf (event : UInt8) : Option TouchPhase :=
  if event = 1 then some .start
  else if event = 2 then some .«end»
  else if event = 3 then some .move
  else if event = 4 ∨ event = 7 then some .cancel
  else none

/-- What the body of a packet says, by its magic. -/
def parseBody (fractions : Fractions) (magic : UInt32) (body : List UInt8) : Option Input :=
  if magic = KEY_DOWN ∨ magic = KEY_UP then do
    let vk := (← le16 body 1).toUInt16 &&& 0xff
    return .key (← evdevOfVk vk.toUInt8) (magic = KEY_DOWN)
  else if magic = TEXT then (Utf8.decode body).map .text
  else if magic = MOUSE_RELATIVE then do
    return .pointerBy (← be16 body 0) (← be16 body 2)
  else if magic = MOUSE_ABSOLUTE then do
    let x ← be16 body 0
    let y ← be16 body 2
    let w ← be16 body 6
    let h ← be16 body 8
    if w ≤ 0 ∨ h ≤ 0 then none
    else return .pointerTo (fractions.ratio x w) (fractions.ratio y h)
  else if magic = MOUSE_BUTTON_DOWN ∨ magic = MOUSE_BUTTON_UP then do
    return .button (← buttonOf (← body.head?)) (magic = MOUSE_BUTTON_DOWN)
  else if magic = SCROLL then do
    return .scroll 0 (fractions.notches (← be16 body 0))
  else if magic = HORIZONTAL_SCROLL then do
    return .scroll (fractions.notches (← be16 body 0)) 0
  else if magic = MULTI_CONTROLLER then do
    let pad ← le16 body 2
    let active := (← le16 body 4).toUInt16
    let low := (← le16 body 8).toUInt16.toUInt32
    let high := (← le16 body 22).toUInt16.toUInt32
    if pad.toInt < 0 ∨ 255 < pad.toInt then none
    else return .gamepad pad.toUInt16.toUInt8 active {
      -- the extra buttons (paddles, touchpad, misc) have no XInput bit
      buttons := (low ||| (high <<< 16)) &&& 0xffff
      leftTrigger := ← body[10]?
      rightTrigger := ← body[11]?
      leftX := ← le16 body 12
      leftY := ← le16 body 14
      rightX := ← le16 body 16
      rightY := ← le16 body 18 }
  else if magic = TOUCH ∨ magic = PEN then do
    let event ← body.head?
    -- a pen is one more finger
    let (id, offset) ← if magic = TOUCH then (le32 body 4).map (·, 8) else some (0xffffffff, 4)
    let phase ← phaseOf event
    return .touch id (fractions.clamp (← float body offset)) (fractions.clamp (← float body (offset + 4))) phase
  else none

def parseOne (fractions : Fractions) (data : List UInt8) : Option Input := do
  let size := BigEndian.ofBytes (← slice data 0 4)
  let data ← slice data 0 (4 + size)
  parseBody fractions (← le32 data 4) (data.drop 8)

/-- The events of a packet: none, where it is malformed or of no use. -/
def parse (fractions : Fractions) (data : List UInt8) : List Input := (parseOne fractions data).toList

/-- The packet of an event, and the channel it goes on. -/
def encode (fractions : Fractions) : Input → Option (List UInt8 × UInt8)
  | .key keycode pressed => (vkOfEvdev keycode).map fun vk =>
    (packet (if pressed then KEY_DOWN else KEY_UP)
      (0 :: LittleEndian.toBytes 2 (0x8000 ||| vk.toUInt16).toNat ++ [0, 0, 0]), CHANNEL_KEYBOARD)
  | .text text => some (packet TEXT (Utf8.encode text), CHANNEL_TEXT)
  | .pointerBy dx dy =>
    some (packet MOUSE_RELATIVE (BigEndian.toBytes 2 dx.toUInt16.toNat ++ BigEndian.toBytes 2 dy.toUInt16.toNat),
      CHANNEL_MOUSE)
  | .pointerTo x y =>
    some (packet MOUSE_ABSOLUTE (BigEndian.toBytes 2 (fractions.scaled x).toUInt16.toNat
      ++ BigEndian.toBytes 2 (fractions.scaled y).toUInt16.toNat ++ [0, 0]
      ++ BigEndian.toBytes 2 4095 ++ BigEndian.toBytes 2 4095), CHANNEL_MOUSE)
  | .button button pressed =>
    some (packet (if pressed then MOUSE_BUTTON_DOWN else MOUSE_BUTTON_UP) [buttonNumber button], CHANNEL_MOUSE)
  | .scroll dx dy =>
    if !isZero dx then
      some (packet HORIZONTAL_SCROLL (BigEndian.toBytes 2 (fractions.amount dx).toUInt16.toNat), CHANNEL_MOUSE)
    else
      let amount := BigEndian.toBytes 2 (fractions.amount dy).toUInt16.toNat
      some (packet SCROLL (amount ++ amount ++ [0, 0]), CHANNEL_MOUSE)
  | .touch id x y phase =>
    let event := match phase with
      | .start => 1
      | .«end» => 2
      | .move => 3
      | .cancel => 4
    some (packet TOUCH ([event, 0, 0, 0] ++ LittleEndian.toBytes 4 id.toNat
      ++ [x, y, fractions.one, 0, 0].flatMap fun value => LittleEndian.toBytes 4 value.toNat), CHANNEL_TOUCH)
  | .gamepad pad active state =>
    let field := fun (value : UInt16) => LittleEndian.toBytes 2 value.toNat
    some (packet MULTI_CONTROLLER ([0x001a, pad.toUInt16, active, 0x0014].flatMap field
      ++ field state.buttons.toUInt16 ++ [state.leftTrigger, state.rightTrigger]
      ++ [state.leftX.toUInt16, state.leftY.toUInt16, state.rightX.toUInt16, state.rightY.toUInt16, 0x009c,
        (state.buttons >>> 16).toUInt16, 0x0055].flatMap field), CHANNEL_GAMEPAD + (pad &&& 0x0f))

/-! ### Round trips -/

/-- An event without fractions. -/
def Input.Integral : Input → Prop
  | .pointerBy _ _ | .button _ _ | .key _ _ | .text _ | .gamepad _ _ _ => True
  | .pointerTo _ _ | .scroll _ _ | .touch _ _ _ _ => False

/-- An event as far as it is kept: of a pad's buttons, XInput's bits. -/
def Input.xinput : Input → Input
  | .gamepad pad active state => .gamepad pad active { state with buttons := state.buttons &&& 0xffff }
  | input => input

section

variable {fractions : Fractions} {magic : UInt32} {b body rest : List UInt8} {offset : ℕ} {input : Input}
  {channel : UInt8}

theorem slice_append (front middle back : List UInt8) :
    slice (front ++ middle ++ back) front.length middle.length = some middle := by
  rw [slice, List.append_assoc, List.drop_left, List.take_left, if_pos]
  rw [List.length_append, List.length_append]
  omega

theorem be16_of_slice {v : UInt16} (h : slice b offset 2 = some (BigEndian.toBytes 2 v.toNat)) :
    be16 b offset = some v.toInt16 := by
  rw [be16, h, Option.map_some, BigEndian.ofBytes_toBytes_of_lt v.toNat_lt, UInt16.ofNat_toNat]

theorem le16_of_slice {v : UInt16} (h : slice b offset 2 = some (LittleEndian.toBytes 2 v.toNat)) :
    le16 b offset = some v.toInt16 := by
  rw [le16, h, Option.map_some, LittleEndian.ofBytes_toBytes_of_lt v.toNat_lt, UInt16.ofNat_toNat]

theorem le32_of_slice {v : UInt32} (h : slice b offset 4 = some (LittleEndian.toBytes 4 v.toNat)) :
    le32 b offset = some v := by
  rw [le32, h, Option.map_some, LittleEndian.ofBytes_toBytes_of_lt v.toNat_lt, UInt32.ofNat_toNat]

/-- **What is read of a packet is what is read of its body.** -/
theorem parse_packet (h : 4 + body.length < 2 ^ 32) :
    parseOne fractions (packet magic body) = parseBody fractions magic body := by
  have hhead : slice (packet magic body) 0 4 = some (BigEndian.toBytes 4 (4 + body.length)) := by
    rw [packet, List.append_assoc]
    exact slice_append [] (BigEndian.toBytes 4 (4 + body.length)) _
  have hall : slice (packet magic body) 0 (4 + (4 + body.length)) = some (packet magic body) := by
    have hlength : (packet magic body).length = 4 + (4 + body.length) := by
      simp only [packet, List.length_append, BigEndian.length_toBytes, LittleEndian.length_toBytes]
      omega
    rw [slice, List.drop_zero, Nat.zero_add, if_pos hlength.ge, List.take_of_length_le hlength.le]
  have hmagic : le32 (packet magic body) 4 = some magic :=
    le32_of_slice (slice_append (BigEndian.toBytes 4 (4 + body.length)) (LittleEndian.toBytes 4 magic.toNat) body)
  rw [parseOne, hhead, Option.bind_eq_bind, Option.bind_some, BigEndian.ofBytes_toBytes_of_lt h]
  dsimp only
  rw [hall, Option.bind_eq_bind, Option.bind_some, hmagic]
  rfl

theorem buttonOf_buttonNumber (button : PointerButton) : buttonOf (buttonNumber button) = some button := by
  cases button <;> rfl

/-- A virtual key behind the flag that is sent with it. -/
theorem vk_and (vk : UInt8) : ((0x8000 ||| vk.toUInt16).toInt16.toUInt16 &&& 0xff).toUInt8 = vk := by
  revert vk
  decide +kernel

/-- A byte as a number with a sign. -/
theorem toInt_toInt16 (pad : UInt8) : pad.toUInt16.toInt16.toInt = pad.toNat := by
  revert pad
  decide +kernel

theorem toUInt8_toInt16 (pad : UInt8) : pad.toUInt16.toInt16.toUInt16.toUInt8 = pad := by
  revert pad
  decide +kernel

/-- Buttons in two halves, of which the lower is kept. -/
theorem buttons_halves (buttons : UInt32) :
    (buttons.toUInt16.toInt16.toUInt16.toUInt32 |||
        ((buttons >>> 16).toUInt16.toInt16.toUInt16.toUInt32 <<< 16)) &&& 0xffff =
      buttons &&& 0xffff := by
  have hlow : buttons.toUInt16.toUInt32.toNat = buttons.toNat % 2 ^ 16 := by
    rw [UInt16.toNat_toUInt32, UInt32.toNat_toUInt16]
  have hmask (x : UInt32) : (x &&& 0xffff).toNat = x.toNat % 2 ^ 16 := by
    rw [UInt32.toNat_and]
    exact Nat.and_two_pow_sub_one_eq_mod _ 16
  have hhigh (x : UInt32) : (x <<< 16).toNat % 2 ^ 16 = 0 := by
    rw [UInt32.toNat_shiftLeft, Nat.shiftLeft_eq]
    show x.toNat * 2 ^ 16 % 2 ^ 32 % 2 ^ 16 = 0
    omega
  have hback (x : UInt16) : x.toInt16.toUInt16 = x := rfl
  rw [← UInt32.toNat_inj, hmask, hmask, UInt32.toNat_or, Nat.or_mod_two_pow, hhigh, Nat.or_zero, hback, hlow,
    Nat.mod_mod]

/-- **What is written of an event is read back.** -/
theorem parse_encode (hintegral : input.Integral) (hencode : encode fractions input = some (b, channel))
    (htext : ∀ text, input = .text text → 4 + (Utf8.encode text).length < 2 ^ 32) :
    parse fractions b = [input.xinput] := by
  cases input with
  | pointerTo x y => cases hintegral
  | scroll dx dy => cases hintegral
  | touch id x y phase => cases hintegral
  | pointerBy dx dy =>
    cases hencode
    have hx : be16 (BigEndian.toBytes 2 dx.toUInt16.toNat ++ BigEndian.toBytes 2 dy.toUInt16.toNat) 0 = some dx :=
      be16_of_slice rfl
    have hy : be16 (BigEndian.toBytes 2 dx.toUInt16.toNat ++ BigEndian.toBytes 2 dy.toUInt16.toNat) 2 = some dy :=
      be16_of_slice rfl
    have hbody (body : List UInt8) : parseBody fractions MOUSE_RELATIVE body =
        (be16 body 0).bind fun dx => (be16 body 2).bind fun dy => some (.pointerBy dx dy) := rfl
    rw [parse, parse_packet (by simp), hbody, hx, hy]
    rfl
  | button button pressed =>
    cases hencode
    rw [parse, parse_packet (by simp)]
    cases pressed with
    | true =>
      have hbody (body : List UInt8) : parseBody fractions MOUSE_BUTTON_DOWN body =
          body.head?.bind fun number => (buttonOf number).bind fun button => some (.button button true) := rfl
      rw [if_pos rfl, hbody, List.head?_cons, Option.bind_some, buttonOf_buttonNumber]
      rfl
    | false =>
      have hbody (body : List UInt8) : parseBody fractions MOUSE_BUTTON_UP body =
          body.head?.bind fun number => (buttonOf number).bind fun button => some (.button button false) := rfl
      rw [if_neg Bool.false_ne_true, hbody, List.head?_cons, Option.bind_some, buttonOf_buttonNumber]
      rfl
  | key keycode pressed =>
    obtain ⟨vk, hvk, hencode⟩ := Option.map_eq_some_iff.mp hencode
    cases hencode
    have hcode : le16 (0 :: LittleEndian.toBytes 2 (0x8000 ||| vk.toUInt16).toNat ++ [0, 0, 0]) 1 =
        some (0x8000 ||| vk.toUInt16).toInt16 := le16_of_slice rfl
    rw [parse, parse_packet (by simp)]
    cases pressed with
    | true =>
      have hbody (body : List UInt8) : parseBody fractions KEY_DOWN body = (le16 body 1).bind fun vk =>
          (evdevOfVk (vk.toUInt16 &&& 0xff).toUInt8).bind fun keycode => some (.key keycode true) := rfl
      rw [if_pos rfl, hbody, hcode, Option.bind_some, vk_and, evdevOfVk_of_vkOfEvdev hvk]
      rfl
    | false =>
      have hbody (body : List UInt8) : parseBody fractions KEY_UP body = (le16 body 1).bind fun vk =>
          (evdevOfVk (vk.toUInt16 &&& 0xff).toUInt8).bind fun keycode => some (.key keycode false) := rfl
      rw [if_neg Bool.false_ne_true, hbody, hcode, Option.bind_some, vk_and, evdevOfVk_of_vkOfEvdev hvk]
      rfl
  | text text =>
    cases hencode
    have hbody (body : List UInt8) : parseBody fractions TEXT body = (Utf8.decode body).map .text := rfl
    rw [parse, parse_packet (htext text rfl), hbody, Utf8.decode_encode]
    rfl
  | gamepad pad active state =>
    cases hencode
    generalize hbytes : List.flatMap (fun value : UInt16 => LittleEndian.toBytes 2 value.toNat)
      [0x001a, pad.toUInt16, active, 0x0014] ++ LittleEndian.toBytes 2 state.buttons.toUInt16.toNat
      ++ [state.leftTrigger, state.rightTrigger] ++ List.flatMap (fun value : UInt16 => LittleEndian.toBytes 2 value.toNat)
        [state.leftX.toUInt16, state.leftY.toUInt16, state.rightX.toUInt16, state.rightY.toUInt16, 0x009c,
          (state.buttons >>> 16).toUInt16, 0x0055] = body
    have hlength : body.length = 26 := by rw [← hbytes]; rfl
    have hfield (offset : ℕ) (v : UInt16) (h : slice body offset 2 = some (LittleEndian.toBytes 2 v.toNat)) :
        le16 body offset = some v.toInt16 := le16_of_slice h
    have hbody (body : List UInt8) : parseBody fractions MULTI_CONTROLLER body = (le16 body 2).bind fun pad =>
        (le16 body 4).bind fun active => (le16 body 8).bind fun low => (le16 body 22).bind fun high =>
          if pad.toInt < 0 ∨ 255 < pad.toInt then none
          else body[10]?.bind fun leftTrigger => body[11]?.bind fun rightTrigger => (le16 body 12).bind fun leftX =>
            (le16 body 14).bind fun leftY => (le16 body 16).bind fun rightX => (le16 body 18).bind fun rightY =>
              some (.gamepad pad.toUInt16.toUInt8 active.toUInt16
                ⟨(low.toUInt16.toUInt32 ||| (high.toUInt16.toUInt32 <<< 16)) &&& 0xffff, leftX, leftY, rightX, rightY,
                  leftTrigger, rightTrigger⟩) := rfl
    have hpad : ¬ (pad.toUInt16.toInt16.toInt < 0 ∨ 255 < pad.toUInt16.toInt16.toInt) := by
      have hlt : pad.toNat < 256 := pad.toNat_lt
      rw [toInt_toInt16]
      omega
    have hleft : body[10]? = some state.leftTrigger := by rw [← hbytes]; rfl
    have hright : body[11]? = some state.rightTrigger := by rw [← hbytes]; rfl
    rw [parse, parse_packet (by rw [hlength]; decide), hbody, hfield 2 pad.toUInt16 (by rw [← hbytes]; rfl),
      hfield 4 active (by rw [← hbytes]; rfl), hfield 8 state.buttons.toUInt16 (by rw [← hbytes]; rfl),
      hfield 22 (state.buttons >>> 16).toUInt16 (by rw [← hbytes]; rfl), hleft, hright,
      hfield 12 state.leftX.toUInt16 (by rw [← hbytes]; rfl), hfield 14 state.leftY.toUInt16 (by rw [← hbytes]; rfl),
      hfield 16 state.rightX.toUInt16 (by rw [← hbytes]; rfl), hfield 18 state.rightY.toUInt16 (by rw [← hbytes]; rfl)]
    simp only [Option.bind_some, if_neg hpad, buttons_halves, toUInt8_toInt16]
    rfl

end

/-! ### Inside a control message -/

section

variable {gcm : Aes128Gcm} {key : Vector UInt8 16} {kind : UInt16} {payload b : List UInt8} {fractions : Fractions}
  {input : Input} {channel : UInt8}

/-- **A sealed message is opened**, as long as its length fits. -/
theorem open_seal (hgcm : gcm.Lawful) (seq : UInt32) (fromClient : Bool) (hlength : payload.length < 65512) :
    Control.open gcm key fromClient (Control.seal gcm key seq fromClient kind payload) = some (kind, payload) := by
  generalize hinner : LittleEndian.toBytes 2 kind.toNat ++ LittleEndian.toBytes 2 payload.length ++ payload = inner
  have hcount : inner.length = 4 + payload.length := by
    rw [← hinner, List.length_append, List.length_append, LittleEndian.length_toBytes, LittleEndian.length_toBytes]
  have hseal : Control.seal gcm key seq fromClient kind payload = LittleEndian.toBytes 2 1 ++
      (LittleEndian.toBytes 2 (20 + (gcm.encrypt key (Control.nonce seq fromClient) inner).2.length) ++
        (LittleEndian.toBytes 4 seq.toNat ++ ((gcm.encrypt key (Control.nonce seq fromClient) inner).1 ++
          (gcm.encrypt key (Control.nonce seq fromClient) inner).2))) := by
    rw [Control.seal, hinner]
    simp only [List.append_assoc]
  have htag := hgcm.length_tag key (Control.nonce seq fromClient) inner
  have hcipher := hgcm.length_cipher key (Control.nonce seq fromClient) inner
  have hdecrypt := hgcm.decrypt_encrypt key (Control.nonce seq fromClient) inner
  rw [hseal]
  generalize (gcm.encrypt key (Control.nonce seq fromClient) inner).1 = tag at htag hdecrypt
  generalize (gcm.encrypt key (Control.nonce seq fromClient) inner).2 = cipher at hcipher hdecrypt
  generalize hdata : LittleEndian.toBytes 2 1 ++ (LittleEndian.toBytes 2 (20 + cipher.length) ++
    (LittleEndian.toBytes 4 seq.toNat ++ (tag ++ cipher))) = data
  have hversion : data.take 2 = LittleEndian.toBytes 2 1 := by rw [← hdata, LittleEndian.take_toBytes]
  have hsize : (data.drop 2).take 2 = LittleEndian.toBytes 2 (20 + cipher.length) := by
    rw [← hdata, LittleEndian.drop_toBytes, LittleEndian.take_toBytes]
  have hfour : data.drop 4 = LittleEndian.toBytes 4 seq.toNat ++ (tag ++ cipher) := by
    rw [← List.drop_drop (i := 2) (j := 2), ← hdata, LittleEndian.drop_toBytes, LittleEndian.drop_toBytes]
  have height : data.drop 8 = tag ++ cipher := by
    rw [← List.drop_drop (i := 4) (j := 4), hfour, LittleEndian.drop_toBytes]
  have hrest : data.drop 24 = cipher := by
    rw [← List.drop_drop (i := 16) (j := 8), height, List.drop_left' htag]
  have htotal : data.length = 24 + cipher.length := by
    rw [← hdata]
    simp only [List.length_append, LittleEndian.length_toBytes, htag]
    omega
  have hfits : 20 + cipher.length < 256 ^ 2 := by omega
  have hshort : ¬ (data.length < 8 + 16 + 4 ∨ LittleEndian.ofBytes (data.take 2) ≠ 1) := by
    rw [hversion]
    exact not_or.mpr ⟨by omega, by decide⟩
  have hwhole : ¬ LittleEndian.ofBytes ((data.drop 2).take 2) + 4 ≠ data.length := by
    rw [hsize, LittleEndian.ofBytes_toBytes_of_lt hfits]
    omega
  have hkind : inner.take 2 = LittleEndian.toBytes 2 kind.toNat := by
    rw [← hinner, List.append_assoc, LittleEndian.take_toBytes]
  have hcounted : (inner.drop 2).take 2 = LittleEndian.toBytes 2 payload.length := by
    rw [← hinner, List.append_assoc, LittleEndian.drop_toBytes, LittleEndian.take_toBytes]
  have hpayload : inner.drop 4 = payload := by
    rw [← List.drop_drop (i := 2) (j := 2), ← hinner, List.append_assoc, LittleEndian.drop_toBytes,
      LittleEndian.drop_toBytes]
  have hbelow : payload.length < 256 ^ 2 := by omega
  have henough : ¬ inner.length < 4 + payload.length := by omega
  rw [Control.open, if_neg hshort, if_neg hwhole, hfour, LittleEndian.take_toBytes,
    LittleEndian.ofBytes_toBytes_of_lt seq.toNat_lt, UInt32.ofNat_toNat, hrest, height, List.take_left' htag]
  dsimp only
  rw [hdecrypt]
  show (if inner.length < 4 + LittleEndian.ofBytes ((inner.drop 2).take 2) then none
    else some (UInt16.ofNat (LittleEndian.ofBytes (inner.take 2)),
      (inner.drop 4).take (LittleEndian.ofBytes ((inner.drop 2).take 2)))) = _
  rw [hcounted, LittleEndian.ofBytes_toBytes_of_lt hbelow, if_neg henough, hkind,
    LittleEndian.ofBytes_toBytes_of_lt kind.toNat_lt, UInt16.ofNat_toNat, hpayload, List.take_length]

/-- How long the packet of an event is. -/
theorem length_encode (hintegral : input.Integral) (hencode : encode fractions input = some (b, channel))
    (htext : ∀ text, input = .text text → text.utf8Size ≤ 65503) : b.length < 65512 := by
  have hpacket (magic : UInt32) (body : List UInt8) : (packet magic body).length = 8 + body.length := by
    simp only [packet, List.length_append, BigEndian.length_toBytes, LittleEndian.length_toBytes]
  cases input with
  | pointerTo x y => cases hintegral
  | scroll dx dy => cases hintegral
  | touch id x y phase => cases hintegral
  | pointerBy dx dy =>
    cases hencode
    rw [hpacket]
    simp
  | button button pressed =>
    cases hencode
    rw [hpacket]
    simp
  | key keycode pressed =>
    obtain ⟨vk, -, hencode⟩ := Option.map_eq_some_iff.mp hencode
    cases hencode
    rw [hpacket]
    simp
  | text text =>
    cases hencode
    have hsize := htext text rfl
    rw [hpacket, Utf8.length_encode]
    omega
  | gamepad pad active state =>
    cases hencode
    rw [hpacket]
    simp

/-- **Sealed and opened, an event still is what it was**, of a text as long as a message can
be; of a pad's buttons, XInput's bits are. -/
theorem parse_sealed (hgcm : gcm.Lawful) (seq : UInt32) (fromClient : Bool) (hintegral : input.Integral)
    (hencode : encode fractions input = some (b, channel))
    (htext : ∀ text, input = .text text → text.utf8Size ≤ 65503) :
    ∃ payload, Control.open gcm key fromClient (Control.seal gcm key seq fromClient Control.inputMessage b) =
      some (Control.inputMessage, payload) ∧ parse fractions payload = [input.xinput] := by
  refine ⟨b, open_seal hgcm seq fromClient (length_encode hintegral hencode htext), parse_encode hintegral hencode ?_⟩
  intro text htext'
  have hsize := htext text htext'
  rw [Utf8.length_encode]
  omega

/-- An event whose buttons have XInput's bits only is kept whole. -/
theorem xinput_eq
    (h : ∀ pad active state, input = .gamepad pad active state → state.buttons &&& 0xffff = state.buttons) :
    input.xinput = input := by
  cases input with
  | gamepad pad active state => rw [Input.xinput, h pad active state rfl]
  | _ => rfl

end

/-- Sealing that adds a tag of zeros and nothing else. -/
def plainGcm : Aes128Gcm := ⟨fun _ _ m => (List.replicate 16 0, m), fun _ _ c _ => some c⟩

def wholeFractions : Fractions := ⟨id, fun _ _ => 0, fun _ => 0, fun _ => 0, fun _ => 0, 0x3f800000⟩

theorem parse_sealed_text : ∃ payload, Control.open plainGcm (Vector.replicate 16 7) true
      (Control.seal plainGcm (Vector.replicate 16 7) 3 true Control.inputMessage (packet TEXT (Utf8.encode ['h', 'é']))) =
    some (Control.inputMessage, payload) ∧ parse wholeFractions payload = [(Input.text ['h', 'é']).xinput] :=
  parse_sealed ⟨fun _ _ _ => rfl, fun _ _ _ => rfl, fun _ _ _ => rfl⟩ 3 true trivial rfl fun text htext => by
    cases htext
    decide

/-- A button beyond XInput's bits is not kept. -/
theorem extra_button_dropped :
    ((encode wholeFractions (.gamepad 0 1 ⟨0x10000, 0, 0, 0, 0, 0, 0⟩)).bind fun e =>
      (Control.open plainGcm (Vector.replicate 16 7) true
        (Control.seal plainGcm (Vector.replicate 16 7) 3 true Control.inputMessage e.1)).map fun m =>
          parse wholeFractions m.2) ≠ some [.gamepad 0 1 ⟨0x10000, 0, 0, 0, 0, 0, 0⟩] := by
  decide +kernel

end WindowCast.GameStream
