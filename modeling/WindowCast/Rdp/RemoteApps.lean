import WindowCast.Stream.HeldInput

/-!
# RemoteApps run by the host itself

The host logs in to its own Remote Desktop and runs a program there, and each window
that Windows reports joins the host's window list.  Input for such a window is looked
up in the connection's copy of the list where it is sent, and once more in the list
itself where the session's thread takes it; input for a window that is not listed is
dropped.  The copy follows the list a little later.

## Main definitions

* `operationsFor` — the RDP input that one event makes.
* `RdpStream.drain` — a session's thread takes the input that was sent to it.
* `RemoteApps.input` — input goes to the RemoteApp that lists its window.
* `RemoteApps.step` — the host's RemoteApps, with their threads.
* `RdpStream.Released` — what was pressed in a session is released there with its
  release.
* `RemoteApps.Reaches` — a release is sent to the session, for a window that is listed.

## Main results

* `RdpStream.released_take` — one event that a session's thread takes.
* `RemoteApps.released_iff_reaches` — **what is pressed in a session is released there
  exactly where every release of it reaches the session**.
-/

namespace WindowCast.Rdp

open WindowCast.Host (WindowId)
open WindowCast.Stream (F32 InputEvent PointerButton TouchPhase inputWindow isZero)

/-! ### Windows and where they are -/

/-- Set in the id of every RemoteApp window; the host's own ids never have it. -/
def remoteAppWindow : UInt64 := (1 : UInt64) <<< 63

def windowId (key window : UInt32) : WindowId := remoteAppWindow ||| (key.toUInt64 <<< 32) ||| window.toUInt64

/-- The connection key and Windows' window id of a RemoteApp window. -/
def split (window : WindowId) : Option (UInt32 × UInt32) :=
  if window &&& remoteAppWindow ≠ 0 then
    some (((window &&& ~~~ remoteAppWindow) >>> 32).toUInt32, window.toUInt32)
  else none

structure Rect where
  x : ℤ
  y : ℤ
  width : ℕ
  height : ℕ
  deriving DecidableEq, Repr

/-- A window as a client lists it. -/
structure ListedWindow where
  id : UInt32
  rect : Rect
  deriving DecidableEq, Repr

/-- A part of the desktop. -/
structure Area where
  x : ℕ
  y : ℕ
  width : ℕ
  height : ℕ
  deriving DecidableEq, Repr

/-- A remote window's rectangle, kept inside the desktop. -/
def Area.of (rect : Rect) (desktop : Area) : Area :=
  let x := (max 0 (min rect.x (desktop.width - 1))).toNat
  let y := (max 0 (min rect.y (desktop.height - 1))).toNat
  ⟨x, y, max (min rect.width (desktop.width - x)) 1, max (min rect.height (desktop.height - y)) 1⟩

/-! ### RDP input -/

/-- A scan code, with whether it is an extended one. -/
abbrev Scancode := Bool × UInt8

/-- Extended (E0) scan codes and their evdev key codes. -/
def extended : List (UInt8 × UInt32) :=
  [(0x1c, 96), (0x1d, 97), (0x35, 98), (0x37, 99), (0x38, 100), (0x47, 102), (0x48, 103), (0x49, 104),
   (0x4b, 105), (0x4d, 106), (0x4f, 107), (0x50, 108), (0x51, 109), (0x52, 110), (0x53, 111), (0x5b, 125),
   (0x5c, 126), (0x5d, 127)]

/-- The scan code and E0 flag for an evdev key code. -/
def scanFromEvdev (keycode : UInt32) : Option Scancode :=
  if 1 ≤ keycode ∧ keycode ≤ 88 then some (false, keycode.toUInt8)
  else (extended.find? fun key => key.2 = keycode).map fun key => (true, key.1)

inductive MouseButton
  | left
  | right
  | middle
  | x1
  | x2
  deriving DecidableEq, Repr

def PointerButton.mouse : PointerButton → MouseButton
  | .left => .left
  | .right => .right
  | .middle => .middle
  | .back => .x1
  | .forward => .x2

inductive Operation
  | mouseMove (x y : ℕ)
  | mouseButtonPressed (button : MouseButton)
  | mouseButtonReleased (button : MouseButton)
  | wheelRotations (isVertical : Bool) (rotationUnits : Int16)
  | keyPressed (code : Scancode)
  | keyReleased (code : Scancode)
  | unicodeKeyPressed (c : Char)
  | unicodeKeyReleased (c : Char)
  deriving DecidableEq, Repr

/-- What can be down in a session. -/
inductive Item
  | button (button : MouseButton)
  | key (code : Scancode)
  | unicode (c : Char)
  deriving DecidableEq, Repr

/-- What an operation presses, or releases. -/
def Operation.mark : Operation → Option (Item × Bool)
  | .mouseButtonPressed button => some (.button button, true)
  | .mouseButtonReleased button => some (.button button, false)
  | .keyPressed code => some (.key code, true)
  | .keyReleased code => some (.key code, false)
  | .unicodeKeyPressed c => some (.unicode c, true)
  | .unicodeKeyReleased c => some (.unicode c, false)
  | _ => none

/-- What operations say of something that can be down: that it is pressed, or released. -/
def word (item : Item) (operations : List Operation) : Option Bool :=
  latest (fun mark => if mark.1 = item then some mark.2 else none) (operations.filterMap Operation.mark)

/-- How fractions and notches become numbers, as the arithmetic of floating-point numbers
has it. -/
structure Rounding where
  /-- A fraction of a length, from 0 up to its last pixel. -/
  position : F32 → ℕ → ℕ
  /-- A notch is 120 units. -/
  rotation : F32 → Int16

/-- RDP input for one windowcast event, positions within `area`. -/
def operationsFor (rounding : Rounding) (event : InputEvent) (area : Area) : List Operation :=
  let move (x y : F32) : Operation :=
    .mouseMove (area.x + rounding.position x area.width) (area.y + rounding.position y area.height)
  match event with
  | .pointerMove _ x y => [move x y]
  | .pointerButton _ button pressed =>
    if pressed then [.mouseButtonPressed (PointerButton.mouse button)]
    else [.mouseButtonReleased (PointerButton.mouse button)]
  | .pointerScroll _ dx dy =>
    (if isZero dy then [] else [.wheelRotations true (rounding.rotation dy)])
      ++ if isZero dx then [] else [.wheelRotations false (rounding.rotation dx)]
  | .key keycode pressed =>
    match scanFromEvdev keycode with
    | some code => if pressed then [.keyPressed code] else [.keyReleased code]
    | none => []
  | .text text => text.flatMap fun c => [.unicodeKeyPressed c, .unicodeKeyReleased c]
  | .touch _ _ x y phase =>
    -- a touch is the pointer: down, drag, up
    match phase with
    | .start => [move x y, .mouseButtonPressed .left]
    | .move => [move x y]
    | .end | .cancel => [move x y, .mouseButtonReleased .left]
  | .gamepad _ _ | .gamepadGone _ => []

/-- What an event presses and releases is the same wherever its window is. -/
theorem filterMap_mark_operationsFor (rounding : Rounding) (event : InputEvent) (area area' : Area) :
    (operationsFor rounding event area).filterMap Operation.mark =
      (operationsFor rounding event area').filterMap Operation.mark := by
  cases event with
  | touch window id x y phase => cases phase <;> rfl
  | _ => rfl

/-! ### A session and its thread -/

/-- An event that was sent, by one of those who send input.  A session's thread finds
only those that were sent to it; the others stand between them to say what was sent
before what. -/
structure Sent where
  sender : ℕ
  event : InputEvent
  /-- The window it was sent to, or the whole desktop, if it was sent to this session. -/
  window : Option (Option UInt32)
  deriving DecidableEq, Repr

/-- A connected RDP session, with its thread. -/
structure RdpStream where
  /-- The part of the desktop that is all of it. -/
  desktop : Area
  /-- A RemoteApp session's listed windows. -/
  windows : List ListedWindow
  input : List Sent
  /-- All that was sent and came up in the thread, with what the session was given for it. -/
  handled : List (Sent × List Operation)
  stop : Bool
  ended : Bool

namespace RdpStream

def new (desktop : Area) : RdpStream := ⟨desktop, [], [], [], false, false⟩

/-- Where a sent event is: on the desktop, or in its window as it is listed now. -/
def area (self : RdpStream) (sent : Sent) : Option Area :=
  match sent.window with
  | none => none
  | some none => some self.desktop
  | some (some id) => (self.windows.find? fun w => w.id = id).map fun w => Area.of w.rect self.desktop

/-- One event is taken. -/
def take (rounding : Rounding) (self : RdpStream) (sent : Sent) : RdpStream :=
  { self with handled := self.handled ++ [(sent, (self.area sent).elim [] (operationsFor rounding sent.event))] }

/-- The thread takes all the input there is, unless it has stopped. -/
def drain (rounding : Rounding) (self : RdpStream) : RdpStream :=
  if self.stop || self.ended then self
  else { self.input.foldl (take rounding) self with input := [] }

/-- Something is sent, to this session or elsewhere. -/
def send (self : RdpStream) (sent : Sent) : RdpStream :=
  if self.ended then self else { self with input := self.input ++ [sent] }

/-- The server's orders change the list. -/
def orders (self : RdpStream) (now : List ListedWindow) : RdpStream :=
  if self.ended then self else { self with windows := now }

end RdpStream

/-- Who has pressed something that is down in a session. -/
def pressedBy (item : Item) (handled : List (Sent × List Operation)) : Option ℕ :=
  (latest (fun entry => (word item entry.2).map fun pressed => if pressed then some entry.1.sender else none)
    handled).join

/-- Whether an event is the release of something. -/
def Releases (rounding : Rounding) (item : Item) (event : InputEvent) : Prop :=
  ∀ area, word item (operationsFor rounding event area) = some false

/-- Behind the release of something, it is not down for the one who has released it. -/
def RdpStream.Released (rounding : Rounding) (self : RdpStream) : Prop :=
  Run.Always (fun before entry => ∀ item, Releases rounding item entry.1.event →
    pressedBy item (before ++ [entry]) ≠ some entry.1.sender) self.handled

/-! ### The host's RemoteApps -/

/-- One RemoteApp connection, with its own copy of the list. -/
structure Conn where
  key : UInt32
  /-- Which of the sessions it is. -/
  stream : ℕ
  listed : List ListedWindow
  deriving DecidableEq, Repr

/-- The host's running RemoteApps, and all the sessions there have been. -/
structure RemoteApps where
  conns : List Conn
  keys : UInt32
  streams : List RdpStream

namespace RemoteApps

def new : RemoteApps := ⟨[], 0, []⟩

/-- The session of a RemoteApp window listed now, and the window's id there. -/
def find (self : RemoteApps) (window : WindowId) : Option (ℕ × UInt32) :=
  (split window).bind fun (key, id) =>
    (self.conns.find? fun conn => conn.key = key).bind fun conn =>
      (conn.listed.find? fun w => w.id = id).map fun _ => (conn.stream, id)

/-- Something is sent: to a session, or elsewhere. -/
def send (self : RemoteApps) (sender : ℕ) (event : InputEvent) (target : Option (ℕ × Option UInt32)) : RemoteApps :=
  { self with streams := self.streams.mapIdx fun k stream =>
      stream.send ⟨sender, event, target.bind fun (stream, window) => if stream = k then some window else none⟩ }

/-- Input goes to the RemoteApp that lists the window it is for: the one it names, or the
focus.  Input for a RemoteApp window that none lists is dropped, and other input goes to
the host's own windows. -/
def input (self : RemoteApps) (sender : ℕ) (event : InputEvent) (focus : Option WindowId) : RemoteApps :=
  self.send sender event <|
    match ((inputWindow event).or focus).filter fun w => (split w).isSome with
    | some window => (self.find window).map fun (stream, id) => (stream, some id)
    | none => none

/-- The session of a connection. -/
def stream? (self : RemoteApps) (stream : ℕ) : Option RdpStream := self.streams[stream]?

/-- The thread that follows a RemoteApp copies its list. -/
def watch (self : RemoteApps) (key : UInt32) (stream : ℕ) : RemoteApps :=
  match self.stream? stream, self.conns.findIdx? fun conn => conn.key = key with
  | some session, some k => { self with conns := self.conns.modify k fun conn => { conn with listed := session.windows } }
  | _, _ => self

/-- It takes the connection out, when the session has ended or has no windows. -/
def gone (self : RemoteApps) (key : UInt32) (stream : ℕ) : RemoteApps :=
  match self.stream? stream with
  | some session =>
    if session.ended || session.windows.isEmpty then
      { self with
        conns := self.conns.filter fun conn => conn.key ≠ key
        streams := self.streams.modify stream fun session => { session with stop := true } }
    else self
  | none => self

end RemoteApps

/-- What can happen next. -/
inductive Event
  /-- A session is set up. -/
  | connect (desktop : Area)
  /-- Its program has started: the session joins the RemoteApps. -/
  | start (stream : ℕ)
  /-- Input for a window of the host. -/
  | input (sender : ℕ) (event : InputEvent) (focus : Option WindowId)
  /-- Input straight into a session: into one of its windows, or onto its desktop. -/
  | inputTo (sender stream : ℕ) (window : Option UInt32) (event : InputEvent)
  /-- Windows appear, move and disappear. -/
  | orders (stream : ℕ) (now : List ListedWindow)
  | drain (stream : ℕ)
  | watch (key : UInt32) (stream : ℕ)
  | gone (key : UInt32) (stream : ℕ)
  | stop (stream : ℕ)
  | ended (stream : ℕ)

namespace RemoteApps

variable (rounding : Rounding)

def step (self : RemoteApps) : Event → RemoteApps
  | .connect desktop => { self with streams := self.streams ++ [.new desktop] }
  | .start stream =>
    { self with conns := self.conns ++ [⟨self.keys &&& 0x7fffffff, stream, []⟩], keys := self.keys + 1 }
  | .input sender event focus => self.input sender event focus
  | .inputTo sender stream window event => self.send sender event (some (stream, window))
  | .orders stream now => { self with streams := self.streams.modify stream fun session => session.orders now }
  | .drain stream => { self with streams := self.streams.modify stream (RdpStream.drain rounding) }
  | .watch key stream => self.watch key stream
  | .gone key stream => self.gone key stream
  | .stop stream => { self with streams := self.streams.modify stream fun session => { session with stop := true } }
  | .ended stream => { self with streams := self.streams.modify stream fun session => { session with ended := true } }

/-- The RemoteApps behind a run. -/
def run (events : List Event) : RemoteApps := events.foldl (step rounding) new

end RemoteApps

/-! ### Where releases reach their session -/

/-- Of what the thread takes now, each release of something that its sender has pressed
was sent to this session, into a window that is listed still. -/
def RdpStream.Reaches (rounding : Rounding) (self : RdpStream) : List Sent → Prop
  | [] => True
  | sent :: rest =>
    (∀ item, Releases rounding item sent.event → pressedBy item self.handled = some sent.sender →
      (self.area sent).isSome = true) ∧ (self.take rounding sent).Reaches rounding rest

/-- Where a thread takes what was sent, the releases reach their session. -/
def RemoteApps.Reaches (rounding : Rounding) (self : RemoteApps) : Event → Prop
  | .drain stream => ∀ session ∈ self.stream? stream, session.stop = false → session.ended = false →
      session.Reaches rounding session.input
  | _ => True

/-! ### One event that a thread takes -/

namespace RdpStream

variable {rounding : Rounding} {self : RdpStream} {sent : Sent}

theorem pressedBy_concat (item : Item) (handled : List (Sent × List Operation)) (entry : Sent × List Operation) :
    pressedBy item (handled ++ [entry]) =
      match word item entry.2 with
      | some true => some entry.1.sender
      | some false => none
      | none => pressedBy item handled := by
  rw [pressedBy, latest_concat]
  cases word item entry.2 with
  | none => rfl
  | some pressed => cases pressed <;> rfl

/-- Behind one more event, what is pressed is released with its releases exactly if it
was before and this one, if it is such a release, reaches the session. -/
theorem released_take :
    (self.take rounding sent).Released rounding ↔ self.Released rounding ∧
      ∀ item, Releases rounding item sent.event → pressedBy item self.handled = some sent.sender →
        (self.area sent).isSome = true := by
  rw [Released, take, Run.always_concat]
  refine and_congr_right fun _ => forall_congr' fun item => forall_congr' fun hreleases => ?_
  dsimp only
  rw [pressedBy_concat]
  cases harea : self.area sent with
  | none =>
    -- it is dropped, and whatever is down stays down
    exact ⟨fun hnot hpressed => absurd hpressed hnot, fun hreaches hpressed => Bool.noConfusion (hreaches hpressed)⟩
  | some area =>
    rw [Option.elim_some, hreleases area]
    exact iff_of_true (Option.some_ne_none _).symm fun _ => rfl

/-- And so behind all the input there is. -/
theorem released_foldl {input : List Sent} :
    (input.foldl (take rounding) self).Released rounding ↔ self.Released rounding ∧ self.Reaches rounding input := by
  induction input generalizing self with
  | nil => exact (and_iff_left trivial).symm
  | cons sent input ih => rw [List.foldl_cons, ih, released_take, and_assoc, Reaches]

theorem released_drain :
    (self.drain rounding).Released rounding ↔ self.Released rounding ∧
      (self.stop = false → self.ended = false → self.Reaches rounding self.input) := by
  unfold drain
  split_ifs with hover
  · rw [and_iff_left]
    intro hstop hended
    rw [hstop, hended] at hover
    cases hover
  · rw [Bool.not_eq_true, Bool.or_eq_false_iff] at hover
    exact released_foldl.trans (and_congr_right fun _ => ⟨fun h _ _ => h, fun h => h hover.1 hover.2⟩)

/-- What is sent is not handled yet. -/
theorem released_send : (self.send sent).Released rounding ↔ self.Released rounding := by
  unfold send
  split_ifs <;> exact Iff.rfl

theorem released_orders {now : List ListedWindow} : (self.orders now).Released rounding ↔ self.Released rounding := by
  unfold orders
  split_ifs <;> exact Iff.rfl

end RdpStream

/-! ### A whole run -/

section

variable {α : Type} {P Q : α → Prop}

theorem forall_mem_modify {l : List α} {k : ℕ} {f : α → α} (h : ∀ a, P (f a) ↔ P a ∧ Q a) :
    (∀ a ∈ l.modify k f, P a) ↔ (∀ a ∈ l, P a) ∧ ∀ a ∈ l[k]?, Q a := by
  simp only [List.mem_iff_getElem?, List.getElem?_modify, Option.mem_def]
  constructor
  · intro hall
    refine ⟨?_, ?_⟩
    · rintro a ⟨j, hj⟩
      by_cases hjk : k = j
      · exact ((h a).mp (hall _ ⟨j, by simp [hjk, hj]⟩)).1
      · exact hall _ ⟨j, by simp [hjk, hj]⟩
    · intro a hk
      exact ((h a).mp (hall _ ⟨k, by simp [hk]⟩)).2
  · rintro ⟨hall, hQ⟩ a ⟨j, hj⟩
    obtain ⟨b, hb, rfl⟩ := Option.map_eq_some_iff.mp hj
    by_cases hjk : k = j
    · subst hjk
      rw [if_pos rfl]
      exact (h b).mpr ⟨hall b ⟨k, hb⟩, hQ b hb⟩
    · rw [if_neg hjk]
      exact hall b ⟨j, hb⟩

theorem forall_mem_modify_of_iff {l : List α} {k : ℕ} {f : α → α} (h : ∀ a, P (f a) ↔ P a) :
    (∀ a ∈ l.modify k f, P a) ↔ ∀ a ∈ l, P a :=
  (forall_mem_modify (Q := fun _ => True) fun a => (h a).trans (and_iff_left trivial).symm).trans
    (and_iff_left fun _ _ => trivial)

end

namespace RemoteApps

variable {rounding : Rounding} {s : RemoteApps}

/-- In every session, what was pressed is released with its releases. -/
def Released (rounding : Rounding) (self : RemoteApps) : Prop :=
  ∀ session ∈ self.streams, session.Released rounding

theorem released_send {sender : ℕ} {event : InputEvent} {target : Option (ℕ × Option UInt32)} :
    (s.send sender event target).Released rounding ↔ s.Released rounding := by
  simp only [Released, send, List.mem_mapIdx, forall_exists_index]
  constructor
  · intro hall session hmem
    obtain ⟨k, hk, rfl⟩ := List.mem_iff_getElem.mp hmem
    exact RdpStream.released_send.mp (hall _ k hk rfl)
  · rintro hall _ k hk rfl
    exact RdpStream.released_send.mpr (hall _ (List.getElem_mem hk))

/-- One step: only a thread that takes its input can leave something down. -/
theorem released_step (event : Event) :
    (s.step rounding event).Released rounding ↔ s.Released rounding ∧ s.Reaches rounding event := by
  cases event with
  | connect desktop =>
    refine Iff.trans ?_ (and_iff_left trivial).symm
    rw [Released, step, List.forall_mem_append, List.forall_mem_singleton]
    exact and_iff_left Run.always_nil
  | start stream => exact (and_iff_left trivial).symm
  | input sender event focus => exact released_send.trans (and_iff_left trivial).symm
  | inputTo sender stream window event => exact released_send.trans (and_iff_left trivial).symm
  | orders stream now =>
    exact (forall_mem_modify_of_iff fun _ => RdpStream.released_orders).trans (and_iff_left trivial).symm
  | drain stream => exact forall_mem_modify fun _ => RdpStream.released_drain
  | watch key stream =>
    refine Iff.trans ?_ (and_iff_left trivial).symm
    rw [Released, step, watch]
    split <;> exact Iff.rfl
  | gone key stream =>
    refine Iff.trans ?_ (and_iff_left trivial).symm
    rw [Released, step, gone]
    split
    · split_ifs
      · exact forall_mem_modify_of_iff fun _ => Iff.rfl
      · exact Iff.rfl
    · exact Iff.rfl
  | stop stream =>
    have hsame (session : RdpStream) :
        ({ session with stop := true } : RdpStream).Released rounding ↔ session.Released rounding := Iff.rfl
    exact (forall_mem_modify_of_iff hsame).trans (and_iff_left trivial).symm
  | ended stream =>
    have hsame (session : RdpStream) :
        ({ session with ended := true } : RdpStream).Released rounding ↔ session.Released rounding := Iff.rfl
    exact (forall_mem_modify_of_iff hsame).trans (and_iff_left trivial).symm

end RemoteApps

/-- What is pressed in a session is released there with its release, in every session of
a run, exactly where each release of something that is down in a session reaches the
session when its turn comes there. -/
theorem released_iff_reaches (rounding : Rounding) (events : List Event) :
    (RemoteApps.run rounding events).Released rounding ↔
      Run.Always (fun before event => (RemoteApps.run rounding before).Reaches rounding event) events := by
  induction events using List.reverseRecOn with
  | nil =>
    refine iff_of_true ?_ Run.always_nil
    intro session hmem
    cases hmem
  | append_singleton events event ih =>
    rw [RemoteApps.run, List.foldl_append, Run.always_concat, ← ih]
    exact RemoteApps.released_step event

/-- A window appears, the key of A is pressed in it, it makes room for another, and the
key is let go of. -/
def windowGone : List Event :=
  [.connect ⟨0, 0, 1920, 1080⟩, .orders 0 [⟨7, ⟨0, 0, 640, 480⟩⟩], .start 0, .watch 0 0,
   .input 0 (.key 30 true) (some (windowId 0 7)), .drain 0,
   .orders 0 [⟨8, ⟨0, 0, 320, 240⟩⟩], .watch 0 0,
   .input 0 (.key 30 false) (some (windowId 0 7)), .drain 0]

/-- The key stays down in the session. -/
theorem key_stays_down : ¬ ∀ rounding events, (RemoteApps.run rounding events).Released rounding := by
  intro h
  have hhandled : (RemoteApps.run ⟨fun _ _ => 0, fun _ => 0⟩ windowGone).streams.map RdpStream.handled =
      [[(⟨0, .key 30 true, some (some 7)⟩, [.keyPressed (false, 30)]), (⟨0, .key 30 false, none⟩, [])]] := rfl
  obtain ⟨session, hmem, hsession⟩ := List.mem_map.mp (hhandled ▸ List.mem_singleton_self _)
  exact h _ windowGone session hmem [_] _ [] hsession (.key (false, 30)) (fun _ => rfl) rfl

end WindowCast.Rdp
