import WindowCast.Stream.Serving
import WindowCast.Vnc.Updates

/-!
# Where a viewer's pointer goes

The viewer's messages are read in a thread of their own, which tells the host where in
the window the pointer is by the size the window had when the viewer came.  The
framebuffer the viewer has follows the window where the viewer can follow.

## Main definitions

* `position` — where on an axis a pixel is, of 0 to 1.
* `Reader.pointer` — what a pointer event gives the host.
* `Connection.step` — an update or a pointer event.
* `Connection.Lands` — the pointer goes where the viewer shows it.
* `SamePlace` — a pixel is in the same place on two axes.

## Main results

* `position_eq_iff` — when it is.
* `Connection.pointer_lands_iff` — **when a pointer event lands where the viewer shows it**.
* `Connection.lands_of_fixed` — it does where the viewer does not follow the window.
-/

namespace WindowCast.Vnc.Updating

open WindowCast.Stream (PointerButton)

/-! ### Positions -/

/-- The last pixel of an axis, of one at least. -/
def lastPixel (extent : ℕ) : ℕ := max (extent - 1) 1

/-- Where on an axis of so many pixels a pixel is, cut to 0..1. -/
def position (pixel extent : ℕ) : ℚ := max 0 (min 1 (pixel / lastPixel extent))

/-- The pixel is in the same place on both axes. -/
def SamePlace (pixel a b : ℕ) : Prop :=
  pixel = 0 ∨ lastPixel a = lastPixel b ∨ lastPixel a ≤ pixel ∧ lastPixel b ≤ pixel

instance (pixel a b : ℕ) : Decidable (SamePlace pixel a b) := inferInstanceAs (Decidable (_ ∨ _ ∨ _ ∧ _))

section

variable {pixel a b extent : ℕ}

theorem lastPixel_pos : 0 < lastPixel extent := Nat.lt_of_lt_of_le Nat.one_pos (le_max_right _ _)

theorem position_of_le (h : lastPixel extent ≤ pixel) : position pixel extent = 1 := by
  have hpos : (0 : ℚ) < lastPixel extent := Nat.cast_pos.mpr lastPixel_pos
  have hle : (1 : ℚ) ≤ pixel / lastPixel extent := by
    rw [one_le_div hpos]
    exact Nat.cast_le.mpr h
  rw [position, min_eq_left hle, max_eq_right zero_le_one]

theorem position_of_lt (h : pixel < lastPixel extent) : position pixel extent = pixel / lastPixel extent := by
  have hpos : (0 : ℚ) < lastPixel extent := Nat.cast_pos.mpr lastPixel_pos
  have hle : (pixel : ℚ) / lastPixel extent ≤ 1 := by
    rw [div_le_one hpos]
    exact Nat.cast_le.mpr h.le
  rw [position, min_eq_right hle, max_eq_right (div_nonneg (Nat.cast_nonneg _) hpos.le)]

theorem position_lt_one (h : pixel < lastPixel extent) : position pixel extent < 1 := by
  rw [position_of_lt h, div_lt_one (Nat.cast_pos.mpr lastPixel_pos)]
  exact Nat.cast_lt.mpr h

/-- When a pixel is in the same place. -/
theorem position_eq_iff : position pixel a = position pixel b ↔ SamePlace pixel a b := by
  unfold SamePlace
  rcases Nat.lt_or_ge pixel (lastPixel a) with ha | ha
  · rcases Nat.lt_or_ge pixel (lastPixel b) with hb | hb
    · have hneither : ¬ (lastPixel a ≤ pixel ∧ lastPixel b ≤ pixel) := fun h => Nat.not_lt.mpr h.1 ha
      rw [position_of_lt ha, position_of_lt hb, div_eq_div_iff (Nat.cast_pos.mpr lastPixel_pos).ne'
        (Nat.cast_pos.mpr lastPixel_pos).ne', or_iff_left hneither, ← Nat.cast_mul, ← Nat.cast_mul, Nat.cast_inj,
        mul_eq_mul_left_iff, or_comm, eq_comm (a := lastPixel b)]
    · refine iff_of_false (fun h => ?_) fun h => ?_
      · rw [position_of_le hb] at h
        exact absurd h (position_lt_one ha).ne
      · have hpos : 0 < lastPixel b := lastPixel_pos
        omega
  · rcases Nat.lt_or_ge pixel (lastPixel b) with hb | hb
    · refine iff_of_false (fun h => ?_) fun h => ?_
      · rw [position_of_le ha] at h
        exact absurd h.symm (position_lt_one hb).ne
      · have hpos : 0 < lastPixel a := lastPixel_pos
        omega
    · rw [position_of_le ha, position_of_le hb]
      exact iff_of_true rfl (.inr (.inr ⟨ha, hb⟩))

end

/-! ### Events -/

/-- What a pointer event gives the host. -/
inductive PointerInput
  | move (x y : ℚ)
  | button (button : PointerButton) (pressed : Bool)
  | scroll (dx dy : ℤ)
  deriving DecidableEq

/-- Reads a viewer's messages; the size is the window's when the viewer came. -/
structure Reader where
  size : ℕ × ℕ
  buttons : UInt8

namespace Reader

def has (mask : UInt8) (bit : UInt8) : Bool := mask &&& (1 <<< bit) ≠ 0

def pointer (self : Reader) (mask : UInt8) (x y : UInt16) : Reader × List PointerInput :=
  let pressed := mask &&& ~~~ self.buttons
  let released := self.buttons &&& ~~~ mask
  let buttons := [(0, PointerButton.left), (1, .middle), (2, .right)].filterMap fun e =>
    if has pressed e.1 ∨ has released e.1 then some (PointerInput.button e.2 (has pressed e.1)) else none
  -- buttons 4 to 7 are the wheel, a click a notch
  let wheel := [((3 : UInt8), (0 : ℤ), (1 : ℤ)), (4, 0, -1), (5, -1, 0), (6, 1, 0)].filterMap fun e =>
    if has pressed e.1 then some (PointerInput.scroll e.2.1 e.2.2) else none
  ({ self with buttons := mask },
    .move (position x.toNat self.size.1) (position y.toNat self.size.2) :: buttons ++ wheel)

end Reader

/-- What the viewer sends, with what its updates take from the window. -/
inductive Event
  | wanted (wanted : Wanted)
  | pointer (mask : UInt8) (x y : UInt16)

/-- The viewer follows the window from then on. -/
def Event.Follows : Event → Prop
  | .wanted (.setEncodings encodings) => DESKTOP_SIZE ∈ encodings
  | _ => False

/-- A connection: its updates, as long as they go on, and its reader. -/
structure Connection where
  session : Session
  updating : Bool
  reader : Reader

namespace Connection

def new (first : Picture) : Connection := ⟨.new first, true, ⟨first.size, 0⟩⟩

def step (self : Connection) : Event → Connection × List PointerInput
  | .wanted wanted =>
    if self.updating then
      match self.session.step wanted with
      | some session => ({ self with session := session }, [])
      | none => ({ self with updating := false }, [])
    else (self, [])
  | .pointer mask x y =>
    let (reader, inputs) := self.reader.pointer mask x y
    ({ self with reader := reader }, inputs)

def run (self : Connection) (events : List Event) : Connection := events.foldl (fun c e => (c.step e).1) self

/-- The pointer goes where the viewer shows it, in the framebuffer it has. -/
def Lands (self : Connection) (mask : UInt8) (x y : UInt16) : Prop :=
  (self.step (.pointer mask x y)).2.head? =
    some (.move (position x.toNat self.session.viewer.size.1) (position y.toNat self.session.viewer.size.2))

variable {self : Connection} {first : Picture} {events : List Event} {e : Event}

/-- The reader keeps the size it had. -/
theorem size_step (self : Connection) (e : Event) : (self.step e).1.reader.size = self.reader.size := by
  cases e with
  | wanted wanted =>
    rw [step]
    split
    · split <;> rfl
    · rfl
  | pointer mask x y => rfl

theorem size_run (self : Connection) (events : List Event) : (self.run events).reader.size = self.reader.size := by
  induction events generalizing self with
  | nil => rfl
  | cons e events ih => exact (ih _).trans (size_step self e)

/-- **When a pointer event lands where the viewer shows it**, whatever came before. -/
theorem pointer_lands_iff (first : Picture) (events : List Event) (mask : UInt8) (x y : UInt16) :
    ((new first).run events).Lands mask x y ↔
      SamePlace x.toNat first.width ((new first).run events).session.viewer.size.1 ∧
        SamePlace y.toNat first.height ((new first).run events).session.viewer.size.2 := by
  have hsize : ((new first).run events).reader.size = first.size := size_run (new first) events
  rw [← position_eq_iff, ← position_eq_iff, Lands, step, Reader.pointer]
  dsimp only
  rw [hsize, List.cons_append, List.head?_cons, Option.some.injEq, PointerInput.move.injEq]
  exact Iff.rfl

/-- The viewer does not follow the window, and has the framebuffer it was told first. -/
structure Fixed (first : Picture) (c : Connection) : Prop where
  resize : c.session.updates.resize = false
  size : c.session.viewer.size = (asU16 first.width, asU16 first.height)

theorem Fixed.step (h : Fixed first self) (he : ¬ e.Follows) : Fixed first (self.step e).1 := by
  cases e with
  | pointer mask x y => exact ⟨h.resize, h.size⟩
  | wanted wanted =>
    rw [Connection.step]
    split
    · cases hstep : self.session.step wanted with
      | none => exact ⟨h.resize, h.size⟩
      | some session =>
        obtain ⟨⟨updates, rects⟩, hnext, rfl⟩ := Option.map_eq_some_iff.mp hstep
        cases wanted with
        | update incremental next =>
          obtain ⟨⟨updates', previous⟩, hfetched, hsend⟩ := Option.map_eq_some_iff.mp hnext
          obtain ⟨rfl, rfl⟩ := Prod.mk.inj hsend
          have hresize : updates'.resize = false := by
            rcases Session.fetched_cases hfetched with ⟨rfl, -⟩ | ⟨before, picture, -, -, rfl⟩
            · exact h.resize
            · exact h.resize
          have hnone : updates'.resized = [] := by
            rw [Updates.resized, Updates.resizes, hresize]
            rfl
          refine ⟨hresize, ?_⟩
          show ((updates'.resized ++ updates'.drawn previous).foldl Viewer.apply self.session.viewer).size = _
          rw [hnone, List.nil_append, Updates.size_drawn]
          exact h.size
        | setPixelFormat raw =>
          obtain ⟨format, -, hsend⟩ := Option.map_eq_some_iff.mp hnext
          obtain ⟨rfl, rfl⟩ := Prod.mk.inj hsend
          exact ⟨h.resize, h.size⟩
        | setEncodings encodings =>
          obtain ⟨rfl, rfl⟩ := Prod.mk.inj (Option.some.inj hnext)
          have hresize : encodings.contains DESKTOP_SIZE = false := by
            rw [← Bool.not_eq_true, List.contains_iff_mem]
            exact he
          exact ⟨hresize, h.size⟩
    · exact h

theorem Fixed.run (h : Fixed first self) (he : ∀ e ∈ events, ¬ e.Follows) : Fixed first (self.run events) := by
  induction events generalizing self with
  | nil => exact h
  | cons e events ih =>
    rw [List.forall_mem_cons] at he
    exact ih (h.step he.1) he.2

/-- **Where the viewer does not follow the window**, every event lands, if the size the
window had could be told. -/
theorem lands_of_fixed (hwidth : first.width < 65536) (hheight : first.height < 65536)
    (he : ∀ e ∈ events, ¬ e.Follows) (mask : UInt8) (x y : UInt16) : ((new first).run events).Lands mask x y := by
  have hfixed : Fixed first ((new first).run events) := Fixed.run ⟨rfl, rfl⟩ he
  rw [pointer_lands_iff, hfixed.size, asU16_eq hwidth, asU16_eq hheight]
  exact ⟨.inr (.inl rfl), .inr (.inl rfl)⟩

/-- A row of three pixels. -/
def row : Picture := ⟨3, 1, 12, [1, 2, 3, 0, 1, 2, 3, 0, 1, 2, 3, 0], by decide⟩

/-- In a window that has grown, the pointer of a viewer that follows it goes elsewhere. -/
theorem misses_when_grown : ¬ ((new Session.dot).run
    [.wanted (.setEncodings [DESKTOP_SIZE]), .wanted (.update false none), .wanted (.update true (some (row)))]).Lands 0 1 0 := by
  rw [pointer_lands_iff]
  decide

end Connection
end WindowCast.Vnc.Updating
