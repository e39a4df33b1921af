import WindowCast.Lib.BigEndian
import WindowCast.Lib.Extent
import WindowCast.Lib.Run

/-!
# What a VNC viewer is shown

The update loop of `vnc/src/lib.rs`: each request of a viewer is answered with what has
changed since the picture before, or with all of it; with a new size first, when the
window has changed size and the viewer can follow.

Widths, heights and coordinates go over the wire in 16 bits.  The shifts of a pixel format
are those of a build that does not check them.

## Main definitions

* `Picture`, `changed` — a picture, and the smallest rectangle of what differs.
* `Updates`, `Updates.send` — the server's side, and one update.
* `Viewer`, `Viewer.apply` — the viewer's framebuffer, and what a rectangle does to it.
* `Session.Ok` — the rectangles of an update lie inside, and the viewer then has the picture.
* `Session.Meets` — the condition for it.

## Main results

* `changed_eq_some` — the rectangle holds all that differs, and no less will do.
* `Updates.send_shows` — **an update lies inside the framebuffer, which then shows the picture**.
* `Session.Inv.step` — what every step preserves.
* `Session.latest_shown` — **the viewer has the latest picture** behind every update.
-/

namespace WindowCast.Vnc

namespace Updating

/-! ### Pictures -/

/-- A captured picture: BGRA, rows from the top, `stride` bytes apart. -/
structure Picture where
  width : ℕ
  height : ℕ
  stride : ℕ
  data : List UInt8
  /-- Every row is there. -/
  rows : ∀ y < height, y * stride + width * 4 ≤ data.length

namespace Picture

def size (self : Picture) : ℕ × ℕ := (self.width, self.height)

def row (self : Picture) (y bytes : ℕ) : List UInt8 := (self.data.drop (y * self.stride)).take bytes

/-- The four bytes of a pixel. -/
def pixel (self : Picture) (row column : ℕ) : List UInt8 :=
  (self.data.drop (row * self.stride + column * 4)).take 4

/-- A pixel of the picture, or black outside it. -/
def paddedPixel (self : Picture) (row column : ℕ) : List UInt8 :=
  if row < self.height ∧ column < self.width then self.pixel row column else [0, 0, 0, 0]

end Picture

/-- A place of the picture whose pixel was another before. -/
def Differs (before after : Picture) (row column : ℕ) : Prop :=
  row < after.height ∧ column < after.width ∧ before.pixel row column ≠ after.pixel row column

/-- A place in a rectangle. -/
def Inside (x y w h row column : ℕ) : Prop := (y ≤ row ∧ row < y + h) ∧ x ≤ column ∧ column < x + w

instance (x y w h row column : ℕ) : Decidable (Inside x y w h row column) :=
  inferInstanceAs (Decidable (_ ∧ _))

/-- The four bytes of a pixel in a row. -/
def pixelOf (row : List UInt8) (x : ℕ) : List UInt8 := (row.drop (x * 4)).take 4

/-- Whether two rows differ at a pixel. -/
def differsAt (a b : List UInt8) (x : ℕ) : Bool := pixelOf a x ≠ pixelOf b x

/-- A row takes part in the rectangle's sides. -/
def widened (before after : Picture) (sides : ℕ × ℕ) (y : ℕ) : ℕ × ℕ :=
  let a := before.row y (after.width * 4)
  let b := after.row y (after.width * 4)
  match Extent.first (differsAt a b) after.width, Extent.last (differsAt a b) after.width with
  | some first, some last => (min sides.1 first, max sides.2 last)
  | _, _ => sides

/-- Whether two pictures differ in a row. -/
def rowDiffers (before after : Picture) (y : ℕ) : Bool :=
  before.row y (after.width * 4) ≠ after.row y (after.width * 4)

/-- The smallest rectangle (x, y, width, height) holding every pixel that differs between
two pictures of one size; `none` when none does. -/
def changed (before after : Picture) : Option (ℕ × ℕ × ℕ × ℕ) :=
  (Extent.first (rowDiffers before after) after.height).bind fun top =>
    (Extent.last (rowDiffers before after) after.height).map fun bottom =>
      let sides := (List.range' top (bottom + 1 - top)).foldl (widened before after) (after.width, 0)
      (sides.1, top, sides.2 - sides.1 + 1, bottom - top + 1)

section

variable {before after : Picture} {a b : List UInt8} {n x : ℕ}

theorem pixelOf_row (self : Picture) (y : ℕ) (hx : x < n) : pixelOf (self.row y (n * 4)) x = self.pixel y x := by
  have hwhole : min 4 (n * 4 - x * 4) = 4 := by omega
  rw [pixelOf, Picture.row, Picture.pixel, List.drop_take, List.take_take, hwhole, List.drop_drop]

/-- Rows of one length are the same if their pixels are. -/
theorem eq_iff_pixelOf (ha : a.length = n * 4) (hb : b.length = n * 4) :
    a = b ↔ ∀ x < n, pixelOf a x = pixelOf b x := by
  refine ⟨fun h x _ => h ▸ rfl, fun h => ?_⟩
  induction n generalizing a b with
  | zero =>
    rw [Nat.zero_mul, List.length_eq_zero_iff] at ha hb
    rw [ha, hb]
  | succ n ih =>
    have hbehind (row : List UInt8) (x : ℕ) : pixelOf row (x + 1) = pixelOf (row.drop 4) x := by
      rw [pixelOf, pixelOf, List.drop_drop, Nat.add_mul, Nat.one_mul, Nat.add_comm 4]
    have hfirst : a.take 4 = b.take 4 := h 0 (Nat.succ_pos n)
    have hrest : a.drop 4 = b.drop 4 := by
      refine ih ?_ ?_ fun x hx => ?_
      · rw [List.length_drop]
        omega
      · rw [List.length_drop]
        omega
      · rw [← hbehind, ← hbehind]
        exact h (x + 1) (Nat.succ_lt_succ hx)
    rw [← List.take_append_drop 4 a, hfirst, hrest, List.take_append_drop]

theorem length_row (self : Picture) {y : ℕ} (hy : y < self.height) : (self.row y (self.width * 4)).length = self.width * 4 := by
  have hrow := self.rows y hy
  rw [Picture.row, List.length_take, List.length_drop]
  omega

/-- Rows differ where a pixel of them does. -/
theorem rowDiffers_iff (hsize : before.size = after.size) {y : ℕ} (hy : y < after.height) :
    rowDiffers before after y = true ↔ ∃ x, Differs before after y x := by
  obtain ⟨hwidth, hheight⟩ := Prod.mk.inj hsize
  have hbefore := length_row before (hheight.symm ▸ hy)
  rw [hwidth] at hbefore
  rw [rowDiffers, decide_eq_true_iff, ne_eq, eq_iff_pixelOf hbefore (length_row after hy)]
  simp only [not_forall, Differs]
  constructor
  · rintro ⟨x, hx, hne⟩
    rw [pixelOf_row before y hx, pixelOf_row after y hx] at hne
    exact ⟨x, hy, hx, hne⟩
  · rintro ⟨x, -, hx, hne⟩
    refine ⟨x, hx, ?_⟩
    rwa [pixelOf_row before y hx, pixelOf_row after y hx]

theorem differsAt_row (y : ℕ) (hx : x < after.width) :
    differsAt (before.row y (after.width * 4)) (after.row y (after.width * 4)) x = true ↔
      before.pixel y x ≠ after.pixel y x := by
  rw [differsAt, decide_eq_true_iff, pixelOf_row before y hx, pixelOf_row after y hx]

/-- What bounds the sides of a rectangle that a row takes part in. -/
theorem widened_bounds (sides : ℕ × ℕ) (y lo hi : ℕ) :
    (lo ≤ (widened before after sides y).1 ↔
      lo ≤ sides.1 ∧ ∀ x < after.width, before.pixel y x ≠ after.pixel y x → lo ≤ x) ∧
    ((widened before after sides y).2 ≤ hi ↔
      sides.2 ≤ hi ∧ ∀ x < after.width, before.pixel y x ≠ after.pixel y x → x ≤ hi) := by
  have hsame (Q : ℕ → Prop) :
      (∀ x < after.width, differsAt (before.row y (after.width * 4)) (after.row y (after.width * 4)) x = true → Q x) ↔
        ∀ x < after.width, before.pixel y x ≠ after.pixel y x → Q x :=
    forall₂_congr fun x hx => imp_congr_left (differsAt_row y hx)
  unfold widened
  dsimp only
  cases hfirst : Extent.first (differsAt (before.row y (after.width * 4)) (after.row y (after.width * 4))) after.width with
  | none =>
    have hnone : ∀ x < after.width, ¬ before.pixel y x ≠ after.pixel y x := by
      refine (hsame fun _ => False).mp fun x hx hdiffers => ?_
      rw [Extent.first_eq_none.mp hfirst x hx] at hdiffers
      cases hdiffers
    exact ⟨(and_iff_left fun x hx hne => absurd hne (hnone x hx)).symm,
      (and_iff_left fun x hx hne => absurd hne (hnone x hx)).symm⟩
  | some first =>
    cases hlast : Extent.last (differsAt (before.row y (after.width * 4)) (after.row y (after.width * 4))) after.width with
    | none =>
      rw [Extent.last_eq_none_iff.mp hlast] at hfirst
      cases hfirst
    | some last =>
      exact ⟨by rw [le_min_iff, Extent.le_first hfirst, hsame], by rw [max_le_iff, Extent.last_le hlast, hsame]⟩

/-- What bounds the sides of a rectangle that some rows take part in. -/
theorem foldl_widened_bounds (rows : List ℕ) (sides : ℕ × ℕ) (lo hi : ℕ) :
    (lo ≤ (rows.foldl (widened before after) sides).1 ↔
      lo ≤ sides.1 ∧ ∀ y ∈ rows, ∀ x < after.width, before.pixel y x ≠ after.pixel y x → lo ≤ x) ∧
    ((rows.foldl (widened before after) sides).2 ≤ hi ↔
      sides.2 ≤ hi ∧ ∀ y ∈ rows, ∀ x < after.width, before.pixel y x ≠ after.pixel y x → x ≤ hi) := by
  induction rows generalizing sides with
  | nil => exact ⟨(and_iff_left nofun).symm, (and_iff_left nofun).symm⟩
  | cons y rows ih =>
    obtain ⟨hlo, hhi⟩ := ih (widened before after sides y)
    obtain ⟨hlo', hhi'⟩ := @widened_bounds before after sides y lo hi
    rw [List.foldl_cons, hlo, hlo', hhi, hhi', List.forall_mem_cons, List.forall_mem_cons, and_assoc, and_assoc]
    exact ⟨Iff.rfl, Iff.rfl⟩

theorem changed_eq_none (hsize : before.size = after.size) (h : changed before after = none) (row column : ℕ) :
    ¬ Differs before after row column := by
  intro hdiffers
  have hrow := (rowDiffers_iff hsize hdiffers.1).mpr ⟨column, hdiffers⟩
  rw [changed, Option.bind_eq_none_iff] at h
  cases htop : Extent.first (rowDiffers before after) after.height with
  | none =>
    rw [Extent.first_eq_none.mp htop row hdiffers.1] at hrow
    cases hrow
  | some top =>
    have hlast := Option.map_eq_none_iff.mp (h top htop)
    rw [Extent.last_eq_none.mp hlast row hdiffers.1] at hrow
    cases hrow

/-- **The rectangle holds all that differs**, and lies in all that does. -/
theorem changed_eq_some (hsize : before.size = after.size) {y w h : ℕ} (hchanged : changed before after = some (x, y, w, h)) :
    (∀ row column, Differs before after row column → Inside x y w h row column) ∧
      ∀ wide high, (∀ row column, Differs before after row column → row < high ∧ column < wide) →
        x + w ≤ wide ∧ y + h ≤ high := by
  obtain ⟨top, htop, hchanged⟩ := Option.bind_eq_some_iff.mp hchanged
  obtain ⟨bottom, hbottom, hrect⟩ := Option.map_eq_some_iff.mp hchanged
  have hrows {row column : ℕ} (hdiffers : Differs before after row column) : top ≤ row ∧ row ≤ bottom := by
    have hrow := (rowDiffers_iff hsize hdiffers.1).mpr ⟨column, hdiffers⟩
    exact ⟨(Extent.le_first htop).mp le_rfl row hdiffers.1 hrow, (Extent.last_le hbottom).mp le_rfl row hdiffers.1 hrow⟩
  obtain ⟨htopLt, htopDiffers, -⟩ := Extent.first_eq_some htop
  obtain ⟨hbottomLt, hbottomDiffers, -⟩ := Extent.last_eq_some hbottom
  obtain ⟨first, hfirst⟩ := (rowDiffers_iff hsize htopLt).mp htopDiffers
  obtain ⟨last, hlast⟩ := (rowDiffers_iff hsize hbottomLt).mp hbottomDiffers
  generalize hsides : (List.range' top (bottom + 1 - top)).foldl (widened before after) (after.width, 0) = sides at hrect
  have hcolumns {row column : ℕ} (hdiffers : Differs before after row column) : sides.1 ≤ column ∧ column ≤ sides.2 := by
    obtain ⟨htopRow, hrowBottom⟩ := hrows hdiffers
    have hmem : row ∈ List.range' top (bottom + 1 - top) := List.mem_range'_1.mpr ⟨htopRow, by omega⟩
    have hbounds := @foldl_widened_bounds before after (List.range' top (bottom + 1 - top)) (after.width, 0) sides.1 sides.2
    rw [hsides] at hbounds
    exact ⟨(hbounds.1.mp le_rfl).2 row hmem column hdiffers.2.1 hdiffers.2.2,
      (hbounds.2.mp le_rfl).2 row hmem column hdiffers.2.1 hdiffers.2.2⟩
  simp only [Prod.mk.injEq] at hrect
  obtain ⟨rfl, rfl, rfl, rfl⟩ := hrect
  refine ⟨fun row column hdiffers => ?_, fun wide high hall => ?_⟩
  · have hrow := hrows hdiffers
    have hcolumn := hcolumns hdiffers
    exact ⟨⟨hrow.1, by omega⟩, hcolumn.1, by omega⟩
  · have hfirstColumn := hcolumns hfirst
    have hwide := (hall top first hfirst).2
    have hhigh := (hall bottom last hlast).1
    have hbottomRow := (hrows hlast).1
    have hright : sides.2 ≤ wide - 1 := by
      have hbounds := @foldl_widened_bounds before after (List.range' top (bottom + 1 - top)) (after.width, 0) 0 (wide - 1)
      rw [hsides] at hbounds
      refine hbounds.2.mpr ⟨Nat.zero_le _, fun row hmem column hcolumn hne => ?_⟩
      obtain ⟨-, hlt⟩ := List.mem_range'_1.mp hmem
      have := (hall row column ⟨by omega, hcolumn, hne⟩).2
      omega
    constructor <;> omega

end

/-! ### Pixel formats -/

/-- A viewer's pixel format (true colour only). -/
structure PixelFormat where
  bits : UInt8
  bigEndian : Bool
  max : UInt16 × UInt16 × UInt16
  shift : UInt8 × UInt8 × UInt8
  deriving DecidableEq

namespace PixelFormat

/-- BGRA as hosts capture it. -/
def SERVER : PixelFormat := ⟨32, false, (255, 255, 255), (16, 8, 0)⟩

/-- A SetPixelFormat's format, if true colour at 8, 16 or 32 bits. -/
def parse (raw : Vector UInt8 16) : Option PixelFormat :=
  let bits := raw[0]
  if raw[3] = 0 ∨ ¬ (bits = 8 ∨ bits = 16 ∨ bits = 32) then none
  else
    let number := fun (high low : UInt8) => high.toUInt16 <<< 8 ||| low.toUInt16
    some {
      bits := bits
      bigEndian := raw[2] != 0
      max := (number raw[4] raw[5], number raw[6] raw[7], number raw[8] raw[9])
      shift := (raw[10], raw[11], raw[12]) }

/-- One BGRA pixel in this format. -/
def put (self : PixelFormat) (bgra : List UInt8) : List UInt8 :=
  if self = SERVER then [bgra.getD 0 0, bgra.getD 1 0, bgra.getD 2 0, 0]
  else
    let scale := fun (value : UInt8) (max : UInt16) => value.toUInt32 * max.toUInt32 / 255
    let value := scale (bgra.getD 2 0) self.max.1 <<< self.shift.1.toUInt32
      ||| scale (bgra.getD 1 0) self.max.2.1 <<< self.shift.2.1.toUInt32
      ||| scale (bgra.getD 0 0) self.max.2.2 <<< self.shift.2.2.toUInt32
    if self.bits = 32 then
      let bytes := BigEndian.toBytes 4 value.toNat
      if self.bigEndian then bytes else bytes.reverse
    else if self.bits = 16 then
      let bytes := BigEndian.toBytes 2 value.toNat
      if self.bigEndian then bytes else bytes.reverse
    else [value.toUInt8]

end PixelFormat

/-! ### The server -/

def DESKTOP_SIZE : ℤ := -223

/-- A number in 16 bits. -/
def asU16 (n : ℕ) : ℕ := n % 65536

/-- A rectangle of an update. -/
inductive Rect
  | desktopSize (w h : ℕ)
  | raw (x y w h : ℕ) (pixels : List (List UInt8))
  deriving DecidableEq

/-- What the viewer wants, and the picture that comes next if one is waited for. -/
inductive Wanted
  | update (incremental : Bool) (next : Option Picture)
  | setPixelFormat (raw : Vector UInt8 16)
  | setEncodings (encodings : List ℤ)

/-- Answers the viewer's update requests with what changed. -/
structure Updates where
  format : PixelFormat
  /-- The viewer follows DesktopSize. -/
  resize : Bool
  last : Picture
  /-- The framebuffer size the viewer has, once an update was sent. -/
  sentSize : Option (ℕ × ℕ)
  previous : Option Picture

namespace Updates

/-- The pixels of a rectangle of the last picture, row by row. -/
def pixels (self : Updates) (x y w h : ℕ) : List (List UInt8) :=
  (List.range' y h).flatMap fun row =>
    (List.range' x w).map fun column => self.format.put (self.last.paddedPixel row column)

/-- Whether the viewer is told the window's size: it can follow, and has another. -/
def resizes (self : Updates) : Bool :=
  self.resize && self.sentSize.any fun sent => sent ≠ self.last.size

/-- The framebuffer size the viewer has with this update. -/
def shown (self : Updates) : ℕ × ℕ :=
  match self.sentSize with
  | some sent => if self.resizes then self.last.size else sent
  | none => self.last.size

/-- The rectangle to send. -/
def rect (self : Updates) (previous : Option Picture) : Option (ℕ × ℕ × ℕ × ℕ) :=
  match if self.resizes then none else previous with
  | some before =>
    if before.size = self.last.size then changed before self.last
    else some (0, 0, self.shown.1, self.shown.2)
  | none => some (0, 0, self.shown.1, self.shown.2)

/-- One FramebufferUpdate: the part of the picture that differs from `previous` (all of it
without one), after a DesktopSize when the window changed size and the viewer can follow. -/
def send (self : Updates) (previous : Option Picture) : Updates × List Rect :=
  let resized := if self.resizes then [Rect.desktopSize (asU16 self.last.width) (asU16 self.last.height)] else []
  let raw := match self.rect previous with
    | some (x, y, w, h) => [Rect.raw (asU16 x) (asU16 y) (asU16 w) (asU16 h) (self.pixels x y w h)]
    | none => []
  ({ self with sentSize := some self.shown }, resized ++ raw)

/-- The picture that an update is of, and the one it may build on. -/
def fetched (self : Updates) (incremental : Bool) (next : Option Picture) : Option (Updates × Option Picture) :=
  if incremental && self.previous.isSome then next.map fun picture => ({ self with last := picture }, self.previous)
  else some (self, none)

/-- One turn of the loop: the update that is sent, if one was wanted. -/
def next (self : Updates) : Wanted → Option (Updates × Option (List Rect))
  | .update incremental next =>
    (self.fetched incremental next).map fun (self, previous) =>
      let (self, rects) := self.send previous
      ({ self with previous := some self.last }, some rects)
  | .setPixelFormat raw =>
    (PixelFormat.parse raw).map fun format => ({ self with format := format, previous := none }, none)
  | .setEncodings encodings => some ({ self with resize := encodings.contains DESKTOP_SIZE }, none)

end Updates

/-! ### The viewer -/

/-- The viewer's framebuffer. -/
structure Viewer where
  size : ℕ × ℕ
  /-- The bytes of each pixel, by row and column. -/
  pixels : ℕ → ℕ → List UInt8

namespace Viewer

def apply (self : Viewer) : Rect → Viewer
  | .desktopSize w h => { self with size := (w, h) }
  | .raw x y w h pixels =>
    { self with
      pixels := fun row column =>
        if Inside x y w h row column then
          pixels.getD ((row - y) * w + (column - x)) []
        else self.pixels row column }

/-- The rectangle lies inside the framebuffer, and has a pixel for each place. -/
def Holds (self : Viewer) : Rect → Prop
  | .desktopSize _ _ => True
  | .raw x y w h pixels => x + w ≤ self.size.1 ∧ y + h ≤ self.size.2 ∧ pixels.length = w * h

/-- Each rectangle lies inside the framebuffer as those before left it. -/
def HoldsAll (self : Viewer) : List Rect → Prop
  | [] => True
  | rect :: rects => self.Holds rect ∧ (self.apply rect).HoldsAll rects

theorem holdsAll_append {self : Viewer} {rects rects' : List Rect} :
    self.HoldsAll (rects ++ rects') ↔ self.HoldsAll rects ∧ (rects.foldl apply self).HoldsAll rects' := by
  induction rects generalizing self with
  | nil => exact (and_iff_right trivial).symm
  | cons rect rects ih => rw [List.cons_append, HoldsAll, HoldsAll, ih, List.foldl_cons, and_assoc]

/-- The framebuffer shows the picture, cut or padded to its size. -/
def Shows (self : Viewer) (format : PixelFormat) (picture : Picture) : Prop :=
  ∀ row < self.size.2, ∀ column < self.size.1,
    self.pixels row column = format.put (picture.paddedPixel row column)

end Viewer

section

variable {self : Updates} {viewer : Viewer} {x y w h row column : ℕ}

/-- Rows of one length, one behind the other. -/
theorem getD_rows {α : Type} (f : ℕ → ℕ → α) (d : α) {i j : ℕ} (hi : i < h) (hj : j < w) :
    ((List.range' y h).flatMap fun row => (List.range' x w).map (f row)).getD (i * w + j) d = f (y + i) (x + j) := by
  induction h generalizing y i with
  | zero => exact absurd hi (Nat.not_lt_zero i)
  | succ h ih =>
    have hlength : ((List.range' x w).map (f y)).length = w := by rw [List.length_map, List.length_range']
    rw [List.range'_succ, List.flatMap_cons]
    cases i with
    | zero =>
      have hfirst : ((List.range' x w).map (f y))[0 * w + j]? = some (f y (x + j)) := by
        rw [List.getElem?_map, Nat.zero_mul, Nat.zero_add, List.getElem?_range' hj, Nat.one_mul]
        rfl
      rw [List.getD_eq_getElem?_getD, List.getElem?_append_left (by rw [hlength]; omega), hfirst]
      rfl
    | succ i =>
      have hrest : (i + 1) * w + j - w = i * w + j := by
        rw [Nat.add_mul, Nat.one_mul]
        omega
      have hbehind : w ≤ (i + 1) * w + j := by
        rw [Nat.add_mul, Nat.one_mul]
        omega
      rw [List.getD_eq_getElem?_getD, List.getElem?_append_right (by rw [hlength]; exact hbehind), hlength, hrest,
        ← List.getD_eq_getElem?_getD, ih (Nat.lt_of_succ_lt_succ hi)]
      congr 1
      omega

theorem length_pixels (self : Updates) (x y w h : ℕ) : (self.pixels x y w h).length = w * h := by
  unfold Updates.pixels
  induction h generalizing y with
  | zero => rw [Nat.mul_zero]; rfl
  | succ h ih =>
    rw [List.range'_succ, List.flatMap_cons, List.length_append, ih, List.length_map, List.length_range', Nat.mul_succ,
      Nat.add_comm]

/-- A rectangle of the last picture puts its pixels where it is. -/
theorem pixels_apply (self : Updates) (viewer : Viewer) (hinside : Inside x y w h row column) :
    (viewer.apply (.raw x y w h (self.pixels x y w h))).pixels row column = self.format.put (self.last.paddedPixel row column) := by
  obtain ⟨⟨hy, hh⟩, hx, hw⟩ := hinside
  have hpixel := @getD_rows x y w h (List UInt8) (fun row column => self.format.put (self.last.paddedPixel row column)) []
    (row - y) (column - x) (by omega) (by omega)
  rw [Nat.add_sub_cancel' hy, Nat.add_sub_cancel' hx] at hpixel
  exact (if_pos ⟨⟨hy, hh⟩, hx, hw⟩).trans hpixel

theorem pixels_apply_outside (pixels : List (List UInt8)) (viewer : Viewer) (houtside : ¬ Inside x y w h row column) :
    (viewer.apply (.raw x y w h pixels)).pixels row column = viewer.pixels row column := if_neg houtside

/-- A picture that does not differ shows the same. -/
theorem paddedPixel_eq {before after : Picture} (hsize : before.size = after.size)
    (hsame : ¬ Differs before after row column) : before.paddedPixel row column = after.paddedPixel row column := by
  obtain ⟨hwidth, hheight⟩ := Prod.mk.inj hsize
  unfold Picture.paddedPixel
  rw [hwidth, hheight]
  split
  · rename_i hplace
    by_contra hne
    exact hsame ⟨hplace.1, hplace.2, hne⟩
  · rfl

end

/-- The server and a viewer. -/
structure Session where
  updates : Updates
  viewer : Viewer

namespace Session

/-- After ServerInit: the viewer has the first picture's size, and nothing to show. -/
def new (first : Picture) : Session :=
  ⟨⟨.SERVER, false, first, none, none⟩, ⟨(asU16 first.width, asU16 first.height), fun _ _ => []⟩⟩

def step (self : Session) (wanted : Wanted) : Option Session :=
  (self.updates.next wanted).map fun r => ⟨r.1, (r.2.getD []).foldl Viewer.apply self.viewer⟩

/-- Every rectangle of the update lies inside the framebuffer, which then shows the picture. -/
def Ok (self : Session) (wanted : Wanted) : Prop :=
  ∀ updates rects, self.updates.next wanted = some (updates, some rects) →
    self.viewer.HoldsAll rects ∧ (rects.foldl Viewer.apply self.viewer).Shows updates.format updates.last

/-- What an update builds on differs only where the viewer has a framebuffer. -/
def Within (updates : Updates) (before : Picture) : Prop :=
  updates.resizes = false → before.size = updates.last.size →
    ∀ row column, Differs before updates.last row column → row < updates.shown.2 ∧ column < updates.shown.1

/-- A size that the viewer is told is one it can be told; and where an update builds on the
one before, whatever differs is within the size that the viewer has. -/
def Meets (self : Session) : Wanted → Prop
  | .update incremental next =>
    ∀ updates previous, self.updates.fetched incremental next = some (updates, previous) →
      (updates.shown.1 < 65536 ∧ updates.shown.2 < 65536) ∧ ∀ before, previous = some before → Within updates before
  | _ => True

end Session

/-! ### One update -/

theorem asU16_eq {n : ℕ} (h : n < 65536) : asU16 n = n := Nat.mod_eq_of_lt h

namespace Updates

variable {self : Updates} {viewer : Viewer} {previous : Option Picture} {x y w h : ℕ}

/-- The framebuffer behind the size that is told, if one is. -/
def resized (self : Updates) : List Rect :=
  if self.resizes then [Rect.desktopSize (asU16 self.last.width) (asU16 self.last.height)] else []

/-- The rectangle of pixels, if one is sent. -/
def drawn (self : Updates) (previous : Option Picture) : List Rect :=
  match self.rect previous with
  | some (x, y, w, h) => [Rect.raw (asU16 x) (asU16 y) (asU16 w) (asU16 h) (self.pixels x y w h)]
  | none => []

theorem send_eq (self : Updates) (previous : Option Picture) :
    self.send previous = ({ self with sentSize := some self.shown }, self.resized ++ self.drawn previous) := rfl

theorem shown_of_resizes (h : self.resizes = true) : self.shown = self.last.size := by
  unfold shown
  cases self.sentSize with
  | none => rfl
  | some sent => exact if_pos h

/-- The viewer has the size that the update is for. -/
theorem size_resized (hfits : self.shown.1 < 65536 ∧ self.shown.2 < 65536)
    (hsize : viewer.size = self.sentSize.getD (asU16 self.last.width, asU16 self.last.height)) :
    (self.resized.foldl Viewer.apply viewer).size = self.shown ∧
      viewer.HoldsAll self.resized := by
  have hlast (hshown : self.shown = self.last.size) :
      (asU16 self.last.width, asU16 self.last.height) = self.shown := by
    rw [hshown] at hfits ⊢
    exact Prod.ext (asU16_eq hfits.1) (asU16_eq hfits.2)
  unfold resized
  split
  · rename_i hresizes
    exact ⟨hlast (shown_of_resizes hresizes), trivial, trivial⟩
  · rename_i hresizes
    refine ⟨hsize.trans ?_, trivial⟩
    cases hsent : self.sentSize with
    | none =>
      refine hlast ?_
      rw [shown, hsent]
    | some sent =>
      rw [shown, hsent]
      exact (if_neg hresizes).symm

/-- A rectangle inside the framebuffer, with everything else as it is to be. -/
theorem raw_shows (hwide : x + w ≤ viewer.size.1) (hhigh : y + h ≤ viewer.size.2)
    (hfits : viewer.size.1 < 65536 ∧ viewer.size.2 < 65536)
    (hrest : ∀ row < viewer.size.2, ∀ column < viewer.size.1, ¬ Inside x y w h row column →
      viewer.pixels row column = self.format.put (self.last.paddedPixel row column)) :
    let rect := Rect.raw (asU16 x) (asU16 y) (asU16 w) (asU16 h) (self.pixels x y w h)
    viewer.Holds rect ∧ (viewer.apply rect).Shows self.format self.last := by
  have hx : asU16 x = x := asU16_eq (by omega)
  have hy : asU16 y = y := asU16_eq (by omega)
  have hw : asU16 w = w := asU16_eq (by omega)
  have hh : asU16 h = h := asU16_eq (by omega)
  dsimp only
  rw [hx, hy, hw, hh]
  refine ⟨⟨hwide, hhigh, length_pixels self x y w h⟩, fun row hrow column hcolumn => ?_⟩
  by_cases hinside : Inside x y w h row column
  · exact pixels_apply self viewer hinside
  · rw [pixels_apply_outside _ viewer hinside]
    exact hrest row hrow column hcolumn hinside

@[simp] theorem size_drawn (self : Updates) (previous : Option Picture) (viewer : Viewer) :
    ((self.drawn previous).foldl Viewer.apply viewer).size = viewer.size := by
  unfold drawn
  split <;> rfl

/-- All of the picture is drawn, or what differs from the one before. -/
theorem rect_cases (self : Updates) (previous : Option Picture) :
    self.rect previous = some (0, 0, self.shown.1, self.shown.2) ∨
      ∃ before, previous = some before ∧ self.resizes = false ∧ before.size = self.last.size ∧
        self.rect previous = changed before self.last := by
  unfold rect
  cases hresizes : self.resizes with
  | true => exact .inl rfl
  | false =>
    cases previous with
    | none => exact .inl rfl
    | some before =>
      by_cases hsame : before.size = self.last.size
      · exact .inr ⟨before, rfl, rfl, hsame, if_pos hsame⟩
      · exact .inl (if_neg hsame)

/-- What is drawn lies inside a framebuffer of the size it is for, which then shows the picture. -/
theorem drawn_shows (hfits : self.shown.1 < 65536 ∧ self.shown.2 < 65536) (hsize : viewer.size = self.shown)
    (hshows : self.resizes = false → ∀ before, previous = some before → viewer.Shows self.format before)
    (hwithin : ∀ before, previous = some before → Session.Within self before) :
    viewer.HoldsAll (self.drawn previous) ∧
      ((self.drawn previous).foldl Viewer.apply viewer).Shows self.format self.last := by
  unfold drawn
  rcases self.rect_cases previous with hall | ⟨before, hprevious, hresizes, hsame, hrect⟩
  · rw [hall]
    have hraw : viewer.Holds _ ∧ _ := @raw_shows self viewer 0 0 self.shown.1 self.shown.2 (by rw [hsize, Nat.zero_add])
      (by rw [hsize, Nat.zero_add]) (hsize ▸ hfits) ?_
    · exact ⟨⟨hraw.1, trivial⟩, hraw.2⟩
    · intro row hrow column hcolumn houtside
      rw [hsize] at hrow hcolumn
      exact absurd ⟨⟨Nat.zero_le _, by omega⟩, Nat.zero_le _, by omega⟩ houtside
  · have hbefore := hshows hresizes before hprevious
    rw [hrect]
    cases hchanged : changed before self.last with
    | none =>
      refine ⟨trivial, fun row hrow column hcolumn => ?_⟩
      exact (hbefore row hrow column hcolumn).trans
        (congrArg _ (paddedPixel_eq hsame (changed_eq_none hsame hchanged row column)))
    | some rect =>
      obtain ⟨x, y, w, h⟩ := rect
      obtain ⟨hholds, hbounds⟩ := changed_eq_some hsame hchanged
      obtain ⟨hwide, hhigh⟩ := hbounds _ _ (hwithin before hprevious hresizes hsame)
      have hraw := @raw_shows self viewer x y w h (hsize.symm ▸ hwide) (hsize.symm ▸ hhigh) (hsize ▸ hfits)
        fun row hrow column hcolumn houtside => (hbefore row hrow column hcolumn).trans
          (congrArg _ (paddedPixel_eq hsame fun hdiffers => houtside (hholds row column hdiffers)))
      exact ⟨⟨hraw.1, trivial⟩, hraw.2⟩

/-- **An update lies inside the framebuffer, which then shows the picture.** -/
theorem send_shows (hfits : self.shown.1 < 65536 ∧ self.shown.2 < 65536)
    (hsize : viewer.size = self.sentSize.getD (asU16 self.last.width, asU16 self.last.height))
    (hshows : ∀ before, previous = some before → viewer.Shows self.format before)
    (hwithin : ∀ before, previous = some before → Session.Within self before) :
    viewer.HoldsAll (self.send previous).2 ∧
      ((self.send previous).2.foldl Viewer.apply viewer).Shows self.format self.last ∧
        ((self.send previous).2.foldl Viewer.apply viewer).size = self.shown := by
  obtain ⟨hsize', hresized⟩ := size_resized hfits hsize
  have hkept : self.resizes = false → self.resized.foldl Viewer.apply viewer = viewer := fun hresizes => by
    rw [resized, hresizes]
    rfl
  obtain ⟨hholds, hlast⟩ := drawn_shows hfits hsize' (fun hresizes before hprevious => by
    rw [hkept hresizes]
    exact hshows before hprevious) hwithin
  rw [send_eq, List.foldl_append, Viewer.holdsAll_append, size_drawn]
  exact ⟨⟨hresized, hholds⟩, hlast, hsize'⟩

end Updates

/-! ### Runs -/

namespace Session

variable {s s' : Session} {wanted : Wanted} {updates : Updates} {previous next : Option Picture} {incremental : Bool}

/-- What holds between updates: the viewer has the size it was told last, and what the next update
may build on is what it shows. -/
structure Inv (s : Session) : Prop where
  size : s.viewer.size = s.updates.sentSize.getD (asU16 s.updates.last.width, asU16 s.updates.last.height)
  fresh : s.updates.sentSize = none → s.updates.previous = none
  shows : ∀ before, s.updates.previous = some before → s.viewer.Shows s.updates.format before

theorem inv_new (first : Picture) : (new first).Inv := ⟨rfl, fun _ => rfl, nofun⟩

theorem fetched_cases {self : Updates} (h : self.fetched incremental next = some (updates, previous)) :
    updates = self ∧ previous = none ∨
      ∃ before picture, self.previous = some before ∧ previous = some before ∧ updates = { self with last := picture } := by
  unfold Updates.fetched at h
  split at h
  · rename_i hincremental
    obtain ⟨before, hbefore⟩ := Option.isSome_iff_exists.mp (Bool.and_eq_true_iff.mp hincremental).2
    obtain ⟨picture, -, h⟩ := Option.map_eq_some_iff.mp h
    obtain ⟨rfl, rfl⟩ := Prod.mk.inj h
    exact .inr ⟨before, picture, hbefore, hbefore, rfl⟩
  · obtain ⟨rfl, rfl⟩ := Prod.mk.inj (Option.some.inj h)
    exact .inl ⟨rfl, rfl⟩

/-- An update that meets the condition. -/
theorem Inv.update (h : s.Inv) (hmeets : s.Meets (.update incremental next))
    (hfetched : s.updates.fetched incremental next = some (updates, previous)) :
    s.viewer.HoldsAll (updates.send previous).2 ∧
      ((updates.send previous).2.foldl Viewer.apply s.viewer).Shows updates.format updates.last ∧
        ((updates.send previous).2.foldl Viewer.apply s.viewer).size = updates.shown := by
  obtain ⟨hfits, hwithin⟩ := hmeets updates previous hfetched
  rcases fetched_cases hfetched with ⟨rfl, rfl⟩ | ⟨before, picture, hbefore, rfl, rfl⟩
  · exact Updates.send_shows hfits h.size nofun nofun
  · refine Updates.send_shows hfits ?_ ?_ hwithin
    · -- an update that builds on another comes behind a size that was told
      cases hsent : s.updates.sentSize with
      | none =>
        rw [h.fresh hsent] at hbefore
        cases hbefore
      | some sent =>
        have hsize := h.size
        rw [hsent] at hsize
        exact hsize
    · rintro before' ⟨⟩
      exact h.shows before hbefore

theorem Inv.ok (h : s.Inv) (hmeets : s.Meets wanted) : s.Ok wanted := by
  intro updates' rects hnext
  cases wanted with
  | update incremental next =>
    obtain ⟨⟨updates, previous⟩, hfetched, hsend⟩ := Option.map_eq_some_iff.mp hnext
    obtain ⟨rfl, hrects⟩ := Prod.mk.inj hsend
    obtain rfl := Option.some.inj hrects
    obtain ⟨hholds, hshows, -⟩ := h.update hmeets hfetched
    exact ⟨hholds, hshows⟩
  | setPixelFormat raw =>
    obtain ⟨format, -, hsend⟩ := Option.map_eq_some_iff.mp hnext
    cases (Prod.mk.inj hsend).2
  | setEncodings encodings => cases (Prod.mk.inj (Option.some.inj hnext)).2

/-- **What every step preserves.** -/
theorem Inv.step (h : s.Inv) (hmeets : s.Meets wanted) (hstep : s.step wanted = some s') : s'.Inv := by
  obtain ⟨⟨updates', rects⟩, hnext, rfl⟩ := Option.map_eq_some_iff.mp hstep
  cases wanted with
  | update incremental next =>
    obtain ⟨⟨updates, previous⟩, hfetched, hsend⟩ := Option.map_eq_some_iff.mp hnext
    obtain ⟨rfl, rfl⟩ := Prod.mk.inj hsend
    obtain ⟨-, hshows, hsize⟩ := h.update hmeets hfetched
    exact ⟨hsize, nofun, fun before hbefore => Option.some.inj hbefore ▸ hshows⟩
  | setPixelFormat raw =>
    obtain ⟨format, -, hsend⟩ := Option.map_eq_some_iff.mp hnext
    obtain ⟨rfl, rfl⟩ := Prod.mk.inj hsend
    exact ⟨h.size, fun _ => rfl, nofun⟩
  | setEncodings encodings =>
    obtain ⟨rfl, rfl⟩ := Prod.mk.inj (Option.some.inj hnext)
    exact ⟨h.size, h.fresh, h.shows⟩

/-- **The viewer has the latest picture** behind every update, and every rectangle lies inside its
framebuffer, in a run whose steps meet the condition. -/
theorem latest_shown {first : Picture} {wanted : List Wanted} (h : Run.Guarded step Meets wanted (new first) s) :
    Run.Guarded step Ok wanted (new first) s :=
  h.imp (fun _ _ _ hs hmeets hstep => hs.step hmeets hstep) (fun _ _ hs hmeets => hs.ok hmeets) (inv_new first)

/-- A picture of one pixel. -/
def dot : Picture := ⟨1, 1, 4, [1, 2, 3, 0], by decide⟩

/-- Of two pixels, the second of a shade. -/
def wide (shade : UInt8) : Picture :=
  ⟨2, 1, 8, [1, 2, 3, 0, shade, shade, shade, 0], fun y hy => by
    obtain rfl := Nat.lt_one_iff.mp hy
    exact Nat.le_refl 8⟩

/-- A viewer that follows DesktopSize, whose window grows and then changes. -/
theorem latest_shown_wide : ∃ s, Run.Guarded step Ok
    [.setEncodings [DESKTOP_SIZE], .update false none, .update true (some (wide 5)), .update true (some (wide 6))]
    (new dot) s := by
  refine ⟨_, latest_shown ⟨trivial, _, rfl, ?_, _, rfl, ?_, _, rfl, ?_, _, rfl, rfl⟩⟩
  · intro updates previous hfetched
    obtain ⟨rfl, rfl⟩ := Prod.mk.inj (Option.some.inj hfetched)
    exact ⟨by decide, nofun⟩
  · intro updates previous hfetched
    obtain ⟨rfl, rfl⟩ := Prod.mk.inj (Option.some.inj hfetched)
    refine ⟨by decide, fun before hbefore _ hsize => ?_⟩
    obtain rfl := Option.some.inj hbefore
    exact absurd hsize (by decide)
  · intro updates previous hfetched
    obtain ⟨rfl, rfl⟩ := Prod.mk.inj (Option.some.inj hfetched)
    exact ⟨by decide, fun before _ _ _ row column hdiffers => ⟨hdiffers.1, hdiffers.2.1⟩⟩

/-- A viewer that does not follow is sent a rectangle outside its framebuffer. -/
theorem outside_sent : ¬ ∀ (first : Picture) (wanted : List Wanted) (s : Session),
    wanted.foldlM step (new first) = some s → Run.Guarded step Ok wanted (new first) s := by
  intro h
  obtain ⟨-, t, ht, -, t', ht', hok, -⟩ := h dot
    [.update false none, .update true (some (wide 5)), .update true (some (wide 6))] _ rfl
  obtain rfl := Option.some.inj ht
  obtain rfl := Option.some.inj ht'
  obtain ⟨⟨⟨hwide, -⟩, -⟩, -⟩ := hok _ _ rfl
  exact absurd hwide (by decide)

end Session

end Updating

end WindowCast.Vnc
