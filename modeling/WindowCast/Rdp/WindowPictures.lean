import WindowCast.Lib.Chunks
import WindowCast.Lib.Span
import WindowCast.Rdp.RemoteApps

/-!
# The picture of a window

A window of a Remote Desktop session is a rectangle of the desktop (`client.rs`).  Its
picture is cut out of the desktop's, and its input goes to the same part of it; both
keep the rectangle inside the desktop.

## Main definitions

* `RgbaPicture.cut` — the part of a picture under a rectangle.
* `Area.of`, `Area.cut` — the part of the desktop, and its picture.
* `RgbaPicture.Exact`, `Area.Exact` — what is selected is what the rectangle and the desktop share.

## Main results

* `Area.of_toRdp` — the part of the desktop is the one input is placed in.
* `cut_exact_iff` — **which rectangles are cut exactly**.
-/

namespace WindowCast.Rdp.Pictures

structure Rect where
  x : Int32
  y : Int32
  width : UInt32
  height : UInt32
  deriving DecidableEq

/-- A picture: RGBA, tightly packed. -/
structure RgbaPicture where
  width : UInt32
  height : UInt32
  data : List UInt8
  deriving DecidableEq

structure Area where
  x : UInt16
  y : UInt16
  width : UInt16
  height : UInt16
  deriving DecidableEq

/-- The desktop as it was decoded. -/
structure DecodedImage where
  width : UInt16
  height : UInt16
  data : List UInt8
  packed : data.length = width.toNat * height.toNat * 4

/-- A number kept within bounds, which must be in order. -/
def clamp (x low high : Int32) : Option Int32 :=
  if high < low then none else some (if x < low then low else if high < x then high else x)

def slice (data : List UInt8) (start n : ℕ) : Option (List UInt8) :=
  if start + n ≤ data.length then some ((data.drop start).take n) else none

/-- The rows of a part of `data`, whose own rows are `stride` bytes. -/
def rows (data : List UInt8) (stride x y width height : ℕ) : Option (List UInt8) :=
  ((List.range height).mapM fun line => slice data ((y + line) * stride + x * 4) (width * 4)).map List.flatten

namespace RgbaPicture

/-- One side of a rectangle, kept inside a picture. -/
def side (offset : Int32) (extent size : UInt32) : Option (UInt32 × UInt32) := do
  let start := (← clamp offset 0 (if size = 0 then 0 else size - 1).toInt32).toUInt32
  return (start, max (min extent (size - start)) 1)

/-- The part of this picture under `rect`, kept inside it. -/
def cut (self : RgbaPicture) (rect : Rect) : Option RgbaPicture := do
  let (x, width) ← side rect.x rect.width self.width
  let (y, height) ← side rect.y rect.height self.height
  let data ← rows self.data (self.width.toNat * 4) x.toNat y.toNat width.toNat height.toNat
  return ⟨width, height, data⟩

end RgbaPicture

namespace Area

/-- One side of a rectangle, kept inside the desktop. -/
def side (offset : Int32) (extent : UInt32) (size : UInt16) : Option (UInt16 × UInt16) := do
  let start := (← clamp offset 0 (size.toUInt32.toInt32 - 1)).toUInt32.toUInt16
  return (start, max (min extent (size - start).toUInt32).toUInt16 1)

/-- A remote window's rectangle, kept inside the desktop. -/
def of (rect : Rect) (desktop : Area) : Option Area := do
  let (x, width) ← side rect.x rect.width desktop.width
  let (y, height) ← side rect.y rect.height desktop.height
  return ⟨x, y, width, height⟩

/-- This part of the picture, as its own RGBA picture. -/
def cut (self : Area) (image : DecodedImage) : Option RgbaPicture := do
  let data ← rows image.data (image.width.toNat * 4) self.x.toNat self.y.toNat self.width.toNat self.height.toNat
  return ⟨self.width.toUInt32, self.height.toUInt32, data⟩

end Area

/-- The whole desktop. -/
def DecodedImage.desktop (self : DecodedImage) : Area := ⟨0, 0, self.width, self.height⟩

/-! ### What is selected -/

/-- The places of a box. -/
def box (x y width height : ℕ) : Set (ℕ × ℕ) := Set.Ico x (x + width) ×ˢ Set.Ico y (y + height)

/-- The places of a rectangle. -/
def Rect.covered (self : Rect) : Set (ℕ × ℕ) :=
  Span.covered self.x.toInt self.width.toNat ×ˢ Span.covered self.y.toInt self.height.toNat

/-- The places a rectangle and a desktop share. -/
def Rect.shared (self : Rect) (width height : ℕ) : Set (ℕ × ℕ) :=
  self.covered ∩ Set.Iio width ×ˢ Set.Iio height

namespace RgbaPicture

def Packed (self : RgbaPicture) : Prop := self.data.length = self.width.toNat * self.height.toNat * 4

def pixel (self : RgbaPicture) (x y : ℕ) : List UInt8 := (self.data.drop ((y * self.width.toNat + x) * 4)).take 4

/-- The pixels of a part are those of the picture in the places, row by row. -/
def Shows (part self : RgbaPicture) (places : Set (ℕ × ℕ)) : Prop :=
  ∃ x y, box x y part.width.toNat part.height.toNat = places ∧
    part.data = (List.range part.height.toNat).flatMap fun j =>
      (List.range part.width.toNat).flatMap fun i => self.pixel (x + i) (y + j)

/-- What is cut out is exactly what the rectangle and the picture share. -/
def Exact (self : RgbaPicture) (rect : Rect) : Prop :=
  ∃ part, self.cut rect = some part ∧ part.Shows self (rect.shared self.width.toNat self.height.toNat)

end RgbaPicture

namespace Area

def places (self : Area) : Set (ℕ × ℕ) := box self.x.toNat self.y.toNat self.width.toNat self.height.toNat

/-- What is selected is exactly what the rectangle and the desktop share. -/
def Exact (desktop : Area) (rect : Rect) : Prop :=
  ∃ area, of rect desktop = some area ∧ area.places = rect.shared desktop.width.toNat desktop.height.toNat

end Area

/-- Both sides fit. -/
def Rect.Fits (self : Rect) (width height : ℕ) : Prop :=
  Span.Fits self.x.toInt self.width.toNat width ∧ Span.Fits self.y.toInt self.height.toNat height

instance (self : Rect) (width height : ℕ) : Decidable (self.Fits width height) := inferInstanceAs (Decidable (_ ∧ _))

/-! ### Machine numbers -/

section

variable {offset : Int32} {extent size : UInt32}

theorem toInt_toInt32 {n : UInt32} (h : n.toNat < 2 ^ 31) : n.toInt32.toInt = n.toNat := by
  show n.toBitVec.toInt = _
  rw [BitVec.toInt_eq_toNat_cond, UInt32.toNat_toBitVec, if_pos (by omega)]

/-- From half of the numbers on, they are below zero. -/
theorem toInt_toInt32_of_le {n : UInt32} (h : 2 ^ 31 ≤ n.toNat) : n.toInt32.toInt = n.toNat - 2 ^ 32 := by
  show n.toBitVec.toInt = _
  rw [BitVec.toInt_eq_toNat_cond, UInt32.toNat_toBitVec, if_neg (by omega)]
  rfl

theorem toNat_toUInt32 {n : Int32} (h : 0 ≤ n.toInt) : (n.toUInt32.toNat : ℤ) = n.toInt := by
  rcases Nat.lt_or_ge n.toUInt32.toNat (2 ^ 31) with hlt | hle
  · rw [← toInt_toInt32 hlt, Int32.toInt32_toUInt32]
  · have hneg := toInt_toInt32_of_le hle
    have hbound := n.toUInt32.toNat_lt
    rw [Int32.toInt32_toUInt32] at hneg
    omega

theorem toNat_max32 (a b : UInt32) : (max a b).toNat = max a.toNat b.toNat := by
  show (if a ≤ b then b else a).toNat = _
  rw [apply_ite UInt32.toNat, Nat.max_def]
  exact if_congr UInt32.le_iff_toNat_le rfl rfl

theorem toNat_min32 (a b : UInt32) : (min a b).toNat = min a.toNat b.toNat := by
  show (if a ≤ b then a else b).toNat = _
  rw [apply_ite UInt32.toNat, Nat.min_def]
  exact if_congr UInt32.le_iff_toNat_le rfl rfl

theorem toNat_max16 (a b : UInt16) : (max a b).toNat = max a.toNat b.toNat := by
  show (if a ≤ b then b else a).toNat = _
  rw [apply_ite UInt16.toNat, Nat.max_def]
  exact if_congr UInt16.le_iff_toNat_le rfl rfl

theorem clamp_eq_none {low high : Int32} (h : high.toInt < low.toInt) : clamp offset low high = none :=
  if_pos (Int32.lt_iff_toInt_lt.mpr h)

theorem clamp_eq_some (offset : Int32) {low high : Int32} (h : low.toInt ≤ high.toInt) :
    ∃ x, clamp offset low high = some x ∧ x.toInt = max low.toInt (min offset.toInt high.toInt) := by
  refine ⟨_, if_neg (mt Int32.lt_iff_toInt_lt.mp (Int.not_lt.mpr h)), ?_⟩
  simp only [Int32.lt_iff_toInt_lt]
  split
  · omega
  · split <;> omega

/-- The side of a picture is the span kept inside. -/
theorem RgbaPicture.side_eq_some (offset : Int32) (extent : UInt32) (h : size.toNat ≤ 2 ^ 31) :
    ∃ x width, RgbaPicture.side offset extent size = some (x, width) ∧
      x.toNat = Span.start offset.toInt size.toNat ∧
      width.toNat = Span.length offset.toInt extent.toNat size.toNat := by
  have hlast : (if size = 0 then 0 else size - 1).toNat = size.toNat - 1 := by
    split
    · next hzero => rw [hzero]; rfl
    · next hzero =>
      have hpos : size.toNat ≠ 0 := fun h => hzero (UInt32.toNat_inj.mp h)
      exact UInt32.toNat_sub_of_le _ _ (UInt32.le_iff_toNat_le.mpr (Nat.one_le_iff_ne_zero.mpr hpos))
  have hhigh : (if size = 0 then 0 else size - 1).toInt32.toInt = (size.toNat - 1 : ℕ) := by
    rw [toInt_toInt32 (by omega), hlast]
  obtain ⟨x, hx, hint⟩ := clamp_eq_some offset
    (show (0 : Int32).toInt ≤ (if size = 0 then 0 else size - 1).toInt32.toInt by
      rw [hhigh]
      exact Int.natCast_nonneg _)
  rw [hhigh, show (0 : Int32).toInt = 0 from rfl] at hint
  have hnat := toNat_toUInt32 (n := x) (by omega)
  have hstart : x.toUInt32.toNat = Span.start offset.toInt size.toNat := by
    unfold Span.start
    omega
  refine ⟨x.toUInt32, max (min extent (size - x.toUInt32)) 1, ?_, hstart, ?_⟩
  · rw [RgbaPicture.side, hx]
    rfl
  · have hle : x.toUInt32.toNat ≤ size.toNat := by
      unfold Span.start at hstart
      omega
    rw [toNat_max32, toNat_min32, UInt32.toNat_sub_of_le _ _ (UInt32.le_iff_toNat_le.mpr hle), hstart]
    rfl

theorem RgbaPicture.side_eq_none (h : 2 ^ 31 < size.toNat) : RgbaPicture.side offset extent size = none := by
  have hne : size ≠ 0 := by
    rintro rfl
    exact absurd h (by decide)
  have hsub : (size - 1).toNat = size.toNat - 1 :=
    UInt32.toNat_sub_of_le _ _ (UInt32.le_iff_toNat_le.mpr (show 1 ≤ size.toNat by omega))
  have hhigh := toInt_toInt32_of_le (n := size - 1) (by omega)
  have hbound := size.toNat_lt
  have hclamp : clamp offset 0 (size - 1).toInt32 = none := by
    refine clamp_eq_none ?_
    rw [hhigh, show (0 : Int32).toInt = 0 from rfl]
    omega
  rw [RgbaPicture.side, if_neg hne, hclamp]
  rfl

theorem Area.side_eq_none : Area.side offset extent 0 = none := by
  rw [Area.side, clamp_eq_none (by decide)]
  rfl

/-- The side of the desktop is the span kept inside. -/
theorem Area.side_eq_some (offset : Int32) (extent : UInt32) {size : UInt16} (h : 0 < size.toNat) :
    ∃ x width, Area.side offset extent size = some (x, width) ∧
      x.toNat = Span.start offset.toInt size.toNat ∧
      width.toNat = Span.length offset.toInt extent.toNat size.toNat := by
  have hbound := size.toNat_lt
  have hsize : size.toUInt32.toInt32.toInt = size.toNat := by
    rw [toInt_toInt32 (by rw [UInt16.toNat_toUInt32]; omega), UInt16.toNat_toUInt32]
  have hhigh : (size.toUInt32.toInt32 - 1).toInt = size.toNat - 1 := by
    rw [Int32.toInt_sub_of_le _ _ (by decide) (Int32.le_iff_toInt_le.mpr (hsize ▸ Int.ofNat_le.mpr h)), hsize]
    rfl
  obtain ⟨x, hx, hint⟩ := clamp_eq_some offset
    (show (0 : Int32).toInt ≤ (size.toUInt32.toInt32 - 1).toInt by
      rw [hhigh, show (0 : Int32).toInt = 0 from rfl]
      omega)
  rw [hhigh, show (0 : Int32).toInt = 0 from rfl] at hint
  have hnat := toNat_toUInt32 (n := x) (by omega)
  have hstart : x.toUInt32.toUInt16.toNat = Span.start offset.toInt size.toNat := by
    rw [UInt32.toNat_toUInt16]
    unfold Span.start
    omega
  have hle : x.toUInt32.toUInt16.toNat ≤ size.toNat := by
    unfold Span.start at hstart
    omega
  refine ⟨x.toUInt32.toUInt16, max (min extent (size - x.toUInt32.toUInt16).toUInt32).toUInt16 1, ?_, hstart, ?_⟩
  · rw [Area.side, hx]
    rfl
  · rw [toNat_max16, UInt32.toNat_toUInt16, toNat_min32, UInt16.toNat_toUInt32,
      UInt16.toNat_sub_of_le _ _ (UInt16.le_iff_toNat_le.mpr hle), hstart, Nat.mod_eq_of_lt (by omega)]
    rfl

end

/-! ### Rows -/

section

variable {data : List UInt8} {x y width height w h : ℕ}

theorem mapM_eq_some {α β : Type} {f : α → Option β} {g : α → β} {l : List α} (hf : ∀ a ∈ l, f a = some (g a)) :
    l.mapM f = some (l.map g) := by
  induction l with
  | nil => rfl
  | cons a l ih =>
    rw [List.mapM_cons, hf a List.mem_cons_self, ih fun b hb => hf b (List.mem_cons_of_mem a hb)]
    rfl

/-- A row within the picture ends within its data. -/
theorem row_le {line : ℕ} (hx : x + width ≤ w) (hline : line < h) : line * (w * 4) + x * 4 + width * 4 ≤ w * h * 4 := by
  have hrows : (line + 1) * (w * 4) ≤ h * (w * 4) := Nat.mul_le_mul_right _ hline
  have hswap : h * (w * 4) = w * h * 4 := by ring
  rw [Nat.succ_mul] at hrows
  omega

theorem rows_eq_some (hdata : data.length = w * h * 4) (hx : x + width ≤ w) (hy : y + height ≤ h) :
    rows data (w * 4) x y width height =
      some ((List.range height).flatMap fun j => (data.drop ((y + j) * (w * 4) + x * 4)).take (width * 4)) := by
  rw [rows, mapM_eq_some (g := fun j => (data.drop ((y + j) * (w * 4) + x * 4)).take (width * 4)) ?_]
  · rfl
  · intro j hj
    rw [List.mem_range] at hj
    exact if_pos (hdata ▸ row_le hx (show y + j < h by omega))

theorem rows_nil (hwidth : 0 < width) (hheight : 0 < height) : rows [] w x y width height = none := by
  obtain ⟨n, rfl⟩ := Nat.exists_eq_succ_of_ne_zero hheight.ne'
  rw [rows, List.range_succ_eq_map, List.mapM_cons, slice, if_neg (by rw [List.length_nil]; omega)]
  rfl

/-- All rows of all of a picture are the picture. -/
theorem rows_all (hdata : data.length = w * h * 4) : rows data (w * 4) 0 0 w h = some data := by
  have hpieces : ((List.range h).map (Chunks.piece (w * 4) data)).flatten = data.take (h * (w * 4)) :=
    Chunks.flatten_pieces h
  rw [show h * (w * 4) = data.length by rw [hdata]; ring, List.take_length] at hpieces
  have hrow (j : ℕ) : (data.drop ((0 + j) * (w * 4) + 0 * 4)).take (w * 4) = Chunks.piece (w * 4) data j := by
    rw [Nat.zero_add, Nat.zero_mul, Nat.add_zero, Chunks.piece]
  rw [rows_eq_some hdata (Nat.zero_add w).le (Nat.zero_add h).le, List.flatMap_def,
    List.map_congr_left fun j _ => hrow j, hpieces]

/-- A row is its pixels. -/
theorem take_row (start n : ℕ) :
    (data.drop start).take (n * 4) = (List.range n).flatMap fun i => (data.drop (start + i * 4)).take 4 := by
  rw [← Chunks.flatten_pieces, List.flatMap_def]
  refine congrArg List.flatten (List.map_congr_left fun i _ => ?_)
  rw [Chunks.piece, List.drop_drop]

end

/-! ### Exactly what is shared -/

section

variable {rect : Rect} {w h x y : ℕ}

theorem shared_eq : rect.shared w h =
    (Span.covered rect.x.toInt rect.width.toNat ∩ Set.Iio w) ×ˢ
      (Span.covered rect.y.toInt rect.height.toNat ∩ Set.Iio h) := Set.prod_inter_prod

/-- The box that is selected is what is shared only if both sides fit. -/
theorem fits_of_box_eq (hw : 0 < w) (hh : 0 < h)
    (hbox : box x y (Span.length rect.x.toInt rect.width.toNat w) (Span.length rect.y.toInt rect.height.toNat h) =
      rect.shared w h) : rect.Fits w h := by
  rw [box, shared_eq, Set.prod_eq_prod_iff_of_nonempty] at hbox
  · exact ⟨Span.fits_of_ico_eq hw hbox.1, Span.fits_of_ico_eq hh hbox.2⟩
  · exact ⟨(x, y), ⟨⟨Nat.le_refl x, Nat.lt_add_of_pos_right (Span.length_pos _ _ _)⟩,
      ⟨Nat.le_refl y, Nat.lt_add_of_pos_right (Span.length_pos _ _ _)⟩⟩⟩

theorem box_eq_of_fits (hfits : rect.Fits w h) :
    box (Span.start rect.x.toInt w) (Span.start rect.y.toInt h) (Span.length rect.x.toInt rect.width.toNat w)
      (Span.length rect.y.toInt rect.height.toNat h) = rect.shared w h := by
  rw [box, shared_eq, Span.ico_eq_of_fits hfits.1, Span.ico_eq_of_fits hfits.2]

end

namespace RgbaPicture

variable {self part : RgbaPicture} {rect : Rect}

/-- What is cut out, if the picture is not empty and its numbers are not beyond those with a sign. -/
theorem cut_eq_some (rect : Rect) (hpacked : self.Packed) (hw : 0 < self.width.toNat ∧ self.width.toNat ≤ 2 ^ 31)
    (hh : 0 < self.height.toNat ∧ self.height.toNat ≤ 2 ^ 31) :
    ∃ part, self.cut rect = some part ∧
      part.width.toNat = Span.length rect.x.toInt rect.width.toNat self.width.toNat ∧
      part.height.toNat = Span.length rect.y.toInt rect.height.toNat self.height.toNat ∧
      rows self.data (self.width.toNat * 4) (Span.start rect.x.toInt self.width.toNat)
        (Span.start rect.y.toInt self.height.toNat) part.width.toNat part.height.toNat = some part.data := by
  obtain ⟨x, width, hside, hx, hwidth⟩ := side_eq_some rect.x rect.width hw.2
  obtain ⟨y, height, hside', hy, hheight⟩ := side_eq_some rect.y rect.height hh.2
  have hin : x.toNat + width.toNat ≤ self.width.toNat := by
    rw [hx, hwidth]
    exact Span.start_add_length_le hw.1
  have hin' : y.toNat + height.toNat ≤ self.height.toNat := by
    rw [hy, hheight]
    exact Span.start_add_length_le hh.1
  have hcut := rows_eq_some hpacked hin hin'
  refine ⟨⟨width, height, _⟩, ?_, hwidth, hheight, by rw [← hx, ← hy, hcut]⟩
  rw [cut, hside, hside']
  simp only [Option.bind_eq_bind, Option.bind_some, hcut]
  rfl

theorem side_length_pos {offset : Int32} {extent size x width : UInt32}
    (h : side offset extent size = some (x, width)) : 0 < width.toNat := by
  obtain ⟨start, -, heq⟩ := Option.bind_eq_some_iff.mp h
  obtain ⟨-, rfl⟩ := Prod.mk.inj (Option.some.inj heq)
  rw [toNat_max32]
  exact Nat.lt_of_lt_of_le Nat.one_pos (Nat.le_max_right _ _)

/-- Nothing is cut out of any other picture. -/
theorem cut_eq_none (hpacked : self.Packed) (h : ¬ ((0 < self.width.toNat ∧ self.width.toNat ≤ 2 ^ 31) ∧
    0 < self.height.toNat ∧ self.height.toNat ≤ 2 ^ 31)) : self.cut rect = none := by
  rw [cut]
  cases hside : side rect.x rect.width self.width with
  | none => rfl
  | some across =>
    cases hside' : side rect.y rect.height self.height with
    | none => rfl
    | some down =>
      have hw : self.width.toNat ≤ 2 ^ 31 := by
        by_contra hlt
        rw [side_eq_none (Nat.lt_of_not_le hlt)] at hside
        exact nomatch hside
      have hh : self.height.toNat ≤ 2 ^ 31 := by
        by_contra hlt
        rw [side_eq_none (Nat.lt_of_not_le hlt)] at hside'
        exact nomatch hside'
      -- an empty picture has no row to take
      have hnil : self.data = [] := by
        rw [Packed] at hpacked
        refine List.eq_nil_of_length_eq_zero ?_
        rw [hpacked]
        rcases (by omega : self.width.toNat = 0 ∨ self.height.toNat = 0) with hzero | hzero <;> simp [hzero]
      simp only [Option.bind_eq_bind, Option.bind_some, hnil]
      rw [rows_nil (side_length_pos hside) (side_length_pos hside')]
      rfl

/-- Which rectangles are cut out exactly. -/
theorem exact_iff_fits (hpacked : self.Packed) :
    self.Exact rect ↔ self.width.toNat ≤ 2 ^ 31 ∧ self.height.toNat ≤ 2 ^ 31 ∧
      rect.Fits self.width.toNat self.height.toNat := by
  constructor
  · rintro ⟨part, hcut, x, y, hbox, -⟩
    by_cases hsize : (0 < self.width.toNat ∧ self.width.toNat ≤ 2 ^ 31) ∧
        0 < self.height.toNat ∧ self.height.toNat ≤ 2 ^ 31
    · obtain ⟨part', hcut', hwidth, hheight, -⟩ := cut_eq_some rect hpacked hsize.1 hsize.2
      obtain rfl := Option.some.inj (hcut.symm.trans hcut')
      rw [hwidth, hheight] at hbox
      exact ⟨hsize.1.2, hsize.2.2, fits_of_box_eq hsize.1.1 hsize.2.1 hbox⟩
    · rw [cut_eq_none hpacked hsize] at hcut
      exact nomatch hcut
  · rintro ⟨hw, hh, hfits⟩
    obtain ⟨part, hcut, hwidth, hheight, hrows⟩ := cut_eq_some rect hpacked ⟨hfits.1.1, hw⟩ ⟨hfits.2.1, hh⟩
    refine ⟨part, hcut, _, _, by rw [hwidth, hheight, box_eq_of_fits hfits], ?_⟩
    rw [rows_eq_some hpacked (hwidth ▸ Span.start_add_length_le hfits.1.1)
      (hheight ▸ Span.start_add_length_le hfits.2.1)] at hrows
    rw [← Option.some.inj hrows]
    refine congrArg (List.flatMap · _) (funext fun j => ?_)
    rw [take_row]
    refine congrArg (List.flatMap · _) (funext fun i => ?_)
    rw [pixel]
    congr 2
    ring

end RgbaPicture

namespace Area

variable {rect : Rect} {desktop : Area}

theorem of_eq_some (rect : Rect) (hw : 0 < desktop.width.toNat) (hh : 0 < desktop.height.toNat) :
    ∃ area, of rect desktop = some area ∧
      area.x.toNat = Span.start rect.x.toInt desktop.width.toNat ∧
      area.y.toNat = Span.start rect.y.toInt desktop.height.toNat ∧
      area.width.toNat = Span.length rect.x.toInt rect.width.toNat desktop.width.toNat ∧
      area.height.toNat = Span.length rect.y.toInt rect.height.toNat desktop.height.toNat := by
  obtain ⟨x, width, hside, hx, hwidth⟩ := side_eq_some rect.x rect.width hw
  obtain ⟨y, height, hside', hy, hheight⟩ := side_eq_some rect.y rect.height hh
  refine ⟨⟨x, y, width, height⟩, ?_, hx, hy, hwidth, hheight⟩
  rw [of, hside, hside']
  rfl

/-- There is no part of an empty desktop. -/
theorem of_eq_none (h : ¬ (0 < desktop.width.toNat ∧ 0 < desktop.height.toNat)) : of rect desktop = none := by
  rw [of]
  by_cases hw : desktop.width = 0
  · rw [hw, side_eq_none]
    rfl
  · have hh : desktop.height = 0 := by
      have := mt UInt16.toNat_inj.mp hw
      refine UInt16.toNat_inj.mp ?_
      show desktop.height.toNat = 0
      rw [UInt16.toNat_zero] at this
      omega
    rw [hh, side_eq_none]
    cases side rect.x rect.width desktop.width with
    | none => rfl
    | some across => rfl

/-- Which rectangles are selected exactly. -/
theorem exact_iff_fits : desktop.Exact rect ↔ rect.Fits desktop.width.toNat desktop.height.toNat := by
  constructor
  · rintro ⟨area, hof, hplaces⟩
    by_cases hsize : 0 < desktop.width.toNat ∧ 0 < desktop.height.toNat
    · obtain ⟨area', hof', -, -, hwidth, hheight⟩ := of_eq_some rect hsize.1 hsize.2
      obtain rfl := Option.some.inj (hof.symm.trans hof')
      rw [places, hwidth, hheight] at hplaces
      exact fits_of_box_eq hsize.1 hsize.2 hplaces
    · rw [of_eq_none hsize] at hof
      exact nomatch hof
  · intro hfits
    obtain ⟨area, hof, hx, hy, hwidth, hheight⟩ := of_eq_some rect hfits.1.1 hfits.2.1
    exact ⟨area, hof, by rw [places, hx, hy, hwidth, hheight, box_eq_of_fits hfits]⟩

/-- The numbers of a part, without their sizes. -/
def toRdp (self : Area) : Rdp.Area := ⟨self.x.toNat, self.y.toNat, self.width.toNat, self.height.toNat⟩

end Area

def Rect.toRdp (self : Rect) : Rdp.Rect := ⟨self.x.toInt, self.y.toInt, self.width.toNat, self.height.toNat⟩

/-- The part of a desktop is the one that input is placed in. -/
theorem Area.of_toRdp (rect : Rect) {desktop : Area} (hw : 0 < desktop.width.toNat) (hh : 0 < desktop.height.toNat) :
    (of rect desktop).map toRdp = some (Rdp.Area.of rect.toRdp desktop.toRdp) := by
  obtain ⟨area, hof, hx, hy, hwidth, hheight⟩ := of_eq_some rect hw hh
  rw [hof, Option.map_some, toRdp, hx, hy, hwidth, hheight]
  rfl

namespace DecodedImage

variable (self : DecodedImage) (rect : Rect)

/-- The picture of the whole desktop. -/
def picture : RgbaPicture := ⟨self.width.toUInt32, self.height.toUInt32, self.data⟩

theorem cut_desktop : self.desktop.cut self = some self.picture := by
  have hrows : rows self.data (self.width.toNat * 4) (0 : UInt16).toNat (0 : UInt16).toNat self.width.toNat
      self.height.toNat = some self.data := rows_all self.packed
  rw [Area.cut, desktop, hrows]
  rfl

theorem packed_picture : self.picture.Packed := by
  show self.data.length = self.width.toUInt32.toNat * self.height.toUInt32.toNat * 4
  rw [UInt16.toNat_toUInt32, UInt16.toNat_toUInt32, self.packed]

/-- A rectangle cut out of the whole picture is the picture of its part of the desktop. -/
theorem cut_picture : (self.desktop.cut self).bind (·.cut rect) = (Area.of rect self.desktop).bind (·.cut self) := by
  rw [cut_desktop, Option.bind_some]
  have hwidth : self.picture.width.toNat = self.width.toNat := UInt16.toNat_toUInt32 _
  have hheight : self.picture.height.toNat = self.height.toNat := UInt16.toNat_toUInt32 _
  have hwidth_lt := self.width.toNat_lt
  have hheight_lt := self.height.toNat_lt
  by_cases hsize : 0 < self.width.toNat ∧ 0 < self.height.toNat
  · obtain ⟨part, hcut, hw, hh, hrows⟩ := RgbaPicture.cut_eq_some rect self.packed_picture
      ⟨hwidth ▸ hsize.1, by omega⟩ ⟨hheight ▸ hsize.2, by omega⟩
    obtain ⟨area, hof, hx, hy, hw', hh'⟩ := Area.of_eq_some rect
      (show 0 < self.desktop.width.toNat from hsize.1) (show 0 < self.desktop.height.toNat from hsize.2)
    rw [hwidth] at hw hrows
    rw [hheight] at hh hrows
    have hrows' : rows self.data (self.width.toNat * 4) area.x.toNat area.y.toNat area.width.toNat
        area.height.toNat = some part.data := by
      rw [hx, hy, hw', hh', ← hrows, hw, hh]
      rfl
    have hwide : area.width.toUInt32 = part.width :=
      UInt32.toNat_inj.mp (by rw [UInt16.toNat_toUInt32, hw', hw]; rfl)
    have hhigh : area.height.toUInt32 = part.height :=
      UInt32.toNat_inj.mp (by rw [UInt16.toNat_toUInt32, hh', hh]; rfl)
    rw [hcut, hof, Option.bind_some, Area.cut, hrows', hwide, hhigh]
    rfl
  · rw [Area.of_eq_none hsize, Option.bind_none]
    refine RgbaPicture.cut_eq_none self.packed_picture fun h => hsize ?_
    rw [hwidth, hheight] at h
    exact ⟨h.1.1, h.2.1⟩

end DecodedImage

/-- A picture with as much data as its size says. -/
structure PackedPicture extends RgbaPicture where
  packed : toRgbaPicture.Packed

/-- The two always select the same part, and it is exactly what the rectangle and the desktop share
if, on both sides, the rectangle begins in the desktop and is not empty, or begins before it and
reaches its end. -/
theorem cut_exact_iff (rect : Rect) :
    (∀ picture : PackedPicture, picture.Exact rect ↔
      picture.width.toNat ≤ 2 ^ 31 ∧ picture.height.toNat ≤ 2 ^ 31 ∧
        rect.Fits picture.width.toNat picture.height.toNat) ∧
      (∀ desktop : Area, desktop.Exact rect ↔ rect.Fits desktop.width.toNat desktop.height.toNat) ∧
      ∀ image : DecodedImage,
        (image.desktop.cut image).bind (·.cut rect) = (Area.of rect image.desktop).bind (·.cut image) :=
  ⟨fun picture => RgbaPicture.exact_iff_fits picture.packed, fun _ => Area.exact_iff_fits,
    fun image => image.cut_picture rect⟩

/-- A desktop of two pixels, of which a window that begins before it covers the first. -/
def twoPixels : DecodedImage := ⟨2, 1, [1, 1, 1, 255, 2, 2, 2, 255], rfl⟩

def beginsBefore : Rect := ⟨-1, 0, 2, 1⟩

/-- Both pixels are cut out. -/
theorem pixel_of_another : ¬ ∀ (image : DecodedImage) (rect : Rect), image.picture.Exact rect := by
  intro h
  have hfits := (RgbaPicture.exact_iff_fits twoPixels.packed_picture).mp (h twoPixels beginsBefore)
  exact absurd hfits.2.2 (by decide)

end WindowCast.Rdp.Pictures
