import WindowCast.Lib.BitField
import WindowCast.Vnc.Updates

/-!
# Pixels in the viewer's format

A viewer chooses the format of its pixels: how many bits they are, in which order their
bytes come, and for each colour how far it goes and where it stands.  A format is taken
if it is true colour of 8, 16 or 32 bits, wherever its colours stand.

## Main definitions

* `PixelFormat.channelMax`, `PixelFormat.channelShift` — the colours' maxima and shifts.
* `PixelFormat.scaled` — a pixel's colours, each on the scale of its maximum.
* `PixelFormat.Exact` — the pixel is written with each colour in its field.
* `PixelFormat.Fits` — the fields lie inside the pixel and do not meet.

## Main results

* `PixelFormat.packs_put` — what is written, as long as no shift is out of range.
* `PixelFormat.exact_iff` — **which of the formats taken every pixel is written exactly in**.
-/

namespace WindowCast.Vnc.Updating

namespace PixelFormat

/-- Red, green and blue as far as they go. -/
def channelMax (self : PixelFormat) : Fin 3 → ℕ := ![self.max.1.toNat, self.max.2.1.toNat, self.max.2.2.toNat]

def channelShift (self : PixelFormat) : Fin 3 → ℕ := ![self.shift.1.toNat, self.shift.2.1.toNat, self.shift.2.2.toNat]

/-- A BGRA pixel's red, green and blue. -/
def channels (bgra : List UInt8) : Fin 3 → ℕ := ![(bgra.getD 2 0).toNat, (bgra.getD 1 0).toNat, (bgra.getD 0 0).toNat]

/-- Its colours on the format's scales. -/
def scaled (self : PixelFormat) (bgra : List UInt8) (i : Fin 3) : ℕ := channels bgra i * self.channelMax i / 255

/-- The word that bytes are in the format's order. -/
def word (self : PixelFormat) (bytes : List UInt8) : ℕ :=
  if self.bigEndian then BigEndian.ofBytes bytes else LittleEndian.ofBytes bytes

/-- Nothing overflows and no shift is out of range, and the pixel is as wide as the format
asks for, with each colour in its field. -/
structure Exact (format : PixelFormat) (bgra : List UInt8) : Prop where
  bounded : ∀ i, channels bgra i * format.channelMax i < 2 ^ 32
  inRange : ∀ i, format.channelShift i < 32
  width : 8 * (format.put bgra).length = format.bits.toNat
  fields : ∀ i, BitField.read (format.word (format.put bgra)) (format.channelShift i) (format.channelMax i).size =
    format.scaled bgra i

/-- No shift is out of range, and the colours' fields lie inside the pixel and do not meet. -/
def Fits (self : PixelFormat) : Prop :=
  (∀ i, self.channelShift i < 32) ∧
    BitField.Fit self.bits.toNat self.channelShift fun i => (self.channelMax i).size

instance (self : PixelFormat) : Decidable self.Fits := inferInstanceAs (Decidable (_ ∧ _))

section

variable {self : PixelFormat} {bgra : List UInt8}

theorem bits_of_parse {raw : Vector UInt8 16} (h : parse raw = some self) :
    self.bits = 8 ∨ self.bits = 16 ∨ self.bits = 32 := by
  unfold parse at h
  dsimp only at h
  split at h
  · cases h
  · rename_i hraw
    cases h
    exact not_not.mp (not_or.mp hraw).2

theorem scale_lt (value : UInt8) (max : UInt16) : value.toNat * max.toNat < 2 ^ 32 := by
  have hvalue : value.toNat ≤ 255 := Nat.le_of_lt_succ value.toNat_lt
  have hmax : max.toNat ≤ 65535 := Nat.le_of_lt_succ max.toNat_lt
  calc value.toNat * max.toNat ≤ 255 * 65535 := Nat.mul_le_mul hvalue hmax
    _ < 2 ^ 32 := by decide

theorem toNat_scale (value : UInt8) (max : UInt16) :
    (value.toUInt32 * max.toUInt32 / 255).toNat = value.toNat * max.toNat / 255 := by
  rw [UInt32.toNat_div, UInt32.toNat_mul, UInt8.toNat_toUInt32, UInt16.toNat_toUInt32,
    Nat.mod_eq_of_lt (scale_lt value max)]
  rfl

/-- A colour on its scale goes no further than the scale. -/
theorem scaled_lt (i : Fin 3) : self.scaled bgra i < 2 ^ (self.channelMax i).size := by
  have hvalue : channels bgra i ≤ 255 := by
    match i with
    | 0 => exact Nat.le_of_lt_succ (bgra.getD 2 0).toNat_lt
    | 1 => exact Nat.le_of_lt_succ (bgra.getD 1 0).toNat_lt
    | 2 => exact Nat.le_of_lt_succ (bgra.getD 0 0).toNat_lt
  have hle : self.scaled bgra i ≤ self.channelMax i := by
    rw [scaled, Nat.div_le_iff_le_mul_add_pred (by decide)]
    have hmul : channels bgra i * self.channelMax i ≤ 255 * self.channelMax i := Nat.mul_le_mul_right _ hvalue
    omega
  exact Nat.lt_of_le_of_lt hle (Nat.lt_size_self _)

/-- The word of a pixel, before it is cut. -/
def packed (self : PixelFormat) (bgra : List UInt8) : UInt32 :=
  ((bgra.getD 2 0).toUInt32 * self.max.1.toUInt32 / 255) <<< self.shift.1.toUInt32
    ||| ((bgra.getD 1 0).toUInt32 * self.max.2.1.toUInt32 / 255) <<< self.shift.2.1.toUInt32
    ||| ((bgra.getD 0 0).toUInt32 * self.max.2.2.toUInt32 / 255) <<< self.shift.2.2.toUInt32

/-- A bit of a number that is shifted by less than its width. -/
theorem testBit_shifted (a : UInt32) {shift : UInt8} (h : shift.toNat < 32) (k : ℕ) :
    (a <<< shift.toUInt32).toNat.testBit k = true ↔
      k < 32 ∧ shift.toNat ≤ k ∧ a.toNat.testBit (k - shift.toNat) = true := by
  rw [UInt32.toNat_shiftLeft, UInt8.toNat_toUInt32, Nat.mod_eq_of_lt h, Nat.testBit_mod_two_pow, Nat.testBit_shiftLeft,
    Bool.and_eq_true, Bool.and_eq_true, decide_eq_true_iff, decide_eq_true_iff]

/-- The word holds each colour at its shift. -/
theorem packs_packed (hshift : ∀ i, self.channelShift i < 32) :
    BitField.Packs (self.packed bgra).toNat 32 (self.scaled bgra) self.channelShift := by
  intro k
  have hred : self.shift.1.toNat < 32 := hshift 0
  have hgreen : self.shift.2.1.toNat < 32 := hshift 1
  have hblue : self.shift.2.2.toNat < 32 := hshift 2
  rw [packed, UInt32.toNat_or, UInt32.toNat_or, Nat.testBit_or, Nat.testBit_or, Bool.or_eq_true, Bool.or_eq_true,
    testBit_shifted _ hred, testBit_shifted _ hgreen, testBit_shifted _ hblue, toNat_scale, toNat_scale, toNat_scale,
    ← and_or_left, ← and_or_left, Fin.exists_fin_succ, Fin.exists_fin_two]
  exact and_congr_right fun _ => or_assoc

/-- **What is written**: as many bytes as the format asks for, and the word they are is the
packed one, cut. -/
theorem word_put (hbits : self.bits = 8 ∨ self.bits = 16 ∨ self.bits = 32) (hne : self ≠ SERVER) :
    8 * (self.put bgra).length = self.bits.toNat ∧
      self.word (self.put bgra) = (self.packed bgra).toNat % 2 ^ self.bits.toNat := by
  have hput : self.put bgra =
      if self.bits = 32 then
        if self.bigEndian then BigEndian.toBytes 4 (self.packed bgra).toNat
        else LittleEndian.toBytes 4 (self.packed bgra).toNat
      else if self.bits = 16 then
        if self.bigEndian then BigEndian.toBytes 2 (self.packed bgra).toNat
        else LittleEndian.toBytes 2 (self.packed bgra).toNat
      else [(self.packed bgra).toUInt8] := by
    rw [put, if_neg hne]
    rfl
  rw [hput, word]
  rcases hbits with h | h | h
  · rw [h, if_neg (by decide), if_neg (by decide)]
    have hone : BigEndian.ofBytes [(self.packed bgra).toUInt8] = (self.packed bgra).toNat % 2 ^ 8 := by
      rw [← UInt32.toNat_toUInt8]
      exact Nat.zero_add _
    refine ⟨rfl, ?_⟩
    split
    · exact hone
    · exact hone
  · rw [h, if_neg (by decide), if_pos rfl]
    by_cases hbig : self.bigEndian = true
    · rw [if_pos hbig, if_pos hbig, BigEndian.length_toBytes, BigEndian.ofBytes_toBytes]
      exact ⟨rfl, rfl⟩
    · rw [if_neg hbig, if_neg hbig, LittleEndian.length_toBytes, LittleEndian.ofBytes_toBytes]
      exact ⟨rfl, rfl⟩
  · rw [h, if_pos rfl]
    by_cases hbig : self.bigEndian = true
    · rw [if_pos hbig, if_pos hbig, BigEndian.length_toBytes, BigEndian.ofBytes_toBytes]
      exact ⟨rfl, rfl⟩
    · rw [if_neg hbig, if_neg hbig, LittleEndian.length_toBytes, LittleEndian.ofBytes_toBytes]
      exact ⟨rfl, rfl⟩

/-- The word that is written holds each colour at its shift, as far as it goes. -/
theorem packs_put (hbits : self.bits = 8 ∨ self.bits = 16 ∨ self.bits = 32) (hne : self ≠ SERVER)
    (hshift : ∀ i, self.channelShift i < 32) :
    BitField.Packs (self.word (self.put bgra)) self.bits.toNat (self.scaled bgra) self.channelShift := by
  intro k
  have hle : self.bits.toNat ≤ 32 := by
    rcases hbits with h | h | h <;> rw [h] <;> decide
  rw [(word_put hbits hne).2, Nat.testBit_mod_two_pow, Bool.and_eq_true, decide_eq_true_iff, packs_packed hshift]
  exact ⟨fun h => ⟨h.1, h.2.2⟩, fun h => ⟨h.1, by omega, h.2⟩⟩

/-- A pixel of one colour alone, as bright as it gets. -/
theorem exists_alone (i : Fin 3) : ∃ bgra : List UInt8, ∃ b g r a, bgra = [b, g, r, a] ∧
    self.scaled bgra = (Function.update 0 i (self.channelMax i) : Fin 3 → ℕ) := by
  have hfull (m : ℕ) : 255 * m / 255 = m := Nat.mul_div_cancel_left m (by decide)
  have hnone (m : ℕ) : 0 * m / 255 = 0 := by rw [Nat.zero_mul, Nat.zero_div]
  match i with
  | 0 =>
    refine ⟨_, 0, 0, 255, 0, rfl, funext fun j => ?_⟩
    match j with
    | 0 => exact hfull _
    | 1 => exact hnone _
    | 2 => exact hnone _
  | 1 =>
    refine ⟨_, 0, 255, 0, 0, rfl, funext fun j => ?_⟩
    match j with
    | 0 => exact hnone _
    | 1 => exact hfull _
    | 2 => exact hnone _
  | 2 =>
    refine ⟨_, 255, 0, 0, 0, rfl, funext fun j => ?_⟩
    match j with
    | 0 => exact hnone _
    | 1 => exact hnone _
    | 2 => exact hfull _

/-- A host's own format is exact, and fits. -/
theorem exact_server : SERVER.Exact bgra where
  bounded i := by
    match i with
    | 0 => exact scale_lt _ _
    | 1 => exact scale_lt _ _
    | 2 => exact scale_lt _ _
  inRange := by decide
  width := rfl
  fields i := by
    have hblue : (bgra.getD 0 0).toNat < 256 := (bgra.getD 0 0).toNat_lt
    have hgreen : (bgra.getD 1 0).toNat < 256 := (bgra.getD 1 0).toNat_lt
    have hred : (bgra.getD 2 0).toNat < 256 := (bgra.getD 2 0).toNat_lt
    have hword : SERVER.word (SERVER.put bgra) =
        ((0 * 256 + (bgra.getD 2 0).toNat) * 256 + (bgra.getD 1 0).toNat) * 256 + (bgra.getD 0 0).toNat := by
      rw [put, if_pos rfl]
      rfl
    have hsize : Nat.size 255 = 8 := by decide
    rw [hword, BitField.read, Nat.shiftRight_eq_div_pow]
    match i with
    | 0 =>
      show _ / 2 ^ 16 % 2 ^ Nat.size 255 = (bgra.getD 2 0).toNat * 255 / 255
      rw [hsize]
      omega
    | 1 =>
      show _ / 2 ^ 8 % 2 ^ Nat.size 255 = (bgra.getD 1 0).toNat * 255 / 255
      rw [hsize]
      omega
    | 2 =>
      show _ / 2 ^ 0 % 2 ^ Nat.size 255 = (bgra.getD 0 0).toNat * 255 / 255
      rw [hsize]
      omega

/-- **Which of the formats taken every pixel is written exactly in.** -/
theorem exact_iff {raw : Vector UInt8 16} (h : parse raw = some self) :
    (∀ b g r a, self.Exact [b, g, r, a]) ↔ self.Fits := by
  have hbits := bits_of_parse h
  by_cases hserver : self = SERVER
  · subst hserver
    exact iff_of_true (fun b g r a => exact_server) (by decide)
  constructor
  · intro hexact
    have hshift := (hexact 0 0 0 0).inRange
    refine ⟨hshift, BitField.fit_of_read fun i => ?_⟩
    -- a pixel of one colour alone, as bright as it gets
    obtain ⟨bgra, b, g, r, a, rfl, hbgra⟩ : ∃ bgra : List UInt8, ∃ b g r a, bgra = [b, g, r, a] ∧
        self.scaled bgra = (Function.update 0 i (self.channelMax i) : Fin 3 → ℕ) := exists_alone i
    exact ⟨_, hbgra ▸ packs_put hbits hserver hshift, fun j => hbgra ▸ (hexact b g r a).fields j⟩
  · intro hfits b g r a
    exact {
      bounded := fun i => by
        match i with
        | 0 => exact scale_lt _ _
        | 1 => exact scale_lt _ _
        | 2 => exact scale_lt _ _
      inRange := hfits.1
      width := (word_put hbits hserver).1
      fields := (packs_put hbits hserver hfits.1).read_eq hfits.2 scaled_lt }

end

theorem exact_iff_highColour :
    (∀ b g r a, (PixelFormat.mk 16 false (31, 63, 31) (11, 5, 0)).Exact [b, g, r, a]) ↔
      (PixelFormat.mk 16 false (31, 63, 31) (11, 5, 0)).Fits :=
  @exact_iff _ #v[16, 16, 0, 1, 0, 31, 0, 63, 0, 31, 11, 5, 0, 0, 0, 0] (by decide)

/-- A format is taken whose red is shifted by 40 bits. -/
theorem shift_out_of_range : ∃ format, parse #v[32, 24, 0, 1, 0, 255, 0, 255, 0, 255, 40, 8, 0, 0, 0, 0] = some format ∧
    ¬ format.Exact [0, 0, 255, 0] :=
  ⟨⟨32, false, (255, 255, 255), (40, 8, 0)⟩, by decide, fun h => absurd (h.inRange 0) (by decide)⟩

end PixelFormat
end WindowCast.Vnc.Updating
