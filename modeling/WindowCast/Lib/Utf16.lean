import WindowCast.Lib.Text

/-!
# Text in units of 16 bits

UTF-16, as it is written, and as it is read where what is no text stands for a
replacement character.

## Main definitions

* `Utf16.encode`, `Utf16.decode` — the units of a text, and the text of units.

## Main results

* `Utf16.decode_encode` — **what is written is read back**.
* `Utf16.zero_not_mem_encode`, `Utf16.nul_not_mem_decode` — the unit zero is the character NUL.
* `Utf16.utf8Size_head_decode` — which units begin with a character of one byte in UTF-8.
-/

namespace Utf16

/-- The replacement character. -/
def REPLACEMENT : Char := '\uFFFD'

def encodeChar (c : Char) : List UInt16 :=
  if c.toNat < 0x10000 then [UInt16.ofNat c.toNat]
  else [UInt16.ofNat (0xd800 + (c.toNat - 0x10000) / 0x400), UInt16.ofNat (0xdc00 + (c.toNat - 0x10000) % 0x400)]

def encode (text : Text) : List UInt16 := text.flatMap encodeChar

/-- The text of units; a surrogate without its other half stands for a replacement character. -/
def decode : List UInt16 → Text
  | [] => []
  | unit :: rest =>
    if unit.toNat < 0xd800 ∨ 0xdfff < unit.toNat then Char.ofNat unit.toNat :: decode rest
    else
      match rest with
      | low :: rest' =>
        if unit.toNat < 0xdc00 ∧ 0xdc00 ≤ low.toNat ∧ low.toNat ≤ 0xdfff then
          Char.ofNat (0x10000 + (unit.toNat - 0xd800) * 0x400 + (low.toNat - 0xdc00)) :: decode rest'
        else REPLACEMENT :: decode (low :: rest')
      | [] => [REPLACEMENT]

section

variable {unit low : UInt16} {rest : List UInt16}

/-- A unit that is no surrogate is a character of its own. -/
theorem decode_plain (h : unit.toNat < 0xd800 ∨ 0xdfff < unit.toNat) :
    decode (unit :: rest) = Char.ofNat unit.toNat :: decode rest := by
  rw [decode.eq_def]
  exact if_pos h

/-- Two halves are one character. -/
theorem decode_pair (hhigh : 0xd800 ≤ unit.toNat ∧ unit.toNat < 0xdc00) (hlow : 0xdc00 ≤ low.toNat ∧ low.toNat ≤ 0xdfff) :
    decode (unit :: low :: rest) =
      Char.ofNat (0x10000 + (unit.toNat - 0xd800) * 0x400 + (low.toNat - 0xdc00)) :: decode rest := by
  have hsurrogate : ¬ (unit.toNat < 0xd800 ∨ 0xdfff < unit.toNat) := by omega
  rw [decode.eq_def]
  dsimp only
  rw [if_neg hsurrogate, if_pos ⟨hhigh.2, hlow⟩]

/-- Any other surrogate is none. -/
theorem decode_surrogate (h : ¬ (unit.toNat < 0xd800 ∨ 0xdfff < unit.toNat))
    (hlone : ∀ low rest', rest = low :: rest' → ¬ (unit.toNat < 0xdc00 ∧ 0xdc00 ≤ low.toNat ∧ low.toNat ≤ 0xdfff)) :
    decode (unit :: rest) = REPLACEMENT :: decode rest := by
  rw [decode.eq_def]
  dsimp only
  rw [if_neg h]
  cases rest with
  | nil => rfl
  | cons low rest => exact if_neg (hlone low rest rfl)

theorem toNat_ofNat {n : ℕ} (h : n < 0x10000) : (UInt16.ofNat n).toNat = n := UInt16.toNat_ofNat_of_lt' h

theorem toNat_lt (c : Char) : c.toNat < 0x110000 := by
  rcases c.valid with h | h
  · exact Nat.lt_trans h (by decide)
  · exact h.2

theorem decode_encodeChar (c : Char) : decode (encodeChar c ++ rest) = c :: decode rest := by
  unfold encodeChar
  split
  · rename_i hsmall
    have hvalid : c.toNat < 0xd800 ∨ 0xdfff < c.toNat := by
      rcases c.valid with h | h
      · exact .inl h
      · exact .inr h.1
    rw [List.singleton_append, decode_plain (by rw [toNat_ofNat hsmall]; exact hvalid), toNat_ofNat hsmall,
      Char.ofNat_toNat]
  · rename_i hlarge
    have hbound := toNat_lt c
    have hhigh : 0xd800 + (c.toNat - 0x10000) / 0x400 < 0x10000 := by omega
    have hlow : 0xdc00 + (c.toNat - 0x10000) % 0x400 < 0x10000 := by omega
    have hsum : 0x10000 + (0xd800 + (c.toNat - 0x10000) / 0x400 - 0xd800) * 0x400 +
        (0xdc00 + (c.toNat - 0x10000) % 0x400 - 0xdc00) = c.toNat := by omega
    rw [List.cons_append, List.singleton_append, decode_pair, toNat_ofNat hhigh, toNat_ofNat hlow, hsum,
      Char.ofNat_toNat]
    · rw [toNat_ofNat hhigh]
      omega
    · rw [toNat_ofNat hlow]
      omega

/-- **What is written is read back.** -/
theorem decode_encode (text : Text) : decode (encode text) = text := by
  induction text with
  | nil => rfl
  | cons c text ih => rw [encode, List.flatMap_cons, decode_encodeChar, ← encode, ih]

theorem encode_append (text text' : Text) : encode (text ++ text') = encode text ++ encode text' := List.flatMap_append

theorem encode_nul (text : Text) : encode ('\x00' :: text) = 0 :: encode text := rfl

theorem zero_not_mem_encode {text : Text} (h : '\x00' ∉ text) : (0 : UInt16) ∉ encode text := by
  intro hmem
  obtain ⟨c, hc, hunit⟩ := List.mem_flatMap.mp hmem
  unfold encodeChar at hunit
  split at hunit
  · rename_i hsmall
    have hzero := congrArg UInt16.toNat (List.mem_singleton.mp hunit)
    rw [toNat_ofNat hsmall] at hzero
    have hnul : c = '\x00' := by rw [← Char.ofNat_toNat c, ← hzero]; rfl
    exact h (hnul ▸ hc)
  · rename_i hlarge
    have hbound := toNat_lt c
    rcases List.mem_cons.mp hunit with hunit | hunit
    · have hzero := congrArg UInt16.toNat hunit
      rw [toNat_ofNat (by omega)] at hzero
      have hzero : 0 = _ := hzero
      omega
    · have hzero := congrArg UInt16.toNat (List.mem_singleton.mp hunit)
      rw [toNat_ofNat (by omega)] at hzero
      have hzero : 0 = _ := hzero
      omega

theorem toNat_ofNat_char {n : ℕ} (h : n < 0xd800 ∨ 0xdfff < n ∧ n < 0x110000) : (Char.ofNat n).toNat = n := by
  rw [Char.ofNat, dif_pos h]
  rfl

theorem toNat_unit (unit : UInt16) : unit.toNat < 0x10000 := UInt16.toNat_lt_size unit

/-- A character of a plain unit is the unit. -/
theorem toNat_plain (h : unit.toNat < 0xd800 ∨ 0xdfff < unit.toNat) : (Char.ofNat unit.toNat).toNat = unit.toNat := by
  have hbound := toNat_unit unit
  exact toNat_ofNat_char (by omega)

theorem toNat_pair {high low : ℕ} (hhigh : ¬ (high < 0xd800 ∨ 0xdfff < high))
    (h : high < 0xdc00 ∧ 0xdc00 ≤ low ∧ low ≤ 0xdfff) :
    (Char.ofNat (0x10000 + (high - 0xd800) * 0x400 + (low - 0xdc00))).toNat =
      0x10000 + (high - 0xd800) * 0x400 + (low - 0xdc00) :=
  toNat_ofNat_char (by omega)

theorem nul_not_mem_decode {units : List UInt16} (h : (0 : UInt16) ∉ units) : '\x00' ∉ decode units := by
  have hnul : '\x00'.toNat = 0 := rfl
  fun_induction decode units with
  | case1 => exact List.not_mem_nil
  | case2 unit rest hplain ih =>
    rw [List.mem_cons, not_or] at h ⊢
    refine ⟨fun hc => h.1 ?_, ih h.2⟩
    have hzero := congrArg Char.toNat hc
    rw [toNat_plain hplain, hnul] at hzero
    exact UInt16.toNat_inj.mp hzero
  | case3 unit hsurrogate low rest' hpair ih =>
    simp only [List.mem_cons, not_or] at h ⊢
    refine ⟨fun hc => ?_, ih h.2.2⟩
    have hzero := congrArg Char.toNat hc
    rw [toNat_pair hsurrogate hpair, hnul] at hzero
    omega
  | case4 unit hsurrogate low rest' hlone ih =>
    rw [List.mem_cons, not_or] at h ⊢
    exact ⟨by decide, ih h.2⟩
  | case5 unit hsurrogate => decide

theorem utf8Size_iff (c : Char) : c.utf8Size = 1 ↔ c.toNat < 0x80 := by
  rw [Char.utf8Size_eq_one_iff, UInt32.le_iff_toNat_le]
  exact Nat.lt_succ_iff.symm

/-- What units begin with: a character of one byte in UTF-8 exactly if the first is below 128. -/
theorem utf8Size_head_decode (unit : UInt16) (rest : List UInt16) :
    ∃ c text, decode (unit :: rest) = c :: text ∧ (c.utf8Size = 1 ↔ unit.toNat < 0x80) := by
  by_cases hplain : unit.toNat < 0xd800 ∨ 0xdfff < unit.toNat
  · exact ⟨_, _, decode_plain hplain, by rw [utf8Size_iff, toNat_plain hplain]⟩
  · have hlarge : ¬ unit.toNat < 0x80 := by omega
    by_cases hpair : ∃ low rest', rest = low :: rest' ∧ unit.toNat < 0xdc00 ∧ 0xdc00 ≤ low.toNat ∧ low.toNat ≤ 0xdfff
    · obtain ⟨low, rest', rfl, h⟩ := hpair
      refine ⟨_, _, decode_pair ⟨by omega, h.1⟩ h.2, ?_⟩
      rw [utf8Size_iff, toNat_pair hplain h]
      exact iff_of_false (by omega) hlarge
    · refine ⟨_, _, decode_surrogate hplain fun low rest' hrest h => hpair ⟨low, rest', hrest, h⟩, ?_⟩
      exact iff_of_false (by decide) hlarge

end

end Utf16
