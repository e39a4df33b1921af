import WindowCast.Lib.Hex
import WindowCast.Lib.Utf8

/-!
# Percent-encoding

Text in the letters, digits and few signs that stand for themselves in a URL: every other
byte of it is written as a percent sign and two hex digits.

## Main definitions

* `Percent.encode` — a text as it is written.
* `Percent.bytes`, `Percent.decode` — the bytes that such a text stands for, and what is read of it.

## Main results

* `Percent.mem_encode` — which characters are written.
* `Percent.decode_encode` — **what is written is read**.
-/

namespace Percent

/-- The characters that stand for themselves. -/
def isUnreserved (c : Char) : Bool := c.isAlphanum || c = '-' || c = '_' || c = '.' || c = '~'

/-- One byte, as it is written. -/
def byte (b : UInt8) : Text :=
  if isUnreserved (Char.ofNat b.toNat) then [Char.ofNat b.toNat] else '%' :: (Hex.byte b).map Char.toUpper

def encode (text : Text) : Text := (Utf8.encode text).flatMap byte

/-- The bytes that a text stands for; a plus sign is a blank, and a percent sign that no byte
follows is one. -/
def bytes : Text → List UInt8
  | [] => []
  | '%' :: high :: low :: rest =>
    match Hex.number [high, low] with
    | some b => b :: bytes rest
    | none => String.utf8EncodeChar '%' ++ bytes (high :: low :: rest)
  | c :: rest => String.utf8EncodeChar (if c = '+' then ' ' else c) ++ bytes rest

def decode (text : Text) : Text := Utf8.lossy (bytes text)

/-! ### What is written -/

/-- A byte whose character stands for itself is that character's only one. -/
theorem utf8EncodeChar_of_isUnreserved (b : UInt8) (h : isUnreserved (Char.ofNat b.toNat) = true) :
    Char.ofNat b.toNat ≠ '%' ∧ Char.ofNat b.toNat ≠ '+' ∧ String.utf8EncodeChar (Char.ofNat b.toNat) = [b] := by
  have hall : ∀ n < 256, isUnreserved (Char.ofNat n) = true → Char.ofNat n ≠ '%' ∧ Char.ofNat n ≠ '+' ∧
      String.utf8EncodeChar (Char.ofNat n) = [UInt8.ofNat n] := by decide +kernel
  have hb := hall b.toNat b.toNat_lt h
  rwa [UInt8.ofNat_toNat] at hb

/-- Digits are read in upper case too. -/
theorem number_upper (b : UInt8) : Hex.number ((Hex.byte b).map Char.toUpper) = some b := by
  have hall : ∀ n < 256, Hex.number ((Hex.byte (UInt8.ofNat n)).map Char.toUpper) = some (UInt8.ofNat n) := by
    decide +kernel
  have hb := hall b.toNat b.toNat_lt
  rwa [UInt8.ofNat_toNat] at hb

theorem bytes_byte_append (b : UInt8) (rest : Text) : bytes (byte b ++ rest) = b :: bytes rest := by
  rw [byte]
  split
  · rename_i hself
    obtain ⟨hpercent, hplus, hencode⟩ := utf8EncodeChar_of_isUnreserved b hself
    generalize Char.ofNat b.toNat = c at hpercent hplus hencode
    rw [List.singleton_append, bytes, if_neg hplus, hencode, List.singleton_append]
    exact fun high low rest hc => absurd hc hpercent
  · have hnumber := number_upper b
    rw [Hex.byte, List.map_cons, List.map_cons, List.map_nil] at hnumber ⊢
    rw [List.cons_append, List.cons_append, List.singleton_append, bytes, hnumber]

theorem bytes_flatMap (bs : List UInt8) : bytes (bs.flatMap byte) = bs := by
  induction bs with
  | nil => rfl
  | cons b bs ih => rw [List.flatMap_cons, bytes_byte_append, ih]

/-- Only percent signs are written beside the characters that stand for themselves. -/
theorem mem_encode {text : Text} {c : Char} (h : c ∈ encode text) : isUnreserved c = true ∨ c = '%' := by
  obtain ⟨b, -, hc⟩ := List.mem_flatMap.mp h
  rw [byte] at hc
  split at hc
  · rename_i hself
    rw [List.mem_singleton.mp hc]
    exact .inl hself
  · have hdigit : ∀ n < 16, isUnreserved (Nat.digitChar n).toUpper = true := by decide
    have hlt : b.toNat < 256 := b.toNat_lt
    rw [Hex.byte, List.map_cons, List.map_cons, List.map_nil] at hc
    simp only [List.mem_cons, List.not_mem_nil, or_false] at hc
    rcases hc with rfl | rfl | rfl
    · exact .inr rfl
    · exact .inl (hdigit _ (by omega))
    · exact .inl (hdigit _ (by omega))

/-- Characters that stand for themselves are written so. -/
theorem encode_of_unreserved {text : Text} (h : ∀ c ∈ text, isUnreserved c = true) : encode text = text := by
  have hchar : ∀ n < 128, isUnreserved (Char.ofNat n) = true →
      (String.utf8EncodeChar (Char.ofNat n)).flatMap byte = [Char.ofNat n] := by decide +kernel
  have hascii {c : Char} (hc : isUnreserved c = true) : c.toNat < 128 := by
    simp only [isUnreserved, Char.isAlphanum, Char.isAlpha, Char.isUpper, Char.isLower, Char.isDigit, Bool.or_eq_true,
      Bool.and_eq_true, decide_eq_true_eq, UInt32.le_iff_toNat_le, ge_iff_le] at hc
    rcases hc with ((((((⟨-, hle⟩ | ⟨-, hle⟩) | ⟨-, hle⟩) | rfl) | rfl) | rfl) | rfl)
    · exact Nat.lt_of_le_of_lt hle (by decide)
    · exact Nat.lt_of_le_of_lt hle (by decide)
    · exact Nat.lt_of_le_of_lt hle (by decide)
    all_goals decide
  rw [encode, Utf8.encode, List.flatMap_assoc]
  conv_rhs => rw [← List.flatMap_singleton' text]
  refine List.flatMap_congr fun c hc => ?_
  have hc' := hchar c.toNat (hascii (h c hc))
  rw [Char.ofNat_toNat] at hc'
  exact hc' (h c hc)

/-- **What is written is read.** -/
theorem decode_encode (text : Text) : decode (encode text) = text := by
  rw [decode, encode, bytes_flatMap, Utf8.lossy_encode]

end Percent
