import WindowCast.Lib.Lines

/-!
# Text in bytes

UTF-8, as it is written and read.

## Main definitions

* `Utf8.encode`, `Utf8.decode` — the bytes of a text, and the text of bytes if they are one.
* `Utf8.lossy` — the text of any bytes.

## Main results

* `Utf8.decode_encode` — **what is written is read**.
* `Utf8.length_encode` — how many bytes a text takes.
* `Utf8.lossy_encode_append` — text in front of any bytes is read.
-/

namespace Utf8

def encode (text : Text) : List UInt8 := text.flatMap String.utf8EncodeChar

/-- The text of bytes, if they are one. -/
def decode (bytes : List UInt8) : Option Text := bytes.toByteArray.utf8Decode?.map Array.toList

theorem toByteArray_encode (text : Text) : (encode text).toByteArray = text.utf8Encode := rfl

/-- **What is written is read.** -/
theorem decode_encode (text : Text) : decode (encode text) = some text := by
  rw [decode, toByteArray_encode, List.utf8Decode?_utf8Encode]
  rfl

/-- What is read of bytes is written as those bytes. -/
theorem encode_of_decode {bytes : List UInt8} {text : Text} (h : decode bytes = some text) : encode text = bytes := by
  obtain ⟨chars, hchars, rfl⟩ := Option.map_eq_some_iff.mp h
  have hsome : bytes.toByteArray.utf8Decode?.isSome := by rw [hchars]; rfl
  have hencode : (encode chars.toList).toByteArray = bytes.toByteArray := by
    have hget := ByteArray.utf8Encode_get_utf8Decode? (h := hsome)
    simp only [hchars, Option.get_some] at hget
    exact hget
  exact List.toByteArray_inj.mp hencode

theorem length_encode (text : Text) : (encode text).length = text.utf8Size := by
  induction text with
  | nil => rfl
  | cons c text ih =>
    rw [encode, List.flatMap_cons, List.length_append, String.length_utf8EncodeChar, ← encode, ih, Text.utf8Size_cons]

/-! ### Bytes that are no text -/

/-- How many bytes a character has that begins with this one; 0, where none does. -/
def width (lead : UInt8) : ℕ :=
  if lead < 0x80 then 1
  else if 0xC2 ≤ lead ∧ lead ≤ 0xDF then 2
  else if 0xE0 ≤ lead ∧ lead ≤ 0xEF then 3
  else if 0xF0 ≤ lead ∧ lead ≤ 0xF4 then 4
  else 0

/-- Whether a byte may be the second of a character that begins with `lead`. -/
def isSecond (lead b : UInt8) : Bool :=
  if lead = 0xE0 then 0xA0 ≤ b && b ≤ 0xBF
  else if lead = 0xED then 0x80 ≤ b && b ≤ 0x9F
  else if lead = 0xF0 then 0x90 ≤ b && b ≤ 0xBF
  else if lead = 0xF4 then 0x80 ≤ b && b ≤ 0x8F
  else 0x80 ≤ b && b ≤ 0xBF

/-- Of bytes that begin with no character, how many are replaced together: as many as one
could begin with. -/
def maximal : List UInt8 → ℕ
  | lead :: b :: rest =>
    if 3 ≤ width lead ∧ isSecond lead b then
      if width lead = 4 ∧ rest.head?.any fun b => 0x80 ≤ b && b ≤ 0xBF then 3 else 2
    else 1
  | _ => 1

theorem maximal_pos (bytes : List UInt8) : 0 < maximal bytes := by
  unfold maximal
  split
  · split
    · split <;> decide
    · decide
  · decide

/-- The text of bytes, with U+FFFD for what is no text in them. -/
def lossy (bytes : List UInt8) : Text :=
  match bytes with
  | [] => []
  | b :: rest =>
    match (b :: rest).toByteArray.utf8DecodeChar? 0 with
    | some c => c :: lossy ((b :: rest).drop c.utf8Size)
    | none => '\uFFFD' :: lossy ((b :: rest).drop (maximal (b :: rest)))
termination_by bytes.length
decreasing_by
  · have := c.utf8Size_pos
    simp only [List.length_drop, List.length_cons]
    omega
  · have := maximal_pos (b :: rest)
    simp only [List.length_drop, List.length_cons]
    omega

/-- Text in front of bytes is read, whatever they are. -/
theorem lossy_encode_append (text : Text) (bytes : List UInt8) : lossy (encode text ++ bytes) = text ++ lossy bytes := by
  induction text with
  | nil => rfl
  | cons c text ih =>
    have hcons : encode (c :: text) ++ bytes = String.utf8EncodeChar c ++ (encode text ++ bytes) := by
      rw [encode, List.flatMap_cons, List.append_assoc, ← encode]
    have hdecode : (String.utf8EncodeChar c ++ (encode text ++ bytes)).toByteArray.utf8DecodeChar? 0 = some c := by
      rw [List.toByteArray_append]
      exact ByteArray.utf8DecodeChar?_utf8EncodeChar_append
    have hdrop : (String.utf8EncodeChar c ++ (encode text ++ bytes)).drop c.utf8Size = encode text ++ bytes := by
      rw [← String.length_utf8EncodeChar c, List.drop_left]
    rw [hcons]
    cases hfront : String.utf8EncodeChar c ++ (encode text ++ bytes) with
    | nil =>
      have hlength := congrArg List.length hfront
      rw [List.length_append, String.length_utf8EncodeChar, List.length_nil] at hlength
      have := c.utf8Size_pos
      omega
    | cons b rest =>
      rw [hfront] at hdecode hdrop
      rw [lossy, hdecode]
      dsimp only
      rw [hdrop, ih, List.cons_append]

/-- **What is written is read of it.** -/
theorem lossy_encode (text : Text) : lossy (encode text) = text := by
  have happend := lossy_encode_append text []
  rwa [List.append_nil, lossy, List.append_nil] at happend

/-! ### Bytes of one character -/

/-- A byte below 128 is a character of its own. -/
theorem toNat_of_mem_utf8EncodeChar {c : Char} {b : UInt8} (h : b ∈ String.utf8EncodeChar c) (hb : b.toNat < 128) :
    c.toNat = b.toNat := by
  have hhigh {n : ℕ} (hle : 128 ≤ n) (hlt : n < 256) : b ≠ UInt8.ofNat n := by
    rintro rfl
    rw [UInt8.toNat_ofNat_of_lt' hlt] at hb
    omega
  dsimp only [String.utf8EncodeChar] at h
  split at h
  · rename_i hle
    rw [List.mem_singleton.mp h, UInt8.toNat_ofNat_of_lt' (Nat.lt_of_le_of_lt hle (by decide))]
    rfl
  · -- each byte of a longer character is a high one
    exfalso
    split at h
    · simp only [List.mem_cons, List.not_mem_nil, or_false] at h
      rcases h with h | h <;> exact hhigh (by omega) (by omega) h
    · split at h <;> simp only [List.mem_cons, List.not_mem_nil, or_false] at h
      · rcases h with h | h | h <;> exact hhigh (by omega) (by omega) h
      · rcases h with h | h | h | h <;> exact hhigh (by omega) (by omega) h

theorem mem_of_mem_encode {text : Text} {b : UInt8} (h : b ∈ encode text) (hb : b.toNat < 128) :
    Char.ofNat b.toNat ∈ text := by
  obtain ⟨c, hc, hbyte⟩ := List.mem_flatMap.mp h
  rwa [← toNat_of_mem_utf8EncodeChar hbyte hb, Char.ofNat_toNat]

end Utf8
