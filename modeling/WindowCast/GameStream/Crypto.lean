import Mathlib

/-!
# AES in CBC mode

How a host encrypts its sound (`crypto.rs`): AES-128 over the blocks of the padded
bytes, each added to the block before it.  The block cipher itself is a parameter.

## Main definitions

* `Aes128` — the block cipher.
* `cbcEncrypt`, `cbcDecrypt` — the mode, with PKCS#7 padding.

## Main results

* `cbcDecrypt_cbcEncrypt` — what was encrypted is decrypted.
* `length_cbcEncrypt` — how long it is does not depend on the bytes.
-/

namespace WindowCast.GameStream

abbrev Block := Vector UInt8 16

/-- The block cipher: what it encrypts under a key, it decrypts under that key. -/
structure Aes128 where
  encrypt : Vector UInt8 16 → Block → Block
  decrypt : Vector UInt8 16 → Block → Block
  decrypt_encrypt : ∀ key block, decrypt key (encrypt key block) = block

namespace Crypto

/-! ### Blocks -/

/-- The whole blocks of a string of bytes. -/
def asChunks (data : List UInt8) : List Block :=
  (List.range (data.length / 16)).map fun k => Vector.ofFn fun i => data.getD (16 * k + i) 0

/-- The bytes of blocks. -/
def bytes (blocks : List Block) : List UInt8 := blocks.flatMap Vector.toList

@[simp] theorem bytes_nil : bytes [] = [] := rfl

@[simp] theorem bytes_cons (block : Block) (blocks : List Block) :
    bytes (block :: blocks) = block.toList ++ bytes blocks := rfl

@[simp] theorem length_bytes (blocks : List Block) : (bytes blocks).length = 16 * blocks.length := by
  induction blocks with
  | nil => rfl
  | cons block blocks ih =>
    rw [bytes_cons, List.length_append, ih, Vector.length_toList, List.length_cons]
    omega

theorem getD_bytes (blocks : List Block) (k : ℕ) (hk : k < blocks.length) (i : Fin 16) :
    (bytes blocks).getD (16 * k + i) 0 = blocks[k][i] := by
  induction blocks generalizing k with
  | nil => exact absurd hk (Nat.not_lt_zero k)
  | cons block blocks ih =>
    cases k with
    | zero =>
      have hlt : 16 * 0 + i.val < block.toList.length := by
        rw [Vector.length_toList]
        omega
      rw [bytes_cons, List.getD_append _ _ _ _ hlt, List.getD_eq_getElem _ _ hlt]
      simp
    | succ k =>
      have hle : block.toList.length ≤ 16 * (k + 1) + i.val := by
        rw [Vector.length_toList]
        omega
      rw [bytes_cons, List.getD_append_right _ _ _ _ hle, Vector.length_toList,
        show 16 * (k + 1) + i.val - 16 = 16 * k + i.val by omega, ih k (Nat.lt_of_succ_lt_succ hk)]
      rfl

theorem asChunks_bytes (blocks : List Block) : asChunks (bytes blocks) = blocks := by
  have hlength : (bytes blocks).length / 16 = blocks.length := by
    rw [length_bytes]
    omega
  refine List.ext_getElem ?_ fun k hk hk' => ?_
  · rw [asChunks, List.length_map, List.length_range, hlength]
  · simp only [asChunks, List.getElem_map, List.getElem_range]
    refine Vector.ext fun i hi => ?_
    rw [Vector.getElem_ofFn]
    exact getD_bytes blocks k hk' ⟨i, hi⟩

theorem length_asChunks (data : List UInt8) : (asChunks data).length = data.length / 16 := by
  rw [asChunks, List.length_map, List.length_range]

/-- Whole blocks are all there is of a string of blocks. -/
theorem bytes_asChunks {data : List UInt8} (h : data.length % 16 = 0) : bytes (asChunks data) = data := by
  refine List.ext_getElem ?_ fun j hj hj' => ?_
  · rw [length_bytes, length_asChunks]
    omega
  · have hk : j / 16 < (asChunks data).length := by
      rw [length_asChunks]
      omega
    have hsplit := getD_bytes (asChunks data) (j / 16) hk ⟨j % 16, Nat.mod_lt _ (by decide)⟩
    rw [Nat.div_add_mod, List.getD_eq_getElem _ _ hj] at hsplit
    rw [hsplit]
    simp [asChunks, Nat.div_add_mod, List.getElem?_eq_getElem hj']

/-! ### Chaining -/

variable (aes : Aes128) (key : Vector UInt8 16)

def xor (a b : Block) : Block := Vector.zipWith (· ^^^ ·) a b

theorem xor_xor (a b : Block) : xor (xor a b) b = a := by
  refine Vector.ext fun i hi => ?_
  rw [xor, xor, Vector.getElem_zipWith, Vector.getElem_zipWith, UInt8.xor_assoc, UInt8.xor_self, UInt8.xor_zero]

def encryptChain : Block → List Block → List Block
  | _, [] => []
  | previous, block :: blocks =>
    let block := aes.encrypt key (xor block previous)
    block :: encryptChain block blocks

def decryptChain : Block → List Block → List Block
  | _, [] => []
  | previous, block :: blocks => xor (aes.decrypt key block) previous :: decryptChain block blocks

theorem length_encryptChain (previous : Block) (blocks : List Block) :
    (encryptChain aes key previous blocks).length = blocks.length := by
  induction blocks generalizing previous with
  | nil => rfl
  | cons block blocks ih => rw [encryptChain, List.length_cons, List.length_cons, ih]

theorem decryptChain_encryptChain (previous : Block) (blocks : List Block) :
    decryptChain aes key previous (encryptChain aes key previous blocks) = blocks := by
  induction blocks generalizing previous with
  | nil => rfl
  | cons block blocks ih => rw [encryptChain, decryptChain, aes.decrypt_encrypt, xor_xor, ih]

/-! ### The mode -/

/-- How many bytes of padding there are. -/
def padding (n : ℕ) : ℕ := 16 - n % 16

/-- AES-128-CBC with PKCS#7 padding, as GameStream encrypts audio. -/
def cbcEncrypt (iv : Block) (data : List UInt8) : List UInt8 :=
  let pad := padding data.length
  bytes (encryptChain aes key iv (asChunks (data ++ List.replicate pad (UInt8.ofNat pad))))

/-- Undoes `cbcEncrypt`; `none` when the padding is wrong (the wrong key). -/
def cbcDecrypt (iv : Block) (data : List UInt8) : Option (List UInt8) :=
  if data.isEmpty ∨ data.length % 16 ≠ 0 then none
  else
    let out := bytes (decryptChain aes key iv (asChunks data))
    out.getLast?.bind fun last =>
      let pad := last.toNat
      if pad = 0 ∨ pad > 16 ∨ ((out.drop (out.length - pad)).any fun b => b.toNat ≠ pad) = true then none
      else some (out.take (out.length - pad))

theorem padding_pos (n : ℕ) : 0 < padding n := by
  unfold padding
  omega

theorem padding_le (n : ℕ) : padding n ≤ 16 := Nat.sub_le _ _

theorem length_padded_mod (n : ℕ) : (n + padding n) % 16 = 0 := by
  unfold padding
  omega

/-- How long what was encrypted is. -/
theorem length_cbcEncrypt (iv : Block) (data : List UInt8) :
    (cbcEncrypt aes key iv data).length = data.length + padding data.length := by
  have := length_padded_mod data.length
  rw [cbcEncrypt, length_bytes, length_encryptChain, length_asChunks, List.length_append, List.length_replicate]
  omega

/-- **What was encrypted is decrypted.** -/
theorem cbcDecrypt_cbcEncrypt (iv : Block) (data : List UInt8) :
    cbcDecrypt aes key iv (cbcEncrypt aes key iv data) = some data := by
  have hpos := padding_pos data.length
  have hle := padding_le data.length
  have hmod := length_padded_mod data.length
  have hlength := length_cbcEncrypt aes key iv data
  have hbyte : (UInt8.ofNat (padding data.length)).toNat = padding data.length := by
    rw [UInt8.toNat_ofNat', Nat.mod_eq_of_lt (by omega)]
  have hplain : bytes (decryptChain aes key iv (asChunks (cbcEncrypt aes key iv data)))
      = data ++ List.replicate (padding data.length) (UInt8.ofNat (padding data.length)) := by
    rw [cbcEncrypt, asChunks_bytes, decryptChain_encryptChain, bytes_asChunks]
    rw [List.length_append, List.length_replicate, hmod]
  have hlast : (data ++ List.replicate (padding data.length) (UInt8.ofNat (padding data.length))).getLast?
      = some (UInt8.ofNat (padding data.length)) := by
    rw [List.getLast?_append, List.getLast?_replicate, if_neg hpos.ne']
    rfl
  have hkept : (data ++ List.replicate (padding data.length) (UInt8.ofNat (padding data.length))).length
      - padding data.length = data.length := by
    rw [List.length_append, List.length_replicate]
    omega
  rw [cbcDecrypt, if_neg]
  · simp only [hplain, hlast, Option.bind_some, hbyte, hkept]
    rw [if_neg, List.take_left]
    rw [List.drop_left]
    simp only [List.any_replicate, hbyte]
    simp
    omega
  · rw [hlength, hmod, List.isEmpty_iff, ← List.length_eq_zero_iff, hlength]
    omega

end Crypto

end WindowCast.GameStream
