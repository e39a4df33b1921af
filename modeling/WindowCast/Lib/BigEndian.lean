import Mathlib

/-!
# Numbers on the wire

`n` bytes, the most significant first, or the least significant first.

## Main results

* `BigEndian.ofBytes_toBytes` — reading what was written gives the number back, if it fits.
* `BigEndian.ofBytes_inj` — the bytes of a number are its only ones of that length.
* `LittleEndian.ofBytes_toBytes` — the same the other way round.
-/

namespace BigEndian

/-- The last `n` bytes of `x`, the most significant first. -/
def toBytes : ℕ → ℕ → List UInt8
  | 0, _ => []
  | n + 1, x => toBytes n (x / 256) ++ [UInt8.ofNat x]

/-- The number a string of bytes writes. -/
def ofBytes (l : List UInt8) : ℕ := l.foldl (fun acc b => acc * 256 + b.toNat) 0

@[simp] theorem length_toBytes : ∀ n x, (toBytes n x).length = n
  | 0, _ => rfl
  | n + 1, x => by rw [toBytes, List.length_append, length_toBytes n]; rfl

@[simp] theorem ofBytes_nil : ofBytes [] = 0 := rfl

@[simp] theorem ofBytes_concat (l : List UInt8) (b : UInt8) :
    ofBytes (l ++ [b]) = ofBytes l * 256 + b.toNat := by
  simp [ofBytes]

theorem ofBytes_toBytes : ∀ n x, ofBytes (toBytes n x) = x % 256 ^ n
  | 0, x => by simp [toBytes, Nat.mod_one]
  | n + 1, x => by
    have hpow : 256 ^ (n + 1) = 256 * 256 ^ n := by rw [pow_succ, Nat.mul_comm]
    rw [toBytes, ofBytes_concat, ofBytes_toBytes n, UInt8.toNat_ofNat', hpow, Nat.mod_mul]
    omega

theorem ofBytes_toBytes_of_lt {n x : ℕ} (h : x < 256 ^ n) : ofBytes (toBytes n x) = x := by
  rw [ofBytes_toBytes, Nat.mod_eq_of_lt h]

theorem ofBytes_eq_ofDigits (l : List UInt8) : ofBytes l = Nat.ofDigits 256 (l.reverse.map UInt8.toNat) := by
  induction l using List.reverseRecOn with
  | nil => rfl
  | append_singleton l b ih =>
    rw [ofBytes_concat, ih, List.reverse_append, List.reverse_singleton, List.singleton_append, List.map_cons,
      Nat.ofDigits_cons, Nat.add_comm, Nat.mul_comm]

/-- As many bytes that write the same number are the same. -/
theorem ofBytes_inj {l l' : List UInt8} (hlength : l.length = l'.length) (h : ofBytes l = ofBytes l') : l = l' := by
  rw [ofBytes_eq_ofDigits, ofBytes_eq_ofDigits] at h
  have hdigit {m : List UInt8} : ∀ d ∈ m.reverse.map UInt8.toNat, d < 256 := by
    intro d hd
    obtain ⟨b, -, rfl⟩ := List.mem_map.mp hd
    exact UInt8.toNat_lt b
  have hmap := Nat.ofDigits_inj_of_len_eq (by decide)
    (by rw [List.length_map, List.length_map, List.length_reverse, List.length_reverse, hlength]) hdigit hdigit h
  exact List.reverse_injective (List.map_injective_iff.mpr (fun _ _ => UInt8.toNat_inj.mp) hmap)

end BigEndian

namespace LittleEndian

/-- The last `n` bytes of `x`, the least significant first. -/
def toBytes (n x : ℕ) : List UInt8 := (BigEndian.toBytes n x).reverse

def ofBytes (l : List UInt8) : ℕ := BigEndian.ofBytes l.reverse

@[simp] theorem length_toBytes (n x : ℕ) : (toBytes n x).length = n := by
  rw [toBytes, List.length_reverse, BigEndian.length_toBytes]

/-- What is written in front is read there, and the rest behind it. -/
theorem take_toBytes (n x : ℕ) (rest : List UInt8) : (toBytes n x ++ rest).take n = toBytes n x :=
  List.take_left' (length_toBytes n x)

theorem drop_toBytes (n x : ℕ) (rest : List UInt8) : (toBytes n x ++ rest).drop n = rest :=
  List.drop_left' (length_toBytes n x)

theorem ofBytes_toBytes (n x : ℕ) : ofBytes (toBytes n x) = x % 256 ^ n := by
  rw [ofBytes, toBytes, List.reverse_reverse, BigEndian.ofBytes_toBytes]

theorem ofBytes_toBytes_of_lt {n x : ℕ} (h : x < 256 ^ n) : ofBytes (toBytes n x) = x := by
  rw [ofBytes_toBytes, Nat.mod_eq_of_lt h]

end LittleEndian
