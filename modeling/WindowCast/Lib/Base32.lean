import WindowCast.Lib.BigEndian

/-!
# Five bits at a time

Bytes written five bits at a time, each group as a symbol of an alphabet, the last group
filled up with zeros.  The bits that wait are kept in a word of 32 bits.

## Main definitions

* `Base32.encode` — the symbols of bytes.
* `Base32.value` — the number that groups of five bits write.

## Main results

* `value_groups` — the groups write the number of the bytes, and the zeros behind it.
* `groups_inj` — as many bytes with the same groups are the same.
-/

namespace Base32

variable {α β : Type}

/-- Takes the groups of five that are complete; what is left is less than five bits. -/
def drain (symbol : ℕ → α) (out : List α) (buffer : ℕ) : ℕ → List α × ℕ × ℕ
  | bits + 5 => drain symbol (out ++ [symbol (buffer >>> bits &&& 31)]) buffer bits
  | bits => (out, buffer, bits)

/-- One more byte. -/
def push (symbol : ℕ → α) (s : List α × ℕ × ℕ) (b : UInt8) : List α × ℕ × ℕ :=
  drain symbol s.1 ((s.2.1 <<< 8) % 2 ^ 32 ||| b.toNat) (s.2.2 + 8)

def encode (symbol : ℕ → α) (data : List UInt8) : List α :=
  let (out, buffer, bits) := data.foldl (push symbol) ([], 0, 0)
  if bits > 0 then out ++ [symbol ((buffer <<< (5 - bits)) % 2 ^ 32 &&& 31)] else out

/-- The groups themselves. -/
def groups (data : List UInt8) : List ℕ := encode id data

/-- The number that groups write. -/
def value (groups : List ℕ) : ℕ := Nat.ofDigits 32 groups.reverse

@[simp] theorem value_concat (l : List ℕ) (d : ℕ) : value (l ++ [d]) = 32 * value l + d := by
  rw [value, List.reverse_append, List.reverse_singleton, List.singleton_append, Nat.ofDigits_cons, Nat.add_comm]
  rfl

/-! ### Symbols stand for groups -/

theorem drain_map (symbol : ℕ → α) (f : α → β) (buffer bits : ℕ) (out : List α) :
    drain (fun d => f (symbol d)) (out.map f) buffer bits =
      ((drain symbol out buffer bits).1.map f, (drain symbol out buffer bits).2) := by
  induction bits using Nat.strongRecOn generalizing out with
  | ind bits ih =>
    match bits with
    | 0 => rfl
    | 1 => rfl
    | 2 => rfl
    | 3 => rfl
    | 4 => rfl
    | bits + 5 =>
      have h := ih bits (by omega) (out ++ [symbol (buffer >>> bits &&& 31)])
      rw [List.map_append] at h
      exact h

theorem foldl_push_map (symbol : ℕ → α) (f : α → β) (data : List UInt8) (s : List α × ℕ × ℕ) :
    data.foldl (push fun d => f (symbol d)) (s.1.map f, s.2) =
      ((data.foldl (push symbol) s).1.map f, (data.foldl (push symbol) s).2) := by
  induction data generalizing s with
  | nil => rfl
  | cons b data ih =>
    rw [List.foldl_cons, List.foldl_cons, ← ih]
    exact congrArg (fun s => data.foldl (push fun d => f (symbol d)) s) (drain_map symbol f _ _ s.1)

theorem encode_eq_map (symbol : ℕ → α) (data : List UInt8) : encode symbol data = (groups data).map symbol := by
  have h := foldl_push_map id symbol data ([], 0, 0)
  rw [encode, groups, encode]
  rw [show data.foldl (push symbol) ([], 0, 0) = _ from h]
  dsimp only
  split
  · rw [List.map_append]
    rfl
  · rfl

/-! ### The number that is written -/

/-- The groups taken and the bits left write one number, and none is too large or too many. -/
structure Holds (out : List ℕ) (buffer bits total number : ℕ) : Prop where
  number_eq : value out * 2 ^ bits + buffer % 2 ^ bits = number
  total_eq : 5 * out.length + bits = total
  lt : ∀ d ∈ out, d < 32

variable {out : List ℕ} {buffer bits total number : ℕ}

theorem and_31 (n : ℕ) : n &&& 31 = n % 32 := Nat.and_two_pow_sub_one_eq_mod n 5

/-- Taking the complete groups leaves the number as it is. -/
theorem Holds.drain (h : Holds out buffer bits total number) :
    ∃ out' bits', Base32.drain id out buffer bits = (out', buffer, bits') ∧ bits' < 5 ∧
      Holds out' buffer bits' total number := by
  induction bits using Nat.strongRecOn generalizing out with
  | ind bits ih =>
    match bits with
    | 0 => exact ⟨out, 0, rfl, by decide, h⟩
    | 1 => exact ⟨out, 1, rfl, by decide, h⟩
    | 2 => exact ⟨out, 2, rfl, by decide, h⟩
    | 3 => exact ⟨out, 3, rfl, by decide, h⟩
    | 4 => exact ⟨out, 4, rfl, by decide, h⟩
    | bits + 5 =>
      have hnext : Holds (out ++ [buffer >>> bits &&& 31]) buffer bits total number := by
        refine ⟨?_, ?_, ?_⟩
        · have hsplit : buffer % 2 ^ (bits + 5) = buffer % 2 ^ bits + 2 ^ bits * (buffer / 2 ^ bits % 32) := by
            rw [Nat.pow_add, Nat.mod_mul]
          rw [← h.number_eq, hsplit, value_concat, and_31, Nat.shiftRight_eq_div_pow, Nat.pow_add]
          ring
        · rw [← h.total_eq, List.length_append, List.length_singleton]
          ring
        · intro d hd
          rcases List.mem_append.mp hd with hd | hd
          · exact h.lt d hd
          · rw [List.mem_singleton.mp hd, and_31]
            exact Nat.mod_lt _ (by decide)
      exact ih bits (by omega) hnext

/-- One more byte is one more digit of the number. -/
theorem Holds.push (h : Holds out buffer bits total number) (hbits : bits < 5) (b : UInt8) :
    ∃ out' buffer' bits', Base32.push id (out, buffer, bits) b = (out', buffer', bits') ∧ bits' < 5 ∧
      Holds out' buffer' bits' (total + 8) (number * 256 + b.toNat) := by
  have hbyte := UInt8.toNat_lt b
  have hbuffer : (buffer <<< 8) % 2 ^ 32 ||| b.toNat = buffer % 2 ^ 24 * 256 + b.toNat := by
    have hshift : (buffer <<< 8) % 2 ^ 32 = (buffer % 2 ^ 24) <<< 8 := by
      rw [Nat.shiftLeft_eq, Nat.shiftLeft_eq]
      omega
    rw [hshift, ← Nat.shiftLeft_add_eq_or_of_lt hbyte, Nat.shiftLeft_eq]
  -- the bits cut off at 32 were taken long ago: less than five are waited for
  have hmod : (buffer % 2 ^ 24 * 256 + b.toNat) % 2 ^ (bits + 8) = buffer % 2 ^ bits * 256 + b.toNat := by
    have hinner : buffer % 2 ^ 24 % 2 ^ bits = buffer % 2 ^ bits :=
      Nat.mod_mod_of_dvd _ (Nat.pow_dvd_pow 2 (by omega))
    have hlt : buffer % 2 ^ bits < 2 ^ bits := Nat.mod_lt _ (Nat.two_pow_pos bits)
    rw [Nat.pow_add, Nat.mul_comm (2 ^ bits), Nat.mod_mul]
    have hlow : (buffer % 2 ^ 24 * 256 + b.toNat) % 2 ^ 8 = b.toNat := by omega
    have hhigh : (buffer % 2 ^ 24 * 256 + b.toNat) / 2 ^ 8 = buffer % 2 ^ 24 := by omega
    rw [hlow, hhigh, hinner]
    ring
  have hnext : Holds out ((buffer <<< 8) % 2 ^ 32 ||| b.toNat) (bits + 8) (total + 8) (number * 256 + b.toNat) := by
    refine ⟨?_, ?_, h.lt⟩
    · rw [hbuffer, hmod, ← h.number_eq, Nat.pow_add]
      ring
    · rw [← h.total_eq]
      ring
  obtain ⟨out', bits', hdrain, hbits', hholds⟩ := hnext.drain
  exact ⟨out', _, bits', hdrain, hbits', hholds⟩

theorem holds_foldl (data : List UInt8) : ∃ out buffer bits,
    data.foldl (push id) ([], 0, 0) = (out, buffer, bits) ∧ bits < 5 ∧
      Holds out buffer bits (8 * data.length) (BigEndian.ofBytes data) := by
  induction data using List.reverseRecOn with
  | nil => exact ⟨[], 0, 0, rfl, by decide, rfl, rfl, fun d hd => absurd hd List.not_mem_nil⟩
  | append_singleton data b ih =>
    obtain ⟨out, buffer, bits, hfold, hbits, hholds⟩ := ih
    obtain ⟨out', buffer', bits', hpush, hbits', hholds'⟩ := hholds.push hbits b
    refine ⟨out', buffer', bits', ?_, hbits', ?_⟩
    · rw [List.foldl_append, hfold]
      exact hpush
    · rw [List.length_append, List.length_singleton, BigEndian.ofBytes_concat, Nat.mul_add]
      exact hholds'

/-- **The groups write the number of the bytes, and the zeros behind it.** -/
theorem value_groups (data : List UInt8) : ∃ zeros < 5,
    5 * (groups data).length = 8 * data.length + zeros ∧
      value (groups data) = BigEndian.ofBytes data * 2 ^ zeros ∧ ∀ d ∈ groups data, d < 32 := by
  obtain ⟨out, buffer, bits, hfold, hbits, hholds⟩ := holds_foldl data
  have hgroups : groups data = if bits > 0 then out ++ [id ((buffer <<< (5 - bits)) % 2 ^ 32 &&& 31)] else out := by
    rw [groups, encode, hfold]
  -- the last group is filled up with zeros
  by_cases hleft : bits > 0
  · rw [if_pos hleft] at hgroups
    have hlast : id ((buffer <<< (5 - bits)) % 2 ^ 32 &&& 31) = buffer % 2 ^ bits * 2 ^ (5 - bits) := by
      have hword : 2 ^ bits * 2 ^ (5 - bits) = 32 := by
        rw [← Nat.pow_add, Nat.add_sub_cancel' (by omega : bits ≤ 5)]
      rw [id, and_31, Nat.shiftLeft_eq, Nat.mod_mod_of_dvd _ (by decide), ← hword, Nat.mul_mod_mul_right]
    refine ⟨5 - bits, by omega, ?_, ?_, ?_⟩
    · rw [hgroups, List.length_append, List.length_singleton]
      have := hholds.total_eq
      omega
    · have hword : 2 ^ bits * 2 ^ (5 - bits) = 32 := by
        rw [← Nat.pow_add, Nat.add_sub_cancel' (by omega : bits ≤ 5)]
      rw [hgroups, value_concat, hlast, ← hholds.number_eq, Nat.add_mul, Nat.mul_assoc, hword, Nat.mul_comm]
    · intro d hd
      rw [hgroups] at hd
      rcases List.mem_append.mp hd with hd | hd
      · exact hholds.lt d hd
      · rw [List.mem_singleton.mp hd, id, and_31]
        exact Nat.mod_lt _ (by decide)
  · rw [if_neg hleft] at hgroups
    have hzero : bits = 0 := by omega
    subst hzero
    refine ⟨0, by decide, ?_, ?_, ?_⟩
    · rw [hgroups]
      exact hholds.total_eq
    · rw [hgroups, ← hholds.number_eq, Nat.pow_zero, Nat.mod_one, Nat.mul_one]
      ring
    · rw [hgroups]
      exact hholds.lt

/-- As many bytes with the same groups are the same. -/
theorem groups_inj {data data' : List UInt8} (hlength : data.length = data'.length)
    (h : groups data = groups data') : data = data' := by
  obtain ⟨zeros, -, hcount, hvalue, -⟩ := value_groups data
  obtain ⟨zeros', -, hcount', hvalue', -⟩ := value_groups data'
  rw [h] at hcount hvalue
  have hzeros : zeros = zeros' := by omega
  subst hzeros
  exact BigEndian.ofBytes_inj hlength (Nat.eq_of_mul_eq_mul_right (Nat.two_pow_pos zeros) (hvalue.symm.trans hvalue'))

end Base32
