import WindowCast.Lib.Lines

/-!
# Bytes in hex

A byte is two hex digits, in lower case where it is written and in either case where it
is read.

## Main definitions

* `Hex.encode` — bytes as text.
* `Hex.digit` — the value of a digit.
* `Hex.number` — the byte that digits are read as.
* `Hex.IsPair`, `Hex.behind` — two characters that are read as a byte, and what is left behind all such pairs.

## Main results

* `Hex.length_encode` — two digits a byte.
* `Hex.number_byte` — a byte that is written is read back.
* `Hex.number_pair_isSome` — which two characters are read: digits, or a sign and a digit.
-/

namespace Hex

/-- One byte, as it is written. -/
def byte (b : UInt8) : Text := [Nat.digitChar (b.toNat / 16), Nat.digitChar (b.toNat % 16)]

/-- Bytes as text. -/
def encode (bytes : List UInt8) : Text := bytes.flatMap byte

/-- The value of a digit, in either case. -/
def digit (c : Char) : Option ℕ :=
  if '0' ≤ c ∧ c ≤ '9' then some (c.toNat - '0'.toNat)
  else if 'a' ≤ c ∧ c ≤ 'f' then some (c.toNat - 'a'.toNat + 10)
  else if 'A' ≤ c ∧ c ≤ 'F' then some (c.toNat - 'A'.toNat + 10)
  else none

/-- The byte that text is read as, with a plus sign or none, if it is one. -/
def number (text : Text) : Option UInt8 :=
  let digits := if text.head? = some '+' then text.tail else text
  if digits = [] then none
  else (digits.foldlM (fun n c => (digit c).bind fun d =>
    if n * 16 + d < 256 then some (n * 16 + d) else none) 0).map UInt8.ofNat

@[simp] theorem encode_nil : encode [] = [] := rfl

@[simp] theorem encode_cons (b : UInt8) (bytes : List UInt8) : encode (b :: bytes) = byte b ++ encode bytes := rfl

@[simp] theorem length_encode (bytes : List UInt8) : (encode bytes).length = 2 * bytes.length := by
  induction bytes with
  | nil => rfl
  | cons b bytes ih =>
    rw [encode_cons, List.length_append, ih, List.length_cons, byte]
    simp only [List.length_cons, List.length_nil]
    omega

theorem digit_digitChar : ∀ n < 16, digit (Nat.digitChar n) = some n := by decide

/-- A digit is no sign and no blank. -/
theorem digitChar_ne : ∀ n < 16, Nat.digitChar n ≠ '+' ∧ Text.isWhitespace (Nat.digitChar n) = false := by decide

theorem number_byte (b : UInt8) : number (byte b) = some b := by
  have hlt : b.toNat < 256 := b.toNat_lt
  have hsign : (byte b).head? ≠ some '+' := fun h => (digitChar_ne (b.toNat / 16) (by omega)).1 (Option.some.inj h)
  have hhigh : (0 * 16 + b.toNat / 16) < 256 := by omega
  have hb : (0 * 16 + b.toNat / 16) * 16 + b.toNat % 16 = b.toNat := by omega
  have hne : byte b ≠ [] := List.cons_ne_nil _ _
  have hdigit := digit_digitChar (b.toNat / 16) (by omega)
  have hdigit' := digit_digitChar (b.toNat % 16) (by omega)
  rw [number, if_neg hsign, if_neg hne, byte]
  simp only [List.foldlM_cons, List.foldlM_nil, hdigit, hdigit', Option.bind_some, Option.bind_eq_bind,
    if_pos hhigh, hb, if_pos hlt, Option.pure_def, Option.map_some, UInt8.ofNat_toNat]

theorem utf8Size_digitChar : ∀ n < 16, (Nat.digitChar n).utf8Size = 1 := by decide

theorem splitAtByte_byte (b : UInt8) (rest : Text) : Text.splitAtByte 2 (byte b ++ rest) = some (byte b, rest) := by
  have hlt : b.toNat < 256 := b.toNat_lt
  exact Text.splitAtByte_ones (utf8Size_digitChar (b.toNat / 16) (by omega))
    (utf8Size_digitChar (b.toNat % 16) (by omega))

theorem mem_encode {bytes : List UInt8} {c : Char} (h : c ∈ encode bytes) : ∃ n < 16, c = Nat.digitChar n := by
  obtain ⟨b, -, hc⟩ := List.mem_flatMap.mp h
  have hlt : b.toNat < 256 := b.toNat_lt
  rcases List.mem_cons.mp hc with rfl | hc
  · exact ⟨_, by omega, rfl⟩
  · exact ⟨_, by omega, List.mem_singleton.mp hc⟩

/-- A digit takes one byte. -/
theorem utf8Size_of_mem_encode {bytes : List UInt8} {c : Char} (h : c ∈ encode bytes) : c.utf8Size = 1 := by
  obtain ⟨n, hn, rfl⟩ := mem_encode h
  exact utf8Size_digitChar n hn

theorem utf8Size_encode (bytes : List UInt8) : Text.utf8Size (encode bytes) = 2 * bytes.length := by
  have hone : (encode bytes).map Char.utf8Size = (encode bytes).map fun _ => 1 :=
    List.map_congr_left fun c hc => utf8Size_of_mem_encode hc
  rw [Text.utf8Size, hone, List.map_const', List.sum_replicate, length_encode, smul_eq_mul, Nat.mul_one]

/-! ### Pairs of characters -/

/-- Two characters that `number` reads: digits, or a sign and a digit. -/
def IsPair (c d : Char) : Prop := ((digit c).isSome ∨ c = '+') ∧ (digit d).isSome

instance (c d : Char) : Decidable (IsPair c d) := inferInstanceAs (Decidable (_ ∧ _))

/-- What is left behind the pairs that a text begins with. -/
def behind : Text → Text
  | c :: d :: rest => if IsPair c d then behind rest else c :: d :: rest
  | text => text

section

variable {c d : Char} {n : ℕ}

theorem digit_ascii : ∀ k < 128, ∀ n, digit (Char.ofNat k) = some n →
    n < 16 ∧ Nat.digitChar n = (Char.ofNat k).toLower := by decide

theorem toNat_of_digit (h : digit c = some n) : c.toNat < 128 := by
  have hle (a b : Char) (h : a ≤ b) : a.toNat ≤ b.toNat := h
  unfold digit at h
  split at h
  · rename_i hc
    exact Nat.lt_of_le_of_lt (hle _ _ hc.2) (by decide)
  split at h
  · rename_i hc
    exact Nat.lt_of_le_of_lt (hle _ _ hc.2) (by decide)
  split at h
  · rename_i hc
    exact Nat.lt_of_le_of_lt (hle _ _ hc.2) (by decide)
  · cases h

theorem digit_spec (h : digit c = some n) : n < 16 ∧ Nat.digitChar n = c.toLower := by
  have hspec := digit_ascii c.toNat (toNat_of_digit h) n
  rw [Char.ofNat_toNat] at hspec
  exact hspec h

theorem utf8Size_of_ascii (h : c.toNat < 128) : c.utf8Size = 1 := by
  rw [Char.utf8Size_eq_one_iff, UInt32.le_iff_toNat_le]
  exact Nat.le_of_lt_succ h

theorem utf8Size_of_digit (h : digit c = some n) : c.utf8Size = 1 := utf8Size_of_ascii (toNat_of_digit h)

theorem IsPair.utf8Size (h : IsPair c d) : c.utf8Size = 1 ∧ d.utf8Size = 1 := by
  obtain ⟨l, hl⟩ := Option.isSome_iff_exists.mp h.2
  refine ⟨?_, utf8Size_of_digit hl⟩
  rcases h.1 with h | rfl
  · obtain ⟨n, hn⟩ := Option.isSome_iff_exists.mp h
    exact utf8Size_of_digit hn
  · rfl

/-- One character is read only if it is a digit. -/
theorem number_singleton (h : c.utf8Size ≠ 1) : number [c] = none := by
  have hdigit : digit c = none := by
    rw [Option.eq_none_iff_forall_not_mem]
    exact fun n hn => h (utf8Size_of_digit hn)
  have hsign : [c].head? ≠ some '+' := fun hc => h (by rw [Option.some.inj hc]; rfl)
  rw [number, if_neg hsign, if_neg (List.cons_ne_nil _ _)]
  simp only [List.foldlM_cons, hdigit, Option.bind_none, Option.bind_eq_bind, Option.map_none]

/-- Two digits are read as they are written in lower case. -/
theorem number_digits {h l : ℕ} (hc : digit c = some h) (hd : digit d = some l) :
    ∃ b, number [c, d] = some b ∧ byte b = [c.toLower, d.toLower] := by
  obtain ⟨hh, hcl⟩ := digit_spec hc
  obtain ⟨hl, hdl⟩ := digit_spec hd
  have hsign : [c, d].head? ≠ some '+' := fun hplus => by
    rw [Option.some.inj hplus] at hc
    cases hc
  have hhigh : 0 * 16 + h < 256 := by omega
  have hboth : (0 * 16 + h) * 16 + l < 256 := by omega
  have hvalue : (UInt8.ofNat ((0 * 16 + h) * 16 + l)).toNat = (0 * 16 + h) * 16 + l :=
    UInt8.toNat_ofNat_of_lt' hboth
  refine ⟨UInt8.ofNat ((0 * 16 + h) * 16 + l), ?_, ?_⟩
  · rw [number, if_neg hsign, if_neg (List.cons_ne_nil _ _)]
    simp only [List.foldlM_cons, List.foldlM_nil, hc, hd, Option.bind_some, Option.bind_eq_bind, if_pos hhigh,
      if_pos hboth, Option.pure_def, Option.map_some]
  · have hdiv : ((0 * 16 + h) * 16 + l) / 16 = h := by omega
    have hmod : ((0 * 16 + h) * 16 + l) % 16 = l := by omega
    rw [byte, hvalue, hdiv, hmod, hcl, hdl]

theorem number_pair_isSome : (number [c, d]).isSome ↔ IsPair c d := by
  by_cases hplus : c = '+'
  · subst hplus
    have hsign : ['+', d].head? = some '+' := rfl
    rw [number, if_pos hsign, List.tail_cons, if_neg (List.cons_ne_nil _ _)]
    cases hd : digit d with
    | none =>
      refine iff_of_false ?_ fun h => ?_
      · simp only [List.foldlM_cons, hd, Option.bind_none, Option.bind_eq_bind, Option.map_none, Option.isSome_none,
          Bool.false_eq_true, not_false_eq_true]
      · rw [IsPair, hd] at h
        exact Bool.false_ne_true h.2
    | some l =>
      have hl : 0 * 16 + l < 256 := by have := (digit_spec hd).1; omega
      refine iff_of_true ?_ ⟨.inr rfl, by rw [hd]; rfl⟩
      simp only [List.foldlM_cons, List.foldlM_nil, hd, Option.bind_some, Option.bind_eq_bind, if_pos hl,
        Option.pure_def, Option.map_some, Option.isSome_some]
  · have hsign : [c, d].head? ≠ some '+' := fun h => hplus (Option.some.inj h)
    cases hc : digit c with
    | none =>
      refine iff_of_false ?_ fun h => ?_
      · rw [number, if_neg hsign, if_neg (List.cons_ne_nil _ _)]
        simp only [List.foldlM_cons, hc, Option.bind_none, Option.bind_eq_bind, Option.map_none, Option.isSome_none,
          Bool.false_eq_true, not_false_eq_true]
      · rw [IsPair, hc] at h
        exact h.1.elim Bool.false_ne_true hplus
    | some h =>
      cases hd : digit d with
      | none =>
        have hlt : 0 * 16 + h < 256 := by have := (digit_spec hc).1; omega
        refine iff_of_false ?_ fun hpair => ?_
        · rw [number, if_neg hsign, if_neg (List.cons_ne_nil _ _)]
          simp only [List.foldlM_cons, hc, hd, Option.bind_none, Option.bind_some, Option.bind_eq_bind, if_pos hlt,
            Option.map_none, Option.isSome_none, Bool.false_eq_true, not_false_eq_true]
        · rw [IsPair, hd] at hpair
          exact Bool.false_ne_true hpair.2
      | some l =>
        obtain ⟨b, hb, -⟩ := number_digits hc hd
        exact iff_of_true (by rw [hb]; rfl) ⟨.inl (by rw [hc]; rfl), by rw [hd]; rfl⟩

end

end Hex
