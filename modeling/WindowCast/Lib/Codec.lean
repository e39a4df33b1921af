import WindowCast.Lib.BigEndian
import WindowCast.Lib.Utf8

/-!
# Values in bytes

A format writes values as bytes one after the other, and reads back nothing but what it
writes.  Formats are put together of smaller ones, and the law with them.

## Main definitions

* `Codec` — a format: a value is read where it was written, and nowhere else.
* `Codec.fixed`, `Codec.raw` — a number, and bytes, of a length that is known.
* `Codec.map`, `Codec.dependent`, `Codec.pair` — formats put together.
* `Codec.bool`, `Codec.tag`, `Codec.i32`, `Codec.option`, `Codec.string` — integers of a fixed size
  with the least significant byte first, a byte for a choice of two, four for one of more,
  and eight for a length.

## Main results

* `Codec.get_put` — **what was written is read**.
* `Codec.decode_eq_some_iff` — **the bytes of one value, and no others, are read to their end**.
-/

namespace BigEndian

theorem ofBytes_lt (l : List UInt8) : ofBytes l < 256 ^ l.length := by
  induction l using List.reverseRecOn with
  | nil => exact Nat.one_pos
  | append_singleton l b ih =>
    have hb := b.toNat_lt
    rw [ofBytes_concat, List.length_append, List.length_singleton, pow_succ]
    omega

/-- What is written of the number that bytes write are those bytes. -/
theorem toBytes_ofBytes (l : List UInt8) : toBytes l.length (ofBytes l) = l := by
  induction l using List.reverseRecOn with
  | nil => rfl
  | append_singleton l b ih =>
    have hb := b.toNat_lt
    have hdiv : (ofBytes l * 256 + b.toNat) / 256 = ofBytes l := by omega
    have hlast : UInt8.ofNat (ofBytes l * 256 + b.toNat) = b := by
      refine UInt8.toNat_inj.mp ?_
      rw [UInt8.toNat_ofNat']
      omega
    rw [ofBytes_concat, List.length_append, List.length_singleton, toBytes, hdiv, ih, hlast]

end BigEndian

namespace LittleEndian

theorem ofBytes_lt (l : List UInt8) : ofBytes l < 256 ^ l.length :=
  (List.length_reverse : l.reverse.length = l.length) ▸ BigEndian.ofBytes_lt l.reverse

theorem toBytes_ofBytes (l : List UInt8) : toBytes l.length (ofBytes l) = l := by
  have hreverse := BigEndian.toBytes_ofBytes l.reverse
  rw [List.length_reverse] at hreverse
  rw [toBytes, ofBytes, hreverse, List.reverse_reverse]

end LittleEndian

/-- A format: how a value is written, and what is read of bytes that begin with one. -/
structure Codec (α : Type) where
  Fits : α → Prop
  put : α → List UInt8
  get : List UInt8 → Option (α × List UInt8)
  /-- A value is read where it was written, and nowhere else. -/
  get_eq_some_iff : ∀ {bytes a rest}, get bytes = some (a, rest) ↔ Fits a ∧ bytes = put a ++ rest

namespace Codec

variable {α β : Type}

/-! ### Putting formats together -/

/-- One value, for which nothing is written. -/
def const (a : α) : Codec α where
  Fits b := b = a
  put _ := []
  get bytes := some (a, bytes)
  get_eq_some_iff := by
    intro bytes b rest
    rw [Option.some.injEq, Prod.mk.injEq, List.nil_append, eq_comm (a := a)]

/-- As many bytes as are known to follow. -/
def raw (n : ℕ) : Codec (List UInt8) where
  Fits l := l.length = n
  put := id
  get bytes := if n ≤ bytes.length then some (bytes.take n, bytes.drop n) else none
  get_eq_some_iff := by
    intro bytes l rest
    constructor
    · intro h
      split at h
      · rename_i hle
        obtain ⟨rfl, rfl⟩ := Prod.mk.inj (Option.some.inj h)
        exact ⟨List.length_take_of_le hle, (List.take_append_drop n bytes).symm⟩
      · cases h
    · rintro ⟨rfl, rfl⟩
      rw [if_pos (by rw [List.length_append]; exact Nat.le_add_right _ _)]
      exact congrArg some (Prod.ext (List.take_left' rfl) (List.drop_left' rfl))

/-- Some values of a format, taken for others. -/
def map (codec : Codec α) (f : α ≃. β) : Codec β where
  Fits b := ∃ a, f.symm b = some a ∧ codec.Fits a
  put b := ((f.symm b).map codec.put).getD []
  get bytes := (codec.get bytes).bind fun p => (f p.1).map fun b => (b, p.2)
  get_eq_some_iff := by
    intro bytes b rest
    constructor
    · intro hget
      obtain ⟨⟨a, behind⟩, ha, hf⟩ := Option.bind_eq_some_iff.mp hget
      obtain ⟨b', hb', heq⟩ := Option.map_eq_some_iff.mp hf
      obtain ⟨rfl, rfl⟩ := Prod.mk.inj heq
      obtain ⟨hfits, hbytes⟩ := codec.get_eq_some_iff.mp ha
      have hsymm : f.symm b' = some a := f.eq_some_iff.mpr hb'
      exact ⟨⟨a, hsymm, hfits⟩, by rw [hsymm]; exact hbytes⟩
    · rintro ⟨⟨a, hsymm, hfits⟩, hbytes⟩
      rw [hsymm] at hbytes
      refine Option.bind_eq_some_iff.mpr ⟨_, codec.get_eq_some_iff.mpr ⟨hfits, hbytes⟩, ?_⟩
      have hf : f a = some b := f.eq_some_iff.mp hsymm
      rw [hf]
      rfl

/-- A value behind another one that says in what format it is, and that is known of it. -/
def dependent (codec : Codec α) (body : α → Codec β) (key : β → α) (h : ∀ a b, (body a).Fits b → key b = a) :
    Codec β where
  Fits b := codec.Fits (key b) ∧ (body (key b)).Fits b
  put b := codec.put (key b) ++ (body (key b)).put b
  get bytes := (codec.get bytes).bind fun p => (body p.1).get p.2
  get_eq_some_iff := by
    intro bytes b rest
    constructor
    · intro hget
      obtain ⟨⟨a, behind⟩, ha, hb⟩ := Option.bind_eq_some_iff.mp hget
      obtain ⟨hfits, rfl⟩ := codec.get_eq_some_iff.mp ha
      obtain ⟨hbody, rfl⟩ := (body a).get_eq_some_iff.mp hb
      -- what was read first is what is known of the value
      obtain rfl := h a b hbody
      exact ⟨⟨hfits, hbody⟩, (List.append_assoc _ _ _).symm⟩
    · rintro ⟨⟨hfits, hbody⟩, rfl⟩
      refine Option.bind_eq_some_iff.mpr ⟨(key b, (body (key b)).put b ++ rest), ?_, ?_⟩
      · exact codec.get_eq_some_iff.mpr ⟨hfits, List.append_assoc _ _ _⟩
      · exact (body (key b)).get_eq_some_iff.mpr ⟨hbody, rfl⟩

/-- One value behind another. -/
def pair (first : Codec α) (second : Codec β) : Codec (α × β) where
  Fits p := first.Fits p.1 ∧ second.Fits p.2
  put p := first.put p.1 ++ second.put p.2
  get bytes := (first.get bytes).bind fun p => (second.get p.2).map fun q => ((p.1, q.1), q.2)
  get_eq_some_iff := by
    rintro bytes ⟨a, b⟩ rest
    constructor
    · intro hget
      obtain ⟨⟨a', behind⟩, ha, hb⟩ := Option.bind_eq_some_iff.mp hget
      obtain ⟨⟨b', rest'⟩, hb', heq⟩ := Option.map_eq_some_iff.mp hb
      cases heq
      obtain ⟨hfirst, rfl⟩ := first.get_eq_some_iff.mp ha
      obtain ⟨hsecond, rfl⟩ := second.get_eq_some_iff.mp hb'
      exact ⟨⟨hfirst, hsecond⟩, (List.append_assoc _ _ _).symm⟩
    · rintro ⟨⟨hfirst, hsecond⟩, rfl⟩
      refine Option.bind_eq_some_iff.mpr ⟨(a, second.put b ++ rest), ?_, ?_⟩
      · exact first.get_eq_some_iff.mpr ⟨hfirst, List.append_assoc _ _ _⟩
      · exact Option.map_eq_some_iff.mpr ⟨(b, rest), second.get_eq_some_iff.mpr ⟨hsecond, rfl⟩, rfl⟩

/-- The format of nothing. -/
def fail : Codec α where
  Fits _ := False
  put _ := []
  get _ := none
  get_eq_some_iff := iff_of_false nofun fun h => h.1

/-! ### Numbers and choices -/

/-- The values of which a number is the index. -/
def indexed (of : ℕ → Option α) (index : α → ℕ) (h : ∀ n a, of n = some a ↔ n = index a) : ℕ ≃. α where
  toFun := of
  invFun a := some (index a)
  inv n a := ⟨fun hn => (h n a).mpr (Option.some.inj hn).symm, fun ha => congrArg some ((h n a).mp ha).symm⟩

/-- A number of `n` bytes, the least significant first. -/
def fixed (n : ℕ) : Codec ℕ where
  Fits x := x < 256 ^ n
  put x := LittleEndian.toBytes n x
  get bytes := ((raw n).get bytes).map fun p => (LittleEndian.ofBytes p.1, p.2)
  get_eq_some_iff := by
    intro bytes x rest
    constructor
    · intro hget
      obtain ⟨⟨l, rest'⟩, hl, heq⟩ := Option.map_eq_some_iff.mp hget
      cases heq
      obtain ⟨hlength, rfl⟩ := (raw n).get_eq_some_iff.mp hl
      subst hlength
      exact ⟨LittleEndian.ofBytes_lt l, by rw [LittleEndian.toBytes_ofBytes]; rfl⟩
    · rintro ⟨hlt, rfl⟩
      refine Option.map_eq_some_iff.mpr ⟨(LittleEndian.toBytes n x, rest), ?_, ?_⟩
      · exact (raw n).get_eq_some_iff.mpr ⟨LittleEndian.length_toBytes n x, rfl⟩
      · rw [LittleEndian.ofBytes_toBytes_of_lt hlt]

/-- A choice of two. -/
def bool : Codec Bool :=
  (fixed 1).map (indexed (fun n => if n = 0 then some false else if n = 1 then some true else none) Bool.toNat
    (by
      rintro n (_ | _)
      · by_cases hn : n = 0 <;> simp [hn]
      · by_cases hn : n = 0 <;> simp [hn]))

/-- A choice of more. -/
def tag : Codec ℕ := fixed 4

def i32 : Codec Int32 :=
  (fixed 4).map (indexed (fun n => if n < 2 ^ 32 then some (UInt32.ofNat n).toInt32 else none)
    (fun x => x.toUInt32.toNat) (by
      intro n x
      have hx := x.toUInt32.toNat_lt
      constructor
      · intro h
        split at h
        · rename_i hlt
          obtain rfl := Option.some.inj h
          exact (UInt32.toNat_ofNat_of_lt' hlt).symm
        · cases h
      · rintro rfl
        rw [if_pos hx, UInt32.ofNat_toNat]
        rfl))

/-- One of the values that are listed. -/
def enumeration [DecidableEq α] (variants : List α) (hnodup : variants.Nodup) (hall : ∀ a, a ∈ variants) : Codec α :=
  tag.map (indexed (fun n => variants[n]?) (fun a => variants.idxOf a) (by
    intro n a
    constructor
    · intro h
      obtain ⟨hlt, rfl⟩ := List.getElem?_eq_some_iff.mp h
      exact (hnodup.idxOf_getElem n hlt).symm
    · rintro rfl
      exact List.getElem?_eq_some_iff.mpr ⟨List.idxOf_lt_length_of_mem (hall a), List.getElem_idxOf _⟩))

def option (codec : Codec α) : Codec (Option α) :=
  bool.dependent
    (fun
      | false => const none
      | true => codec.map ⟨fun a => some (some a), id, fun a o => by simp [eq_comm]⟩)
    Option.isSome (by
      rintro (_ | _) o ho
      · rw [show o = none from ho]
        rfl
      · obtain ⟨a, rfl, -⟩ := ho
        rfl)

/-- The bytes of a text. -/
def utf8 : List UInt8 ≃. Text where
  toFun := Utf8.decode
  invFun text := some (Utf8.encode text)
  inv bytes text := ⟨fun h => by rw [← Option.some.inj h, Utf8.decode_encode], fun h => by rw [Utf8.encode_of_decode h]⟩

/-- A text, behind its length. -/
def string : Codec Text :=
  (fixed 8).dependent (fun n => (raw n).map utf8) Text.utf8Size (by
    rintro _ text ⟨bytes, hbytes, rfl⟩
    obtain rfl := Option.some.inj hbytes
    exact (Utf8.length_encode text).symm)

/-! ### What fits, and how long it is -/

section

variable {of : ℕ → Option α} {index : α → ℕ} {h : ∀ n a, of n = some a ↔ n = index a} {n : ℕ} {a : α}

theorem fits_indexed (hlt : index a < 256 ^ n) : ((fixed n).map (indexed of index h)).Fits a := ⟨_, rfl, hlt⟩

@[simp] theorem length_put_bool (b : Bool) : (bool.put b).length = 1 := LittleEndian.length_toBytes _ _

@[simp] theorem length_put_i32 (x : Int32) : (i32.put x).length = 4 := LittleEndian.length_toBytes _ _

theorem fits_bool (b : Bool) : bool.Fits b := fits_indexed (by cases b <;> decide)

theorem fits_i32 (x : Int32) : i32.Fits x := fits_indexed x.toUInt32.toNat_lt

@[simp] theorem length_put_enumeration [DecidableEq α] {variants : List α} {hnodup : variants.Nodup}
    {hall : ∀ a, a ∈ variants} : ((enumeration variants hnodup hall).put a).length = 4 :=
  LittleEndian.length_toBytes _ _

theorem fits_enumeration [DecidableEq α] {variants : List α} {hnodup : variants.Nodup} {hall : ∀ a, a ∈ variants}
    (hlength : variants.length ≤ 256 ^ 4) : (enumeration variants hnodup hall).Fits a :=
  fits_indexed ((List.idxOf_lt_length_of_mem (hall a)).trans_le hlength)

theorem fits_tag (hlt : n < 256 ^ 4) : tag.Fits n := hlt

variable {codec : Codec α}

theorem put_none : (option codec).put none = bool.put false := List.append_nil _

theorem put_some : (option codec).put (some a) = bool.put true ++ codec.put a := rfl

theorem fits_none : (option codec).Fits none := ⟨fits_bool false, rfl⟩

theorem fits_some (h : codec.Fits a) : (option codec).Fits (some a) := ⟨fits_bool true, a, rfl, h⟩

theorem put_string (text : Text) : string.put text = LittleEndian.toBytes 8 text.utf8Size ++ Utf8.encode text := rfl

theorem fits_string {text : Text} (h : text.utf8Size < 256 ^ 8) : string.Fits text :=
  ⟨h, _, rfl, Utf8.length_encode text⟩

end

/-! ### One value -/

section

variable (codec : Codec α) {a : α} {bytes rest : List UInt8}

/-- **What was written is read.** -/
theorem get_put (h : codec.Fits a) (rest : List UInt8) : codec.get (codec.put a ++ rest) = some (a, rest) :=
  codec.get_eq_some_iff.mpr ⟨h, rfl⟩

/-- The value that bytes are, to their end. -/
def decode (bytes : List UInt8) : Option α :=
  match codec.get bytes with
  | some (a, []) => some a
  | _ => none

/-- **The bytes of one value, and no others, are read to their end.** -/
theorem decode_eq_some_iff : codec.decode bytes = some a ↔ codec.Fits a ∧ bytes = codec.put a := by
  rw [decode]
  constructor
  · intro h
    split at h
    · rename_i hget
      cases h
      obtain ⟨hfits, hbytes⟩ := codec.get_eq_some_iff.mp hget
      exact ⟨hfits, by rw [hbytes, List.append_nil]⟩
    · cases h
  · rintro ⟨hfits, rfl⟩
    have hget := codec.get_put hfits []
    rw [List.append_nil] at hget
    rw [hget]

end

end Codec
