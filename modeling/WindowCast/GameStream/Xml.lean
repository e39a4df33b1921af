import WindowCast.Lib.Hex

/-!
# Bytes in a query

What a host answers a client's pairing with, and the bytes that come in hex (`xml.rs`).

## Main definitions

* `Xml.response` — a response document.
* `Xml.encodeHex`, `Xml.decodeHex` — bytes as text, and back.
* `Right` — what reading a text is to give.

## Main results

* `decodeHex_encodeHex` — what is written is read back.
* `decodeHex_isSome_iff` — **when reading returns**.
* `reads_right_iff` — **when it gives what it should**.
-/

namespace WindowCast.GameStream

namespace Xml

def escape (text : Text) : Text :=
  text.flatMap fun c =>
    if c = '&' then "&amp;".toList
    else if c = '<' then "&lt;".toList
    else if c = '>' then "&gt;".toList
    else if c = '"' then "&quot;".toList
    else if c = '\'' then "&apos;".toList
    else [c]

/-- A response document: a status, an optional message, and elements. -/
def response (statusCode : ℕ) (message : Option Text) (elements : List (Text × Text)) : Text :=
  "<?xml version=\"1.0\" encoding=\"utf-8\"?>\n<root status_code=\"".toList ++ Nat.toDigits 10 statusCode ++ ['"'] ++
    (match message with
    | some message => " status_message=\"".toList ++ escape message ++ ['"']
    | none => []) ++ ['>'] ++
    (elements.flatMap fun e => '<' :: e.1 ++ '>' :: escape e.2 ++ "</".toList ++ e.1 ++ ['>']) ++ "</root>".toList

def encodeHex (bytes : List UInt8) : Text := Hex.encode bytes

/-- The slices of two bytes, each as a number, up to the first that is none; a panic,
where a slice ends inside a character. -/
def readPairs : ℕ → Text → Option (Option (List UInt8))
  | 0, _ => some (some [])
  | n + 1, text =>
    match text.splitAtByte 2 with
    | none => none
    | some (digits, rest) =>
      match Hex.number digits with
      | none => some none
      | some b => (readPairs n rest).map fun answer => answer.map (b :: ·)

/-- The bytes of a text, if it is hex; none, where it panics. -/
def decodeHex (text : Text) : Option (Option (List UInt8)) :=
  if text.trim.utf8Size % 2 = 0 then readPairs (text.trim.utf8Size / 2) text.trim else some none

/-! ### Slices of two bytes -/

/-- The first two bytes of a text are one character or two. -/
def Whole : Text → Prop
  | [] => False
  | [c] => c.utf8Size = 2
  | c :: d :: _ => c.utf8Size = 2 ∨ c.utf8Size = 1 ∧ d.utf8Size = 1

instance : ∀ text : Text, Decidable (Whole text)
  | [] => inferInstanceAs (Decidable False)
  | [c] => inferInstanceAs (Decidable (c.utf8Size = 2))
  | c :: d :: _ => inferInstanceAs (Decidable (c.utf8Size = 2 ∨ c.utf8Size = 1 ∧ d.utf8Size = 1))

section

variable {c d : Char} {n : ℕ} {text rest : Text} {bytes : List UInt8}

theorem splitAtByte_eq_none (h : ¬ Whole text) : Text.splitAtByte 2 text = none := by
  match text with
  | [] => rfl
  | [c] =>
    have hpos := c.utf8Size_pos
    have hc : ¬ c.utf8Size = 2 := h
    rw [Text.splitAtByte]
    split
    · have hone : 1 + 1 - c.utf8Size = 0 + 1 := by omega
      rw [hone]
      rfl
    · rfl
  | c :: d :: rest =>
    have hpos := c.utf8Size_pos
    have hpos' := d.utf8Size_pos
    obtain ⟨hc, hd⟩ := not_or.mp h
    rw [Text.splitAtByte]
    split
    · rename_i hle
      have hone : 1 + 1 - c.utf8Size = 0 + 1 := by omega
      rw [hone, Text.splitAtByte, if_neg fun hle' => hd ⟨by omega, by omega⟩]
      rfl
    · rfl

/-- Where a text begins with no pair, its first slice ends the reading. -/
theorem readPairs_of_not_pair (hne : text ≠ []) (hpair : ∀ c d rest, text = c :: d :: rest → ¬ Hex.IsPair c d) :
    readPairs (n + 1) text = if Whole text then some none else none := by
  by_cases hwhole : Whole text
  · rw [if_pos hwhole, readPairs]
    match text, hwhole, hpair with
    | [c], hc, _ =>
      rw [Text.splitAtByte_two hc]
      dsimp only
      rw [Hex.number_singleton fun hone => absurd (Eq.trans (Eq.symm hc) hone) (by decide)]
    | c :: d :: rest, Or.inl hc, _ =>
      rw [Text.splitAtByte_two hc]
      dsimp only
      rw [Hex.number_singleton fun hone => absurd (hc.symm.trans hone) (by decide)]
    | c :: d :: rest, Or.inr ⟨hc, hd⟩, hpair =>
      rw [Text.splitAtByte_ones hc hd]
      dsimp only
      rw [Option.not_isSome_iff_eq_none.mp (mt Hex.number_pair_isSome.mp (hpair c d rest rfl))]
  · rw [if_neg hwhole, readPairs, splitAtByte_eq_none hwhole]

/-- What reading the slices gives depends on what is left behind the pairs. -/
theorem readPairs_spec (text : Text) (hsize : text.utf8Size = 2 * n) :
    (Hex.behind text = [] → ∃ bytes, readPairs n text = some (some bytes)) ∧
      (Hex.behind text ≠ [] → readPairs n text = if Whole (Hex.behind text) then some none else none) := by
  fun_induction Hex.behind text generalizing n with
  | case1 c d rest hpair ih =>
    obtain ⟨hc, hd⟩ := hpair.utf8Size
    rw [Text.utf8Size_cons, Text.utf8Size_cons, hc, hd] at hsize
    obtain ⟨n, rfl⟩ : ∃ m, n = m + 1 := ⟨n - 1, by omega⟩
    have hrest : Text.utf8Size rest = 2 * n := by omega
    obtain ⟨b, hb⟩ := Option.isSome_iff_exists.mp (Hex.number_pair_isSome.mpr hpair)
    rw [readPairs, Text.splitAtByte_ones hc hd]
    dsimp only
    rw [hb]
    refine ⟨fun hnil => ?_, fun hne => ?_⟩
    · obtain ⟨bytes, hbytes⟩ := (ih hrest).1 hnil
      exact ⟨b :: bytes, by rw [hbytes]; rfl⟩
    · dsimp only
      rw [(ih hrest).2 hne]
      by_cases hwhole : Whole (Hex.behind rest)
      · rw [if_pos hwhole]
        rfl
      · rw [if_neg hwhole]
        rfl
  | case2 c d rest hpair =>
    have hpos := c.utf8Size_pos
    rw [Text.utf8Size_cons] at hsize
    obtain ⟨n, rfl⟩ : ∃ m, n = m + 1 := ⟨n - 1, by omega⟩
    refine ⟨fun hnil => absurd hnil (List.cons_ne_nil _ _), fun hne => readPairs_of_not_pair hne ?_⟩
    rintro _ _ _ ⟨⟩
    exact hpair
  | case3 text hshort =>
    cases text with
    | nil =>
      obtain rfl : n = 0 := by
        have hzero : 0 = 2 * n := hsize
        omega
      exact ⟨fun _ => ⟨[], rfl⟩, fun hne => absurd rfl hne⟩
    | cons c rest =>
      have hpos := c.utf8Size_pos
      rw [Text.utf8Size_cons] at hsize
      obtain ⟨n, rfl⟩ : ∃ m, n = m + 1 := ⟨n - 1, by omega⟩
      refine ⟨fun hnil => absurd hnil (List.cons_ne_nil _ _), fun hne => readPairs_of_not_pair hne ?_⟩
      exact fun c' d' rest' htext => absurd htext (hshort c' d' rest')

/-- The bytes of digits, written again, are the digits in lower case. -/
theorem readPairs_digits (hbehind : Hex.behind text = []) (hplus : '+' ∉ text)
    (hread : readPairs n text = some (some bytes)) (hsize : text.utf8Size = 2 * n) :
    Hex.encode bytes = text.map Char.toLower ∧ ∀ c ∈ text, (Hex.digit c).isSome := by
  fun_induction Hex.behind text generalizing n bytes with
  | case1 c d rest hpair ih =>
    obtain ⟨hc, hd⟩ := hpair.utf8Size
    rw [Text.utf8Size_cons, Text.utf8Size_cons, hc, hd] at hsize
    obtain ⟨n, rfl⟩ : ∃ m, n = m + 1 := ⟨n - 1, by omega⟩
    have hrest : Text.utf8Size rest = 2 * n := by omega
    simp only [List.mem_cons, not_or] at hplus
    have hdigit : (Hex.digit c).isSome := hpair.1.resolve_right fun h => hplus.1 h.symm
    obtain ⟨h, hh⟩ := Option.isSome_iff_exists.mp hdigit
    obtain ⟨l, hl⟩ := Option.isSome_iff_exists.mp hpair.2
    obtain ⟨b, hb, hbyte⟩ := Hex.number_digits hh hl
    rw [readPairs, Text.splitAtByte_ones hc hd] at hread
    dsimp only at hread
    rw [hb] at hread
    obtain ⟨answer, hanswer, hread⟩ := Option.map_eq_some_iff.mp hread
    obtain ⟨bytes, rfl, rfl⟩ := Option.map_eq_some_iff.mp hread
    obtain ⟨hencode, hall⟩ := ih hbehind hplus.2.2 hanswer hrest
    refine ⟨?_, ?_⟩
    · rw [Hex.encode_cons, hencode, hbyte]
      rfl
    · rw [List.forall_mem_cons, List.forall_mem_cons]
      exact ⟨hdigit, hpair.2, hall⟩
  | case2 c d rest hpair => exact absurd hbehind (List.cons_ne_nil _ _)
  | case3 text hshort =>
    subst hbehind
    obtain rfl : n = 0 := by
      have hzero : 0 = 2 * n := hsize
      omega
    cases hread
    exact ⟨rfl, List.forall_mem_nil _⟩

/-- Nothing is left behind the pairs of an even number of digits. -/
theorem behind_of_digits (heven : text.length % 2 = 0) (hall : ∀ c ∈ text, (Hex.digit c).isSome) :
    Hex.behind text = [] := by
  fun_induction Hex.behind text with
  | case1 c d rest hpair ih =>
    rw [List.forall_mem_cons, List.forall_mem_cons] at hall
    rw [List.length_cons, List.length_cons] at heven
    exact ih (by omega) hall.2.2
  | case2 c d rest hpair =>
    rw [List.forall_mem_cons, List.forall_mem_cons] at hall
    exact absurd ⟨.inl hall.1, hall.2.1⟩ hpair
  | case3 text hshort =>
    match text, hshort with
    | [], _ => rfl
    | [c], _ => cases heven
    | c :: d :: rest, hshort => exact absurd rfl (hshort c d rest)

/-- The bytes of a text of digits are its characters. -/
theorem utf8Size_of_digits (hall : ∀ c ∈ text, (Hex.digit c).isSome) : text.utf8Size = text.length := by
  induction text with
  | nil => rfl
  | cons c text ih =>
    rw [List.forall_mem_cons] at hall
    obtain ⟨n, hn⟩ := Option.isSome_iff_exists.mp hall.1
    rw [Text.utf8Size_cons, Hex.utf8Size_of_digit hn, ih hall.2, List.length_cons, Nat.add_comm]

theorem length_of_behind (hbehind : Hex.behind text = []) : text.length % 2 = 0 := by
  fun_induction Hex.behind text with
  | case1 c d rest hpair ih =>
    rw [List.length_cons, List.length_cons]
    have := ih hbehind
    omega
  | case2 c d rest hpair => exact absurd hbehind (List.cons_ne_nil _ _)
  | case3 text hshort =>
    subst hbehind
    rfl

end

/-! ### Reading a text -/

/-- The text is read as bytes. -/
def Read (text : Text) : Prop := text.trim.utf8Size % 2 = 0 ∧ Hex.behind text.trim = []

/-- No slice of the text ends inside a character, up to the first that is no number. -/
def Sliced (text : Text) : Prop :=
  text.trim.utf8Size % 2 = 1 ∨ Hex.behind text.trim = [] ∨ Whole (Hex.behind text.trim)

instance (text : Text) : Decidable (Read text) := inferInstanceAs (Decidable (_ ∧ _))

instance (text : Text) : Decidable (Sliced text) := inferInstanceAs (Decidable (_ ∨ _ ∨ _))

/-- What reading a text should give: an answer, bytes exactly for an even number of
digits between the blanks, and the bytes that are written so. -/
def Right (text : Text) : Prop :=
  ∃ answer, decodeHex text = some answer ∧
    (answer.isSome ↔ text.trim.length % 2 = 0 ∧ ∀ c ∈ text.trim, (Hex.digit c).isSome) ∧
    ∀ bytes, answer = some bytes → encodeHex bytes = text.trim.map Char.toLower

section

variable {text : Text}

/-- **When reading a text returns.** -/
theorem decodeHex_isSome_iff : (decodeHex text).isSome ↔ Sliced text := by
  rw [decodeHex, Sliced]
  split
  · rename_i heven
    obtain ⟨hpairs, hrest⟩ := readPairs_spec text.trim (n := text.trim.utf8Size / 2) (by omega)
    have hodd : ¬ text.trim.utf8Size % 2 = 1 := by omega
    by_cases hnil : Hex.behind text.trim = []
    · obtain ⟨bytes, hbytes⟩ := hpairs hnil
      exact iff_of_true (by rw [hbytes]; rfl) (.inr (.inl hnil))
    · rw [hrest hnil]
      split
      · rename_i hwhole
        exact iff_of_true rfl (.inr (.inr hwhole))
      · rename_i hwhole
        exact iff_of_false nofun fun h => h.elim hodd fun h => h.elim hnil hwhole
  · exact iff_of_true rfl (.inl (by omega))

/-- When it reads bytes. -/
theorem decodeHex_bytes_iff : (∃ bytes, decodeHex text = some (some bytes)) ↔ Read text := by
  rw [decodeHex, Read]
  split
  · rename_i heven
    obtain ⟨hpairs, hrest⟩ := readPairs_spec text.trim (n := text.trim.utf8Size / 2) (by omega)
    by_cases hnil : Hex.behind text.trim = []
    · exact iff_of_true (hpairs hnil) ⟨heven, hnil⟩
    · rw [hrest hnil]
      refine iff_of_false ?_ fun h => hnil h.2
      split
      · rintro ⟨bytes, h⟩
        cases Option.some.inj h
      · rintro ⟨bytes, ⟨⟩⟩
  · rename_i hodd
    exact iff_of_false (by rintro ⟨bytes, h⟩; cases Option.some.inj h) fun h => hodd h.1

theorem length_of_readPairs {n : ℕ} {text : Text} {bytes : List UInt8} (h : readPairs n text = some (some bytes)) :
    bytes.length = n := by
  induction n generalizing text bytes with
  | zero =>
    cases h
    rfl
  | succ n ih =>
    rw [readPairs] at h
    split at h
    · cases h
    split at h
    · cases h
    obtain ⟨answer, hanswer, h⟩ := Option.map_eq_some_iff.mp h
    obtain ⟨bytes, rfl, rfl⟩ := Option.map_eq_some_iff.mp h
    rw [List.length_cons, ih hanswer]

/-- A byte is read of two. -/
theorem utf8Size_of_decodeHex {bytes : List UInt8} (h : decodeHex text = some (some bytes)) :
    text.trim.utf8Size = 2 * bytes.length := by
  rw [decodeHex] at h
  split at h
  · have hlength := length_of_readPairs h
    omega
  · cases Option.some.inj h

theorem trim_encode (bytes : List UInt8) : Text.trim (Hex.encode bytes) = Hex.encode bytes :=
  Text.trim_of_forall fun c hc => by
    obtain ⟨n, hn, rfl⟩ := Hex.mem_encode hc
    exact (Hex.digitChar_ne n hn).2

/-- **When reading a text gives what it should**: where a slice that is no number is
reached, and where none is, that there is no sign in it. -/
theorem reads_right_iff : Right text ↔ Sliced text ∧ (Read text → '+' ∉ text.trim) := by
  constructor
  · rintro ⟨answer, hanswer, haccepts, -⟩
    refine ⟨decodeHex_isSome_iff.mp (by rw [hanswer]; rfl), fun hread hplus => ?_⟩
    obtain ⟨bytes, hbytes⟩ := decodeHex_bytes_iff.mpr hread
    obtain rfl := Option.some.inj (hanswer.symm.trans hbytes)
    exact absurd ((haccepts.mp rfl).2 '+' hplus) (by decide)
  · rintro ⟨hsliced, hplus⟩
    obtain ⟨answer, hanswer⟩ := Option.isSome_iff_exists.mp (decodeHex_isSome_iff.mpr hsliced)
    refine ⟨answer, hanswer, ?_⟩
    by_cases hread : Read text
    · obtain ⟨bytes, hbytes⟩ := decodeHex_bytes_iff.mpr hread
      obtain rfl := Option.some.inj (hanswer.symm.trans hbytes)
      rw [decodeHex, if_pos hread.1] at hbytes
      obtain ⟨hencode, hall⟩ := readPairs_digits hread.2 (hplus hread) hbytes (by have := hread.1; omega)
      refine ⟨iff_of_true rfl ⟨length_of_behind hread.2, hall⟩, ?_⟩
      rintro _ ⟨⟩
      exact hencode
    · cases answer with
      | some bytes => exact absurd (decodeHex_bytes_iff.mp ⟨bytes, hanswer⟩) hread
      | none =>
        refine ⟨iff_of_false nofun fun ⟨heven, hall⟩ => hread ⟨?_, behind_of_digits heven hall⟩, nofun⟩
        rw [utf8Size_of_digits hall, heven]

/-- **What is written is read back.** -/
theorem decodeHex_encodeHex (bytes : List UInt8) : decodeHex (encodeHex bytes) = some (some bytes) := by
  rw [decodeHex, encodeHex, trim_encode, Hex.utf8Size_encode, Nat.mul_mod_right, if_pos rfl,
    Nat.mul_div_cancel_left _ Nat.two_pos]
  induction bytes with
  | nil => rfl
  | cons b bytes ih =>
    rw [List.length_cons, readPairs, Hex.encode_cons, Hex.splitAtByte_byte]
    dsimp only
    rw [Hex.number_byte, ih]
    rfl

end

end Xml
end WindowCast.GameStream
