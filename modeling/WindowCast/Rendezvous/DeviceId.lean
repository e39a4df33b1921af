import WindowCast.Lib.Base32
import WindowCast.Lib.Chunks
import WindowCast.Lib.Luhn
import WindowCast.Lib.Utf8

/-!
# The name of a device

`rendezvous/src/lib.rs`: a device is named by the digest of its certificate, in symbols of
five bits, with a check character behind each thirteen and a dash after each seven.  All
symbols are ASCII, so a text of them is its bytes.

## Main definitions

* `deviceId`, `validDeviceId` — the name, and the check of one.
* `Checked` — what the check asks of the bytes without the dashes.

## Main results

* `checked_inj` — the bytes tell the digest.
* `substitution_inj` — no two checked texts differ in one place.
* `ids_checked` — **a name passes its check and tells the digest, and with one character replaced
  it does not pass.**
-/

namespace WindowCast.Rendezvous

/-! ### The name and its check -/

def BASE32 : List UInt8 :=
  ['A', 'B', 'C', 'D', 'E', 'F', 'G', 'H', 'I', 'J', 'K', 'L', 'M', 'N', 'O', 'P',
    'Q', 'R', 'S', 'T', 'U', 'V', 'W', 'X', 'Y', 'Z', '2', '3', '4', '5', '6', '7'].map fun c => UInt8.ofNat c.toNat

def symbol (d : ℕ) : UInt8 := BASE32.getD d 0

def base32 (data : List UInt8) : List UInt8 := Base32.encode symbol data

def position (b : UInt8) : ℕ := (BASE32.idxOf? b).getD 0

/-- One symbol of a part: the factor and the sum. -/
def luhnStep (s : ℕ × ℕ) (c : UInt8) : ℕ × ℕ :=
  let addend := s.1 * position c
  (if s.1 = 2 then 1 else 2, s.2 + (addend / 32 + addend % 32))

/-- The check character, as its byte. -/
def luhn32 (s : List UInt8) : UInt8 :=
  let (_, sum) := s.foldl luhnStep (1, 0)
  symbol ((32 - sum % 32) % 32)

/-- What SHA-256 makes of bytes. -/
structure Digest where
  bytes : List UInt8
  length_eq : bytes.length = 32

/-- A check character after each thirteen. -/
def checked (b32 : List UInt8) : List UInt8 :=
  (List.range 4).flatMap fun i => Chunks.piece 13 b32 i ++ [luhn32 (Chunks.piece 13 b32 i)]

def charOf (b : UInt8) : Char := Char.ofNat b.toNat

/-- The canonical device ID of a certificate. -/
def deviceId (sha256 : List UInt8 → Digest) (certDer : List UInt8) : Text :=
  let b32 := base32 (sha256 certDer).bytes
  ['-'].intercalate ((Chunks.of 7 (checked b32)).map fun piece => piece.map charOf)

/-- Whether `id` is a well-formed canonical device ID. -/
def validDeviceId (id : Text) : Bool :=
  let plain := Utf8.encode (id.filter (· ≠ '-'))
  plain.length = 56 && plain.all (BASE32.contains ·) &&
    (List.range 4).all fun i => luhn32 ((plain.drop (i * 14)).take 13) == plain.getD (i * 14 + 13) 0

/-! ### The alphabet -/

theorem position_symbol : ∀ d < 32, position (symbol d) = d := by decide

/-- A symbol is a character of one byte, and no dash. -/
theorem charOf_symbol : ∀ d < 32, String.utf8EncodeChar (charOf (symbol d)) = [symbol d] ∧ charOf (symbol d) ≠ '-' := by
  decide

theorem symbol_mem {d : ℕ} (hd : d < 32) : symbol d ∈ BASE32 := by
  have hlt : d < BASE32.length := hd
  rw [symbol, List.getD_eq_getElem _ _ hlt]
  exact List.getElem_mem hlt

theorem exists_symbol {b : UInt8} (hb : b ∈ BASE32) : ∃ d < 32, symbol d = b := by
  obtain ⟨d, hd, rfl⟩ := List.getElem_of_mem hb
  exact ⟨d, hd, List.getD_eq_getElem _ _ hd⟩

theorem position_lt {b : UInt8} (hb : b ∈ BASE32) : position b < 32 := by
  obtain ⟨d, hd, rfl⟩ := exists_symbol hb
  rwa [position_symbol d hd]

theorem charOf_spec {b : UInt8} (hb : b ∈ BASE32) : String.utf8EncodeChar (charOf b) = [b] ∧ charOf b ≠ '-' := by
  obtain ⟨d, hd, rfl⟩ := exists_symbol hb
  exact charOf_symbol d hd

theorem symbol_inj {d d' : ℕ} (hd : d < 32) (hd' : d' < 32) (h : symbol d = symbol d') : d = d' := by
  rw [← position_symbol d hd, h, position_symbol d' hd']

theorem position_inj {b b' : UInt8} (hb : b ∈ BASE32) (hb' : b' ∈ BASE32) (h : position b = position b') : b = b' := by
  obtain ⟨d, hd, rfl⟩ := exists_symbol hb
  obtain ⟨d', hd', rfl⟩ := exists_symbol hb'
  rw [position_symbol d hd, position_symbol d' hd'] at h
  rw [h]

/-! ### The check character -/

theorem foldl_luhnStep (s : List UInt8) (factor sum : ℕ) :
    (s.foldl luhnStep (factor, sum)).2 = sum + Luhn.total 32 factor (s.map position) := by
  induction s generalizing factor sum with
  | nil => rfl
  | cons c s ih =>
    rw [List.foldl_cons, luhnStep, ih, List.map_cons, Luhn.total]
    exact Nat.add_assoc _ _ _

theorem luhn32_eq (s : List UInt8) : luhn32 s = symbol (Luhn.check 32 (s.map position)) := by
  rw [luhn32, Luhn.check]
  dsimp only
  rw [foldl_luhnStep, Nat.zero_add]

theorem luhn32_mem (s : List UInt8) : luhn32 s ∈ BASE32 := by
  rw [luhn32_eq]
  exact symbol_mem (Luhn.check_lt (by decide) _)

/-- Parts that differ in one place have different check characters. -/
theorem luhn32_inj {before after : List UInt8} {b b' : UInt8} (hb : b ∈ BASE32) (hb' : b' ∈ BASE32)
    (h : luhn32 (before ++ b :: after) = luhn32 (before ++ b' :: after)) : b = b' := by
  rw [luhn32_eq, luhn32_eq, List.map_append, List.map_append, List.map_cons, List.map_cons] at h
  have hcheck := symbol_inj (Luhn.check_lt (by decide) _) (Luhn.check_lt (by decide) _) h
  exact position_inj hb hb' (Luhn.check_inj (by decide) (position_lt hb) (position_lt hb') hcheck)

/-! ### What the check asks -/

/-- Four parts of thirteen symbols, each with its check character. -/
structure Checked (bytes : List UInt8) : Prop where
  length_eq : bytes.length = 56
  symbols : ∀ b ∈ bytes, b ∈ BASE32
  checks : ∀ i < 4, luhn32 ((bytes.drop (i * 14)).take 13) = bytes.getD (i * 14 + 13) 0

theorem validDeviceId_iff (id : Text) :
    validDeviceId id = true ↔ Checked (Utf8.encode (id.filter (· ≠ '-'))) := by
  rw [validDeviceId]
  simp only [Bool.and_eq_true, decide_eq_true_eq, List.all_eq_true, List.contains_iff_mem, List.mem_range, beq_iff_eq]
  constructor
  · rintro ⟨⟨hlength, hsymbols⟩, hchecks⟩
    exact ⟨hlength, hsymbols, hchecks⟩
  · rintro ⟨hlength, hsymbols, hchecks⟩
    exact ⟨⟨hlength, hsymbols⟩, hchecks⟩

/-- **No two checked texts differ in one place**: not in a part, and not in a check character. -/
theorem substitution_inj {before after : List UInt8} {b b' : UInt8} (h : Checked (before ++ b :: after))
    (h' : Checked (before ++ b' :: after)) : b = b' := by
  have hb : b ∈ BASE32 := h.symbols b (List.mem_append_right _ List.mem_cons_self)
  have hb' : b' ∈ BASE32 := h'.symbols b' (List.mem_append_right _ List.mem_cons_self)
  have hlength : before.length + (after.length + 1) = 56 := by
    rw [← h.length_eq, List.length_append, List.length_cons]
  obtain ⟨i, hi, hstart, hend⟩ : ∃ i < 4, i * 14 ≤ before.length ∧ before.length < i * 14 + 14 :=
    ⟨before.length / 14, by omega, by omega, by omega⟩
  -- the block of the place, from its beginning on
  have hdrop (x : UInt8) : (before ++ x :: after).drop (i * 14) = before.drop (i * 14) ++ x :: after :=
    List.drop_append_of_le_length hstart
  have hfirst : (before.drop (i * 14)).length = before.length - i * 14 := List.length_drop
  have hcheck := h.checks i hi
  have hcheck' := h'.checks i hi
  have hlast (x : UInt8) : (before ++ x :: after).getD (i * 14 + 13) 0 =
      (before.drop (i * 14) ++ x :: after).getD 13 0 := by
    rw [← hdrop, List.getD_eq_getElem?_getD, List.getD_eq_getElem?_getD, List.getElem?_drop]
  rw [hdrop, hlast] at hcheck hcheck'
  generalize before.drop (i * 14) = first at hfirst hcheck hcheck'
  -- the place is in the part, or it is the check character
  rcases Nat.lt_or_ge first.length 13 with hpart | hpart
  · have htake (x : UInt8) : (first ++ x :: after).take 13 = first ++ x :: after.take (12 - first.length) := by
      rw [List.take_append, List.take_of_length_le (by omega),
        show 13 - first.length = 12 - first.length + 1 by omega, List.take_succ_cons]
    have hsame : (first ++ b :: after).getD 13 0 = (first ++ b' :: after).getD 13 0 := by
      rw [List.getD_append_right _ _ _ _ (by omega), List.getD_append_right _ _ _ _ (by omega),
        show 13 - first.length = 12 - first.length + 1 by omega, List.getD_cons_succ, List.getD_cons_succ]
    rw [htake] at hcheck hcheck'
    exact luhn32_inj hb hb' (hcheck.trans (hsame.trans hcheck'.symm))
  · have hthirteen : first.length = 13 := by omega
    have htake (x : UInt8) : (first ++ x :: after).take 13 = first := List.take_left' hthirteen
    have hplace (x : UInt8) : (first ++ x :: after).getD 13 0 = x := by
      rw [List.getD_append_right _ _ _ _ (by omega), hthirteen, Nat.sub_self, List.getD_cons_zero]
    rw [htake, hplace] at hcheck hcheck'
    exact hcheck.symm.trans hcheck'

/-! ### Names and their digests -/

/-- Of pieces without a dash, joined by dashes, what is not a dash is the pieces. -/
theorem filter_intercalate {pieces : List Text} (h : ∀ piece ∈ pieces, '-' ∉ piece) :
    (['-'].intercalate pieces).filter (· ≠ '-') = pieces.flatten := by
  have hkeep {piece : Text} (hpiece : '-' ∉ piece) : piece.filter (· ≠ '-') = piece := by
    rw [List.filter_eq_self]
    exact fun c hc => decide_eq_true fun heq => hpiece (heq ▸ hc)
  rw [List.intercalate]
  induction pieces with
  | nil => rfl
  | cons piece pieces ih =>
    have hpiece := hkeep (h piece List.mem_cons_self)
    have hrest := ih fun p hp => h p (List.mem_cons_of_mem _ hp)
    cases pieces with
    | nil =>
      rw [List.intersperse_singleton, List.flatten_singleton]
      exact hpiece
    | cons second pieces =>
      rw [List.intersperse_cons_cons, List.flatten_cons, List.flatten_cons, List.filter_append, List.filter_append,
        hrest, hpiece]
      rfl

theorem encode_map_charOf {bytes : List UInt8} (h : ∀ b ∈ bytes, b ∈ BASE32) :
    Utf8.encode (bytes.map charOf) = bytes := by
  induction bytes with
  | nil => rfl
  | cons b bytes ih =>
    have hb := (charOf_spec (h b List.mem_cons_self)).1
    rw [List.map_cons, Utf8.encode, List.flatMap_cons, hb, ← Utf8.encode,
      ih fun c hc => h c (List.mem_cons_of_mem _ hc)]
    rfl

variable {b32 : List UInt8}

theorem mem_checked (h : ∀ b ∈ b32, b ∈ BASE32) : ∀ b ∈ checked b32, b ∈ BASE32 := by
  intro b hb
  obtain ⟨i, -, hb⟩ := List.mem_flatMap.mp hb
  rcases List.mem_append.mp hb with hb | hb
  · exact h b (List.mem_of_mem_drop (List.mem_of_mem_take hb))
  · rw [List.mem_singleton.mp hb]
    exact luhn32_mem _

/-- Without its dashes a name is the symbols and their check characters. -/
theorem encode_filter_deviceId (sha256 : List UInt8 → Digest) (certDer : List UInt8)
    (h : ∀ b ∈ base32 (sha256 certDer).bytes, b ∈ BASE32) :
    Utf8.encode ((deviceId sha256 certDer).filter (· ≠ '-')) = checked (base32 (sha256 certDer).bytes) := by
  have hsymbols := mem_checked h
  have hflat : ((Chunks.of 7 (checked (base32 (sha256 certDer).bytes))).map fun piece => piece.map charOf).flatten =
      (checked (base32 (sha256 certDer).bytes)).map charOf := by
    rw [← List.map_flatten, Chunks.flatten_of (by decide)]
  rw [deviceId, filter_intercalate, hflat, encode_map_charOf hsymbols]
  intro piece hpiece hdash
  obtain ⟨bytes, hbytes, rfl⟩ := List.mem_map.mp hpiece
  obtain ⟨b, hb, heq⟩ := List.mem_map.mp hdash
  have hmem : b ∈ checked (base32 (sha256 certDer).bytes) := by
    have hwhole : (Chunks.of 7 (checked (base32 (sha256 certDer).bytes))).flatten = _ := Chunks.flatten_of (by decide)
    rw [← hwhole]
    exact List.mem_flatten.mpr ⟨bytes, hbytes, hb⟩
  exact (charOf_spec (hsymbols b hmem)).2 heq

/-- The symbols of a digest: there are 52 of them. -/
theorem base32_digest (digest : Digest) :
    (base32 digest.bytes).length = 52 ∧ ∀ b ∈ base32 digest.bytes, b ∈ BASE32 := by
  obtain ⟨zeros, hzeros, hcount, -, hlt⟩ := Base32.value_groups digest.bytes
  rw [digest.length_eq] at hcount
  rw [base32, Base32.encode_eq_map]
  constructor
  · rw [List.length_map]
    omega
  · intro b hb
    obtain ⟨d, hd, rfl⟩ := List.mem_map.mp hb
    exact symbol_mem (hlt d hd)

theorem length_piece_of_lt (hlength : b32.length = 52) {i : ℕ} (hi : i < 4) : (Chunks.piece 13 b32 i).length = 13 := by
  rw [Chunks.length_piece, hlength]
  omega

theorem length_row (hlength : b32.length = 52) {i : ℕ} (hi : i ∈ List.range 4) :
    (Chunks.piece 13 b32 i ++ [luhn32 (Chunks.piece 13 b32 i)]).length = 14 := by
  rw [List.length_append, List.length_singleton, length_piece_of_lt hlength (List.mem_range.mp hi)]

/-- Block `i` of what is checked begins with part `i` and its check character. -/
theorem drop_checked (hlength : b32.length = 52) {i : ℕ} (hi : i < 4) :
    ∃ rest, (checked b32).drop (i * 14) = Chunks.piece 13 b32 i ++ luhn32 (Chunks.piece 13 b32 i) :: rest := by
  have hrows : ∀ row ∈ (List.range 4).map fun i => Chunks.piece 13 b32 i ++ [luhn32 (Chunks.piece 13 b32 i)],
      row.length = 14 := by
    intro row hrow
    obtain ⟨j, hj, rfl⟩ := List.mem_map.mp hrow
    exact length_row hlength hj
  rw [checked, List.flatMap_def, Chunks.drop_flatten hrows, ← List.map_drop, List.drop_eq_getElem_cons]
  · rw [List.map_cons, List.flatten_cons, List.getElem_range, List.append_assoc]
    exact ⟨_, rfl⟩
  · rwa [List.length_range]

theorem checked_checked (hlength : b32.length = 52) (hsymbols : ∀ b ∈ b32, b ∈ BASE32) : Checked (checked b32) := by
  refine ⟨?_, mem_checked hsymbols, fun i hi => ?_⟩
  · rw [checked, List.length_flatMap, List.map_congr_left fun i hi => length_row hlength hi]
    rfl
  · obtain ⟨rest, hrest⟩ := drop_checked hlength hi
    have hpiece := length_piece_of_lt hlength hi
    have hplace : (checked b32).getD (i * 14 + 13) 0 = luhn32 (Chunks.piece 13 b32 i) := by
      rw [List.getD_eq_getElem?_getD, ← List.getElem?_drop, hrest, List.getElem?_append_right (by omega), hpiece]
      rfl
    rw [hplace, hrest, List.take_left' hpiece]

/-- **The bytes tell the digest.** -/
theorem checked_inj {digest digest' : Digest} (h : checked (base32 digest.bytes) = checked (base32 digest'.bytes)) :
    digest.bytes = digest'.bytes := by
  obtain ⟨hlength, -⟩ := base32_digest digest
  obtain ⟨hlength', -⟩ := base32_digest digest'
  have hpieces (i : ℕ) (hi : i ∈ List.range 4) :
      Chunks.piece 13 (base32 digest.bytes) i = Chunks.piece 13 (base32 digest'.bytes) i := by
    have hi := List.mem_range.mp hi
    obtain ⟨rest, hrest⟩ := drop_checked hlength hi
    obtain ⟨rest', hrest'⟩ := drop_checked hlength' hi
    rw [h, hrest'] at hrest
    exact (List.append_inj_left hrest (by
      rw [length_piece_of_lt hlength hi, length_piece_of_lt hlength' hi])).symm
  -- the parts are the symbols, and the symbols the groups
  have hall := congrArg List.flatten (List.map_congr_left hpieces)
  rw [Chunks.flatten_pieces, Chunks.flatten_pieces, List.take_of_length_le (by omega),
    List.take_of_length_le (by omega)] at hall
  rw [base32, base32, Base32.encode_eq_map, Base32.encode_eq_map] at hall
  obtain ⟨-, -, -, -, hlt⟩ := Base32.value_groups digest.bytes
  obtain ⟨-, -, -, -, hlt'⟩ := Base32.value_groups digest'.bytes
  have hgroups := congrArg (List.map position) hall
  rw [List.map_map, List.map_map] at hgroups
  have hback {l : List ℕ} (hl : ∀ d ∈ l, d < 32) : l.map (position ∘ symbol) = l :=
    (List.map_congr_left fun d hd => position_symbol d (hl d hd)).trans (List.map_id l)
  rw [hback hlt, hback hlt'] at hgroups
  exact Base32.groups_inj (by rw [digest.length_eq, digest'.length_eq]) hgroups

/-! ### Characters that are replaced -/

theorem encode_append (before after : Text) :
    Utf8.encode (before ++ after) = Utf8.encode before ++ Utf8.encode after := List.flatMap_append

/-- A character that is written in symbols is one of them. -/
theorem eq_charOf {c : Char} (h : ∀ b ∈ Utf8.encode [c], b ∈ BASE32) : ∃ b, Utf8.encode [c] = [b] ∧ c = charOf b := by
  -- the bytes are those of the symbols' characters, and they tell the characters
  have hchars : Utf8.decode (Utf8.encode ((Utf8.encode [c]).map charOf)) = Utf8.decode (Utf8.encode [c]) :=
    congrArg Utf8.decode (encode_map_charOf h)
  rw [Utf8.decode_encode, Utf8.decode_encode] at hchars
  have hmap := Option.some.inj hchars
  obtain ⟨b, bytes, hbytes⟩ : ∃ b bytes, Utf8.encode [c] = b :: bytes :=
    List.exists_cons_of_ne_nil fun hnil => by
      rw [hnil] at hmap
      cases hmap
  rw [hbytes, List.map_cons] at hmap
  obtain ⟨hc, hrest⟩ := List.cons.inj hmap
  rw [List.map_eq_nil_iff.mp hrest] at hbytes
  exact ⟨b, hbytes, hc.symm⟩

/-- Checked texts of the same characters but one have that one in common, too. -/
theorem char_inj {before after : Text} {c c' : Char} (h : Checked (Utf8.encode (before ++ c :: after)))
    (h' : Checked (Utf8.encode (before ++ c' :: after))) : c = c' := by
  have hsplit (d : Char) : Utf8.encode (before ++ d :: after) =
      Utf8.encode before ++ (Utf8.encode [d] ++ Utf8.encode after) := by
    rw [List.append_cons, encode_append, encode_append, List.append_assoc]
  have hsymbol {d : Char} (hd : Checked (Utf8.encode (before ++ d :: after))) :
      ∃ b, Utf8.encode [d] = [b] ∧ d = charOf b := by
    refine eq_charOf fun b hb => hd.symbols b ?_
    rw [hsplit]
    exact List.mem_append_right _ (List.mem_append_left _ hb)
  obtain ⟨b, hb, rfl⟩ := hsymbol h
  obtain ⟨b', hb', rfl⟩ := hsymbol h'
  rw [hsplit, hb] at h
  rw [hsplit, hb'] at h'
  rw [substitution_inj h h']

/-- A checked text is not checked with one more character. -/
theorem not_checked_of_insert {before after : Text} {c : Char} (h : Checked (Utf8.encode (before ++ after))) :
    ¬Checked (Utf8.encode (before ++ c :: after)) := by
  intro h'
  have hlength := h.length_eq
  have hlength' := h'.length_eq
  have hpos := Char.utf8Size_pos c
  rw [encode_append, List.length_append] at hlength
  rw [encode_append, List.length_append, ← List.singleton_append, encode_append, List.length_append,
    Utf8.length_encode [c], Text.utf8Size_cons] at hlength'
  omega

/-- **A name passes its check and tells the digest, and with one character replaced it does not pass**:
for every digest a certificate may have, and every text that passes, with any character in place of
any other. -/
theorem ids_checked :
    (∀ sha256 certDer, validDeviceId (deviceId sha256 certDer) = true) ∧
    (∀ sha256 certDer certDer', deviceId sha256 certDer = deviceId sha256 certDer' →
      (sha256 certDer).bytes = (sha256 certDer').bytes) ∧
    ∀ before after c c', c' ≠ c → validDeviceId (before ++ c :: after) = true →
      validDeviceId (before ++ c' :: after) = false := by
  refine ⟨fun sha256 certDer => ?_, fun sha256 certDer certDer' h => ?_, fun before after c c' hne hvalid => ?_⟩
  · obtain ⟨hlength, hsymbols⟩ := base32_digest (sha256 certDer)
    rw [validDeviceId_iff, encode_filter_deviceId sha256 certDer hsymbols]
    exact checked_checked hlength hsymbols
  · have hplain := congrArg (fun id => Utf8.encode (id.filter (· ≠ '-'))) h
    rw [encode_filter_deviceId sha256 certDer (base32_digest _).2,
      encode_filter_deviceId sha256 certDer' (base32_digest _).2] at hplain
    exact checked_inj hplain
  · rw [validDeviceId_iff, List.filter_append, List.filter_cons] at hvalid
    rw [← Bool.not_eq_true, validDeviceId_iff, List.filter_append, List.filter_cons]
    -- a dash is not looked at, so a text with one in place of a symbol is too short,
    -- and one with a symbol in place of a dash too long
    by_cases hdash : c = '-'
    · have hother : c' ≠ '-' := fun heq => hne (heq.trans hdash.symm)
      rw [if_neg (by simp [hdash])] at hvalid
      rw [if_pos (by simp [hother])]
      exact not_checked_of_insert hvalid
    · rw [if_pos (by simp [hdash])] at hvalid
      by_cases hdash' : c' = '-'
      · rw [if_neg (by simp [hdash'])]
        exact fun h => not_checked_of_insert h hvalid
      · rw [if_pos (by simp [hdash'])]
        exact fun h => hne (char_inj h hvalid)

/-- A name with its check characters. -/
example : validDeviceId "MFZWI3D-BONSGYC-YLTMRWG-C43ENR5-QXGZDMM-FZWI3DP-BONSGYY-LTMRWAD".toList = true := by
  decide +kernel

end WindowCast.Rendezvous
