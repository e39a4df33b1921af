import WindowCast.GameStream.Xml
import WindowCast.Identity.TrustStore

/-!
# Which lines are keys

A key's line is checked for its bytes and cut at every second of them, and each slice is
given to the standard library's parser.  A slice that ends inside a character is a panic,
and the parser takes a sign for a digit.

## Main definitions

* `PeerId.Exact` — what reading a line should give.
* `PeerId.Sliced` — no slice that is reached ends inside a character.
* `TrustStore.Loadable` — so it is with every line that is reached.

## Main results

* `PeerId.exact_iff_sliced` — **which lines are read as they should be**.
* `TrustStore.load_isSome_iff` — **which files are loaded without a panic**.
-/

namespace WindowCast.Identity

open Accounts (PeerId)
open GameStream.Xml (Whole readPairs)

namespace PeerId

/-- No slice of two bytes ends inside a character, up to the first that is no number. -/
def Sliced (text : Text) : Prop := Hex.behind text = [] ∨ Whole (Hex.behind text)

instance (text : Text) : Decidable (Sliced text) := inferInstanceAs (Decidable (_ ∨ _))

/-- The line is read as a key. -/
def Read (text : Text) : Prop := text.utf8Size = 64 ∧ Hex.behind text = []

/-- What reading a line should give: a result, a key of exactly the lines of 64 digits, and
the key that is written so. -/
def Exact (text : Text) : Prop :=
  (fromHex text).isSome ∧
    ((∃ peer, fromHex text = some (.ok peer)) ↔ text.length = 64 ∧ ∀ c ∈ text, (Hex.digit c).isSome) ∧
    ∀ peer, fromHex text = some (.ok peer) → toHex peer = text.map Char.toLower

section

variable {text : Text} {left : ℕ} {peer : PeerId}

/-- The bytes are those of the slices. -/
theorem readBytes_spec (text : Text) (bytes : Vector UInt8 32) (hle : left ≤ 32) :
    (readPairs left text = none → readBytes left text bytes = none) ∧
      (readPairs left text = some none → readBytes left text bytes = some (.error .corrupt)) ∧
      ∀ ended, readPairs left text = some (some ended) → ∃ read : Vector UInt8 32,
        readBytes left text bytes = some (.ok read) ∧ read.toList = bytes.toList.take (32 - left) ++ ended := by
  induction left generalizing text bytes with
  | zero =>
    refine ⟨fun h => (by cases h), fun h => (by cases h), ?_⟩
    rintro _ ⟨⟩
    exact ⟨bytes, rfl, by rw [List.append_nil, Nat.sub_zero, List.take_of_length_le (by simp)]⟩
  | succ left ih =>
    rw [readPairs, readBytes]
    cases Text.splitAtByte 2 text with
    | none => exact ⟨fun _ => rfl, fun h => (by cases h), fun _ h => (by cases h)⟩
    | some cut =>
      obtain ⟨digits, rest⟩ := cut
      dsimp only
      cases Hex.number digits with
      | none => exact ⟨fun h => (by cases h), fun _ => rfl, fun _ h => (by cases h)⟩
      | some b =>
        -- the rest goes behind this byte
        obtain ⟨hnone, herror, hread⟩ := ih rest (bytes.setIfInBounds (31 - left) b) (by omega)
        dsimp only
        refine ⟨fun h => hnone (Option.map_eq_none_iff.mp h), fun h => ?_, fun ended h => ?_⟩
        · obtain ⟨answer, hanswer, h⟩ := Option.map_eq_some_iff.mp h
          exact herror (Option.map_eq_none_iff.mp h ▸ hanswer)
        · obtain ⟨answer, hanswer, h⟩ := Option.map_eq_some_iff.mp h
          obtain ⟨ended, rfl, rfl⟩ := Option.map_eq_some_iff.mp h
          obtain ⟨read, hbytes, hlist⟩ := hread ended hanswer
          refine ⟨read, hbytes, ?_⟩
          rw [hlist, take_setIfInBounds bytes b hle, List.append_assoc, List.singleton_append]

/-- What comes of a line of another length. -/
theorem fromHex_of_ne (hsize : text.utf8Size ≠ 64) : fromHex text = some (.error .corrupt) := if_pos hsize

/-- A line that is read gives the key that is written so. -/
theorem fromHex_of_read (h : Read text) :
    ∃ peer, fromHex text = some (.ok peer) ∧ ('+' ∉ text → toHex peer = text.map Char.toLower ∧
      ∀ c ∈ text, (Hex.digit c).isSome) := by
  obtain ⟨hsize, hbehind⟩ := h
  obtain ⟨ended, hended⟩ := (GameStream.Xml.readPairs_spec (n := 32) text hsize).1 hbehind
  obtain ⟨-, -, hbytes⟩ := readBytes_spec text (Vector.replicate 32 0) (Nat.le_refl 32)
  obtain ⟨read, hread, hlist⟩ := hbytes ended hended
  refine ⟨⟨read⟩, ?_, fun hplus => ?_⟩
  · rw [fromHex, if_neg (not_not_intro hsize), hread]
    rfl
  · rw [toHex, hlist, Nat.sub_self, List.take_zero, List.nil_append]
    exact GameStream.Xml.readPairs_digits hbehind hplus hended hsize

/-- Any other line of 64 bytes is refused, or it panics. -/
theorem fromHex_of_not_read (hsize : text.utf8Size = 64) (hbehind : Hex.behind text ≠ []) :
    fromHex text = if Whole (Hex.behind text) then some (.error .corrupt) else none := by
  have hpairs := (GameStream.Xml.readPairs_spec (n := 32) text hsize).2 hbehind
  obtain ⟨hnone, herror, -⟩ := readBytes_spec text (Vector.replicate 32 0) (Nat.le_refl 32)
  rw [fromHex, if_neg (not_not_intro hsize)]
  split
  · rename_i hwhole
    rw [herror (hpairs.trans (if_pos hwhole))]
    rfl
  · rename_i hwhole
    rw [hnone (hpairs.trans (if_neg hwhole))]
    rfl

/-- When reading a line returns. -/
theorem fromHex_isSome_iff : (fromHex text).isSome ↔ (text.utf8Size = 64 → Sliced text) := by
  by_cases hsize : text.utf8Size = 64
  · rw [forall_prop_of_true hsize, Sliced]
    by_cases hbehind : Hex.behind text = []
    · obtain ⟨peer, hpeer, -⟩ := fromHex_of_read ⟨hsize, hbehind⟩
      exact iff_of_true (by rw [hpeer]; rfl) (.inl hbehind)
    · rw [fromHex_of_not_read hsize hbehind, or_iff_right hbehind]
      split
      · rename_i hwhole
        exact iff_of_true rfl hwhole
      · rename_i hwhole
        exact iff_of_false nofun hwhole
  · rw [fromHex_of_ne hsize]
    exact iff_of_true rfl fun h => absurd h hsize

/-- When it gives a key. -/
theorem fromHex_ok_iff : (∃ peer, fromHex text = some (.ok peer)) ↔ Read text := by
  by_cases hread : Read text
  · obtain ⟨peer, hpeer, -⟩ := fromHex_of_read hread
    exact iff_of_true ⟨peer, hpeer⟩ hread
  · refine iff_of_false (fun ⟨peer, hpeer⟩ => ?_) hread
    by_cases hsize : text.utf8Size = 64
    · rw [fromHex_of_not_read hsize fun hbehind => hread ⟨hsize, hbehind⟩] at hpeer
      split at hpeer <;> cases hpeer
    · rw [fromHex_of_ne hsize] at hpeer
      cases hpeer

/-- A line of 64 digits is read. -/
theorem read_of_digits (hlength : text.length = 64) (hall : ∀ c ∈ text, (Hex.digit c).isSome) : Read text := by
  refine ⟨(GameStream.Xml.utf8Size_of_digits hall).trans hlength, GameStream.Xml.behind_of_digits ?_ hall⟩
  rw [hlength]

/-- **Which lines are read as they should be.** -/
theorem exact_iff_sliced : Exact text ↔ (text.utf8Size = 64 → Sliced text) ∧ (Read text → '+' ∉ text) := by
  rw [Exact, fromHex_isSome_iff, fromHex_ok_iff]
  refine and_congr_right fun _ => ?_
  constructor
  -- a sign is no digit
  · rintro ⟨haccepts, -⟩ hread hplus
    exact absurd ((haccepts.mp hread).2 '+' hplus) (by decide)
  · intro hplus
    refine ⟨⟨fun hread => ?_, fun h => read_of_digits h.1 h.2⟩, fun peer hpeer => ?_⟩
    · obtain ⟨peer, -, hdigits⟩ := fromHex_of_read hread
      have hall := (hdigits (hplus hread)).2
      exact ⟨(GameStream.Xml.utf8Size_of_digits hall).symm.trans hread.1, hall⟩
    · have hread := fromHex_ok_iff.mp ⟨peer, hpeer⟩
      obtain ⟨peer', hpeer', hdigits⟩ := fromHex_of_read hread
      cases hpeer.symm.trans hpeer'
      exact (hdigits (hplus hread)).1

end

end PeerId

/-! ### Files -/

namespace TrustStore

/-- The lines that are read of a file. -/
def keyLines (contents : Text) : List Text :=
  (contents.lines.filter fun line => line.trim ≠ []).map Text.trim

/-- Behind lines that are all read as keys, no line of 64 bytes has a character across the
end of a slice. -/
def Loadable (lines : List Text) : Prop :=
  ∀ before line behind, lines = before ++ line :: behind → (∀ line ∈ before, PeerId.Read line) →
    line.utf8Size = 64 → PeerId.Sliced line

theorem loadable_cons {line : Text} {lines : List Text} :
    Loadable (line :: lines) ↔ (line.utf8Size = 64 → PeerId.Sliced line) ∧ (PeerId.Read line → Loadable lines) := by
  constructor
  · refine fun h => ⟨h [] line lines rfl nofun, fun hread before line' behind heq hbefore => ?_⟩
    refine h (line :: before) line' behind (by rw [heq, List.cons_append]) ?_
    rw [List.forall_mem_cons]
    exact ⟨hread, hbefore⟩
  · rintro ⟨hline, hlines⟩ (_ | ⟨first, before⟩) line' behind heq hbefore
    · cases heq
      exact hline
    · obtain ⟨rfl, hrest⟩ := List.cons.inj heq
      rw [List.forall_mem_cons] at hbefore
      exact hlines hbefore.1 before line' behind hrest hbefore.2

/-- **Which files are loaded without a panic.** -/
theorem insertLines_isSome_iff (lines : List Text) (self : TrustStore) :
    (insertLines lines self).isSome ↔ Loadable (lines.map Text.trim) := by
  induction lines generalizing self with
  | nil =>
    refine iff_of_true rfl fun before line behind heq => ?_
    exact absurd heq.symm (List.append_ne_nil_of_right_ne_nil _ (List.cons_ne_nil _ _))
  | cons line lines ih =>
    rw [List.map_cons, loadable_cons, ← PeerId.fromHex_isSome_iff, ← PeerId.fromHex_ok_iff, insertLines]
    cases PeerId.fromHex line.trim with
    | none => exact iff_of_false (fun h => (by cases h)) fun h => (by cases h.1)
    | some result =>
      cases result with
      | error error =>
        refine iff_of_true rfl ⟨rfl, ?_⟩
        rintro ⟨_, h⟩
        cases h
      | ok peer => exact (ih (self.pin peer)).trans ⟨fun h => ⟨rfl, fun _ => h⟩, fun h => h.2 ⟨peer, rfl⟩⟩

end TrustStore

/-- **Which lines are read as they should be, and which files are loaded.** -/
theorem keys_exact_iff (text contents : Text) (peer : PeerId) (self : TrustStore) (order : Iteration) :
    (PeerId.Exact text ↔ (text.utf8Size = 64 → PeerId.Sliced text) ∧ (PeerId.Read text → '+' ∉ text)) ∧
      PeerId.fromHex (PeerId.toHex peer) = some (.ok peer) ∧
      ((TrustStore.load (some contents)).isSome ↔ TrustStore.Loadable (TrustStore.keyLines contents)) ∧
      TrustStore.load (some (self.contents order)) = some (.ok self) :=
  ⟨PeerId.exact_iff_sliced, PeerId.fromHex_toHex peer, TrustStore.insertLines_isSome_iff _ _,
    TrustStore.load_contents self order⟩

/-- A character across the end of a slice is a panic, and a sign is read as a digit. -/
theorem lines_read_wrongly :
    ¬ PeerId.Exact ('0' :: '€' :: List.replicate 60 '0') ∧ ¬ PeerId.Exact ('+' :: List.replicate 63 'f') ∧
      TrustStore.load (some ('0' :: '€' :: List.replicate 60 '0')) = none := by
  refine ⟨fun h => ?_, fun h => ?_, by decide +kernel⟩
  · have hsliced := (PeerId.exact_iff_sliced.mp h).1 (by decide +kernel)
    exact absurd hsliced (by decide +kernel)
  · exact (PeerId.exact_iff_sliced.mp h).2 ⟨by decide +kernel, by decide +kernel⟩ List.mem_cons_self

end WindowCast.Identity
