import WindowCast.Accounts.Local
import WindowCast.Lib.Beside
import WindowCast.Lib.Hex
import WindowCast.Lib.Lines

/-!
# The list of trusted peers

A host's or client's pinned peers are kept in a file, one public key in hex per line.
An update reads the list that is on the disk, changes it, writes all of it beside the
file and renames that over it.

## Main definitions

* `PeerId.toHex`, `PeerId.fromHex` — a key as a line.
* `TrustStore.load`, `TrustStore.save` — the list, from the file and to it.
* `TrustStore.update` — one update, with whatever fails of its steps.

## Main results

* `load_contents` — a list that is saved is loaded again.
* `update_sound_iff` — **an update makes its change to all that the list held, or reports
  an error and leaves the file, unless the list cannot be read and the save succeeds**.
-/

namespace WindowCast.Identity

open Accounts (PeerId)

inductive IdentityError
  | io
  | corrupt
  deriving DecidableEq

/-- What comes of a call; none, where it panics. -/
abbrev Outcome (α : Type) := Option (Except IdentityError α)

/-! ### Keys in hex -/

namespace PeerId

def toHex (self : PeerId) : Text := Hex.encode self.bytes.toList

/-- The bytes that are left to read, two digits each; a panic, where a character is
across the end of two bytes. -/
def readBytes : ℕ → Text → Vector UInt8 32 → Outcome (Vector UInt8 32)
  | 0, _, bytes => some (.ok bytes)
  | left + 1, text, bytes =>
    match text.splitAtByte 2 with
    | none => none
    | some (digits, rest) =>
      match Hex.number digits with
      | none => some (.error .corrupt)
      | some b => readBytes left rest (bytes.setIfInBounds (31 - left) b)

def fromHex (text : Text) : Outcome PeerId :=
  if text.utf8Size ≠ 64 then some (.error .corrupt)
  else (readBytes 32 text (Vector.replicate 32 0)).map fun result => result.map PeerId.mk

/-- The byte that is set is the last of those that are kept. -/
theorem take_setIfInBounds {left : ℕ} (bytes : Vector UInt8 32) (b : UInt8) (hle : left + 1 ≤ 32) :
    (bytes.setIfInBounds (31 - left) b).toList.take (32 - left) = bytes.toList.take (32 - (left + 1)) ++ [b] := by
  have hindex : 31 - left < bytes.toList.length := by
    rw [Vector.length_toList]
    omega
  have hsucc : 32 - left = 31 - left + 1 := by omega
  rw [Vector.toList_setIfInBounds, hsucc, List.take_succ_eq_append_getElem (by simpa using hindex),
    List.getElem_set_self, List.take_set_of_le (by omega), show 32 - (left + 1) = 31 - left by omega]

/-- What is read of bytes that were written. -/
theorem readBytes_encode (ended : List UInt8) {left : ℕ} (bytes : Vector UInt8 32) (hleft : ended.length = left)
    (hle : left ≤ 32) : ∃ read : Vector UInt8 32, readBytes left (Hex.encode ended) bytes = some (.ok read) ∧
      read.toList = bytes.toList.take (32 - left) ++ ended := by
  induction ended generalizing left bytes with
  | nil =>
    subst hleft
    refine ⟨bytes, rfl, ?_⟩
    rw [List.append_nil, List.length_nil, Nat.sub_zero, List.take_of_length_le (by simp)]
  | cons b ended ih =>
    obtain ⟨left, rfl⟩ : ∃ n, left = n + 1 := ⟨ended.length, hleft.symm⟩
    obtain ⟨read, hread, hlist⟩ := ih (bytes.setIfInBounds (31 - left) b)
      (Nat.succ.inj hleft) (by omega)
    refine ⟨read, ?_, ?_⟩
    · rw [readBytes, Hex.encode_cons, Hex.splitAtByte_byte]
      dsimp only
      rw [Hex.number_byte]
      exact hread
    · rw [hlist, take_setIfInBounds bytes b hle, List.append_assoc, List.singleton_append]

theorem fromHex_toHex (peer : PeerId) : fromHex (toHex peer) = some (.ok peer) := by
  obtain ⟨bytes⟩ := peer
  have hlength : bytes.toList.length = 32 := Vector.length_toList
  have hsize : (Hex.encode bytes.toList).utf8Size = 64 := by rw [Hex.utf8Size_encode, hlength]
  obtain ⟨read, hread, hlist⟩ := readBytes_encode bytes.toList (Vector.replicate 32 0) hlength (Nat.le_refl 32)
  obtain rfl : read = bytes := by
    rw [Nat.sub_self, List.take_zero, List.nil_append] at hlist
    exact Vector.toList_inj.mp hlist
  rw [fromHex, toHex, if_neg (not_not_intro hsize), hread]
  rfl

/-- A key's line is no blank one, and has no end or blank in it. -/
theorem mem_toHex {peer : PeerId} {c : Char} (h : c ∈ toHex peer) : Text.isWhitespace c = false := by
  obtain ⟨n, hn, rfl⟩ := Hex.mem_encode h
  exact (Hex.digitChar_ne n hn).2

theorem toHex_ne_nil (peer : PeerId) : toHex peer ≠ [] := by
  intro h
  have hlength := Hex.length_encode peer.bytes.toList
  rw [← toHex, h, Vector.length_toList, List.length_nil] at hlength
  omega

end PeerId

/-! ### The list in the file -/

/-- The pinned peers. -/
structure TrustStore where
  pinned : Finset PeerId
  deriving DecidableEq

/-- The order in which a hash set is gone through. -/
structure Iteration where
  iter : Finset PeerId → List PeerId
  toFinset_iter : ∀ pinned, (iter pinned).toFinset = pinned

/-- What a file holds: text, or bytes that are none. -/
inductive Contents
  | text (text : Text)
  | binary
  deriving DecidableEq

namespace TrustStore

def new : TrustStore := ⟨∅⟩

def pin (self : TrustStore) (peer : PeerId) : TrustStore := ⟨insert peer self.pinned⟩

def revoke (self : TrustStore) (peer : PeerId) : TrustStore := ⟨self.pinned.erase peer⟩

/-- The peers of the lines, in addition to those there are. -/
def insertLines : List Text → TrustStore → Outcome TrustStore
  | [], self => some (.ok self)
  | line :: lines, self =>
    match PeerId.fromHex line.trim with
    | some (.ok peer) => insertLines lines (self.pin peer)
    | some (.error error) => some (.error error)
    | none => none

/-- The list, where `contents` is the text that the file is read as, if it can be read. -/
def load : Option Text → Outcome TrustStore
  | none => some (.ok new)
  | some contents => insertLines (contents.lines.filter fun line => line.trim ≠ []) new

/-- What is written for a list. -/
def contents (self : TrustStore) (order : Iteration) : Text :=
  (order.iter self.pinned).flatMap fun peer => PeerId.toHex peer ++ ['\n']

/-- Lines that are keys' are pinned one after the other. -/
theorem insertLines_map (peers : List PeerId) (self : TrustStore) :
    insertLines (peers.map PeerId.toHex) self = some (.ok ⟨peers.toFinset ∪ self.pinned⟩) := by
  induction peers generalizing self with
  | nil =>
    rw [List.toFinset_nil, Finset.empty_union]
    rfl
  | cons peer peers ih =>
    rw [List.map_cons, insertLines, Text.trim_of_forall fun c hc => PeerId.mem_toHex hc, PeerId.fromHex_toHex]
    dsimp only
    rw [ih, pin, List.toFinset_cons, Finset.union_insert, Finset.insert_union]

/-- A list that is saved is loaded again. -/
theorem load_contents (self : TrustStore) (order : Iteration) :
    load (some (self.contents order)) = some (.ok self) := by
  have hlines : (self.contents order).lines = (order.iter self.pinned).map PeerId.toHex := by
    have hmap : self.contents order =
        ((order.iter self.pinned).map PeerId.toHex).flatMap fun line => line ++ ['\n'] := by
      rw [contents, List.flatMap_map]
    rw [hmap, Text.lines_flatMap]
    intro line hline
    obtain ⟨peer, -, rfl⟩ := List.mem_map.mp hline
    exact ⟨fun hmem => absurd (PeerId.mem_toHex hmem) (by decide),
      fun hmem => absurd (PeerId.mem_toHex hmem) (by decide)⟩
  have hfilter : ((order.iter self.pinned).map PeerId.toHex).filter (fun line => line.trim ≠ []) =
      (order.iter self.pinned).map PeerId.toHex := by
    refine List.filter_eq_self.mpr fun line hline => ?_
    obtain ⟨peer, -, rfl⟩ := List.mem_map.mp hline
    rw [Text.trim_of_forall fun c hc => PeerId.mem_toHex hc, decide_eq_true_eq]
    exact PeerId.toHex_ne_nil peer
  rw [load, hlines, hfilter, insertLines_map, order.toFinset_iter, new, Finset.union_empty]

/-! ### Updates -/

/-- What fails of an update's steps. -/
structure Faults where
  /-- The file is there, and reading it fails. -/
  readFails : Bool
  writing : Writing
  renameFails : Bool
  deriving DecidableEq

/-- The text that the file is read as. -/
def readToString (disk : Beside Contents) (fails : Bool) : Option Text :=
  match disk.text with
  | some (.text text) => if fails then none else some text
  | _ => none

/-- Writes the list beside the file, and renames it over. -/
def save (self : TrustStore) (order : Iteration) (faults : Faults) (disk : Beside Contents) :
    Except IdentityError Unit × Beside Contents :=
  let disk := disk.write (.text (self.contents order)) faults.writing
  match faults.writing with
  | .cut | .refused => (.error .io, disk)
  | .ok =>
    match if faults.renameFails then none else disk.rename with
    | none => (.error .io, disk)
    | some disk => (.ok (), disk)

/-- Changes the list as it is on the disk, and saves it. -/
def update (disk : Beside Contents) (change : TrustStore → TrustStore) (order : Iteration) (faults : Faults) :
    Outcome TrustStore × Beside Contents :=
  match load (readToString disk faults.readFails) with
  | none => (none, disk)
  | some (.error error) => (some (.error error), disk)
  | some (.ok store) =>
    match (change store).save order faults disk with
    | (.ok (), disk) => (some (.ok (change store)), disk)
    | (.error error, disk) => (some (.error error), disk)

/-- Whether none of a save's steps fails. -/
def Faults.saves (self : Faults) : Prop := self.writing = .ok ∧ self.renameFails = false

/-- A save that succeeds puts the list in place. -/
theorem save_of_saves (self : TrustStore) (order : Iteration) {faults : Faults} (disk : Beside Contents)
    (h : faults.saves) :
    self.save order faults disk = (.ok (), ⟨some (.whole (.text (self.contents order))), none⟩) := by
  obtain ⟨hwriting, hrenaming⟩ := h
  simp only [save, hwriting, hrenaming, Bool.false_eq_true, if_false, Beside.rename_write]

/-- Any other leaves the file, and reports it. -/
theorem save_of_not_saves (self : TrustStore) (order : Iteration) {faults : Faults} (disk : Beside Contents)
    (h : ¬ faults.saves) :
    ∃ disk' : Beside Contents, self.save order faults disk = (.error .io, disk') ∧ disk'.file = disk.file := by
  refine ⟨disk.write (.text (self.contents order)) faults.writing, ?_, Beside.file_write _ _ _⟩
  rw [save]
  cases hwriting : faults.writing with
  | cut => rfl
  | refused => rfl
  | ok =>
    have hrenaming : faults.renameFails = true := by
      by_contra hfalse
      exact h ⟨hwriting, by simpa using hfalse⟩
    simp only [hrenaming, if_true]

/-! ### What an update is for -/

/-- The list that a file holds: an empty one, where there is no file, and none, where
there is another thing in it. -/
def held : Option Contents → Option TrustStore
  | none => some new
  | some .binary => none
  | some (.text text) =>
    match load (some text) with
    | some (.ok store) => some store
    | _ => none

theorem held_contents (self : TrustStore) (order : Iteration) :
    held (some (.text (self.contents order))) = some self := by
  rw [held, load_contents]

/-- An update makes its change to all that the list held, and puts that in place, or it
reports an error and leaves the file as it was. -/
def Sound (file : Option Contents) (change : TrustStore → TrustStore) :
    Outcome TrustStore × Beside Contents → Prop
  | (outcome, disk) =>
    (∃ store after, held file = some store ∧ outcome = some (.ok (change store)) ∧
        disk.file = some (.whole after) ∧ held (some after) = some (change store)) ∨
      (∃ error, outcome = some (.error error)) ∧ disk.file = file.map .whole

/-- The list that there is cannot be read. -/
def Unreadable (file : Option Contents) (faults : Faults) : Prop :=
  file = some .binary ∨ faults.readFails = true ∧ file ≠ none

section

variable {file : Option Contents} {temp : Option (Written Contents)} {change : TrustStore → TrustStore}
  {order : Iteration} {faults : Faults}

/-- What is loaded is what the change is made to, so it has to come to the same as what
was held, where it is saved. -/
theorem sound_of_load {store : TrustStore}
    (hload : load (readToString ⟨file.map .whole, temp⟩ faults.readFails) = some (.ok store)) :
    Sound file change (update ⟨file.map .whole, temp⟩ change order faults) ↔
      (faults.saves → ∃ before, held file = some before ∧ change before = change store) := by
  by_cases hsaves : faults.saves
  · have hupdate : update ⟨file.map .whole, temp⟩ change order faults =
        (some (.ok (change store)), ⟨some (.whole (.text ((change store).contents order))), none⟩) := by
      rw [update, hload]
      dsimp only
      rw [save_of_saves _ _ _ hsaves]
    have hheld := held_contents (change store) order
    rw [hupdate]
    constructor
    · rintro (⟨before, _, hbefore, hchange, -, -⟩ | ⟨⟨_, herror⟩, -⟩) -
      · exact ⟨before, hbefore, (Except.ok.inj (Option.some.inj hchange)).symm⟩
      · cases herror
    · intro h
      obtain ⟨before, hbefore, hchange⟩ := h hsaves
      refine Or.inl ⟨before, _, hbefore, ?_, rfl, ?_⟩
      · rw [hchange]
      · rw [hheld, hchange]
  · obtain ⟨disk, hsave, hfile⟩ := save_of_not_saves (change store) order ⟨file.map .whole, temp⟩ hsaves
    have hupdate : update ⟨file.map .whole, temp⟩ change order faults = (some (.error .io), disk) := by
      rw [update, hload]
      dsimp only
      rw [hsave]
    rw [hupdate]
    exact ⟨fun _ h => absurd h hsaves, fun _ => Or.inr ⟨⟨_, rfl⟩, hfile⟩⟩

/-- A text that is read is the list that is held, unless reading it panics. -/
theorem sound_of_text {text : Text} (hfails : faults.readFails = false) :
    Sound (some (.text text)) change (update ⟨(some (Contents.text text)).map .whole, temp⟩ change order faults) ↔
      load (some text) ≠ none := by
  have hdisk : readToString ⟨(some (Contents.text text)).map .whole, temp⟩ faults.readFails = some text := by
    rw [hfails]
    rfl
  cases hload : load (some text) with
  | none =>
    have hupdate : update ⟨(some (Contents.text text)).map .whole, temp⟩ change order faults =
        (none, ⟨(some (Contents.text text)).map .whole, temp⟩) := by
      rw [update, hdisk, hload]
    rw [hupdate]
    refine ⟨?_, fun h => absurd rfl h⟩
    rintro (⟨_, _, -, h, -⟩ | ⟨⟨_, h⟩, -⟩)
    · cases h
    · cases h
  | some result =>
    cases result with
    | error error =>
      have hupdate : update ⟨(some (Contents.text text)).map .whole, temp⟩ change order faults =
          (some (.error error), ⟨(some (Contents.text text)).map .whole, temp⟩) := by
        rw [update, hdisk, hload]
      rw [hupdate]
      exact ⟨fun _ => nofun, fun _ => Or.inr ⟨⟨error, rfl⟩, rfl⟩⟩
    | ok store =>
      have hheld : held (some (.text text)) = some store := by rw [held, hload]
      rw [sound_of_load (hdisk ▸ hload)]
      exact ⟨fun _ => nofun, fun _ _ => ⟨store, hheld, rfl⟩⟩

/-- Where the list can be read, the update is sound unless reading it panics; where there
is none that can be read, an update that saves is sound only if the list is one after all,
of which the change makes the same as of an empty one. -/
theorem update_sound_iff (file : Option Contents) (temp : Option (Written Contents)) (change : TrustStore → TrustStore)
    (order : Iteration) (faults : Faults) :
    Sound file change (update ⟨file.map .whole, temp⟩ change order faults) ↔
      load (readToString ⟨file.map .whole, temp⟩ faults.readFails) ≠ none ∧
        (Unreadable file faults → faults.saves → ∃ store, held file = some store ∧ change store = change new) := by
  -- what is loaded where nothing can be read
  have hunread : load none = some (.ok new) := rfl
  cases file with
  | none =>
    have hload : load (readToString ⟨(none : Option Contents).map .whole, temp⟩ faults.readFails) =
        some (.ok new) := hunread
    rw [sound_of_load hload, hload]
    refine ⟨fun _ => ⟨nofun, ?_⟩, fun _ _ => ⟨new, rfl, rfl⟩⟩
    rintro (h | ⟨-, h⟩)
    · cases h
    · exact absurd rfl h
  | some contents =>
    cases contents with
    | binary =>
      have hload : load (readToString ⟨(some Contents.binary).map .whole, temp⟩ faults.readFails) =
          some (.ok new) := hunread
      rw [sound_of_load hload, hload]
      exact ⟨fun h => ⟨nofun, fun _ => h⟩, fun h => h.2 (Or.inl rfl)⟩
    | text text =>
      cases hfails : faults.readFails with
      | true =>
        have hload : load (readToString ⟨(some (Contents.text text)).map .whole, temp⟩ faults.readFails) =
            some (.ok new) := by
          rw [hfails]
          exact hunread
        rw [← hfails, sound_of_load hload, hload]
        exact ⟨fun h => ⟨nofun, fun _ => h⟩, fun h => h.2 (Or.inr ⟨hfails, nofun⟩)⟩
      | false =>
        have hread : ¬ Unreadable (some (.text text)) faults := by
          rintro (h | ⟨h, -⟩)
          · cases h
          · rw [hfails] at h
            cases h
        have hdisk : readToString ⟨(some (Contents.text text)).map .whole, temp⟩ faults.readFails = some text := by
          rw [hfails]
          rfl
        rw [sound_of_text hfails, ← hfails, hdisk]
        exact ⟨fun h => ⟨h, fun hunreadable => absurd hunreadable hread⟩, fun h => h.1⟩

/-- A list that is not UTF-8 is replaced by one with the new peer alone. -/
theorem unreadable_replaced : ¬ ∀ (file : Option Contents) (temp : Option (Written Contents))
    (change : TrustStore → TrustStore) (order : Iteration) (faults : Faults),
    Sound file change (update ⟨file.map .whole, temp⟩ change order faults) := by
  intro h
  have hsound := h (some .binary) none (fun store => store.pin ⟨Vector.replicate 32 0⟩)
    ⟨Finset.toList, Finset.toList_toFinset⟩ ⟨false, .ok, false⟩
  have hload : load (readToString ⟨(some Contents.binary).map .whole, none⟩ false) = some (.ok new) := rfl
  obtain ⟨_, hheld, -⟩ := (sound_of_load hload).mp hsound ⟨rfl, rfl⟩
  cases hheld

end

end TrustStore

end WindowCast.Identity
