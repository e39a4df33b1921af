import WindowCast.Lib.Codec
import WindowCast.SecureHelper.Helper

/-!
# What is asked of the secure helper, in bytes

The helper runs as the system, and reads its requests from a process of the user
(`operations.rs`).  There are three, each is checked again after it was decoded, and a
length in front of them says where they end.

## Main definitions

* `Operation.validate` — which operations are allowed.
* `Operation.codec` — the format, as the derived one is.
* `Operation.encode`, `Operation.decode` — an operation in bytes.
* `writeRequest`, `readRequest` — a request on the pipe.

## Main results

* `Operation.decode_eq_ok_iff` — what is decoded was encoded, and is allowed.
* `readRequest_eq_ok_iff` — a request is read where one was written.
* `only_allowed_requests` — **allowed operations are read as they were written, and nothing else is
  read; the length is bounded before there is room made for it**.
-/

namespace WindowCast.SecureHelper

def MAX_REQUEST_BYTES : ℕ := 64 * 1024

def MAX_TEXT_BYTES : ℕ := 16 * 1024

inductive IoError
  | invalidData (message : String)
  /-- The bytes are not in the format. -/
  | malformed
  | unexpectedEof
  | failed
  deriving DecidableEq

/-! ### The format -/

open Codec (i32 bool)

def MouseButton.codec : Codec MouseButton :=
  Codec.enumeration [.left, .right, .middle] (by decide) (by rintro (_ | _ | _) <;> decide)

def SecureKey.codec : Codec SecureKey :=
  Codec.enumeration [.enter, .backspace, .tab, .escape, .up, .down, .left, .right] (by decide)
    (by rintro (_ | _ | _ | _ | _ | _ | _ | _) <;> decide)

def KeyAction.fields : SecureKey × Bool ≃. KeyAction where
  toFun p := some ⟨p.1, p.2⟩
  invFun action := some (action.key, action.pressed)
  inv p action := by
    obtain ⟨key, pressed⟩ := p
    cases action
    simp [eq_comm]

def KeyAction.codec : Codec KeyAction := (SecureKey.codec.pair bool).map fields

namespace MouseAction

def index : MouseAction → ℕ
  | .move _ _ => 0
  | .button _ _ => 1

def moveFields : Int32 × Int32 ≃. MouseAction where
  toFun p := some (.move p.1 p.2)
  invFun
    | .move x y => some (x, y)
    | .button _ _ => none
  inv p action := by
    obtain ⟨x, y⟩ := p
    cases action <;> simp [eq_comm]

def buttonFields : MouseButton × Bool ≃. MouseAction where
  toFun p := some (.button p.1 p.2)
  invFun
    | .button which pressed => some (which, pressed)
    | .move _ _ => none
  inv p action := by
    obtain ⟨which, pressed⟩ := p
    cases action <;> simp [eq_comm]

/-- The format of a variant. -/
def body : ℕ → Codec MouseAction
  | 0 => (i32.pair i32).map moveFields
  | 1 => (MouseButton.codec.pair bool).map buttonFields
  | _ => .fail

theorem index_of_fits (n : ℕ) (action : MouseAction) (h : (body n).Fits action) : index action = n := by
  match n, action, h with
  | 0, .move _ _, _ => rfl
  | 1, .button _ _, _ => rfl
  | 0, .button _ _, ⟨_, hnone, _⟩ => cases hnone
  | 1, .move _ _, ⟨_, hnone, _⟩ => cases hnone
  | _ + 2, _, h => exact h.elim

def codec : Codec MouseAction := Codec.tag.dependent body index index_of_fits

end MouseAction

namespace Operation

def index : Operation → ℕ
  | .captureFrame => 0
  | .sendInput _ _ _ => 1
  | .secureDesktopState => 2

def inputFields : Option Text × Option MouseAction × Option KeyAction ≃. Operation where
  toFun p := some (.sendInput p.1 p.2.1 p.2.2)
  invFun
    | .sendInput text mouse key => some (text, mouse, key)
    | _ => none
  inv p operation := by
    obtain ⟨text, mouse, key⟩ := p
    cases operation <;> simp [eq_comm]

/-- The format of a variant. -/
def body : ℕ → Codec Operation
  | 0 => .const .captureFrame
  | 1 =>
    ((Codec.option .string).pair ((Codec.option MouseAction.codec).pair (Codec.option KeyAction.codec))).map inputFields
  | 2 => .const .secureDesktopState
  | _ => .fail

theorem index_of_fits (n : ℕ) (operation : Operation) (h : (body n).Fits operation) : index operation = n := by
  match n, operation, h with
  | 0, .captureFrame, _ => rfl
  | 1, .sendInput _ _ _, _ => rfl
  | 2, .secureDesktopState, _ => rfl
  | 1, .captureFrame, ⟨_, hnone, _⟩ => cases hnone
  | 1, .secureDesktopState, ⟨_, hnone, _⟩ => cases hnone
  | 0, .sendInput _ _ _, h => cases h
  | 0, .secureDesktopState, h => cases h
  | 2, .captureFrame, h => cases h
  | 2, .sendInput _ _ _, h => cases h
  | _ + 3, _, h => exact h.elim

def codec : Codec Operation := Codec.tag.dependent body index index_of_fits

/-! ### What is allowed -/

def validate : Operation → Except IoError Unit
  | .sendInput text mouse key =>
    if text.any fun value => value.utf8Size > MAX_TEXT_BYTES then .error (.invalidData "input text is too long")
    else if text.isSome.toNat + mouse.isSome.toNat + key.isSome.toNat ≠ 1 then
      .error (.invalidData "input request must contain exactly one action")
    else .ok ()
  | .captureFrame | .secureDesktopState => .ok ()

def isAllowed (self : Operation) : Bool := self.validate.isOk

def encode (self : Operation) : Except IoError (List UInt8) :=
  match self.validate with
  | .error error => .error error
  | .ok () =>
    let bytes := codec.put self
    if bytes.length > MAX_REQUEST_BYTES then .error (.invalidData "request is too large") else .ok bytes

def decode (bytes : List UInt8) : Except IoError Operation :=
  if bytes.length > MAX_REQUEST_BYTES then .error (.invalidData "request is too large")
  else
    match codec.decode bytes with
    | none => .error .malformed
    | some operation =>
      match operation.validate with
      | .error error => .error error
      | .ok () => .ok operation

end Operation

/-! ### On the pipe -/

/-- What there is to be read, and whether it ends with an error. -/
structure Reader where
  bytes : List UInt8
  fails : Bool
  deriving DecidableEq

/-- What comes of a frame: what was read, what is left, and for how much there was room made. -/
structure Frame where
  result : Except IoError (Option (List UInt8))
  left : Reader
  allocated : ℕ

/-- The next `n` bytes. -/
def Reader.readExact (self : Reader) (n : ℕ) : Except IoError (List UInt8) × Reader :=
  if n ≤ self.bytes.length then (.ok (self.bytes.take n), { self with bytes := self.bytes.drop n })
  else (.error (if self.fails then .failed else .unexpectedEof), { self with bytes := [] })

def readFrame (reader : Reader) (maximum : ℕ) : Frame :=
  match reader.readExact 4 with
  | (.error .unexpectedEof, left) => ⟨.ok none, left, 0⟩
  | (.error error, left) => ⟨.error error, left, 0⟩
  | (.ok length, left) =>
    let length := LittleEndian.ofBytes length
    if length = 0 ∨ length > maximum then ⟨.error (.invalidData "invalid message length"), left, 0⟩
    else
      match left.readExact length with
      | (.error error, left) => ⟨.error error, left, length⟩
      | (.ok bytes, left) => ⟨.ok (some bytes), left, length⟩

/-- What is written of a frame. -/
def writeFrame (bytes : List UInt8) (maximum : ℕ) : Except IoError (List UInt8) :=
  if bytes.isEmpty ∨ bytes.length > maximum then .error (.invalidData "invalid message length")
  else .ok (LittleEndian.toBytes 4 bytes.length ++ bytes)

def readRequest (reader : Reader) : Except IoError (Option Operation) × Reader :=
  match readFrame reader MAX_REQUEST_BYTES with
  | ⟨.error error, left, _⟩ => (.error error, left)
  | ⟨.ok none, left, _⟩ => (.ok none, left)
  | ⟨.ok (some bytes), left, _⟩ => ((Operation.decode bytes).map some, left)

def writeRequest (operation : Operation) : Except IoError (List UInt8) :=
  match operation.encode with
  | .error error => .error error
  | .ok bytes => writeFrame bytes MAX_REQUEST_BYTES

/-! ### What an allowed operation takes -/

namespace MouseAction

theorem fits (action : MouseAction) : codec.Fits action := by
  cases action with
  | move x y => exact ⟨Codec.fits_tag (n := 0) (by decide), _, rfl, Codec.fits_i32 x, Codec.fits_i32 y⟩
  | button which pressed =>
    exact ⟨Codec.fits_tag (n := 1) (by decide), _, rfl, Codec.fits_enumeration (by decide), Codec.fits_bool pressed⟩

theorem length_put_le (action : MouseAction) : (codec.put action).length ≤ 12 := by
  cases action with
  | move x y =>
    have hput : codec.put (.move x y) = LittleEndian.toBytes 4 0 ++ (i32.put x ++ i32.put y) := rfl
    simp [hput]
  | button which pressed =>
    have hput : codec.put (.button which pressed) =
        LittleEndian.toBytes 4 1 ++ (MouseButton.codec.put which ++ bool.put pressed) := rfl
    have hbutton : (MouseButton.codec.put which).length = 4 := Codec.length_put_enumeration
    simp [hput, hbutton]

end MouseAction

theorem KeyAction.fits (action : KeyAction) : codec.Fits action :=
  ⟨_, rfl, Codec.fits_enumeration (by decide), Codec.fits_bool action.pressed⟩

theorem KeyAction.length_put (action : KeyAction) : (codec.put action).length = 5 := by
  have hput : codec.put action = SecureKey.codec.put action.key ++ bool.put action.pressed := rfl
  have hkey : (SecureKey.codec.put action.key).length = 4 := Codec.length_put_enumeration
  rw [hput, List.length_append, hkey, Codec.length_put_bool]

namespace Operation

section

variable {operation : Operation} {text : Option Text} {mouse : Option MouseAction} {key : Option KeyAction}

theorem validate_sendInput (h : (sendInput text mouse key).isAllowed = true) :
    ∀ value ∈ text, value.utf8Size ≤ MAX_TEXT_BYTES := by
  rintro value ⟨⟩
  by_contra hlong
  have hany : (some value).any (fun value => value.utf8Size > MAX_TEXT_BYTES) = true := by simpa using hlong
  rw [isAllowed, validate, if_pos hany] at h
  cases h

theorem fits_of_allowed (h : operation.isAllowed = true) : codec.Fits operation := by
  cases operation with
  | captureFrame => exact ⟨Codec.fits_tag (n := 0) (by decide), rfl⟩
  | secureDesktopState => exact ⟨Codec.fits_tag (n := 2) (by decide), rfl⟩
  | sendInput text mouse key =>
    refine ⟨Codec.fits_tag (n := 1) (by decide), _, rfl, ?_, ?_, ?_⟩
    · cases text with
      | none => exact Codec.fits_none
      | some value =>
        have hle := validate_sendInput h value rfl
        exact Codec.fits_some (Codec.fits_string (hle.trans_lt (by decide)))
    · cases mouse with
      | none => exact Codec.fits_none
      | some action => exact Codec.fits_some action.fits
    · cases key with
      | none => exact Codec.fits_none
      | some action => exact Codec.fits_some action.fits

theorem length_put_le (h : operation.isAllowed = true) : (codec.put operation).length ≤ MAX_REQUEST_BYTES := by
  cases operation with
  | captureFrame => decide
  | secureDesktopState => decide
  | sendInput text mouse key =>
    have htext : ((Codec.option .string).put text).length ≤ 9 + MAX_TEXT_BYTES := by
      cases text with
      | none => rw [Codec.put_none, Codec.length_put_bool]; decide
      | some value =>
        have hle := validate_sendInput h value rfl
        rw [Codec.put_some, Codec.put_string, List.length_append, List.length_append, Codec.length_put_bool,
          LittleEndian.length_toBytes, Utf8.length_encode]
        omega
    have hmouse : ((Codec.option MouseAction.codec).put mouse).length ≤ 13 := by
      cases mouse with
      | none => rw [Codec.put_none, Codec.length_put_bool]; decide
      | some action =>
        have hle := action.length_put_le
        rw [Codec.put_some, List.length_append, Codec.length_put_bool]
        omega
    have hkey : ((Codec.option KeyAction.codec).put key).length ≤ 6 := by
      cases key with
      | none => rw [Codec.put_none, Codec.length_put_bool]; decide
      | some action => rw [Codec.put_some, List.length_append, Codec.length_put_bool, action.length_put]
    -- the tag of four bytes, and three options behind it
    have hput : codec.put (sendInput text mouse key) = LittleEndian.toBytes 4 1 ++
        ((Codec.option .string).put text ++ ((Codec.option MouseAction.codec).put mouse ++
          (Codec.option KeyAction.codec).put key)) := rfl
    rw [hput, List.length_append, List.length_append, List.length_append, LittleEndian.length_toBytes]
    simp only [MAX_REQUEST_BYTES, MAX_TEXT_BYTES] at *
    omega

theorem put_ne_nil : codec.put operation ≠ [] := by
  have hput : codec.put operation =
      LittleEndian.toBytes 4 (index operation) ++ (body (index operation)).put operation := rfl
  intro hnil
  have hlength := congrArg List.length (hput.symm.trans hnil)
  rw [List.length_append, LittleEndian.length_toBytes, List.length_nil] at hlength
  omega

theorem isAllowed_iff : operation.isAllowed = true ↔ operation.validate = .ok () := by
  rw [isAllowed]
  cases operation.validate with
  | error error => exact iff_of_false Bool.false_ne_true nofun
  | ok => exact iff_of_true rfl rfl

theorem encode_of_allowed (h : operation.isAllowed = true) : operation.encode = .ok (codec.put operation) := by
  rw [encode, isAllowed_iff.mp h]
  exact if_neg (Nat.not_lt.mpr (length_put_le h))

/-- **What is decoded is what was encoded, and it is allowed.** -/
theorem decode_eq_ok_iff {bytes : List UInt8} :
    decode bytes = .ok operation ↔ operation.isAllowed = true ∧ bytes = codec.put operation := by
  constructor
  · intro h
    rw [decode] at h
    split at h
    · cases h
    split at h
    · cases h
    rename_i decoded hdecoded
    split at h
    · cases h
    rename_i hvalid
    cases h
    exact ⟨isAllowed_iff.mpr hvalid, (codec.decode_eq_some_iff.mp hdecoded).2⟩
  · rintro ⟨hallowed, rfl⟩
    have hdecode := codec.decode_eq_some_iff.mpr ⟨fits_of_allowed hallowed, rfl⟩
    rw [decode, if_neg (Nat.not_lt.mpr (length_put_le hallowed)), hdecode]
    dsimp only
    rw [isAllowed_iff.mp hallowed]

end

end Operation

/-! ### Requests on the pipe -/

section

variable {reader left : Reader} {operation : Operation} {bytes rest : List UInt8} {n : ℕ} {fails : Bool}

theorem readExact_append (h : bytes.length = n) :
    Reader.readExact ⟨bytes ++ rest, fails⟩ n = (.ok bytes, ⟨rest, fails⟩) := by
  subst h
  have hle : bytes.length ≤ (bytes ++ rest).length := by
    rw [List.length_append]
    exact Nat.le_add_right _ _
  rw [Reader.readExact, if_pos hle, List.take_left' rfl, List.drop_left' rfl]

theorem readExact_eq_ok (h : reader.readExact n = (.ok bytes, left)) :
    bytes.length = n ∧ reader = ⟨bytes ++ left.bytes, left.fails⟩ := by
  rw [Reader.readExact] at h
  split at h
  · rename_i hle
    obtain ⟨hbytes, rfl⟩ := Prod.mk.inj h
    cases hbytes
    exact ⟨List.length_take_of_le hle, by rw [List.take_append_drop]⟩
  · cases (Prod.mk.inj h).1

/-- A frame is read as it was written, and nothing else is read as one. -/
theorem readFrame_eq_ok_iff {maximum : ℕ} (hmaximum : maximum < 256 ^ 4) :
    (∃ allocated, readFrame reader maximum = ⟨.ok (some bytes), left, allocated⟩) ↔
      ∃ wire, writeFrame bytes maximum = .ok wire ∧ reader = ⟨wire ++ left.bytes, left.fails⟩ := by
  constructor
  · rintro ⟨allocated, h⟩
    rw [readFrame] at h
    split at h
    · cases h
    · cases h
    rename_i length behind hlength
    obtain ⟨hfour, rfl⟩ := readExact_eq_ok hlength
    dsimp only at h
    split at h
    · cases h
    rename_i hbounds
    rw [not_or, Nat.not_lt] at hbounds
    split at h
    · cases h
    rename_i read left' hread
    obtain ⟨hsize, rfl⟩ := readExact_eq_ok hread
    cases h
    -- the reader's bounds are those of the writer
    have hlegal : ¬ (bytes.isEmpty = true ∨ bytes.length > maximum) := by
      rw [List.isEmpty_iff, ← List.length_eq_zero_iff, hsize]
      exact not_or.mpr ⟨hbounds.1, Nat.not_lt.mpr hbounds.2⟩
    have hprefix : LittleEndian.toBytes 4 bytes.length = length := by
      rw [hsize, ← hfour, LittleEndian.toBytes_ofBytes]
    refine ⟨_, if_neg hlegal, ?_⟩
    rw [ hprefix, List.append_assoc]
  · rintro ⟨wire, hwire, rfl⟩
    rw [writeFrame] at hwire
    split at hwire
    · cases hwire
    rename_i hlegal
    cases hwire
    rw [not_or, List.isEmpty_iff, ← List.length_eq_zero_iff, Nat.not_lt] at hlegal
    have hlength : LittleEndian.ofBytes (LittleEndian.toBytes 4 bytes.length) = bytes.length :=
      LittleEndian.ofBytes_toBytes_of_lt (hlegal.2.trans_lt hmaximum)
    refine ⟨bytes.length, ?_⟩
    rw [readFrame, List.append_assoc, readExact_append (LittleEndian.length_toBytes 4 _)]
    dsimp only
    rw [hlength, if_neg (not_or.mpr ⟨hlegal.1, Nat.not_lt.mpr hlegal.2⟩), readExact_append rfl]

/-- No more room is made than a frame may take. -/
theorem allocated_le (reader : Reader) (maximum : ℕ) : (readFrame reader maximum).allocated ≤ maximum := by
  rw [readFrame]
  split
  · exact Nat.zero_le _
  · exact Nat.zero_le _
  dsimp only
  split
  · exact Nat.zero_le _
  rename_i hlength
  split
  · exact Nat.not_lt.mp fun h => hlength (.inr h)
  · exact Nat.not_lt.mp fun h => hlength (.inr h)

theorem writeRequest_eq_ok_iff {wire : List UInt8} : writeRequest operation = .ok wire ↔
    operation.isAllowed = true ∧ writeFrame (Operation.codec.put operation) MAX_REQUEST_BYTES = .ok wire := by
  cases hallowed : operation.isAllowed with
  | true =>
    rw [writeRequest, Operation.encode_of_allowed hallowed]
    exact (and_iff_right rfl).symm
  | false =>
    have hvalid : ¬ operation.validate = .ok () := by
      rw [← Operation.isAllowed_iff, hallowed]
      exact Bool.false_ne_true
    refine iff_of_false (fun h => hvalid ?_) fun h => Bool.false_ne_true h.1
    rw [writeRequest, Operation.encode] at h
    cases hcase : operation.validate with
    | error error =>
      rw [hcase] at h
      cases h
    | ok => rfl

/-- **A request is read where one was written, and nothing else is read as one.** -/
theorem readRequest_eq_ok_iff : readRequest reader = (.ok (some operation), left) ↔
    ∃ wire, writeRequest operation = .ok wire ∧ reader = ⟨wire ++ left.bytes, left.fails⟩ := by
  have hmaximum : MAX_REQUEST_BYTES < 256 ^ 4 := by decide
  constructor
  · intro h
    rw [readRequest] at h
    split at h
    · cases h
    · cases h
    rename_i bytes left' allocated hframe
    obtain ⟨hdecode, rfl⟩ := Prod.mk.inj h
    cases hcase : Operation.decode bytes with
    | error error =>
      rw [hcase] at hdecode
      cases hdecode
    | ok decoded =>
      rw [hcase] at hdecode
      cases hdecode
      obtain ⟨hallowed, rfl⟩ := Operation.decode_eq_ok_iff.mp hcase
      obtain ⟨wire, hwire, hreader⟩ := (readFrame_eq_ok_iff hmaximum).mp ⟨allocated, hframe⟩
      exact ⟨wire, writeRequest_eq_ok_iff.mpr ⟨hallowed, hwire⟩, hreader⟩
  · rintro ⟨wire, hwire, hreader⟩
    obtain ⟨hallowed, hwire⟩ := writeRequest_eq_ok_iff.mp hwire
    obtain ⟨allocated, hframe⟩ := (readFrame_eq_ok_iff hmaximum).mpr ⟨wire, hwire, hreader⟩
    rw [readRequest, hframe]
    dsimp only
    rw [Operation.decode_eq_ok_iff.mpr ⟨hallowed, rfl⟩]
    rfl

/-- An allowed operation can be written. -/
theorem writeRequest_of_allowed (h : operation.isAllowed = true) : ∃ wire, writeRequest operation = .ok wire := by
  have hlegal : ¬ ((Operation.codec.put operation).isEmpty = true ∨
      (Operation.codec.put operation).length > MAX_REQUEST_BYTES) := by
    rw [List.isEmpty_iff]
    exact not_or.mpr ⟨Operation.put_ne_nil, Nat.not_lt.mpr (Operation.length_put_le h)⟩
  exact ⟨_, writeRequest_eq_ok_iff.mpr ⟨h, if_neg hlegal⟩⟩

end

/-- **Allowed operations are read as they were written, and nothing else is read; the
length is bounded before there is room made for it.** -/
theorem only_allowed_requests :
    (∀ operation : Operation, operation.isAllowed = true → ∃ wire, writeRequest operation = .ok wire ∧
        ∀ rest fails, readRequest ⟨wire ++ rest, fails⟩ = (.ok (some operation), ⟨rest, fails⟩)) ∧
      (∀ bytes operation, Operation.decode bytes = .ok operation →
        operation.isAllowed = true ∧ operation.encode = .ok bytes) ∧
      (∀ reader operation left, readRequest reader = (.ok (some operation), left) →
        ∃ wire, writeRequest operation = .ok wire ∧ reader = ⟨wire ++ left.bytes, left.fails⟩) ∧
      ∀ reader, (readFrame reader MAX_REQUEST_BYTES).allocated ≤ MAX_REQUEST_BYTES := by
  refine ⟨fun operation hallowed => ?_, fun bytes operation hdecode => ?_, fun reader operation left hread => ?_,
    fun reader => allocated_le reader MAX_REQUEST_BYTES⟩
  · obtain ⟨wire, hwire⟩ := writeRequest_of_allowed hallowed
    exact ⟨wire, hwire, fun rest fails => readRequest_eq_ok_iff.mpr ⟨wire, hwire, rfl⟩⟩
  · obtain ⟨hallowed, rfl⟩ := Operation.decode_eq_ok_iff.mp hdecode
    exact ⟨hallowed, Operation.encode_of_allowed hallowed⟩
  · exact readRequest_eq_ok_iff.mp hread

end WindowCast.SecureHelper
