import WindowCast.Lib.BigEndian

/-!
# The packet header

The 24 bytes of `bud/src/header.rs` in front of every datagram: they travel in
the clear and are authenticated as the associated data of the payload.

## Main definitions

* `Header`, `Header.encode`, `Header.decode`.
* `Header.IsPosition` — the check `decode` makes on the fragment numbers.

## Main results

* `Header.decode_encode_append` — what `decode` makes of an encoded header.
-/

namespace WindowCast.Bud

/-- The wire version this crate speaks. -/
def VERSION : UInt8 := 1
/-- The header's length. -/
def HEADER_LEN : ℕ := 24
/-- The length of the tag appended to every payload. -/
def TAG_LEN : ℕ := 16
/-- The largest datagram sent. -/
def MAX_DATAGRAM : ℕ := 1200
/-- The most payload one datagram carries. -/
def MAX_PAYLOAD : ℕ := MAX_DATAGRAM - HEADER_LEN - TAG_LEN

/-- `flags` bit: this packet is parity, not frame data. -/
def FLAG_PARITY : UInt8 := 0x01

structure Header where
  flags : UInt8
  stream : UInt16
  frame : UInt32
  fragment : UInt16
  fragments : UInt16
  /-- Set by the sealer; whatever a caller puts here is replaced. -/
  packet : UInt64
  sentUs : UInt32
  deriving DecidableEq, Repr

inductive HeaderError
  /-- The datagram is shorter than a header. -/
  | short
  /-- Unknown wire version. -/
  | version (v : UInt8)
  /-- `fragment` of `fragments` is not a valid position. -/
  | fragment (fragment fragments : UInt16)
  deriving DecidableEq, Repr

namespace Header

/-- Whether the packet is parity. -/
def isParity (h : Header) : Bool := h.flags &&& FLAG_PARITY ≠ 0

def encode (self : Header) : List UInt8 :=
  [VERSION, self.flags] ++ BigEndian.toBytes 2 self.stream.toNat
    ++ BigEndian.toBytes 4 self.frame.toNat ++ BigEndian.toBytes 2 self.fragment.toNat
    ++ BigEndian.toBytes 2 self.fragments.toNat ++ BigEndian.toBytes 8 self.packet.toNat
    ++ BigEndian.toBytes 4 self.sentUs.toNat

/-- The number in the `n` bytes at `start`. -/
def field (datagram : List UInt8) (start n : ℕ) : ℕ :=
  BigEndian.ofBytes ((datagram.drop start).take n)

/-- The fields of a datagram that is long enough to have them. -/
def fields (datagram : List UInt8) (flags : UInt8) : Header where
  flags := flags
  stream := UInt16.ofNat (field datagram 2 2)
  frame := UInt32.ofNat (field datagram 4 4)
  fragment := UInt16.ofNat (field datagram 8 2)
  fragments := UInt16.ofNat (field datagram 10 2)
  packet := UInt64.ofNat (field datagram 12 8)
  sentUs := UInt32.ofNat (field datagram 20 4)

/-- Reads the header at the front of `datagram`.  Anything the sender could
have got wrong is an error here. -/
def decode (datagram : List UInt8) : Except HeaderError Header :=
  if hlen : datagram.length < HEADER_LEN then .error .short
  else
    have h24 : 24 ≤ datagram.length := Nat.le_of_not_lt hlen
    if datagram[0] ≠ VERSION then .error (.version datagram[0])
    else
      let header := fields datagram datagram[1]
      let parity := header.flags &&& FLAG_PARITY ≠ 0
      if header.fragments = 0 ∨ (¬ parity ∧ header.fragments ≤ header.fragment) then
        .error (.fragment header.fragment header.fragments)
      else .ok header

/-- A position a fragment can have: the frame has data fragments, and a data
fragment is one of them. -/
def IsPosition (h : Header) : Prop :=
  h.fragments ≠ 0 ∧ (h.isParity = false → h.fragment < h.fragments)

instance (h : Header) : Decidable h.IsPosition := inferInstanceAs (Decidable (_ ∧ _))

@[simp] theorem length_encode (h : Header) : h.encode.length = HEADER_LEN := by
  simp [encode, HEADER_LEN]

/-- The check of `decode`, as a property of the header. -/
theorem position_check_iff (h : Header) :
    (h.fragments = 0 ∨ (¬ (h.flags &&& FLAG_PARITY ≠ 0) ∧ h.fragments ≤ h.fragment))
      ↔ ¬ h.IsPosition := by
  by_cases hp : h.flags &&& FLAG_PARITY = 0
  · simp [IsPosition, isParity, hp, UInt16.not_lt, imp_iff_not_or]
  · simp [IsPosition, isParity, hp]

/-- An accepted header has a valid position. -/
theorem isPosition_of_decode {datagram : List UInt8} {h : Header} (hd : decode datagram = .ok h) :
    h.IsPosition := by
  unfold decode at hd
  split at hd
  · cases hd
  simp only [position_check_iff] at hd
  split at hd
  · cases hd
  split at hd
  · cases hd
  · rename_i hpos
    rw [Except.ok.injEq] at hd
    rw [← hd]
    exact not_not.mp hpos

/-- The number in the middle of three pieces. -/
theorem field_append {datagram a b c : List UInt8} {start n x : ℕ} (h : datagram = a ++ b ++ c)
    (ha : a.length = start) (hb : b = BigEndian.toBytes n x) (hx : x < 256 ^ n) :
    field datagram start n = x := by
  subst h hb
  rw [field, List.append_assoc, List.drop_left' ha, List.take_left' (BigEndian.length_toBytes n x),
    BigEndian.ofBytes_toBytes_of_lt hx]

/-- The fields of an encoded header. -/
theorem fields_encode_append (h : Header) (rest : List UInt8) :
    fields (h.encode ++ rest) h.flags = h := by
  let stream := BigEndian.toBytes 2 h.stream.toNat
  let frame := BigEndian.toBytes 4 h.frame.toNat
  let fragment := BigEndian.toBytes 2 h.fragment.toNat
  let fragments := BigEndian.toBytes 2 h.fragments.toNat
  let packet := BigEndian.toBytes 8 h.packet.toNat
  have h1 : field (h.encode ++ rest) 2 2 = h.stream.toNat :=
    field_append (a := [VERSION, h.flags]) (by simp [encode]; rfl) rfl rfl h.stream.toNat_lt
  have h2 : field (h.encode ++ rest) 4 4 = h.frame.toNat :=
    field_append (a := [VERSION, h.flags] ++ stream) (by simp [encode, stream]; rfl)
      (by simp [stream]) rfl h.frame.toNat_lt
  have h3 : field (h.encode ++ rest) 8 2 = h.fragment.toNat :=
    field_append (a := [VERSION, h.flags] ++ stream ++ frame) (by simp [encode, stream, frame]; rfl)
      (by simp [stream, frame]) rfl h.fragment.toNat_lt
  have h4 : field (h.encode ++ rest) 10 2 = h.fragments.toNat :=
    field_append (a := [VERSION, h.flags] ++ stream ++ frame ++ fragment)
      (by simp [encode, stream, frame, fragment]; rfl)
      (by simp [stream, frame, fragment]) rfl h.fragments.toNat_lt
  have h5 : field (h.encode ++ rest) 12 8 = h.packet.toNat :=
    field_append (a := [VERSION, h.flags] ++ stream ++ frame ++ fragment ++ fragments)
      (by simp [encode, stream, frame, fragment, fragments]; rfl)
      (by simp [stream, frame, fragment, fragments]) rfl h.packet.toNat_lt
  have h6 : field (h.encode ++ rest) 20 4 = h.sentUs.toNat :=
    field_append (a := [VERSION, h.flags] ++ stream ++ frame ++ fragment ++ fragments ++ packet)
      (by simp [encode, stream, frame, fragment, fragments, packet]; rfl)
      (by simp [stream, frame, fragment, fragments, packet]) rfl h.sentUs.toNat_lt
  simp only [fields, h1, h2, h3, h4, h5, h6, UInt16.ofNat_toNat, UInt32.ofNat_toNat,
    UInt64.ofNat_toNat]

/-- Decoding a datagram that starts with an encoded header gives that header
if its position is valid, and refuses the position otherwise. -/
theorem decode_encode_append (h : Header) (rest : List UInt8) :
    decode (h.encode ++ rest) =
      if h.IsPosition then .ok h else .error (.fragment h.fragment h.fragments) := by
  obtain ⟨tail, htail⟩ : ∃ tail, h.encode ++ rest = VERSION :: h.flags :: tail := ⟨_, rfl⟩
  have hlen : ¬ (h.encode ++ rest).length < HEADER_LEN := by simp
  have hfields := fields_encode_append h rest
  rw [htail] at hlen hfields ⊢
  unfold decode
  rw [dif_neg hlen]
  simp only [List.getElem_cons_zero, List.getElem_cons_succ, hfields, position_check_iff]
  by_cases hpos : h.IsPosition <;> simp [hpos]

/-- Every header with a valid position is read from some datagram. -/
theorem exists_decode {h : Header} (hpos : h.IsPosition) : ∃ datagram, decode datagram = .ok h :=
  ⟨h.encode ++ [], (decode_encode_append h []).trans (if_pos hpos)⟩

end Header

end WindowCast.Bud
