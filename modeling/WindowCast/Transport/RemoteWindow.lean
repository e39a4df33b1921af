import Mathlib

/-!
# The receiving end of a window's video

RTP packets back into access units.  A packet with the marker ends a frame; what
came since the last marker is put together by the codec's depacketizer, which is
a library's and a parameter here.  A frame with a sequence gap, or with a packet
that cannot be parsed, is damaged, and a keyframe is awaited from then on.

## Main definitions

* `VideoCodec`, `isKeyframe` — whether an access unit starts a decodable sequence.
* `RtpPacket`, `Depacketizer` — what a track delivers, and the library's part.
* `RemoteWindow.receive` — one packet through the loop of `next_frame`.
* `RemoteWindow.nextFrame`, `RemoteWindow.frames` — one call, and all of them.

## Main results

* `RemoteWindow.frames_nextFrame` — successive calls return what the packets give,
  one after the other.
-/

namespace WindowCast.Transport

/-! ### Keyframes -/

inductive VideoCodec
  | h264
  | h265
  | av1
  deriving DecidableEq, Repr

/-- The first byte after each Annex-B start code. -/
def annexBHeaders : List UInt8 → List UInt8
  | a :: b :: c :: d :: rest =>
    let headers := annexBHeaders (b :: c :: d :: rest)
    if a = 0 ∧ b = 0 ∧ c = 1 then d :: headers else headers
  | _ => []

/-- The size field at the front of `data`, seven bits a byte and at most `bytes`
of them, and what is behind it. -/
def obuSize : ℕ → ℕ → List UInt8 → Option (ℕ × List UInt8)
  | 0, _, data => some (0, data)
  | _ + 1, _, [] => none
  | bytes + 1, shift, byte :: rest =>
    let bits := (byte &&& 0x7f).toNat <<< shift
    if byte &&& 0x80 = 0 then some (bits, rest)
    else (obuSize bytes (shift + 7) rest).map fun (size, rest) => (bits ||| size, rest)

/-- The types of the first `n` units in a low-overhead AV1 bitstream; one without a
size runs to the end. -/
def obuTypesFrom : ℕ → List UInt8 → List UInt8
  | 0, _ => []
  | _ + 1, [] => []
  | n + 1, header :: rest =>
    let obuType := (header >>> 3) &&& 0x0f
    if header &&& 0x02 = 0 then [obuType]
    else
      -- a header with an extension is two bytes
      match obuSize 8 0 (if header &&& 0x04 = 0 then rest else rest.drop 1) with
      | none => []
      | some (size, rest) => obuType :: obuTypesFrom n (rest.drop size)

/-- Every unit has a byte at least. -/
def obuTypes (data : List UInt8) : List UInt8 := obuTypesFrom data.length data

/-- Whether an access unit starts a decodable sequence: an IDR slice, an IRAP
picture, or a sequence header. -/
def isKeyframe (codec : VideoCodec) (data : List UInt8) : Bool :=
  match codec with
  | .h264 => (annexBHeaders data).any fun header => header &&& 0x1f = 5
  | .h265 => (annexBHeaders data).any fun header =>
      let unit := (header >>> 1) &&& 0x3f
      decide ((16 : UInt8) ≤ unit ∧ unit ≤ 21)
  | .av1 => (obuTypes data).any fun obuType => obuType = 1

theorem isKeyframe_nil (codec : VideoCodec) : isKeyframe codec [] = false := by
  cases codec <;> rfl

/-! ### The window -/

structure RtpPacket where
  sequenceNumber : BitVec 16
  timestamp : BitVec 32
  /-- Set on the last packet of an access unit. -/
  marker : Bool
  payload : List UInt8
  deriving DecidableEq, Repr

/-- The library's side of a reassembler: from a packet, its bitstream, unless it
cannot be parsed. -/
structure Depacketizer (σ : Type) where
  new : VideoCodec → σ
  push : σ → RtpPacket → σ × Option (List UInt8)

/-- One encoded access unit, ready for a decoder. -/
structure WindowFrame where
  data : List UInt8
  codec : VideoCodec
  rtpTimestamp : BitVec 32
  keyframe : Bool
  deriving DecidableEq, Repr

/-- What a track reports. -/
inductive TrackRemoteEvent
  | onRtpPacket (packet : RtpPacket)
  | onEnded
  | other
  deriving DecidableEq, Repr

inductive TransportError
  | closed
  deriving DecidableEq, Repr

/-- What comes of a packet. -/
inductive Received
  | nothing
  /-- The host has been asked for a keyframe. -/
  | requested
  | frame (frame : WindowFrame)
  deriving DecidableEq, Repr

structure RemoteWindow (σ : Type) where
  codec : VideoCodec
  reassembler : σ
  frame : List UInt8
  lastSequence : Option (BitVec 16)
  frameDamaged : Bool
  /-- Set at the start and after any loss. -/
  awaitingKeyframe : Bool

namespace RemoteWindow

variable {σ : Type} (depacketizer : Depacketizer σ)

def new (codec : VideoCodec) : RemoteWindow σ where
  codec := codec
  reassembler := depacketizer.new codec
  frame := []
  lastSequence := none
  frameDamaged := false
  awaitingKeyframe := true

/-- Looks at a sequence number. -/
def sequenced (self : RemoteWindow σ) (sequence : BitVec 16) : RemoteWindow σ :=
  { self with
    frameDamaged := self.frameDamaged || self.lastSequence.any fun last => sequence ≠ last + 1
    lastSequence := some sequence }

/-- Appends a packet's bitstream. -/
def push (self : RemoteWindow σ) (packet : RtpPacket) : RemoteWindow σ :=
  if packet.payload = [] then self
  else
    match depacketizer.push self.reassembler packet with
    | (reassembler, some bitstream) =>
      { self with reassembler := reassembler, frame := self.frame ++ bitstream }
    | (reassembler, none) => { self with reassembler := reassembler, frameDamaged := true }

/-- At the marker: the frame, unless there is none or a keyframe is awaited. -/
def finish (self : RemoteWindow σ) (timestamp : BitVec 32) : RemoteWindow σ × Received :=
  let window := { self with
    frame := []
    frameDamaged := false
    awaitingKeyframe := self.awaitingKeyframe || self.frameDamaged }
  if self.frame = [] then (window, .nothing)
  else
    let keyframe := isKeyframe self.codec self.frame
    if window.awaitingKeyframe && !keyframe then (window, .requested)
    else
      ({ window with awaitingKeyframe := false },
        .frame ⟨self.frame, self.codec, timestamp, keyframe⟩)

/-- One packet. -/
def receive (self : RemoteWindow σ) (packet : RtpPacket) : RemoteWindow σ × Received :=
  let window := (self.sequenced packet.sequenceNumber).push depacketizer packet
  if packet.marker then window.finish packet.timestamp else (window, .nothing)

/-- The next complete frame: its window, and the events that are left. -/
def nextFrame (self : RemoteWindow σ) :
    List TrackRemoteEvent →
      Option (Except TransportError WindowFrame × RemoteWindow σ × List TrackRemoteEvent)
  -- it waits
  | [] => none
  | .onEnded :: rest => some (.error .closed, self, rest)
  | .other :: rest => self.nextFrame rest
  | .onRtpPacket packet :: rest =>
    match self.receive depacketizer packet with
    | (window, .frame frame) => some (.ok frame, window, rest)
    | (window, _) => window.nextFrame rest

/-- The frames that packets give. -/
def frames (self : RemoteWindow σ) : List RtpPacket → List WindowFrame
  | [] => []
  | packet :: rest =>
    match self.receive depacketizer packet with
    | (window, .frame frame) => frame :: window.frames rest
    | (window, _) => window.frames rest

variable {depacketizer}

/-- The window behind a marker, when a keyframe is awaited or not. -/
def cleared (self : RemoteWindow σ) (awaiting : Bool) : RemoteWindow σ :=
  { self with frame := [], frameDamaged := false, awaitingKeyframe := awaiting }

/-- What comes of a marker. -/
theorem finish_cases (self : RemoteWindow σ) (timestamp : BitVec 32) :
    self.frame = [] ∧
      self.finish timestamp = (self.cleared (self.awaitingKeyframe || self.frameDamaged), .nothing) ∨
    (self.awaitingKeyframe || self.frameDamaged) = true ∧ isKeyframe self.codec self.frame = false ∧
      self.finish timestamp = (self.cleared true, .requested) ∨
    self.frame ≠ [] ∧
      ((self.awaitingKeyframe || self.frameDamaged) = false ∨ isKeyframe self.codec self.frame = true) ∧
      self.finish timestamp = (self.cleared false,
        .frame ⟨self.frame, self.codec, timestamp, isKeyframe self.codec self.frame⟩) := by
  unfold finish cleared
  by_cases hframe : self.frame = []
  · exact .inl ⟨hframe, by rw [if_pos hframe]⟩
  · simp only [if_neg hframe]
    cases hawaiting : self.awaitingKeyframe || self.frameDamaged with
    | false => exact .inr (.inr ⟨hframe, .inl rfl, rfl⟩)
    | true =>
      cases hkeyframe : isKeyframe self.codec self.frame with
      | false => exact .inr (.inl ⟨rfl, rfl, rfl⟩)
      | true => exact .inr (.inr ⟨hframe, .inr rfl, rfl⟩)

/-- **Successive calls return what the packets give**, one after the other. -/
theorem frames_nextFrame {packets : List RtpPacket} :
    ∀ {self : RemoteWindow σ},
      (self.nextFrame depacketizer (packets.map .onRtpPacket) = none ∧
        self.frames depacketizer packets = []) ∨
      ∃ frame window rest,
        self.nextFrame depacketizer (packets.map .onRtpPacket)
          = some (.ok frame, window, rest.map .onRtpPacket) ∧
        self.frames depacketizer packets = frame :: window.frames depacketizer rest := by
  induction packets with
  | nil => exact .inl ⟨rfl, rfl⟩
  | cons packet packets ih =>
    intro self
    rw [List.map_cons]
    simp only [nextFrame, frames]
    rcases self.receive depacketizer packet with ⟨window, received⟩
    cases received with
    | nothing => exact ih
    | requested => exact ih
    | frame frame => exact .inr ⟨frame, window, packets, rfl, rfl⟩

end RemoteWindow

end WindowCast.Transport
