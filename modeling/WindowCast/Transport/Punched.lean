import WindowCast.Lib.BigEndian
import WindowCast.Lib.SerialNumber

/-!
# Streams over a punched socket

A reliable byte stream over datagrams: what an endpoint of it does with the bytes
of its program, with the segments of its peer and with the time.  Sequence numbers
wrap at 32 bits; beside each the model keeps the number it has wrapped from.

## Main definitions

* `Segment`, `encode`, `decode` — a datagram of a stream.
* `Outgoing` — the bytes of the program on their way to the peer.
* `Incoming` — the peer's bytes on their way to the program.
* `Endpoint` — one end of a stream; `Endpoint.take`, `Endpoint.tick`,
  `Endpoint.readPipe` are the branches of `run_stream`'s loop.

## Main results

* `decode_encode` — a segment that is read is the one that was written.
* `Incoming.drain_lookup` — what can be handed over in order has been.
-/

namespace WindowCast.Transport

/-! ### Segments -/

abbrev Bytes := List UInt8

/-- Every segment starts with this. -/
def MAGIC : Bytes := [0x57, 0x43, 0x53, 0x31]

def SYN : UInt8 := 1
def DATA : UInt8 := 2
def ACK : UInt8 := 3
def FIN : UInt8 := 4

/-- Magic, kind, connection id, sequence number. -/
def HEADER : ℕ := 4 + 1 + 4 + 4

/-- Payload per segment. -/
def SEGMENT : ℕ := 1100

/-- Segments in flight. -/
def WINDOW : ℕ := 16

/-- Times are in milliseconds. -/
def RESEND : ℕ := 300

def RESEND_MAX : ℕ := 2000

/-- A stream that hears nothing for this long is gone. -/
def IDLE : ℕ := 30000

structure Segment where
  kind : UInt8
  id : BitVec 32
  seq : BitVec 32
  payload : Bytes
  deriving DecidableEq, Repr

def encode (kind : UInt8) (id seq : BitVec 32) (payload : Bytes) : Bytes :=
  MAGIC ++ [kind] ++ BigEndian.toBytes 4 id.toNat ++ BigEndian.toBytes 4 seq.toNat ++ payload

def decode (data : Bytes) : Option Segment :=
  if data.length < HEADER ∨ data.take 4 ≠ MAGIC then none
  else
    match data.drop 4 with
    | [] => none
    | kind :: rest =>
      some ⟨kind, BitVec.ofNat 32 (BigEndian.ofBytes (rest.take 4)),
        BitVec.ofNat 32 (BigEndian.ofBytes ((rest.drop 4).take 4)), data.drop HEADER⟩

theorem ofNat_toBytes (x : BitVec 32) :
    BitVec.ofNat 32 (BigEndian.ofBytes (BigEndian.toBytes 4 x.toNat)) = x := by
  rw [BigEndian.ofBytes_toBytes_of_lt x.isLt, BitVec.ofNat_toNat, BitVec.setWidth_eq]

/-- A segment that is read is the one that was written. -/
theorem decode_encode (segment : Segment) :
    decode (encode segment.kind segment.id segment.seq segment.payload) = some segment := by
  obtain ⟨kind, id, seq, payload⟩ := segment
  have hid : (BigEndian.toBytes 4 id.toNat).length = 4 := BigEndian.length_toBytes 4 _
  have hseq : (BigEndian.toBytes 4 seq.toNat).length = 4 := BigEndian.length_toBytes 4 _
  have hsplit : encode kind id seq payload
      = MAGIC ++ kind :: (BigEndian.toBytes 4 id.toNat ++ (BigEndian.toBytes 4 seq.toNat ++ payload)) := by
    unfold encode
    simp only [List.append_assoc, List.cons_append, List.nil_append]
  unfold decode
  have hlength : ¬ (encode kind id seq payload).length < HEADER := by
    rw [hsplit]
    simp only [List.length_append, List.length_cons, hid, hseq]
    simp only [MAGIC, HEADER, List.length_cons, List.length_nil]
    omega
  have hmagic : (encode kind id seq payload).take 4 = MAGIC := by
    rw [hsplit]
    exact List.take_left' rfl
  have hpayload : (encode kind id seq payload).drop HEADER = payload := by
    have hheader : HEADER = (MAGIC ++ [kind] ++ BigEndian.toBytes 4 id.toNat
        ++ BigEndian.toBytes 4 seq.toNat).length := by
      simp [MAGIC, HEADER, hid, hseq]
    unfold encode
    exact List.drop_left' hheader.symm
  have hrest : (encode kind id seq payload).drop 4
      = kind :: (BigEndian.toBytes 4 id.toNat ++ (BigEndian.toBytes 4 seq.toNat ++ payload)) := by
    rw [hsplit]
    exact List.drop_left' rfl
  rw [if_neg (not_or.mpr ⟨hlength, not_not.mpr hmagic⟩), hrest, hpayload]
  simp only
  rw [List.take_left' hid, List.drop_left' hid, List.take_left' hseq, ofNat_toBytes, ofNat_toBytes]

/-- A segment on its way, with its sequence number before it wrapped. -/
structure Datagram where
  segment : Segment
  number : ℕ
  deriving DecidableEq, Repr

/-! ### The bytes of the program -/

/-- A segment sent and not acknowledged yet. -/
structure Unacked where
  seq : BitVec 32
  payload : Bytes
  sent : ℕ
  /-- The current resend interval. -/
  every : ℕ
  number : ℕ
  deriving DecidableEq, Repr

/-- What the program writes, on its way to the peer. -/
structure Outgoing where
  /-- What is in the program's pipe. -/
  unread : Bytes
  /-- Whether the program has closed its side. -/
  closed : Bool
  nextOut : BitVec 32
  unacked : List Unacked
  readClosed : Bool
  finSent : Option ℕ
  /-- All that the program wrote. -/
  wrote : Bytes
  /-- What was read from the pipe, segment by segment. -/
  read : List Bytes
  deriving DecidableEq, Repr

namespace Outgoing

def new : Outgoing := ⟨[], false, 0, [], false, none, [], []⟩

def canSend (self : Outgoing) : Bool := !self.readClosed && self.unacked.length < WINDOW

/-- A segment with the next `n` bytes of the pipe. -/
def push (self : Outgoing) (now n : ℕ) : Outgoing :=
  { self with
    unread := self.unread.drop n
    nextOut := self.nextOut + 1
    unacked := self.unacked ++ [⟨self.nextOut, self.unread.take n, now, RESEND, self.read.length⟩]
    read := self.read ++ [self.unread.take n] }

/-- Everything before `seq` has arrived. -/
def ack (self : Outgoing) (seq : BitVec 32) : Outgoing :=
  { self with unacked := self.unacked.dropWhile fun u => 0 < (seq - u.seq).toInt }

def Unacked.due (self : Unacked) (now : ℕ) : Bool := self.every ≤ now - self.sent

/-- What is due again, sent again. -/
def resend (self : Outgoing) (now : ℕ) : Outgoing :=
  { self with
    unacked := self.unacked.map fun u =>
      if Unacked.due u now then { u with sent := now, every := min (u.every * 2) RESEND_MAX } else u }

/-- Whether the end is due: everything is acknowledged, and it has not just been said. -/
def finDue (self : Outgoing) (now : ℕ) : Bool :=
  self.readClosed && self.unacked.isEmpty && self.finSent.all fun sent => RESEND ≤ now - sent

end Outgoing

/-! ### The bytes of the peer -/

/-- Why the program's stream has ended. -/
inductive Ending
  /-- The peer's side is done. -/
  | finished
  /-- Nothing was heard since a time, at a later one. -/
  | silent (heard now : ℕ)
  /-- Its place at the socket was taken. -/
  | replaced
  deriving DecidableEq, Repr

/-- The peer's bytes, on their way to the program. -/
structure Incoming where
  /-- Whether the program still has its end of the pipe. -/
  reading : Bool
  /-- What was handed to the program. -/
  handed : Bytes
  /-- How the stream ended for the program, if it has. -/
  ending : Option Ending
  nextIn : BitVec 32
  early : AList fun _ : BitVec 32 => Bytes
  /-- The peer's end came, at this sequence number. -/
  peerFin : Option (BitVec 32)
  /-- How many segments were handed over. -/
  taken : ℕ
  deriving DecidableEq

namespace Incoming

def new : Incoming := ⟨true, [], none, 0, ∅, none, 0⟩

/-- Whether a write to the program's pipe succeeds: not once the program is gone
or has read the end of the stream. -/
def writable (self : Incoming) : Bool := self.reading && self.ending.isNone

/-- Keeps a segment that is not behind. -/
def keep (self : Incoming) (seq : BitVec 32) (payload : Bytes) : Incoming :=
  if 0 ≤ (seq - self.nextIn).toInt then { self with early := self.early.insert seq payload } else self

/-- Takes the segment that follows on out of the early ones. -/
def remove (self : Incoming) : Incoming := { self with early := self.early.erase self.nextIn }

/-- Hands the segment that follows on to the program. -/
def handOver (self : Incoming) (payload : Bytes) : Incoming :=
  { self.remove with
    handed := self.handed ++ payload
    nextIn := self.nextIn + 1
    taken := self.taken + 1 }

/-- Hands over at most `n` segments, as they follow on. -/
def drainUpTo (self : Incoming) : ℕ → Incoming
  | 0 => self
  | n + 1 =>
    match self.early.lookup self.nextIn with
    | none => self
    | some payload => if self.writable then (self.handOver payload).drainUpTo n else self.remove

/-- Hands over what follows on. -/
def drain (self : Incoming) : Incoming := self.drainUpTo self.early.keys.length

/-- Whether everything before the peer's end has arrived. -/
def finished (self : Incoming) : Bool := self.peerFin = some self.nextIn

/-- Ends the program's stream, if it has not ended. -/
def finish (self : Incoming) (ending : Ending) : Incoming :=
  { self with ending := self.ending.or (some ending) }

/-- What can be handed over in order has been. -/
theorem drainUpTo_lookup {n : ℕ} :
    ∀ {self : Incoming}, self.writable = true → self.early.keys.length ≤ n →
      (self.drainUpTo n).early.lookup (self.drainUpTo n).nextIn = none := by
  induction n with
  | zero =>
    intro self _ hlength
    have hkeys : self.early.keys = [] := List.length_eq_zero_iff.mp (Nat.le_zero.mp hlength)
    unfold drainUpTo
    rw [AList.lookup_eq_none, AList.mem_keys, hkeys]
    exact List.not_mem_nil
  | succ n ih =>
    intro self hwritable hlength
    cases hlookup : self.early.lookup self.nextIn with
    | none =>
      have hstop : self.drainUpTo (n + 1) = self := by simp only [drainUpTo, hlookup]
      rw [hstop]
      exact hlookup
    | some payload =>
      have hnext : self.drainUpTo (n + 1) = (self.handOver payload).drainUpTo n := by
        simp only [drainUpTo, hlookup, hwritable, if_true]
      rw [hnext]
      refine ih hwritable ?_
      have hmem : self.nextIn ∈ self.early.keys :=
        AList.mem_keys.mp (AList.lookup_isSome.mp (by rw [hlookup]; rfl))
      have hkeys : (self.handOver payload).early.keys = self.early.keys.erase self.nextIn :=
        AList.keys_erase _ _
      rw [hkeys, List.length_erase_of_mem hmem]
      omega

theorem drain_lookup {self : Incoming} (h : self.writable = true) :
    self.drain.early.lookup self.drain.nextIn = none :=
  drainUpTo_lookup h (Nat.le_refl _)

end Incoming

/-! ### An endpoint -/

/-- How far an endpoint has come. -/
inductive Phase
  | opening
  | running
  | over
  deriving DecidableEq, Repr

/-- One end of a stream. -/
structure Endpoint where
  id : BitVec 32
  phase : Phase
  /-- When the last segment was taken. -/
  heard : ℕ
  outgoing : Outgoing
  incoming : Incoming
  deriving DecidableEq

namespace Endpoint

def new (id : BitVec 32) : Endpoint := ⟨id, .opening, 0, .new, .new⟩

/-- The opening is answered, and the loop starts. -/
def start (self : Endpoint) (now : ℕ) : Endpoint := { self with phase := .running, heard := now }

def datagram (self : Endpoint) (kind : UInt8) (seq : BitVec 32) (payload : Bytes) (number : ℕ) : Datagram :=
  ⟨⟨kind, self.id, seq, payload⟩, number⟩

/-- Names the next segment wanted. -/
def acknowledge (self : Endpoint) : Datagram :=
  self.datagram ACK self.incoming.nextIn [] self.incoming.taken

/-- The stream is dropped. -/
def drop (self : Endpoint) (ending : Ending) : Endpoint :=
  { self with phase := .over, incoming := self.incoming.finish ending }

/-- Behind every turn: at the peer's end the program reads the end of the stream,
and the endpoint is done if its own end has been said. -/
def settle (self : Endpoint) : Endpoint :=
  if self.incoming.finished then
    if self.outgoing.finSent.isSome then self.drop .finished
    else { self with incoming := self.incoming.finish .finished }
  else self

/-- Takes up to `n` bytes from the program's pipe, or its end. -/
def readPipe (self : Endpoint) (now n : ℕ) : Endpoint × List Datagram :=
  if self.outgoing.unread = [] then
    ({ self with outgoing := { self.outgoing with readClosed := true } }.settle, [])
  else
    ({ self with outgoing := self.outgoing.push now n }.settle,
      [self.datagram DATA self.outgoing.nextOut (self.outgoing.unread.take n) self.outgoing.read.length])

/-- Takes a segment. -/
def take (self : Endpoint) (now : ℕ) (segment : Segment) : Endpoint × List Datagram :=
  if segment.id ≠ self.id then (self, [])
  else
    let self := { self with heard := now }
    if segment.kind = ACK then
      ({ self with outgoing := self.outgoing.ack segment.seq }.settle, [])
    else if segment.kind = DATA then
      let self := { self with incoming := (self.incoming.keep segment.seq segment.payload).drain }
      (self.settle, [self.acknowledge])
    else if segment.kind = FIN then
      let self := { self with incoming := { self.incoming with peerFin := some segment.seq } }
      (self.settle, [self.acknowledge])
    else if segment.kind = SYN then (self.settle, [self.datagram SYN 0 [] 0])
    else (self.settle, [])

/-- Now and then. -/
def tick (self : Endpoint) (now : ℕ) : Endpoint × List Datagram :=
  if now - self.heard > IDLE then (self.drop (.silent self.heard now), [])
  else
    let due := self.outgoing.unacked.filter fun u => Outgoing.Unacked.due u now
    let again := due.map fun u => self.datagram DATA u.seq u.payload u.number
    let outgoing := self.outgoing.resend now
    if outgoing.finDue now then
      ({ self with outgoing := { outgoing with finSent := some now } }.settle,
        again ++ [self.datagram FIN outgoing.nextOut [] outgoing.read.length])
    else ({ self with outgoing := outgoing }.settle, again)

end Endpoint

/-! ### What the program does -/

/-- What the program of an endpoint and its timer bring about. -/
inductive Act
  | write (bytes : Bytes)
  /-- The program closes its side. -/
  | close
  /-- The program drops its end of the pipe. -/
  | leave
  /-- The endpoint reads from the program's pipe. -/
  | read (n : ℕ)
  | tick
  deriving DecidableEq, Repr

namespace Endpoint

def write (self : Endpoint) (bytes : Bytes) : Endpoint :=
  { self with
    outgoing := { self.outgoing with
      unread := self.outgoing.unread ++ bytes
      wrote := self.outgoing.wrote ++ bytes } }

def close (self : Endpoint) : Endpoint :=
  { self with outgoing := { self.outgoing with closed := true } }

def leave (self : Endpoint) : Endpoint :=
  { self.close with incoming := { self.incoming with reading := false } }

/-- What an endpoint whose loop runs does, where it can. -/
def act (self : Endpoint) (now : ℕ) : Act → Option (Endpoint × List Datagram)
  | .write bytes => if self.outgoing.closed then none else some (self.write bytes, [])
  | .close => some (self.close, [])
  | .leave => some (self.leave, [])
  | .read n =>
    if self.outgoing.canSend ∧ 0 < n ∧ n ≤ SEGMENT ∧ (self.outgoing.unread ≠ [] ∨ self.outgoing.closed) then
      some (self.readPipe now n)
    else none
  | .tick => some (self.tick now)

end Endpoint

/-! ### The two ends of a stream -/

inductive Side
  | left
  | right
  deriving DecidableEq, Repr

namespace Side

def other : Side → Side
  | left => right
  | right => left

theorem other_other : ∀ side : Side, side.other.other = side
  | left => rfl
  | right => rfl

theorem other_ne : ∀ side : Side, side.other ≠ side
  | left => by decide
  | right => by decide

theorem eq_or_eq_other (side : Side) : ∀ there : Side, there = side ∨ there = side.other := by
  intro there
  cases side <;> cases there <;> decide

end Side

end WindowCast.Transport
