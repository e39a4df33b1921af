import WindowCast.GameStream.Crypto
import WindowCast.GameStream.Fec
import WindowCast.Lib.BigEndian
import WindowCast.Lib.Run
import WindowCast.Lib.Table

/-!
# GameStream's sound packets

Opus packets in RTP packets (`audio.rs`), each four followed by two parity packets.  A
client plays them in the order of their numbers, which are of sixteen bits: what it
waits for, it gives up once a later block has enough to play.

## Main definitions

* `AudioPacketizer.packets` — the packets to send for an Opus packet.
* `AudioDepacketizer.turn` — one turn of the loop that plays.
* `AudioDepacketizer.add` — what a packet lets out.

## Main results

* `AudioDepacketizer.drain_ends` — the loop ends.
* `AudioDepacketizer.adds_end` — so does every run of `add`, whatever the packets.
-/

namespace WindowCast.GameStream.Audio

open WindowCast.Fec (Shard)
open GameStream.Fec (DATA_SHARDS PARITY_SHARDS SHARDS)

def payloadType : UInt8 := 97
/-- Audio parity packets. -/
def fecPayloadType : UInt8 := 127
def rtpHeader : ℕ := 12
/-- Shard index, payload type, base sequence number, base timestamp, SSRC. -/
def fecHeader : ℕ := 12

/-- The launch's input key and key ID, for encrypted audio. -/
structure AudioKey where
  key : Vector UInt8 16
  keyId : UInt32

def iv (keyId : UInt32) (sequence : UInt16) : Block :=
  Vector.ofFn fun i => (BigEndian.toBytes 4 (keyId + sequence.toUInt32).toNat).getD i 0

def rtp (payloadType : UInt8) (sequence : UInt16) (timestamp : UInt32) : List UInt8 :=
  [0x80, payloadType] ++ BigEndian.toBytes 2 sequence.toNat ++ BigEndian.toBytes 4 timestamp.toNat
    ++ BigEndian.toBytes 4 0

variable (aes : Aes128)

/-! ### The host -/

/-- Numbers, encrypts and protects a stream's Opus packets. -/
structure AudioPacketizer where
  sequence : UInt16
  durationMs : UInt32
  key : Option AudioKey
  /-- The payloads of the current block of four, as sent. -/
  block : List Shard

namespace AudioPacketizer

def new (durationMs : UInt32) (key : Option AudioKey) : AudioPacketizer := ⟨0, durationMs, key, []⟩

def payload (self : AudioPacketizer) (opus : List UInt8) : Shard :=
  match self.key with
  | some key => Crypto.cbcEncrypt aes key.key (iv key.keyId self.sequence) opus
  | none => opus

/-- A parity packet, behind the packet with this number. -/
def parityPacket (self : AudioPacketizer) (sequence : UInt16) (index : ℕ) (shard : Shard) : List UInt8 :=
  let base := sequence - (UInt16.ofNat DATA_SHARDS - 1)
  let baseTimestamp := base.toUInt32 * self.durationMs
  rtp fecPayloadType (sequence + UInt16.ofNat index + 1) 0 ++ [UInt8.ofNat index, payloadType]
    ++ BigEndian.toBytes 2 base.toNat ++ BigEndian.toBytes 4 baseTimestamp.toNat ++ BigEndian.toBytes 4 0 ++ shard

/-- The packets to send for `opus`: its RTP packet, and after every fourth the block's
two parity packets. -/
def packets (self : AudioPacketizer) (opus : List UInt8) : List (List UInt8) × AudioPacketizer :=
  let sequence := self.sequence
  let timestamp := sequence.toUInt32 * self.durationMs
  let payload := self.payload aes opus
  let out := [rtp payloadType sequence timestamp ++ payload]
  let block := (if sequence.toNat % DATA_SHARDS = 0 then [] else self.block) ++ [payload]
  let complete := block.length = DATA_SHARDS ∧ ∀ p ∈ block, some p.length = block.head?.map List.length
  let parity := if sequence.toNat % DATA_SHARDS = DATA_SHARDS - 1 ∧ complete then
      match Fec.parity block with
      | .ok parity => parity.mapIdx fun index shard => self.parityPacket sequence index shard
      -- not taken: the block is four shards of one size
      | .error _ => []
    else []
  (out ++ parity, { self with sequence := sequence + 1, block := block })

end AudioPacketizer

/-! ### The client -/

abbrev Shards := Fin SHARDS → Option Shard

namespace Shards

def empty : Shards := fun _ => none

/-- The shards, with the data that was rebuilt. -/
def fill (self : Shards) (data : List Shard) : Shards := fun i => (self i).or data[i.val]?

/-- How many data shards are missing. -/
def missing (self : Shards) : ℕ := (Finset.univ.filter fun i => i.val < DATA_SHARDS ∧ self i = none).card

end Shards

/-- Audio and parity packets in, Opus packets out in sequence order. -/
structure AudioDepacketizer where
  key : Option AudioKey
  next : Option UInt16
  blocks : AList fun _ : UInt16 => Shards
  /-- Packets rebuilt from parity so far. -/
  recovered : ℕ
  /-- Packets given up on. -/
  lost : ℕ

def blockOf (sequence : UInt16) : UInt16 := sequence - sequence % UInt16.ofNat DATA_SHARDS

/-- The place of a data packet in its block. -/
def placeOf (sequence : UInt16) : Fin SHARDS :=
  ⟨sequence.toNat % DATA_SHARDS, Nat.lt_of_lt_of_le (Nat.mod_lt _ (by decide)) (by decide)⟩

/-- How far `a` is after `b`, sequence numbers wrapping. -/
def after (a b : UInt16) : ℤ := (a - b).toBitVec.toInt

/-- What a packet is read as. -/
structure Packet where
  base : UInt16
  index : Fin SHARDS
  payload : Shard
  /-- Where playing begins if this is the first packet. -/
  start : UInt16

def read (data : List UInt8) : Option Packet :=
  if data.length ≤ rtpHeader then none
  else
    let sequence := UInt16.ofNat (BigEndian.ofBytes ((data.drop 2).take 2))
    let type := data.getD 1 0 &&& 0x7f
    if type = payloadType then
      some { base := blockOf sequence, index := placeOf sequence, payload := data.drop rtpHeader, start := sequence }
    else if type = fecPayloadType ∧ data.length > rtpHeader + fecHeader then
      let header := data.drop rtpHeader
      let base := UInt16.ofNat (BigEndian.ofBytes ((header.drop 2).take 2))
      if h : (header.getD 0 0).toNat ≥ PARITY_SHARDS ∨ base.toNat % DATA_SHARDS ≠ 0 then none
      else some {
        base := base
        index := ⟨DATA_SHARDS + (header.getD 0 0).toNat, by
          rw [not_or, Nat.not_le] at h
          exact Nat.add_lt_add_left h.1 _⟩
        payload := header.drop fecHeader
        start := base }
    else none

namespace AudioDepacketizer

def new (key : Option AudioKey) : AudioDepacketizer := ⟨key, none, ∅, 0, 0⟩

def block (self : AudioDepacketizer) (base : UInt16) : Shards := (self.blocks.lookup base).getD Shards.empty

/-- A later block has enough to play. -/
def ahead (self : AudioDepacketizer) (base : UInt16) : Bool :=
  self.blocks.entries.any fun entry => decide (0 < after entry.1 base) && decide (DATA_SHARDS ≤ Fec.present entry.2)

/-- The block the next packet is in, with what parity allows to rebuild. -/
def rebuild (self : AudioDepacketizer) (next : UInt16) : AudioDepacketizer :=
  let base := blockOf next
  let block := self.block base
  match (if block (placeOf next) = none then Fec.recover block else none) with
  | some data =>
    { self with
      blocks := self.blocks.insert base (block.fill data)
      recovered := self.recovered + block.missing }
  | none => { self with blocks := self.blocks.insert base block }

/-- On to the packet behind; a block is dropped behind its last packet. -/
def advance (self : AudioDepacketizer) (next : UInt16) : AudioDepacketizer :=
  { self with
    next := some (next + 1)
    blocks := if (next + 1).toNat % DATA_SHARDS = 0 then self.blocks.erase (blockOf next) else self.blocks }

def opus (self : AudioDepacketizer) (next : UInt16) (payload : Shard) : Option (List UInt8) :=
  match self.key with
  | some key => Crypto.cbcDecrypt aes key.key (iv key.keyId next) payload
  | none => some payload

/-- One turn of the loop: what it lets out, or nothing where it waits. -/
def turn (self : AudioDepacketizer) (next : UInt16) : Option (List (List UInt8)) × AudioDepacketizer :=
  let self := self.rebuild next
  match self.block (blockOf next) (placeOf next) with
  | some payload => (some (self.opus aes next payload).toList, self.advance next)
  | none =>
    -- give up once a later block has enough to play
    if self.ahead (blockOf next) then (some [], { self with lost := self.lost + 1 }.advance next)
    else (none, self)

/-- The loop, for so many turns at most. -/
def drain : ℕ → AudioDepacketizer → Option (List (List UInt8) × AudioDepacketizer)
  | 0, _ => none
  | turns + 1, self =>
    match self.next with
    | none => some ([], self)
    | some next =>
      match self.turn aes next with
      | (none, self) => some ([], self)
      | (some out, self) => (drain turns self).map fun rest => (out ++ rest.1, rest.2)

/-- More turns than the loop can take. -/
def turns : ℕ := 2 ^ 16 + 1

/-- Where playing is, once a packet came. -/
def begin (self : AudioDepacketizer) (packet : Packet) : AudioDepacketizer :=
  { self with next := some (self.next.getD packet.start) }

def store (self : AudioDepacketizer) (packet : Packet) : AudioDepacketizer :=
  let block := Function.update (self.block packet.base) packet.index (some packet.payload)
  { self with blocks := self.blocks.insert packet.base block }

/-- Takes one packet; returns the Opus packets it lets out, in order. -/
def add (self : AudioDepacketizer) (data : List UInt8) : Option (List (List UInt8) × AudioDepacketizer) :=
  match read data with
  | none => some ([], self)
  | some packet =>
    let next := self.next.getD packet.start
    let self := self.begin packet
    -- a block already played
    if after packet.base (blockOf next) < 0 then some ([], self) else drain aes turns (self.store packet)

end AudioDepacketizer

/-! ### Numbers -/

theorem toNat_blockOf (sequence : UInt16) : (blockOf sequence).toNat = sequence.toNat - sequence.toNat % 4 := by
  rw [blockOf, UInt16.toNat_sub, UInt16.toNat_mod]
  have := sequence.toNat_lt
  have h4 : (UInt16.ofNat DATA_SHARDS).toNat = 4 := rfl
  rw [h4]
  omega

theorem blockOf_mod (sequence : UInt16) : (blockOf sequence).toNat % 4 = 0 := by
  rw [toNat_blockOf]
  omega

theorem after_self (a : UInt16) : after a a = 0 := by
  rw [after, UInt16.sub_self]
  rfl

/-! ### What a turn does -/

namespace AudioDepacketizer

variable {aes} {d d' : AudioDepacketizer} {next : UInt16} {out : List (List UInt8)} {b : UInt16} {n : ℕ}

/-- The block the next packet is in, with what parity allows to rebuild. -/
def restored (d : AudioDepacketizer) (next : UInt16) : Shards :=
  match (if d.block (blockOf next) (placeOf next) = none then Fec.recover (d.block (blockOf next)) else none) with
  | some data => (d.block (blockOf next)).fill data
  | none => d.block (blockOf next)

theorem block_insert (d : AudioDepacketizer) (b base : UInt16) (shards : Shards) :
    { d with blocks := d.blocks.insert base shards }.block b = if b = base then shards else d.block b := by
  unfold block
  split
  case isTrue h =>
    subst h
    rw [AList.lookup_insert]
    rfl
  case isFalse h => rw [AList.lookup_insert_ne h]

/-- What rebuilding changes. -/
theorem rebuild_cases (d : AudioDepacketizer) (next : UInt16) :
    ∃ recovered, d.rebuild next
      = { d with blocks := d.blocks.insert (blockOf next) (d.restored next), recovered := recovered } := by
  unfold rebuild restored
  dsimp only
  split
  · exact ⟨_, rfl⟩
  · exact ⟨_, rfl⟩

theorem block_rebuild (d : AudioDepacketizer) (next b : UInt16) :
    (d.rebuild next).block b = if b = blockOf next then d.restored next else d.block b := by
  obtain ⟨recovered, h⟩ := d.rebuild_cases next
  rw [h]
  exact block_insert d b (blockOf next) (d.restored next)

theorem mem_rebuild {b : UInt16} : b ∈ (d.rebuild next).blocks ↔ b = blockOf next ∨ b ∈ d.blocks := by
  obtain ⟨recovered, h⟩ := d.rebuild_cases next
  rw [h]
  exact AList.mem_insert _

/-- What is rebuilt is of a block with enough of its shards. -/
theorem restored_cases (d : AudioDepacketizer) (next : UInt16) :
    d.restored next = d.block (blockOf next)
      ∨ ∃ data, Fec.recover (d.block (blockOf next)) = some data ∧ d.restored next = (d.block (blockOf next)).fill data := by
  unfold restored
  split
  case h_1 data h =>
    right
    split at h
    · exact ⟨data, h, rfl⟩
    · cases h
  case h_2 => exact Or.inl rfl

theorem block_advance (d : AudioDepacketizer) (next b : UInt16) :
    (d.advance next).block b
      = if (next + 1).toNat % DATA_SHARDS = 0 ∧ b = blockOf next then Shards.empty else d.block b := by
  unfold block advance
  dsimp only
  by_cases hlast : (next + 1).toNat % DATA_SHARDS = 0
  · rw [if_pos hlast]
    by_cases hb : b = blockOf next
    · rw [if_pos ⟨hlast, hb⟩, hb, AList.lookup_erase]
      rfl
    · rw [if_neg fun h => hb h.2, AList.lookup_erase_ne hb]
  · rw [if_neg hlast, if_neg fun h => hlast h.1]

theorem mem_advance (h : b ∈ (d.advance next).blocks) :
    b ∈ d.blocks ∧ ((next + 1).toNat % DATA_SHARDS = 0 → b ≠ blockOf next) := by
  unfold advance at h
  dsimp only at h
  split at h
  · exact ⟨(AList.mem_erase.mp h).2, fun _ => (AList.mem_erase.mp h).1⟩
  · exact ⟨h, fun hlast => absurd hlast ‹_›⟩

/-- What a turn of the loop does. -/
theorem turn_cases (h : d.turn aes next = (some out, d')) :
    (∃ payload, d.restored next (placeOf next) = some payload ∧ out = (d.opus aes next payload).toList
        ∧ d' = (d.rebuild next).advance next)
      ∨ (d.restored next (placeOf next) = none ∧ (d.rebuild next).ahead (blockOf next) = true ∧ out = []
        ∧ d' = { d.rebuild next with lost := (d.rebuild next).lost + 1 }.advance next) := by
  have hblock : (d.rebuild next).block (blockOf next) = d.restored next := by rw [block_rebuild, if_pos rfl]
  obtain ⟨recovered, hrebuild⟩ := d.rebuild_cases next
  have hkey : (d.rebuild next).key = d.key := by rw [hrebuild]
  unfold turn at h
  dsimp only at h
  rw [hblock] at h
  split at h
  case h_1 payload hpayload =>
    obtain ⟨rfl, rfl⟩ := Prod.mk.inj h |>.imp_left Option.some_inj.mp
    refine Or.inl ⟨payload, hpayload, ?_, rfl⟩
    rw [opus, opus, hkey]
  case h_2 hnone =>
    split at h
    case isTrue hahead =>
      obtain ⟨rfl, rfl⟩ := Prod.mk.inj h |>.imp_left Option.some_inj.mp
      exact Or.inr ⟨hnone, hahead, rfl, rfl⟩
    case isFalse => cases h

/-- The loop waits where the next packet is missing and no later block has enough. -/
theorem turn_waits (h : d.turn aes next = (none, d')) :
    d.restored next (placeOf next) = none ∧ (d.rebuild next).ahead (blockOf next) = false ∧ d' = d.rebuild next := by
  have hblock : (d.rebuild next).block (blockOf next) = d.restored next := by rw [block_rebuild, if_pos rfl]
  unfold turn at h
  dsimp only at h
  rw [hblock] at h
  split at h
  case h_1 => cases h
  case h_2 hnone =>
    split at h
    case isTrue => cases h
    case isFalse hahead =>
      obtain ⟨-, rfl⟩ := Prod.mk.inj h
      exact ⟨hnone, Bool.eq_false_of_not_eq_true hahead, rfl⟩

end AudioDepacketizer

/-! ### The loop ends -/

namespace AudioDepacketizer

variable {aes} {d d' : AudioDepacketizer} {next : UInt16} {out : List (List UInt8)} {n : ℕ}

/-- A block of which something is there. -/
def Holds (d : AudioDepacketizer) (b : UInt16) : Prop := ∃ i, (d.block b i).isSome = true

theorem holds_of_present {b : UInt16} (h : DATA_SHARDS ≤ Fec.present (d.block b)) : d.Holds b := by
  have hpos : 0 < Fec.present (d.block b) := Nat.lt_of_lt_of_le (by decide) h
  obtain ⟨i, hi⟩ := Finset.card_pos.mp hpos
  exact ⟨i, (Finset.mem_filter.mp hi).2⟩

/-- Something is rebuilt only where something is there. -/
theorem holds_rebuild (h : (d.rebuild next).Holds b) : d.Holds b := by
  obtain ⟨i, hi⟩ := h
  rw [block_rebuild] at hi
  split at hi
  case isTrue hb =>
    subst hb
    rcases d.restored_cases next with heq | ⟨data, hdata, -⟩
    · rw [heq] at hi
      exact ⟨i, hi⟩
    · exact holds_of_present (Fec.le_present_of_recover hdata)
  case isFalse => exact ⟨i, hi⟩

theorem ahead_iff {base : UInt16} :
    d.ahead base = true ↔ ∃ b, 0 < after b base ∧ ∃ shards, d.blocks.lookup b = some shards
      ∧ DATA_SHARDS ≤ Fec.present shards := by
  rw [ahead, List.any_eq_true]
  constructor
  · rintro ⟨⟨b, shards⟩, hmem, h⟩
    rw [Bool.and_eq_true, decide_eq_true_iff, decide_eq_true_iff] at h
    exact ⟨b, h.1, shards, AList.mem_lookup_iff.mpr hmem, h.2⟩
  · rintro ⟨b, hafter, shards, hlookup, hpresent⟩
    refine ⟨⟨b, shards⟩, AList.mem_lookup_iff.mp hlookup, ?_⟩
    rw [Bool.and_eq_true, decide_eq_true_iff, decide_eq_true_iff]
    exact ⟨hafter, hpresent⟩

theorem holds_of_ahead {base : UInt16} (h : d.ahead base = true) : ∃ b, d.Holds b := by
  obtain ⟨b, -, shards, hlookup, hpresent⟩ := ahead_iff.mp h
  refine ⟨b, holds_of_present ?_⟩
  rw [block, hlookup]
  exact hpresent

/-- Every block begins at a multiple of four. -/
def Aligned (d : AudioDepacketizer) : Prop := ∀ b ∈ d.blocks, b.toNat % 4 = 0

/-- The blocks of which something is there are played within so many turns. -/
def Within (d : AudioDepacketizer) (next : UInt16) (n : ℕ) : Prop :=
  ∀ b, d.Holds b → (b - blockOf next).toNat + 4 ≤ n + next.toNat % 4

theorem mem_of_holds (h : d.Holds b) : b ∈ d.blocks := by
  obtain ⟨i, hi⟩ := h
  unfold block at hi
  cases hlookup : d.blocks.lookup b with
  | none =>
    rw [hlookup] at hi
    cases hi
  | some shards => exact AList.lookup_isSome.mp (by rw [hlookup]; rfl)

theorem Aligned.rebuild (h : d.Aligned) (next : UInt16) : (d.rebuild next).Aligned := by
  intro b hb
  rcases mem_rebuild.mp hb with rfl | hb
  · exact blockOf_mod next
  · exact h b hb

theorem Aligned.advance (h : d.Aligned) (next : UInt16) : (d.advance next).Aligned := fun b hb => h b (mem_advance hb).1

/-- A turn that goes on has one turn less ahead of it. -/
theorem Within.advance (h : d.Within next n) (ha : d.Aligned) (hsome : ∃ b, d.Holds b) :
    0 < n ∧ (d.advance next).Within (next + 1) (n - 1) := by
  have hpos : 0 < n := by
    obtain ⟨b, hb⟩ := hsome
    have := h b hb
    have := Nat.mod_lt next.toNat (show 4 > 0 by decide)
    omega
  refine ⟨hpos, fun b hb => ?_⟩
  obtain ⟨i, hi⟩ := hb
  rw [block_advance] at hi
  split at hi
  case isTrue => cases hi
  case isFalse hkept =>
    have hle := h b ⟨i, hi⟩
    have hmod := ha b (mem_of_holds ⟨i, hi⟩)
    have hnext : (next + 1).toNat = (next.toNat + 1) % 65536 := by
      rw [UInt16.toNat_add]
      rfl
    have hlt := next.toNat_lt
    have hbase := toNat_blockOf next
    have hbase' := toNat_blockOf (next + 1)
    have hb := b.toNat_lt
    have hne : (next + 1).toNat % 4 = 0 → b.toNat ≠ (blockOf next).toNat := by
      intro hlast heq
      exact hkept ⟨hlast, UInt16.toNat_inj.mp heq⟩
    rw [UInt16.toNat_sub] at hle ⊢
    omega

/-- What a turn that goes on leaves to the next. -/
theorem Within.turn (h : d.Within next n) (ha : d.Aligned) (hturn : d.turn aes next = (some out, d')) :
    0 < n ∧ d'.next = some (next + 1) ∧ d'.Aligned ∧ d'.Within (next + 1) (n - 1) := by
  have hwithin : (d.rebuild next).Within next n := fun b hb => h b (holds_rebuild hb)
  have haligned := ha.rebuild next
  rcases turn_cases hturn with ⟨payload, hpayload, -, rfl⟩ | ⟨-, hahead, -, rfl⟩
  · have hholds : (d.rebuild next).Holds (blockOf next) := by
      refine ⟨placeOf next, ?_⟩
      rw [block_rebuild, if_pos rfl, hpayload]
      rfl
    obtain ⟨hpos, hrest⟩ := hwithin.advance haligned ⟨_, hholds⟩
    exact ⟨hpos, rfl, haligned.advance next, hrest⟩
  · obtain ⟨hpos, hrest⟩ := hwithin.advance haligned (holds_of_ahead hahead)
    exact ⟨hpos, rfl, haligned.advance next, hrest⟩

theorem drain_none (h : d.next = none) : drain aes (n + 1) d = some ([], d) := by
  rw [drain]
  simp only [h]

theorem drain_waits (h : d.next = some next) (hturn : d.turn aes next = (none, d')) :
    drain aes (n + 1) d = some ([], d') := by
  rw [drain]
  simp only [h, hturn]

theorem drain_goesOn (h : d.next = some next) (hturn : d.turn aes next = (some out, d')) :
    drain aes (n + 1) d = (drain aes n d').map fun rest => (out ++ rest.1, rest.2) := by
  rw [drain]
  simp only [h, hturn]

/-- **The loop ends**, and within the turns that are left. -/
theorem drain_ends (n : ℕ) (d : AudioDepacketizer) (ha : d.Aligned) (hwithin : ∀ next ∈ d.next, d.Within next n) :
    ∃ out d', drain aes (n + 1) d = some (out, d') ∧ d'.Aligned := by
  induction n generalizing d with
  | zero =>
    cases hnext : d.next with
    | none => exact ⟨[], d, drain_none hnext, ha⟩
    | some next =>
      cases hturn : d.turn aes next with
      | mk out d' =>
        cases out with
        | none =>
          obtain ⟨-, -, rfl⟩ := turn_waits hturn
          exact ⟨[], _, drain_waits hnext hturn, ha.rebuild next⟩
        | some out => exact absurd ((hwithin next hnext).turn ha hturn).1 (Nat.lt_irrefl 0)
  | succ n ih =>
    cases hnext : d.next with
    | none => exact ⟨[], d, drain_none hnext, ha⟩
    | some next =>
      cases hturn : d.turn aes next with
      | mk out d' =>
        cases out with
        | none =>
          obtain ⟨-, -, rfl⟩ := turn_waits hturn
          exact ⟨[], _, drain_waits hnext hturn, ha.rebuild next⟩
        | some out =>
          obtain ⟨-, hnext', ha', hwithin'⟩ := (hwithin next hnext).turn ha hturn
          obtain ⟨rest, d'', hrest, ha''⟩ := ih d' ha' fun next' h => by
            rw [hnext'] at h
            cases h
            exact hwithin'
          exact ⟨out ++ rest, d'', by rw [drain_goesOn hnext hturn, hrest]; rfl, ha''⟩

/-- No block is further away than the numbers reach. -/
theorem within_turns (d : AudioDepacketizer) (ha : d.Aligned) (next : UInt16) : d.Within next (2 ^ 16) := by
  intro b hb
  have hmod := ha b (mem_of_holds hb)
  have hbase := blockOf_mod next
  have hlt := (blockOf next).toNat_lt
  have hb := b.toNat_lt
  rw [UInt16.toNat_sub]
  omega

/-- Every base that is read is a multiple of four. -/
theorem base_of_read {data : List UInt8} {packet : Packet} (h : read data = some packet) : packet.base.toNat % 4 = 0 := by
  unfold read at h
  split at h
  case isTrue => cases h
  dsimp only at h
  split at h
  case isTrue =>
    cases h
    exact blockOf_mod _
  case isFalse =>
    split at h
    case isFalse => cases h
    split at h
    case isTrue => cases h
    case isFalse hbase =>
      cases h
      rw [not_or, not_not] at hbase
      exact hbase.2

/-- **`add` ends** for every packet. -/
theorem add_ends (aes : Aes128) (d : AudioDepacketizer) (data : List UInt8) (ha : d.Aligned) :
    ∃ out d', d.add aes data = some (out, d') ∧ d'.Aligned := by
  unfold add
  cases hread : read data with
  | none => exact ⟨[], d, rfl, ha⟩
  | some packet =>
    dsimp only
    split
    case isTrue => exact ⟨[], _, rfl, ha⟩
    case isFalse =>
      have haligned : ((d.begin packet).store packet).Aligned := by
        intro b hb
        rcases (AList.mem_insert _).mp hb with rfl | hb
        · exact base_of_read hread
        · exact ha b hb
      exact drain_ends _ _ haligned fun next _ => within_turns _ haligned next

theorem aligned_new (key : Option AudioKey) : (new key).Aligned := fun b hb => absurd hb (AList.notMem_empty b)

/-- So does every run of it, whatever the packets. -/
theorem adds_end (aes : Aes128) (key : Option AudioKey) (packets : List (List UInt8)) :
    ∃ d, packets.foldlM (fun d data => (d.add aes data).map Prod.snd) (new key) = some d ∧ d.Aligned := by
  refine Run.total (I := Aligned) (A := fun _ => True) ?_ packets (new key) (aligned_new key) fun _ _ => trivial
  intro d data ha _
  obtain ⟨out, d', hadd, ha'⟩ := d.add_ends aes data ha
  exact ⟨d', by rw [hadd]; rfl, ha'⟩

end AudioDepacketizer

end WindowCast.GameStream.Audio
