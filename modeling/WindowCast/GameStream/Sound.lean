import WindowCast.GameStream.Audio

/-!
# A host's sound, packet by packet

The Opus packets of a host, the shards of each block of four of them, and what a client
reads of the packets that are sent for them.

## Main definitions

* `Sound`, `Sound.sent` — the Opus packets of a host, and the packets sent for them.
* `Sound.shards` — the shards of a block.
* `Arrival` — a packet that arrives, with what it was sent for.

## Main results

* `Sound.sent_eq` — what is sent for a packet.
* `read_arrival` — **a packet is read as the shard it is**.
-/

namespace WindowCast.GameStream.Audio

open WindowCast.Fec (Shard Code)
open GameStream.Fec (DATA_SHARDS PARITY_SHARDS SHARDS)

/-! ### A host's sound -/

/-- The sound of a host: Opus packets of one size. -/
structure Sound where
  durationMs : UInt32
  key : Option AudioKey
  opus : ℕ → List UInt8
  size : ℕ
  same : ∀ n, (opus n).length = size

namespace Sound

variable (aes : Aes128)

/-- The host behind some packets. -/
def packetizer (self : Sound) : ℕ → AudioPacketizer
  | 0 => .new self.durationMs self.key
  | n + 1 => ((self.packetizer n).packets aes (self.opus n)).2

/-- What is sent for the packet that is numbered so. -/
def sent (self : Sound) (n : ℕ) : List (List UInt8) := ((self.packetizer aes n).packets aes (self.opus n)).1

/-- The payload of a packet, as sent. -/
def payload (self : Sound) (n : ℕ) : Shard :=
  match self.key with
  | some key => Crypto.cbcEncrypt aes key.key (iv key.keyId (UInt16.ofNat n)) (self.opus n)
  | none => self.opus n

/-- The payloads of a block. -/
def data (self : Sound) (k : ℕ) : List Shard := (List.range' (4 * k) 4).map (self.payload aes)

/-- The shards of a block. -/
def shards (self : Sound) (k : ℕ) : List Shard :=
  match Fec.parity (self.data aes k) with
  | .ok parity => self.data aes k ++ parity
  | .error _ => []

variable {aes} {sound : Sound} {n k : ℕ}

theorem packetizer_fields (n : ℕ) : (sound.packetizer aes n).sequence = UInt16.ofNat n
    ∧ (sound.packetizer aes n).durationMs = sound.durationMs ∧ (sound.packetizer aes n).key = sound.key := by
  induction n with
  | zero => exact ⟨rfl, rfl, rfl⟩
  | succ n ih =>
    obtain ⟨hsequence, hduration, hkey⟩ := ih
    refine ⟨?_, hduration, hkey⟩
    change (sound.packetizer aes n).sequence + 1 = UInt16.ofNat (n + 1)
    rw [hsequence, UInt16.ofNat_add]
    rfl

theorem payload_packetizer (n : ℕ) : (sound.packetizer aes n).payload aes (sound.opus n) = sound.payload aes n := by
  obtain ⟨hsequence, -, hkey⟩ := @packetizer_fields aes sound n
  rw [AudioPacketizer.payload, hkey, hsequence]
  rfl

/-- Every payload has the same length. -/
theorem length_payload (n m : ℕ) : (sound.payload aes n).length = (sound.payload aes m).length := by
  unfold payload
  cases sound.key with
  | none => rw [sound.same, sound.same]
  | some key => rw [Crypto.length_cbcEncrypt, Crypto.length_cbcEncrypt, sound.same, sound.same]

theorem toNat_ofNat_mod (n : ℕ) : (UInt16.ofNat n).toNat % 4 = n % 4 := by
  rw [UInt16.toNat_ofNat', Nat.mod_mod_of_dvd n (by decide)]

/-- The block under way holds its packets so far. -/
theorem block_packetizer (n : ℕ) :
    (sound.packetizer aes (n + 1)).block = (List.range' (n - n % 4) (n % 4 + 1)).map (sound.payload aes) := by
  have hnext : ∀ n, (sound.packetizer aes (n + 1)).block
      = (if n % 4 = 0 then [] else (sound.packetizer aes n).block) ++ [sound.payload aes n] := by
    intro n
    change (if (sound.packetizer aes n).sequence.toNat % 4 = 0 then [] else (sound.packetizer aes n).block)
      ++ [(sound.packetizer aes n).payload aes (sound.opus n)] = _
    rw [payload_packetizer, (packetizer_fields n).1, toNat_ofNat_mod]
  induction n with
  | zero => rw [hnext]; rfl
  | succ n ih =>
    rw [hnext]
    by_cases hzero : (n + 1) % 4 = 0
    · rw [if_pos hzero, hzero]
      rfl
    · rw [if_neg hzero, ih, show (n + 1) % 4 = n % 4 + 1 by omega, show n + 1 - (n % 4 + 1) = n - n % 4 by omega,
        List.range'_concat (n := n % 4 + 1), List.map_append, List.map_singleton]
      congr 3
      omega

theorem length_of_mem_data {s : Shard} (h : s ∈ sound.data aes k) : s.length = (sound.payload aes 0).length := by
  obtain ⟨m, -, rfl⟩ := List.mem_map.mp h
  exact length_payload m 0

theorem length_data (k : ℕ) : (sound.data aes k).length = DATA_SHARDS := by
  rw [data, List.length_map, List.length_range']
  rfl

/-- A block is four shards of one size, and their parity. -/
theorem whole (sound : Sound) (k : ℕ) : Fec.Whole (sound.data aes k) (sound.shards aes k) := by
  obtain ⟨parity, hparity⟩ := Code.exists_encode Fec.code (@length_data aes sound k)
    fun s hs => length_of_mem_data hs
  have hok : Fec.parity (sound.data aes k) = .ok parity := hparity
  refine ⟨length_data k, parity, hok, ?_⟩
  rw [shards, hok]

theorem getElem?_shards_data {i : ℕ} (hi : i < 4) : (sound.shards aes k)[i]? = some (sound.payload aes (4 * k + i)) := by
  obtain ⟨parity, -, hall⟩ := (@Sound.whole aes sound k).parity
  rw [hall, List.getElem?_append_left (by rw [length_data]; exact hi), data, List.getElem?_map,
    List.getElem?_range' hi, Nat.one_mul]
  rfl

theorem length_of_mem_shards {s : Shard} (h : s ∈ sound.shards aes k) : s.length = (sound.payload aes 0).length := by
  obtain ⟨parity, hparity, hall⟩ := (@Sound.whole aes sound k).parity
  obtain ⟨size, henc⟩ := Code.encodes_of_encode hparity
  rw [hall] at h
  rw [henc.size_eq s h, ← henc.size_eq (sound.payload aes (4 * k)), length_payload _ 0]
  exact List.mem_append_left _ (List.mem_map.mpr ⟨_, List.mem_range'_1.mpr ⟨Nat.le_refl _, by omega⟩, rfl⟩)

/-- What is sent for a packet. -/
theorem sent_eq (sound : Sound) (n : ℕ) : sound.sent aes n
    = [rtp payloadType (UInt16.ofNat n) ((UInt16.ofNat n).toUInt32 * sound.durationMs) ++ sound.payload aes n]
      ++ if n % 4 = 3 then
          ((sound.shards aes (n / 4)).drop 4).mapIdx fun index shard =>
            (sound.packetizer aes n).parityPacket (UInt16.ofNat n) index shard
        else [] := by
  obtain ⟨hsequence, hduration, hkey⟩ := @packetizer_fields aes sound n
  have hblock := @block_packetizer aes sound n
  change (if (sound.packetizer aes n).sequence.toNat % 4 = 0 then [] else (sound.packetizer aes n).block)
      ++ [(sound.packetizer aes n).payload aes (sound.opus n)] = _ at hblock
  unfold sent AudioPacketizer.packets
  dsimp only
  change _ ++ (if _ % 4 = 3 ∧ (_ = 4 ∧ _) then _ else _) = _
  simp only [show DATA_SHARDS = 4 from rfl, hblock]
  rw [payload_packetizer, hsequence, hduration, toNat_ofNat_mod]
  congr 1
  by_cases hlast : n % 4 = 3
  · have hdata : (List.range' (n - n % 4) (n % 4 + 1)).map (sound.payload aes) = sound.data aes (n / 4) := by
      rw [data, hlast, show n - 3 = 4 * (n / 4) by omega]
    rw [hdata, if_pos hlast, if_pos]
    · obtain ⟨parity, hparity, hall⟩ := (@Sound.whole aes sound (n / 4)).parity
      have hdrop : (sound.data aes (n / 4) ++ parity).drop 4 = parity := List.drop_left' (length_data _)
      rw [hparity, hall, hdrop]
    · refine ⟨hlast, length_data _, fun p hp => ?_⟩
      have hhead : (sound.data aes (n / 4)).head? = some (sound.payload aes (4 * (n / 4))) := rfl
      rw [hhead, Option.map_some, length_of_mem_data hp, length_payload (4 * (n / 4)) 0]
  · rw [if_neg hlast, if_neg fun h => hlast h.1]

end Sound

/-- A packet that arrives: which one it is of those that were sent for an Opus packet. -/
structure Arrival (aes : Aes128) (sound : Sound) where
  number : ℕ
  index : ℕ
  packet : List UInt8
  genuine : (sound.sent aes number)[index]? = some packet

namespace Arrival

variable {aes : Aes128} {sound : Sound} (self : Arrival aes sound)

/-- The block it is a shard of. -/
def block : ℕ := self.number / 4

/-- Which shard of it. -/
def shard : ℕ := if self.index = 0 then self.number % 4 else 3 + self.index

/-- The sequence number it is placed by: its own, or its block's. -/
def placed : ℕ := if self.index = 0 then self.number else 4 * self.block

/-- Whether there is a payload to take. -/
def taken : Bool := (read self.packet).isSome

theorem placed_div : self.placed / 4 = self.block := by
  unfold placed block
  split <;> omega

end Arrival

/-! ### What a packet is read as -/

section

variable {aes : Aes128} {sound : Sound}

theorem length_rtp (type : UInt8) (sequence : UInt16) (timestamp : UInt32) :
    (rtp type sequence timestamp).length = rtpHeader := by
  simp [rtp, rtpHeader]

theorem blockOf_ofNat (n : ℕ) : blockOf (UInt16.ofNat n) = UInt16.ofNat (4 * (n / 4)) := by
  apply UInt16.toNat_inj.mp
  rw [toNat_blockOf, UInt16.toNat_ofNat', UInt16.toNat_ofNat']
  omega

/-- A packet behind its header. -/
theorem read_rtp (type : UInt8) (sequence : UInt16) (timestamp : UInt32) (rest : List UInt8) :
    let data := rtp type sequence timestamp ++ rest
    data.drop rtpHeader = rest ∧ data.getD 1 0 = type
      ∧ UInt16.ofNat (BigEndian.ofBytes ((data.drop 2).take 2)) = sequence := by
  dsimp only
  refine ⟨List.drop_left' (length_rtp _ _ _), rfl, ?_⟩
  have htake : ((rtp type sequence timestamp ++ rest).drop 2).take 2 = BigEndian.toBytes 2 sequence.toNat := by
    rw [rtp, List.append_assoc, List.append_assoc, List.append_assoc]
    exact List.take_left' (BigEndian.length_toBytes 2 _)
  rw [htake, BigEndian.ofBytes_toBytes_of_lt sequence.toNat_lt, UInt16.ofNat_toNat]

/-- A data packet is read as its payload. -/
theorem read_data (sequence : UInt16) (timestamp : UInt32) {payload : Shard} (h : payload ≠ []) :
    read (rtp payloadType sequence timestamp ++ payload) = some ⟨blockOf sequence, placeOf sequence, payload, sequence⟩ := by
  obtain ⟨hdrop, htype, hsequence⟩ := read_rtp payloadType sequence timestamp payload
  have hlength : ¬ (rtp payloadType sequence timestamp ++ payload).length ≤ rtpHeader := by
    have := List.length_pos_of_ne_nil h
    rw [List.length_append, length_rtp]
    omega
  unfold read
  dsimp only
  rw [if_neg hlength, if_pos (by rw [htype]; decide), hdrop, hsequence]

/-- A parity packet is read as its shard. -/
theorem read_parity (p : AudioPacketizer) {n index : ℕ} (hn : n % 4 = 3) (hindex : index < PARITY_SHARDS)
    {shard : Shard} (h : shard ≠ []) :
    read (p.parityPacket (UInt16.ofNat n) index shard)
      = some ⟨UInt16.ofNat (4 * (n / 4)), ⟨DATA_SHARDS + index, Nat.add_lt_add_left hindex _⟩, shard,
          UInt16.ofNat (4 * (n / 4))⟩ := by
  have hbase : UInt16.ofNat n - (UInt16.ofNat DATA_SHARDS - 1) = UInt16.ofNat (4 * (n / 4)) := by
    apply UInt16.toNat_inj.mp
    rw [UInt16.toNat_sub, show (UInt16.ofNat DATA_SHARDS - 1).toNat = 3 from rfl, UInt16.toNat_ofNat',
      UInt16.toNat_ofNat']
    omega
  have hindex' : index < 2 := hindex
  have hbyte : (UInt8.ofNat index).toNat = index := by
    rw [UInt8.toNat_ofNat', Nat.mod_eq_of_lt (by omega)]
  have haligned : (UInt16.ofNat (4 * (n / 4))).toNat % DATA_SHARDS = 0 := by
    change _ % 4 = 0
    rw [Sound.toNat_ofNat_mod]
    omega
  unfold AudioPacketizer.parityPacket
  dsimp only
  rw [hbase]
  generalize UInt16.ofNat (4 * (n / 4)) = base at *
  let header := [UInt8.ofNat index, payloadType] ++ (BigEndian.toBytes 2 base.toNat
    ++ (BigEndian.toBytes 4 (base.toUInt32 * p.durationMs).toNat ++ BigEndian.toBytes 4 0))
  have hheader : header.length = fecHeader := by simp [header, fecHeader]
  have hsplit : rtp fecPayloadType (UInt16.ofNat n + UInt16.ofNat index + 1) 0 ++ [UInt8.ofNat index, payloadType]
      ++ BigEndian.toBytes 2 base.toNat ++ BigEndian.toBytes 4 (base.toUInt32 * p.durationMs).toNat
      ++ BigEndian.toBytes 4 0 ++ shard
      = rtp fecPayloadType (UInt16.ofNat n + UInt16.ofNat index + 1) 0 ++ (header ++ shard) := by
    simp only [header, List.append_assoc]
  rw [hsplit]
  obtain ⟨hdrop, htype, -⟩ := read_rtp fecPayloadType (UInt16.ofNat n + UInt16.ofNat index + 1) 0 (header ++ shard)
  have hpos := List.length_pos_of_ne_nil h
  have hlength : (rtp fecPayloadType (UInt16.ofNat n + UInt16.ofNat index + 1) 0 ++ (header ++ shard)).length
      = rtpHeader + fecHeader + shard.length := by
    rw [List.length_append, List.length_append, length_rtp, hheader, Nat.add_assoc]
  have hfirst : ((header ++ shard).getD 0 0).toNat = index := hbyte
  have hread : UInt16.ofNat (BigEndian.ofBytes (((header ++ shard).drop 2).take 2)) = base := by
    have htake : ((header ++ shard).drop 2).take 2 = BigEndian.toBytes 2 base.toNat := by
      simp only [header, List.append_assoc]
      exact List.take_left' (BigEndian.length_toBytes 2 _)
    rw [htake, BigEndian.ofBytes_toBytes_of_lt base.toNat_lt, UInt16.ofNat_toNat]
  unfold read
  dsimp only
  rw [if_neg (by rw [hlength]; omega), htype, if_neg (by decide), if_pos ⟨by decide, by rw [hlength]; omega⟩]
  simp only [hdrop, hfirst, hread]
  rw [dif_neg, List.drop_left' hheader]
  rw [not_or, not_not, Nat.not_le]
  exact ⟨hindex, haligned⟩

/-- A packet is read as the shard it is. -/
theorem read_arrival (a : Arrival aes sound) (h : sound.payload aes 0 ≠ []) :
    ∃ (s : Shard) (hlt : a.shard < SHARDS), (sound.shards aes a.block)[a.shard]? = some s
      ∧ read a.packet = some ⟨UInt16.ofNat (4 * a.block), ⟨a.shard, hlt⟩, s, UInt16.ofNat a.placed⟩ := by
  have hne : ∀ s ∈ sound.shards aes a.block, s ≠ [] := by
    intro s hs
    have hlength := Sound.length_of_mem_shards hs
    rintro rfl
    exact h (List.length_eq_zero_iff.mp hlength.symm)
  have hgenuine := a.genuine
  rw [Sound.sent_eq] at hgenuine
  cases hindex : a.index with
  | zero =>
    have hshard : a.shard = a.number % 4 := by rw [Arrival.shard, if_pos hindex]
    have hplaced : a.placed = a.number := by rw [Arrival.placed, if_pos hindex]
    have hlt : a.shard < 4 := by
      rw [hshard]
      exact Nat.mod_lt _ (by decide)
    have hs : (sound.shards aes a.block)[a.shard]? = some (sound.payload aes a.number) := by
      rw [Sound.getElem?_shards_data hlt, hshard, Arrival.block, Nat.div_add_mod]
    refine ⟨_, Nat.lt_of_lt_of_le hlt (by decide), hs, ?_⟩
    rw [hindex] at hgenuine
    rw [← Option.some_inj.mp hgenuine, read_data _ _ (hne _ (List.mem_of_getElem? hs)), hplaced, blockOf_ofNat]
    congr 2
    apply Fin.ext
    change (UInt16.ofNat a.number).toNat % 4 = a.shard
    rw [hshard, Sound.toNat_ofNat_mod]
  | succ j =>
    rw [hindex, List.singleton_append, List.getElem?_cons_succ] at hgenuine
    split at hgenuine
    case isFalse => cases hgenuine
    case isTrue hlast =>
      rw [List.getElem?_mapIdx, Option.map_eq_some_iff] at hgenuine
      obtain ⟨s, hs, hpacket⟩ := hgenuine
      rw [List.getElem?_drop] at hs
      have hlength := (@Sound.whole aes sound (a.number / 4)).length_all
      have hj : j < PARITY_SHARDS := by
        have hlt := (List.getElem?_eq_some_iff.mp hs).1
        rw [hlength] at hlt
        exact Nat.lt_of_add_lt_add_left hlt
      have hshard : a.shard = 4 + j := by
        rw [Arrival.shard, if_neg (by rw [hindex]; exact Nat.succ_ne_zero j), hindex]
        omega
      have hplaced : a.placed = 4 * a.block := by
        rw [Arrival.placed, if_neg (by rw [hindex]; exact Nat.succ_ne_zero j)]
      refine ⟨s, hshard ▸ Nat.add_lt_add_left hj 4, by rw [hshard]; exact hs, ?_⟩
      rw [← hpacket, read_parity _ hlast hj (hne s (List.mem_of_getElem? hs)), hplaced]
      congr 2
      exact Fin.ext hshard.symm

/-- A packet without a payload is not taken. -/
theorem not_taken (a : Arrival aes sound) (h : sound.payload aes 0 = []) : read a.packet = none := by
  have hgenuine := a.genuine
  rw [Sound.sent_eq] at hgenuine
  cases hindex : a.index with
  | zero =>
    have hnil : sound.payload aes a.number = [] := by
      have hlength := @Sound.length_payload aes sound a.number 0
      rw [h] at hlength
      exact List.length_eq_zero_iff.mp hlength
    rw [hindex] at hgenuine
    rw [← Option.some_inj.mp hgenuine, hnil, List.append_nil, read, if_pos (length_rtp _ _ _).le]
  | succ j =>
    rw [hindex, List.singleton_append, List.getElem?_cons_succ] at hgenuine
    split at hgenuine
    case isFalse => cases hgenuine
    case isTrue =>
      rw [List.getElem?_mapIdx, Option.map_eq_some_iff] at hgenuine
      obtain ⟨s, hs, hpacket⟩ := hgenuine
      have hnil : s = [] := by
        have hlength := Sound.length_of_mem_shards (List.mem_of_mem_drop (List.mem_of_getElem? hs))
        rw [h] at hlength
        exact List.length_eq_zero_iff.mp hlength
      have hlength : ((sound.packetizer aes a.number).parityPacket (UInt16.ofNat a.number) j s).length
          = rtpHeader + fecHeader := by
        simp [AudioPacketizer.parityPacket, length_rtp, fecHeader, hnil]
      have htype : ((sound.packetizer aes a.number).parityPacket (UInt16.ofNat a.number) j s).getD 1 0
          = fecPayloadType := rfl
      rw [← hpacket, read, if_neg (by rw [hlength]; decide)]
      dsimp only
      rw [htype, if_neg (by decide), if_neg]
      rw [hlength]
      exact fun hlt => Nat.lt_irrefl _ hlt.2

end

end WindowCast.GameStream.Audio
