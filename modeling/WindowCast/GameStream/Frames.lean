import WindowCast.GameStream.Video

/-!
# Frames in packets

A frame's packets arrive in any order, some of them more than once.  Ten bits number the
packets of a block, and sixteen write the length of the last payload: a frame that goes
beyond either does not survive.

## Main definitions

* `Packetizer.Fits` — the frame's packets can be numbered, and its last payload measured.
* `Depacketizer.Holding` — what is held of a frame.

## Main results

* `Depacketizer.Holding.take` — what a packet adds to what is held.
* `Depacketizer.Bounded.add` — what is held of any packets is no more than they can number.
* `Depacketizer.frame_survives_iff` — **a frame survives exactly if it fits**.
-/

namespace WindowCast.GameStream

namespace Packetizer

variable (p : Packetizer) (frame : List UInt8) (idr : Bool)

/-- What the packets carry of a frame. -/
def pieces : List (List UInt8) := Chunks.of p.chunk (p.payload frame idr)

/-- How many packets a frame has. -/
def count : ℕ := Chunks.count p.chunk (frame.length + frameHeader)

/-- How long the last payload is. -/
def lastLength : ℕ := (frame.length + frameHeader - 1) % p.chunk + 1

/-- The packets can be numbered, and the last payload measured. -/
def Fits : Prop := p.count frame ≤ 4092 ∧ p.lastLength frame < 65536

instance : Decidable (p.Fits frame) := inferInstanceAs (Decidable (_ ∧ _))

/-- A payload as long as any. -/
def pad (data : List UInt8) : List UInt8 := data ++ List.replicate (p.chunk - data.length) 0

variable {p frame idr}

theorem chunk_ge : 64 ≤ p.chunk := by
  have hlarge := p.large
  unfold chunk nvSize at *
  omega

theorem chunk_pos : 0 < p.chunk := Nat.lt_of_lt_of_le (by decide) chunk_ge

theorem length_payload : (p.payload frame idr).length = frame.length + frameHeader := by
  simp [payload, frameHeader]
  omega

theorem length_pieces : (p.pieces frame idr).length = p.count frame := by
  rw [pieces, Chunks.length_of, length_payload, count]

theorem count_pos : 0 < p.count frame := (Chunks.lt_count_iff chunk_pos).mpr (by unfold frameHeader; omega)

theorem pad_of_full {data : List UInt8} (h : data.length = p.chunk) : p.pad data = data := by
  rw [pad, h, Nat.sub_self, List.replicate_zero, List.append_nil]

/-- The length that is written is that of the last payload, where it fits. -/
theorem last_eq (h : p.lastLength frame < 65536) : p.last frame = p.lastLength frame := by
  have hpos : 0 < p.chunk := chunk_pos
  have hdiv := Nat.div_add_mod (frame.length + frameHeader) p.chunk
  have hmod := Nat.mod_lt (frame.length + frameHeader) hpos
  have hlarge : 0 < frame.length + frameHeader := by unfold frameHeader; omega
  unfold lastLength at h ⊢
  unfold last
  generalize frame.length + frameHeader = m at *
  dsimp only
  by_cases hzero : m % p.chunk = 0
  · -- the last payload is full
    have hsplit : m - 1 = (p.chunk - 1) + p.chunk * (m / p.chunk - 1) := by
      have hq : 0 < m / p.chunk := Nat.div_pos (Nat.le_of_dvd hlarge (Nat.dvd_of_mod_eq_zero hzero)) hpos
      obtain ⟨q, hq⟩ := Nat.exists_eq_add_of_lt hq
      rw [hzero, hq] at hdiv
      rw [hq, Nat.zero_add, Nat.add_sub_cancel]
      rw [Nat.zero_add, Nat.mul_succ] at hdiv
      omega
    have hfull : (m - 1) % p.chunk + 1 = p.chunk := by
      rw [hsplit, Nat.add_mul_mod_self_left, Nat.mod_eq_of_lt (by omega)]
      omega
    rw [hfull] at h ⊢
    rw [hzero, Nat.zero_mod, if_pos rfl, Nat.mod_eq_of_lt h]
  · have hsplit : m - 1 = (m % p.chunk - 1) + p.chunk * (m / p.chunk) := by omega
    have hrest : (m - 1) % p.chunk + 1 = m % p.chunk := by
      rw [hsplit, Nat.add_mul_mod_self_left, Nat.mod_eq_of_lt (by omega)]
      omega
    rw [hrest] at h ⊢
    rw [Nat.mod_eq_of_lt h, if_neg hzero]

theorem last_lt : p.last frame < 65536 := by
  unfold last
  dsimp only
  split
  · exact Nat.mod_lt _ (by decide)
  · exact Nat.mod_lt _ (by decide)

/-- What is put together of a frame's payloads. -/
def data (p : Packetizer) (frame : List UInt8) (idr : Bool) : List UInt8 :=
  ((p.payload frame idr).take ((p.count frame - 1) * p.chunk)
    ++ (p.pad (Chunks.piece p.chunk (p.payload frame idr) (p.count frame - 1))).take (p.last frame)).drop frameHeader

theorem length_lastPiece :
    (Chunks.piece p.chunk (p.payload frame idr) (p.count frame - 1)).length = p.lastLength frame := by
  have hcount : p.count frame - 1 + 1 = Chunks.count p.chunk (p.payload frame idr).length := by
    rw [length_payload]
    exact Nat.succ_pred_eq_of_pos count_pos
  rw [Chunks.length_last chunk_pos hcount, length_payload, lastLength]

/-- A frame whose last payload can be measured is put together as it was. -/
theorem data_eq (h : p.lastLength frame < 65536) : p.data frame idr = frame := by
  have hlast : (p.pad (Chunks.piece p.chunk (p.payload frame idr) (p.count frame - 1))).take (p.last frame)
      = Chunks.piece p.chunk (p.payload frame idr) (p.count frame - 1) := by
    rw [last_eq h, pad, ← @length_lastPiece p frame idr, List.take_left]
  have hcount : p.count frame - 1 + 1 = Chunks.count p.chunk (p.payload frame idr).length := by
    rw [length_payload]
    exact Nat.succ_pred_eq_of_pos count_pos
  rw [data, hlast, ← Chunks.flatten_pieces, ← List.flatten_concat, ← Chunks.of_eq_concat hcount,
    Chunks.flatten_of chunk_pos]
  rfl

/-- One that cannot comes out shorter. -/
theorem data_ne (h : 65536 ≤ p.lastLength frame) : p.data frame idr ≠ frame := by
  intro heq
  have hlength := congrArg List.length heq
  have htotal : frame.length + frameHeader = (p.count frame - 1) * p.chunk + p.lastLength frame := by
    have hcount : p.count frame - 1 + 1 = Chunks.count p.chunk (p.payload frame idr).length := by
      rw [length_payload]
      exact Nat.succ_pred_eq_of_pos count_pos
    have hlast := @length_lastPiece p frame idr
    have hlt := (Chunks.lt_count_iff chunk_pos).mp (show p.count frame - 1 < Chunks.count p.chunk _ by
      rw [← hcount]
      omega)
    have hle := @Chunks.length_piece _ p.chunk (p.payload frame idr) (p.count frame - 1)
    have hend : ¬ p.count frame * p.chunk < frame.length + frameHeader := by
      intro hlt
      exact absurd ((Chunks.lt_count_iff chunk_pos).mpr hlt) (Nat.lt_irrefl _)
    have hsucc : (p.count frame - 1 + 1) * p.chunk = (p.count frame - 1) * p.chunk + p.chunk := Nat.succ_mul _ _
    rw [show p.count frame - 1 + 1 = p.count frame from Nat.succ_pred_eq_of_pos count_pos] at hsucc
    rw [length_payload] at hle
    omega
  have hlast : p.last frame < 65536 := last_lt
  rw [data, List.length_drop, List.length_append, List.length_take, List.length_take, length_payload] at hlength
  unfold frameHeader at *
  omega

end Packetizer

/-! ### A frame that is put together -/

theorem mapIdx_cut (l : List (List UInt8)) (a : List UInt8) (k : ℕ) :
    ((l ++ [a]).mapIdx fun i chunk => if i = (l ++ [a]).length - 1 then chunk.take k else chunk) = l ++ [a.take k] := by
  rw [List.mapIdx_append, List.length_append, List.length_singleton, Nat.add_sub_cancel]
  congr 1
  · refine List.ext_getElem (List.length_mapIdx ..) ?_
    intro i hi hi'
    rw [List.getElem_mapIdx, if_neg (Nat.ne_of_lt hi')]
  · simp

open Packetizer in
/-- The payloads of a frame make a frame. -/
theorem assemble_pieces (p : Packetizer) (frame : List UInt8) (idr : Bool) (index timestamp : UInt32) :
    Depacketizer.assemble index timestamp ((p.pieces frame idr).map p.pad)
      = .frame ⟨index, p.data frame idr, idr, timestamp⟩ := by
  have hcount : p.count frame - 1 + 1 = Chunks.count p.chunk (p.payload frame idr).length := by
    rw [length_payload]
    exact Nat.succ_pred_eq_of_pos count_pos
  have hpieces : (p.pieces frame idr).map p.pad = (List.range (p.count frame - 1)).map (Chunks.piece p.chunk (p.payload frame idr))
      ++ [p.pad (Chunks.piece p.chunk (p.payload frame idr) (p.count frame - 1))] := by
    rw [pieces, Chunks.of_eq_concat hcount, List.map_append, List.map_singleton, List.map_map]
    congr 1
    refine List.map_congr_left fun i hi => pad_of_full ?_
    refine Chunks.length_full chunk_pos ?_
    rw [← hcount]
    exact Nat.succ_lt_succ (List.mem_range.mp hi)
  -- the first payload has the short header
  have hfirst : ∃ rest, ((p.pieces frame idr).map p.pad).head? = some ([0x01, 0, 0, if idr then 2 else 1]
      ++ LittleEndian.toBytes 2 (p.last frame) ++ [0, 0] ++ rest) := by
    obtain ⟨k, hk⟩ := Nat.exists_eq_add_of_le (show 8 ≤ p.chunk from Nat.le_trans (by decide) chunk_ge)
    have hpiece : ∃ rest, Chunks.piece p.chunk (p.payload frame idr) 0 = [0x01, 0, 0, if idr then 2 else 1]
        ++ LittleEndian.toBytes 2 (p.last frame) ++ [0, 0] ++ rest := by
      refine ⟨frame.take k, ?_⟩
      rw [Chunks.piece, Nat.zero_mul, List.drop_zero, hk, Nat.add_comm 8 k]
      rfl
    obtain ⟨rest, hrest⟩ := hpiece
    refine ⟨rest ++ List.replicate (p.chunk - (Chunks.piece p.chunk (p.payload frame idr) 0).length) 0, ?_⟩
    rw [List.head?_map, pieces, List.head?_eq_getElem?, Chunks.getElem?_of (by rw [← hcount]; omega), Option.map_some, pad]
    rw [← List.append_assoc, ← hrest]
  obtain ⟨rest, hfirst⟩ := hfirst
  unfold Depacketizer.assemble
  rw [hfirst]
  dsimp only
  have hlength : LittleEndian.ofBytes ((([0x01, 0, 0, if idr then 2 else 1] ++ LittleEndian.toBytes 2 (p.last frame)
      ++ [0, 0] ++ rest).drop 4).take 2) = p.last frame :=
    LittleEndian.ofBytes_toBytes_of_lt (n := 2) (show p.last frame < 256 ^ 2 from last_lt)
  have hidr : decide (([0x01, 0, 0, if idr then 2 else 1] ++ LittleEndian.toBytes 2 (p.last frame) ++ [0, 0]
      ++ rest).getD 3 0 = 2) = idr := by
    change decide ((if idr then (2 : UInt8) else 1) = 2) = idr
    cases idr <;> rfl
  rw [if_neg (by simp only [List.length_append, LittleEndian.length_toBytes, List.length_cons, frameHeader]; omega),
    hlength, hidr, hpieces, mapIdx_cut, List.flatten_concat, Chunks.flatten_pieces]
  rfl

/-! ### The packets of a frame -/

theorem mem_mapIdx_iff {α β : Type} {f : ℕ → α → β} {l : List α} {b : β} :
    b ∈ l.mapIdx f ↔ ∃ i a, l[i]? = some a ∧ b = f i a := by
  rw [List.mem_iff_getElem?]
  refine exists_congr fun i => ?_
  rw [List.getElem?_mapIdx, Option.map_eq_some_iff]
  exact exists_congr fun a => and_congr_right fun _ => eq_comm

namespace Packetizer

variable (p : Packetizer) (frame : List UInt8) (idr : Bool) (timestamp : UInt32)

/-- The payloads of a block. -/
def blockOf (b : ℕ) : List (List UInt8) := Chunks.piece (perBlock (p.count frame)) (p.pieces frame idr) b

/-- The packet at a place of a block. -/
def packetAt (b x : ℕ) (data : List UInt8) : List UInt8 :=
  ({ p with frameIndex := p.frameIndex + 1 } : Packetizer).packet timestamp
    (p.sequence + UInt32.ofNat (b * perBlock (p.count frame))) (blocks (p.count frame)) b x
    (p.blockOf frame idr b).length data

variable {p frame idr timestamp} {b x : ℕ} {data : List UInt8}

theorem length_blockOf_le : (p.blockOf frame idr b).length ≤ perBlock (p.count frame) := by
  rw [blockOf, Chunks.length_piece]
  exact Nat.min_le_left _ _

theorem place_lt (h : (p.blockOf frame idr b)[x]? = some data) : x < (p.blockOf frame idr b).length :=
  (List.getElem?_eq_some_iff.mp h).1

theorem block_lt_of_pos (h : 0 < (p.blockOf frame idr b).length) : b < blocks (p.count frame) := by
  rw [← count_perBlock count_pos, Chunks.lt_count_iff (perBlock_pos count_pos)]
  rw [blockOf, Chunks.length_piece, length_pieces] at h
  omega

theorem block_lt (h : (p.blockOf frame idr b)[x]? = some data) : b < blocks (p.count frame) :=
  block_lt_of_pos (Nat.lt_of_le_of_lt (Nat.zero_le _) (place_lt h))

theorem blockOf_pos (h : b < blocks (p.count frame)) : 0 < (p.blockOf frame idr b).length := by
  rw [← count_perBlock count_pos, Chunks.lt_count_iff (perBlock_pos count_pos)] at h
  rw [blockOf, Chunks.length_piece, length_pieces]
  have hpos : 0 < perBlock (p.count frame) := perBlock_pos count_pos
  omega

theorem mem_packets {q : List UInt8} : q ∈ (p.packets frame idr timestamp).1 ↔
    ∃ b x data, (p.blockOf frame idr b)[x]? = some data ∧ q = p.packetAt frame idr timestamp b x data := by
  have hn : (Chunks.of p.chunk (p.payload frame idr)).length = p.count frame := length_pieces
  have hpackets : (p.packets frame idr timestamp).1 = ((Chunks.of (perBlock (p.count frame)) (p.pieces frame idr)).mapIdx
      (({ p with frameIndex := p.frameIndex + 1 } : Packetizer).blockPackets timestamp (p.count frame))).flatten := by
    rw [← hn]
    rfl
  have hchunk : ∀ {b block}, (Chunks.of (perBlock (p.count frame)) (p.pieces frame idr))[b]? = some block ↔
      block = p.blockOf frame idr b ∧ b < blocks (p.count frame) := by
    intro b block
    rw [← count_perBlock count_pos, ← @length_pieces p frame idr]
    by_cases hb : b < Chunks.count (perBlock (p.pieces frame idr).length) (p.pieces frame idr).length
    · rw [length_pieces] at hb ⊢
      rw [Chunks.getElem?_of (by rw [length_pieces]; exact hb), Option.some_inj, and_iff_left hb]
      exact eq_comm
    · rw [length_pieces] at hb ⊢
      rw [List.getElem?_eq_none (by rw [Chunks.length_of, length_pieces]; omega)]
      simp [hb]
  rw [hpackets, List.mem_flatten]
  constructor
  · rintro ⟨block, hblock, hq⟩
    obtain ⟨b, block, hat, rfl⟩ := mem_mapIdx_iff.mp hblock
    obtain ⟨x, data, hdata, rfl⟩ := mem_mapIdx_iff.mp hq
    obtain ⟨rfl, -⟩ := hchunk.mp hat
    exact ⟨b, x, data, hdata, rfl⟩
  · rintro ⟨b, x, data, hdata, rfl⟩
    exact ⟨_, mem_mapIdx_iff.mpr ⟨b, _, hchunk.mpr ⟨rfl, block_lt hdata⟩, rfl⟩, mem_mapIdx_iff.mpr ⟨x, data, hdata, rfl⟩⟩

/-- What is read of a packet of a frame whose packets can be numbered. -/
theorem header_packetAt (hn : p.count frame ≤ 4092) (hdata : (p.blockOf frame idr b)[x]? = some data) :
    header (p.packetAt frame idr timestamp b x data)
      = some ⟨p.frameIndex + 1, b, blocks (p.count frame) - 1, x, (p.blockOf frame idr b).length⟩ := by
  have hlength : (p.blockOf frame idr b).length < 1024 :=
    Nat.lt_of_le_of_lt length_blockOf_le (perBlock_lt_iff.mpr hn)
  obtain ⟨hx, hshards⟩ := fecInfo_fits (Nat.lt_trans (place_lt hdata) hlength) hlength
  rw [packetAt, header_packet _ _ _ _ (block_lt hdata) blocks_le, hx, hshards]

/-- No two places have the same packet. -/
theorem packetAt_inj (hn : p.count frame ≤ 4092) {b' x' : ℕ} {data' : List UInt8}
    (hdata : (p.blockOf frame idr b)[x]? = some data) (hdata' : (p.blockOf frame idr b')[x']? = some data')
    (h : p.packetAt frame idr timestamp b x data = p.packetAt frame idr timestamp b' x' data') :
    b = b' ∧ x = x' ∧ data = data' := by
  have hheader := @header_packetAt p frame idr timestamp b x data hn hdata
  rw [h, header_packetAt hn hdata', Option.some_inj, Header.mk.injEq] at hheader
  obtain ⟨-, rfl, -, rfl, -⟩ := hheader
  rw [hdata] at hdata'
  exact ⟨rfl, rfl, Option.some.inj hdata'⟩

end Packetizer

/-! ### What is held of a frame -/

namespace Depacketizer

variable {d : Depacketizer} {p : Packetizer} {frame : List UInt8} {idr : Bool} {timestamp : UInt32}
  {seen : List (List UInt8)} {b x : ℕ} {data : List UInt8}

/-- The shards of a frame that were seen are held. -/
structure Holding (p : Packetizer) (frame : List UInt8) (idr : Bool) (timestamp : UInt32) (d : Depacketizer)
    (seen : List (List UInt8)) : Prop where
  current : d.current = some (p.frameIndex + 1)
  lastBlock : d.lastBlock = Packetizer.blocks (p.count frame) - 1
  stamp : d.timestamp = timestamp
  block : ∀ b, (d.blocks.lookup b).isSome = true ↔
    ∃ x data, (p.blockOf frame idr b)[x]? = some data ∧ p.packetAt frame idr timestamp b x data ∈ seen
  shard : ∀ {b : ℕ} {table : AList fun _ : ℕ => List UInt8}, d.blocks.lookup b = some table → ∀ x,
    table.lookup x = ((p.blockOf frame idr b)[x]?.filter fun data =>
      p.packetAt frame idr timestamp b x data ∈ seen).map p.pad
  shards : ∀ {b : ℕ} {table : AList fun _ : ℕ => List UInt8}, d.blocks.lookup b = some table →
    d.shardsPerBlock.lookup b = some (p.blockOf frame idr b).length

/-- A packet of the frame is held, too. -/
theorem Holding.addShard (h : d.Holding p frame idr timestamp seen) (hn : p.count frame ≤ 4092)
    (hdata : (p.blockOf frame idr b)[x]? = some data) :
    (d.addShard ⟨p.frameIndex + 1, b, Packetizer.blocks (p.count frame) - 1, x, (p.blockOf frame idr b).length⟩
      (p.packetAt frame idr timestamp b x data)).Holding p frame idr timestamp
        (seen ++ [p.packetAt frame idr timestamp b x data]) := by
  have hmem : ∀ {b' x' data'}, (p.blockOf frame idr b')[x']? = some data' →
      (p.packetAt frame idr timestamp b' x' data' ∈ seen ++ [p.packetAt frame idr timestamp b x data] ↔
        p.packetAt frame idr timestamp b' x' data' ∈ seen ∨ (b' = b ∧ x' = x)) := by
    intro b' x' data' hdata'
    rw [List.mem_append, List.mem_singleton]
    refine or_congr_right ⟨fun heq => ?_, ?_⟩
    · obtain ⟨hb, hx, -⟩ := Packetizer.packetAt_inj hn hdata' hdata heq
      exact ⟨hb, hx⟩
    · rintro ⟨rfl, rfl⟩
      rw [hdata] at hdata'
      cases hdata'
      rfl
  have hdrop : (p.packetAt frame idr timestamp b x data).drop (rtpSize + nvSize) = p.pad data := drop_packet _ _ _ _
  unfold Depacketizer.addShard
  rw [if_neg (Nat.not_le_of_lt (Packetizer.place_lt hdata)), hdrop]
  refine ⟨h.current, h.lastBlock, h.stamp, ?_, ?_, ?_⟩
  · intro b'
    dsimp only
    by_cases hb : b' = b
    · subst hb
      rw [AList.lookup_insert]
      exact iff_of_true rfl ⟨x, data, hdata, (hmem hdata).mpr (Or.inr ⟨rfl, rfl⟩)⟩
    · rw [AList.lookup_insert_ne hb, h.block]
      refine exists_congr fun x' => exists_congr fun data' => and_congr_right fun hdata' => ?_
      rw [hmem hdata', or_iff_left fun hsame => hb hsame.1]
  · intro b' table hlookup x'
    dsimp only at hlookup
    have hfilter : ∀ {b'}, ¬ (b' = b ∧ x' = x) →
        ((p.blockOf frame idr b')[x']?.filter fun data' => p.packetAt frame idr timestamp b' x' data' ∈ seen
          ++ [p.packetAt frame idr timestamp b x data])
        = (p.blockOf frame idr b')[x']?.filter fun data' => p.packetAt frame idr timestamp b' x' data' ∈ seen := by
      intro b' hother
      cases hdata' : (p.blockOf frame idr b')[x']? with
      | none => rfl
      | some data' =>
        rw [Option.filter_some, Option.filter_some, decide_eq_decide.mpr ((hmem hdata').trans (or_iff_left hother))]
    by_cases hb : b' = b
    · subst hb
      rw [AList.lookup_insert] at hlookup
      cases hlookup
      by_cases hx : x' = x
      · subst hx
        rw [AList.lookup_insert, hdata, Option.filter_some, if_pos (decide_eq_true ((hmem hdata).mpr (Or.inr ⟨rfl, rfl⟩)))]
        rfl
      · rw [AList.lookup_insert_ne hx, hfilter fun hsame => hx hsame.2]
        cases hblock : d.blocks.lookup b' with
        | some table => exact h.shard hblock x'
        | none =>
          -- nothing of the block was seen
          rw [Option.getD_none, AList.lookup_empty]
          have hnone := h.block b'
          rw [hblock] at hnone
          cases hdata' : (p.blockOf frame idr b')[x']? with
          | none => rfl
          | some data' =>
            rw [Option.filter_some, if_neg]
            · rfl
            · intro hseen
              exact absurd (hnone.mpr ⟨x', data', hdata', of_decide_eq_true hseen⟩) (by simp)
    · rw [AList.lookup_insert_ne hb] at hlookup
      rw [hfilter fun hsame => hb hsame.1]
      exact h.shard hlookup x'
  · intro b' table hlookup
    dsimp only at hlookup ⊢
    by_cases hb : b' = b
    · subst hb
      exact AList.lookup_insert _
    · rw [AList.lookup_insert_ne hb] at hlookup ⊢
      exact h.shards hlookup

theorem Holding.mem_table (h : d.Holding p frame idr timestamp seen) {table : AList fun _ : ℕ => List UInt8}
    (htable : d.blocks.lookup b = some table) : x ∈ table ↔
      ∃ data, (p.blockOf frame idr b)[x]? = some data ∧ p.packetAt frame idr timestamp b x data ∈ seen := by
  rw [← AList.lookup_isSome, h.shard htable, Option.isSome_map]
  cases (p.blockOf frame idr b)[x]? with
  | none => simp
  | some data => simp [Option.filter_some]

theorem Holding.length_keys (h : d.Holding p frame idr timestamp seen) {table : AList fun _ : ℕ => List UInt8}
    (htable : d.blocks.lookup b = some table) : table.keys.length = (p.blockOf frame idr b).length ↔
      ∀ x data, (p.blockOf frame idr b)[x]? = some data → p.packetAt frame idr timestamp b x data ∈ seen := by
  have hkeys : ∀ x ∈ table.keys, x < (p.blockOf frame idr b).length := by
    intro x hx
    obtain ⟨data, hdata, -⟩ := (h.mem_table htable).mp (AList.mem_keys.mpr hx)
    exact Packetizer.place_lt hdata
  rw [AList.length_keys_eq_iff hkeys]
  constructor
  · intro hall x data hdata
    obtain ⟨data', hdata', hseen⟩ := (h.mem_table htable).mp (hall x (Packetizer.place_lt hdata))
    rw [hdata] at hdata'
    cases hdata'
    exact hseen
  · intro hall x hx
    exact (h.mem_table htable).mpr ⟨_, List.getElem?_eq_getElem hx, hall x _ (List.getElem?_eq_getElem hx)⟩

/-- A frame is whole when all its packets were seen. -/
theorem Holding.whole_iff (h : d.Holding p frame idr timestamp seen) :
    d.whole = true ↔ ∀ q ∈ (p.packets frame idr timestamp).1, q ∈ seen := by
  have hblocks : d.lastBlock + 1 = Packetizer.blocks (p.count frame) := by
    rw [h.lastBlock]
    exact Nat.succ_pred_eq_of_pos Packetizer.blocks_pos
  unfold Depacketizer.whole
  rw [List.all_eq_true, hblocks]
  constructor
  · intro hall q hq
    obtain ⟨b, x, data, hdata, rfl⟩ := Packetizer.mem_packets.mp hq
    obtain ⟨table, htable, hlength⟩ := (Option.any_eq_true _ _).mp (hall b (List.mem_range.mpr (Packetizer.block_lt hdata)))
    have hlength := of_decide_eq_true hlength
    rw [h.shards htable, Option.getD_some] at hlength
    exact (h.length_keys htable).mp hlength x data hdata
  · intro hall b hb
    have hpos : 0 < (p.blockOf frame idr b).length := Packetizer.blockOf_pos (List.mem_range.mp hb)
    have hseen : ∀ x data, (p.blockOf frame idr b)[x]? = some data → p.packetAt frame idr timestamp b x data ∈ seen :=
      fun x data hdata => hall _ (Packetizer.mem_packets.mpr ⟨b, x, data, hdata, rfl⟩)
    have hfirst := List.getElem?_eq_getElem hpos
    obtain ⟨table, htable⟩ := Option.isSome_iff_exists.mp ((h.block b).mpr ⟨0, _, hfirst, hseen 0 _ hfirst⟩)
    refine (Option.any_eq_true _ _).mpr ⟨table, htable, decide_eq_true ?_⟩
    rw [h.shards htable, Option.getD_some]
    exact (h.length_keys htable).mpr hseen

/-- What is held of a frame that was seen whole. -/
theorem Holding.chunks (h : d.Holding p frame idr timestamp seen)
    (hall : ∀ q ∈ (p.packets frame idr timestamp).1, q ∈ seen) :
    d.blocks.inOrder.flatMap AList.inOrder = (p.pieces frame idr).map p.pad := by
  have hseen : ∀ b x data, (p.blockOf frame idr b)[x]? = some data → p.packetAt frame idr timestamp b x data ∈ seen :=
    fun b x data hdata => hall _ (Packetizer.mem_packets.mpr ⟨b, x, data, hdata, rfl⟩)
  have hblock : ∀ b, d.blocks.lookup b =
      if b < Packetizer.blocks (p.count frame) then some ((d.blocks.lookup b).getD ∅) else none := by
    intro b
    by_cases hb : b < Packetizer.blocks (p.count frame)
    · have hpos : 0 < (p.blockOf frame idr b).length := Packetizer.blockOf_pos hb
      have hfirst := List.getElem?_eq_getElem hpos
      obtain ⟨table, htable⟩ := Option.isSome_iff_exists.mp ((h.block b).mpr ⟨0, _, hfirst, hseen b 0 _ hfirst⟩)
      rw [if_pos hb, htable, Option.getD_some]
    · rw [if_neg hb, Option.eq_none_iff_forall_ne_some]
      intro table htable
      obtain ⟨x, data, hdata, -⟩ := (h.block b).mp (by rw [htable]; rfl)
      exact hb (Packetizer.block_lt hdata)
  have htable : ∀ b < Packetizer.blocks (p.count frame),
      ((d.blocks.lookup b).getD ∅).inOrder = (p.blockOf frame idr b).map p.pad := by
    intro b hb
    refine AList.inOrder_eq fun x => ?_
    have hlookup := hblock b
    rw [if_pos hb] at hlookup
    rw [h.shard hlookup, List.getElem?_map]
    cases hdata : (p.blockOf frame idr b)[x]? with
    | none => rfl
    | some data => rw [Option.filter_some, if_pos (decide_eq_true (hseen b x data hdata))]
  rw [AList.inOrder_eq_map hblock, List.flatMap_map, List.flatMap_congr fun b hb => htable b (List.mem_range.mp hb)]
  have hper : 0 < Packetizer.perBlock (p.count frame) := Packetizer.perBlock_pos Packetizer.count_pos
  have hflatten := Chunks.flatten_of (l := p.pieces frame idr) hper
  conv_rhs => rw [← hflatten]
  rw [Chunks.of, Packetizer.length_pieces, Packetizer.count_perBlock Packetizer.count_pos, List.map_flatten,
    List.map_map, List.flatMap]
  rfl

/-- The state behind a frame. -/
def behind (d : Depacketizer) (index : UInt32) : Depacketizer :=
  { d with blocks := ∅, shardsPerBlock := ∅, next := index + 1, current := none }

open Classical in
/-- What is complete is the frame. -/
theorem Holding.complete (h : d.Holding p frame idr timestamp seen) :
    d.complete = if ∀ q ∈ (p.packets frame idr timestamp).1, q ∈ seen then
        (.frame ⟨p.frameIndex + 1, p.data frame idr, idr, timestamp⟩, d.behind (p.frameIndex + 1))
      else (.pending, d) := by
  unfold Depacketizer.complete
  by_cases hall : ∀ q ∈ (p.packets frame idr timestamp).1, q ∈ seen
  · rw [if_pos hall, if_neg (not_not.mpr (h.whole_iff.mpr hall)), h.current]
    refine Prod.ext ?_ rfl
    dsimp only
    rw [h.chunks hall, h.stamp, assemble_pieces]
  · rw [if_neg hall, if_pos fun hwhole => hall (h.whole_iff.mp hwhole)]

/-! ### What comes of some packets -/

theorem addAll_append (d : Depacketizer) (packets packets' : List (List UInt8)) :
    (d.addAll (packets ++ packets')).1 = (d.addAll packets).1 ++ ((d.addAll packets).2.addAll packets').1
      ∧ (d.addAll (packets ++ packets')).2 = ((d.addAll packets).2.addAll packets').2 := by
  induction packets' using List.reverseRecOn with
  | nil => simp [addAll]
  | append_singleton packets' packet ih =>
    have hconcat : ∀ (d : Depacketizer) (packets : List (List UInt8)), d.addAll (packets ++ [packet])
        = ((d.addAll packets).1 ++ ((d.addAll packets).2.add packet).1, ((d.addAll packets).2.add packet).2) := by
      intro d packets
      rw [addAll, List.foldl_append]
      rfl
    rw [← List.append_assoc, hconcat, hconcat, ih.1, ih.2]
    exact ⟨by rw [List.append_assoc], rfl⟩

theorem addAll_cons (d : Depacketizer) (packet : List UInt8) (packets : List (List UInt8)) :
    (d.addAll (packet :: packets)).1 = (d.add packet).1 ++ ((d.add packet).2.addAll packets).1 :=
  (addAll_append d [packet] packets).1

/-- A packet of a frame that is over brings nothing. -/
theorem add_over {packet : List UInt8} {h : Header} (hheader : header packet = some h)
    (hcurrent : d.current ≠ some h.frameIndex) (hover : d.ahead h.frameIndex = false) : d.add packet = ([], d) := by
  unfold add
  rw [hheader]
  dsimp only
  rw [if_neg (by rw [hover]; simp), if_pos hcurrent]

theorem not_ahead_behind (d : Depacketizer) (index : UInt32) : (d.behind index).ahead index = false := by
  have hlt := index.toNat_lt
  refine decide_eq_false ?_
  change ¬ (index - (index + 1)).toNat < 2 ^ 31
  rw [UInt32.toNat_sub, UInt32.toNat_add]
  have hone : (1 : UInt32).toNat = 1 := rfl
  rw [hone]
  omega

/-- What a packet of the frame brings, and what is held behind it. -/
theorem Holding.take (h : d.Holding p frame idr timestamp seen) (hn : p.count frame ≤ 4092)
    (hdata : (p.blockOf frame idr b)[x]? = some data) {header : Header}
    (hheader : header = ⟨p.frameIndex + 1, b, Packetizer.blocks (p.count frame) - 1, x, (p.blockOf frame idr b).length⟩) :
    let q := p.packetAt frame idr timestamp b x data
    ((∀ q' ∈ (p.packets frame idr timestamp).1, q' ∈ seen ++ [q])
      ∧ (d.take header q).1 = [.frame ⟨p.frameIndex + 1, p.data frame idr, idr, timestamp⟩]
      ∧ ∃ d' : Depacketizer, (d.take header q).2 = d'.behind (p.frameIndex + 1))
    ∨ ((∃ q' ∈ (p.packets frame idr timestamp).1, q' ∉ seen ++ [q]) ∧ (d.take header q).1 = []
      ∧ (d.take header q).2.Holding p frame idr timestamp (seen ++ [q])) := by
  intro q
  have hnext := h.addShard hn hdata
  rw [← hheader] at hnext
  unfold Depacketizer.take
  rw [hnext.complete]
  by_cases hall : ∀ q' ∈ (p.packets frame idr timestamp).1, q' ∈ seen ++ [q]
  · left
    rw [if_pos hall]
    exact ⟨hall, rfl, _, rfl⟩
  · right
    rw [if_neg hall]
    exact ⟨by simpa only [not_forall, exists_prop] using hall, rfl, hnext⟩

/-- A frame that is over stays so, whatever comes of its packets. -/
theorem addAll_over (hn : p.count frame ≤ 4092) {arrivals : List (List UInt8)} (hcurrent : d.current = none)
    (hover : d.ahead (p.frameIndex + 1) = false)
    (harrivals : ∀ q ∈ arrivals, q ∈ (p.packets frame idr timestamp).1) : (d.addAll arrivals).1 = [] := by
  induction arrivals with
  | nil => rfl
  | cons q arrivals ih =>
    obtain ⟨b, x, data, hdata, hq⟩ := Packetizer.mem_packets.mp (harrivals q List.mem_cons_self)
    have hadd : d.add q = ([], d) := by
      rw [hq]
      exact add_over (Packetizer.header_packetAt hn hdata) (by rw [hcurrent]; exact (Option.some_ne_none _).symm) hover
    rw [addAll_cons, hadd]
    exact ih fun q' hq' => harrivals q' (List.mem_cons_of_mem _ hq')

/-- What is left of a frame brings the frame. -/
theorem Holding.addAll (h : d.Holding p frame idr timestamp seen) (hn : p.count frame ≤ 4092)
    {arrivals : List (List UInt8)} (harrivals : ∀ q ∈ arrivals, q ∈ (p.packets frame idr timestamp).1)
    (hmissing : ∃ q ∈ (p.packets frame idr timestamp).1, q ∉ seen)
    (hall : ∀ q ∈ (p.packets frame idr timestamp).1, q ∈ seen ∨ q ∈ arrivals) :
    (d.addAll arrivals).1 = [.frame ⟨p.frameIndex + 1, p.data frame idr, idr, timestamp⟩] := by
  induction arrivals generalizing d seen with
  | nil =>
    obtain ⟨q, hq, hunseen⟩ := hmissing
    exact absurd (hall q hq) (by simp [hunseen])
  | cons q arrivals ih =>
    obtain ⟨b, x, data, hdata, hq⟩ := Packetizer.mem_packets.mp (harrivals q List.mem_cons_self)
    have hrest : ∀ q' ∈ arrivals, q' ∈ (p.packets frame idr timestamp).1 :=
      fun q' hq' => harrivals q' (List.mem_cons_of_mem _ hq')
    have hadd : d.add q = d.take ⟨p.frameIndex + 1, b, Packetizer.blocks (p.count frame) - 1, x,
        (p.blockOf frame idr b).length⟩ q := by
      unfold add
      rw [hq, Packetizer.header_packetAt hn hdata]
      dsimp only
      rw [if_neg (fun hnew => hnew.2 h.current), if_neg (fun hother => hother h.current)]
    rw [addAll_cons, hadd]
    rcases h.take hn hdata rfl with ⟨-, hframe, d', hd'⟩ | ⟨hmissing, hnothing, hnext⟩
    · rw [← hq] at hframe hd'
      rw [hframe, hd', addAll_over hn rfl (not_ahead_behind _ _) hrest, List.append_nil]
    · rw [← hq] at hmissing hnothing hnext
      rw [hnothing, List.nil_append]
      refine ih hnext hrest hmissing fun q' hq' => ?_
      rcases hall q' hq' with hseen | hcome
      · exact Or.inl (List.mem_append_left _ hseen)
      · rcases List.mem_cons.mp hcome with rfl | hcome
        · exact Or.inl (List.mem_append_right _ (List.mem_singleton_self _))
        · exact Or.inr hcome

/-- A frame begins. -/
theorem holding_begins (d : Depacketizer) (header : Header)
    (hheader : header.frameIndex = p.frameIndex + 1 ∧ header.lastBlock = Packetizer.blocks (p.count frame) - 1) :
    (d.begins header (p.packetAt frame idr timestamp b x data)).Holding p frame idr timestamp [] where
  current := congrArg some hheader.1
  lastBlock := hheader.2
  stamp := timestamp_packet _ _ _ _
  block := by
    intro b
    refine iff_of_false (by simp [begins]) ?_
    rintro ⟨x, data, -, hseen⟩
    cases hseen
  shard := fun hnone => by cases hnone
  shards := fun hnone => by cases hnone

/-- A frame has packets. -/
theorem packets_ne_nil : ∃ q, q ∈ (p.packets frame idr timestamp).1 :=
  ⟨_, Packetizer.mem_packets.mpr ⟨0, 0, _, List.getElem?_eq_getElem (Packetizer.blockOf_pos Packetizer.blocks_pos), rfl⟩⟩

/-- A frame whose packets can be numbered is put together, in whatever order they come. -/
theorem addAll_frame (hn : p.count frame ≤ 4092) {arrivals : List (List UInt8)} (hcurrent : d.current = none)
    (hahead : d.ahead (p.frameIndex + 1) = true)
    (harrivals : ∀ q, q ∈ arrivals ↔ q ∈ (p.packets frame idr timestamp).1) :
    (d.addAll arrivals).1 = [.frame ⟨p.frameIndex + 1, p.data frame idr, idr, timestamp⟩] := by
  obtain ⟨q₀, hq₀⟩ := @packets_ne_nil p frame idr timestamp
  cases arrivals with
  | nil => exact absurd ((harrivals q₀).mpr hq₀) List.not_mem_nil
  | cons q arrivals =>
    obtain ⟨b, x, data, hdata, hq⟩ := Packetizer.mem_packets.mp ((harrivals q).mp List.mem_cons_self)
    let h : Header := ⟨p.frameIndex + 1, b, Packetizer.blocks (p.count frame) - 1, x, (p.blockOf frame idr b).length⟩
    have hbegins : (d.begins h q).Holding p frame idr timestamp [] := by
      rw [hq]
      exact holding_begins d h ⟨rfl, rfl⟩
    -- the first packet is taken by the frame it begins
    have hadd : d.add q = (d.begins h q).add q := by
      unfold add
      rw [hq, Packetizer.header_packetAt hn hdata]
      dsimp only
      rw [if_pos ⟨hahead, by rw [hcurrent]; exact (Option.some_ne_none _).symm⟩, hcurrent,
        if_neg (fun hnew => hnew.2 rfl), if_neg (fun hother => hother rfl)]
      rfl
    rw [addAll_cons, hadd, ← addAll_cons]
    exact hbegins.addAll hn (fun q' hq' => (harrivals q').mp hq') ⟨q₀, hq₀, List.not_mem_nil⟩
      fun q' hq' => Or.inr ((harrivals q').mpr hq')

/-! ### What packets can number -/

/-- What is held of packets of a size. -/
def Bounded (size : ℕ) (d : Depacketizer) : Prop :=
  ∀ b table, d.blocks.lookup b = some table → b < 4 ∧ ∀ x data, table.lookup x = some data → x < 1024 ∧ data.length ≤ size

theorem header_lt {packet : List UInt8} {h : Header} (hheader : header packet = some h) : h.block < 4 ∧ h.shard < 1024 := by
  obtain ⟨-, hheader⟩ := Option.ite_none_left_eq_some.mp hheader
  cases hheader
  exact ⟨Nat.lt_of_le_of_lt Nat.and_le_right (by decide), Nat.lt_of_le_of_lt Nat.and_le_right (by decide)⟩

theorem Bounded.addShard {size : ℕ} (h : d.Bounded size) {header : Header} {packet : List UInt8}
    (hheader : header.block < 4 ∧ header.shard < 1024) (hsize : packet.length ≤ size + (rtpSize + nvSize)) :
    (d.addShard header packet).Bounded size := by
  unfold Depacketizer.addShard
  split
  case isTrue => exact h
  case isFalse =>
    intro b table hlookup
    dsimp only at hlookup
    by_cases hb : b = header.block
    · subst hb
      rw [AList.lookup_insert] at hlookup
      cases hlookup
      refine ⟨hheader.1, fun x data hdata => ?_⟩
      by_cases hx : x = header.shard
      · subst hx
        rw [AList.lookup_insert] at hdata
        cases hdata
        refine ⟨hheader.2, ?_⟩
        rw [List.length_drop]
        omega
      · rw [AList.lookup_insert_ne hx] at hdata
        cases hblock : d.blocks.lookup header.block with
        | none =>
          rw [hblock] at hdata
          cases hdata
        | some table =>
          rw [hblock] at hdata
          exact (h _ table hblock).2 x data hdata
    · rw [AList.lookup_insert_ne hb] at hlookup
      exact h b table hlookup

theorem bounded_of_empty {size : ℕ} (hempty : d.blocks = ∅) : d.Bounded size := by
  intro b table hlookup
  rw [hempty] at hlookup
  cases hlookup

/-- How long a frame can be that is put together. -/
theorem Bounded.length_chunks {size : ℕ} (h : d.Bounded size) :
    (d.blocks.inOrder.flatMap AList.inOrder).length ≤ 4096
      ∧ ∀ chunk ∈ d.blocks.inOrder.flatMap AList.inOrder, chunk.length ≤ size := by
  have hkeys : d.blocks.keys.length ≤ 4 := by
    refine AList.length_keys_le fun b hb => ?_
    obtain ⟨table, htable⟩ := Option.isSome_iff_exists.mp (AList.lookup_isSome.mpr (AList.mem_keys.mpr hb))
    exact (h b table htable).1
  have htable : ∀ table ∈ d.blocks.inOrder, table.inOrder.length ≤ 1024 := by
    intro table hmem
    obtain ⟨b, hb⟩ := AList.mem_inOrder.mp hmem
    rw [AList.length_inOrder]
    refine AList.length_keys_le fun x hx => ?_
    obtain ⟨data, hdata⟩ := Option.isSome_iff_exists.mp (AList.lookup_isSome.mpr (AList.mem_keys.mpr hx))
    exact ((h b table hb).2 x data hdata).1
  constructor
  · rw [List.length_flatMap]
    have hsum := List.sum_le_card_nsmul (d.blocks.inOrder.map fun table => table.inOrder.length) 1024 fun n hn => by
      obtain ⟨table, hmem, rfl⟩ := List.mem_map.mp hn
      exact htable table hmem
    rw [List.length_map, AList.length_inOrder, smul_eq_mul] at hsum
    omega
  · intro chunk hchunk
    obtain ⟨table, hmem, hchunk⟩ := List.mem_flatMap.mp hchunk
    obtain ⟨b, hb⟩ := AList.mem_inOrder.mp hmem
    obtain ⟨x, hx⟩ := AList.mem_inOrder.mp hchunk
    exact ((h b table hb).2 x chunk hx).2

theorem length_assemble {index timestamp : UInt32} {chunks : List (List UInt8)} {size : ℕ} {frame : Frame}
    (hchunks : ∀ chunk ∈ chunks, chunk.length ≤ size) (h : assemble index timestamp chunks = .frame frame) :
    frame.data.length + frameHeader ≤ chunks.length * size ∨ frame.data = [] := by
  unfold assemble at h
  split at h
  case h_1 => cases h
  case h_2 first hfirst =>
    split at h
    case isTrue => cases h
    case isFalse =>
      cases h
      have hsum := List.sum_le_card_nsmul ((chunks.mapIdx fun i chunk =>
        if i = chunks.length - 1 then chunk.take (LittleEndian.ofBytes ((first.drop 4).take 2)) else chunk).map List.length)
        size fun n hn => by
          obtain ⟨piece, hpiece, rfl⟩ := List.mem_map.mp hn
          obtain ⟨i, chunk, hat, rfl⟩ := mem_mapIdx_iff.mp hpiece
          have hle := hchunks chunk (List.mem_of_getElem? hat)
          split
          · exact Nat.le_trans (List.length_take_le' ..) hle
          · exact hle
      rw [List.length_map, List.length_mapIdx, smul_eq_mul, ← List.length_flatten] at hsum
      dsimp only
      rw [List.length_drop]
      by_cases hshort : (chunks.mapIdx fun i chunk =>
        if i = chunks.length - 1 then chunk.take (LittleEndian.ofBytes ((first.drop 4).take 2)) else chunk).flatten.length
          ≤ frameHeader
      · exact Or.inr (List.drop_eq_nil_of_le hshort)
      · left
        omega

theorem complete_cases (d : Depacketizer) : d.complete = (.pending, d) ∨ ∃ index, d.current = some index ∧ d.whole = true
    ∧ d.complete = (assemble index d.timestamp (d.blocks.inOrder.flatMap AList.inOrder), d.behind index) := by
  unfold complete
  by_cases hwhole : d.whole = true
  · rw [if_neg (not_not.mpr hwhole)]
    cases hcurrent : d.current with
    | none => exact Or.inl rfl
    | some index => exact Or.inr ⟨index, rfl, hwhole, rfl⟩
  · exact Or.inl (if_pos hwhole)

/-- What a packet does: nothing, or it is taken by the frame that is current or that it begins. -/
theorem add_cases (d : Depacketizer) (packet : List UInt8) : d.add packet = ([], d) ∨
    ∃ h d₀ lost, header packet = some h ∧ (d₀ = d ∨ d₀ = d.begins h packet) ∧ (∀ r ∈ lost, ∃ index, r = .lost index)
      ∧ d.add packet = (lost ++ (d₀.take h packet).1, (d₀.take h packet).2) := by
  unfold add
  cases header packet with
  | none => exact Or.inl rfl
  | some h =>
    dsimp only
    by_cases hnew : d.ahead h.frameIndex = true ∧ d.current ≠ some h.frameIndex
    · right
      rw [if_pos hnew]
      refine ⟨h, _, _, rfl, Or.inr rfl, ?_, rfl⟩
      intro r hr
      obtain ⟨index, -, rfl⟩ := List.mem_map.mp hr
      exact ⟨index, rfl⟩
    · rw [if_neg hnew]
      by_cases hother : d.current ≠ some h.frameIndex
      · exact Or.inl (if_pos hother)
      · right
        rw [if_neg hother]
        exact ⟨h, d, [], rfl, Or.inl rfl, fun r hr => absurd hr List.not_mem_nil, rfl⟩

theorem mem_take {h : Header} {packet : List UInt8} {r : Received} (hr : r ∈ (d.take h packet).1) :
    r = (d.addShard h packet).complete.1 ∧ r ≠ .pending := by
  change r ∈ (if (d.addShard h packet).complete.1 = .pending then [] else [(d.addShard h packet).complete.1]) at hr
  split at hr
  case isTrue => cases hr
  case isFalse hdone =>
    rw [List.mem_singleton] at hr
    rw [hr]
    exact ⟨rfl, hdone⟩

/-- What is held of any packets of a size, and how long a frame they make. -/
theorem Bounded.add {size : ℕ} (h : d.Bounded size) {packet : List UInt8}
    (hsize : packet.length ≤ size + (rtpSize + nvSize)) : (d.add packet).2.Bounded size
      ∧ ∀ frame, .frame frame ∈ (d.add packet).1 → frame.data.length + frameHeader ≤ 4096 * size ∨ frame.data = [] := by
  rcases d.add_cases packet with hsame | ⟨header, d₀, lost, hheader, hd₀, hlost, hadd⟩
  · rw [hsame]
    exact ⟨h, fun frame hframe => absurd hframe List.not_mem_nil⟩
  · have hbounded : (d₀.addShard header packet).Bounded size := by
      refine Bounded.addShard ?_ (header_lt hheader) hsize
      rcases hd₀ with rfl | rfl
      · exact h
      · exact bounded_of_empty rfl
    rw [hadd]
    constructor
    · change ((d₀.addShard header packet).complete).2.Bounded size
      rcases (d₀.addShard header packet).complete_cases with heq | ⟨index, -, -, heq⟩
      · rw [heq]
        exact hbounded
      · rw [heq]
        exact bounded_of_empty rfl
    · intro frame hframe
      rcases List.mem_append.mp hframe with hmem | hmem
      · obtain ⟨index, hindex⟩ := hlost _ hmem
        cases hindex
      · obtain ⟨hcomplete, -⟩ := mem_take hmem
        rcases (d₀.addShard header packet).complete_cases with heq | ⟨index, -, -, heq⟩
        · rw [heq] at hcomplete
          cases hcomplete
        · rw [heq] at hcomplete
          obtain ⟨hcount, hchunks⟩ := hbounded.length_chunks
          rcases length_assemble hchunks hcomplete.symm with hle | hnil
          · exact Or.inl (Nat.le_trans hle (Nat.mul_le_mul_right _ hcount))
          · exact Or.inr hnil

theorem Bounded.addAll {size : ℕ} (h : d.Bounded size) {packets : List (List UInt8)}
    (hsize : ∀ packet ∈ packets, packet.length ≤ size + (rtpSize + nvSize)) :
    ∀ frame, .frame frame ∈ (d.addAll packets).1 → frame.data.length + frameHeader ≤ 4096 * size ∨ frame.data = [] := by
  induction packets generalizing d with
  | nil => exact fun frame hframe => absurd hframe List.not_mem_nil
  | cons packet packets ih =>
    obtain ⟨hnext, hframes⟩ := h.add (hsize packet List.mem_cons_self)
    intro frame hframe
    rw [addAll_cons] at hframe
    rcases List.mem_append.mp hframe with hmem | hmem
    · exact hframes frame hmem
    · exact ih hnext (fun q hq => hsize q (List.mem_cons_of_mem _ hq)) frame hmem

/-! ### Frames that cannot be numbered -/

theorem length_packetAt (hdata : (p.blockOf frame idr b)[x]? = some data) :
    (p.packetAt frame idr timestamp b x data).length ≤ p.chunk + (rtpSize + nvSize) := by
  have hpiece : data.length ≤ p.chunk := by
    have hmem : data ∈ p.pieces frame idr := List.mem_of_mem_drop (List.mem_of_mem_take (List.mem_of_getElem? hdata))
    obtain ⟨i, -, rfl⟩ := List.mem_map.mp hmem
    rw [Chunks.length_piece]
    exact Nat.min_le_left _ _
  have hdrop : ((p.packetAt frame idr timestamp b x data).drop (rtpSize + nvSize)).length = (p.pad data).length :=
    congrArg List.length (drop_packet _ _ _ _)
  rw [List.length_drop, Packetizer.pad, List.length_append, List.length_replicate] at hdrop
  omega

/-- A frame of more than 4096 packets comes out shorter, if it does. -/
theorem not_mem_of_count (hn : 4096 < p.count frame) {arrivals : List (List UInt8)} (hempty : d.blocks = ∅)
    (harrivals : ∀ q ∈ arrivals, q ∈ (p.packets frame idr timestamp).1) {index timestamp' : UInt32} {idr' : Bool} :
    .frame ⟨index, frame, idr', timestamp'⟩ ∉ (d.addAll arrivals).1 := by
  intro hmem
  have hlarge := (Chunks.lt_count_iff Packetizer.chunk_pos).mp hn
  have hchunk : 64 ≤ p.chunk := Packetizer.chunk_ge
  have hsize : ∀ q ∈ arrivals, q.length ≤ p.chunk + (rtpSize + nvSize) := by
    intro q hq
    obtain ⟨b, x, data, hdata, rfl⟩ := Packetizer.mem_packets.mp (harrivals q hq)
    exact length_packetAt hdata
  rcases (bounded_of_empty hempty).addAll hsize _ hmem with hle | hnil
  · exact absurd hlarge (Nat.not_lt.mpr hle)
  · dsimp only at hnil
    rw [hnil] at hlarge
    unfold frameHeader at hlarge
    simp at hlarge
    omega

/-- A frame that has a block of 1024 packets never does. -/
theorem not_mem_of_perBlock (hn : 4092 < p.count frame) (hn' : p.count frame ≤ 4096) {arrivals : List (List UInt8)}
    (hempty : d.blocks = ∅) (harrivals : ∀ q ∈ arrivals, q ∈ (p.packets frame idr timestamp).1) (frame' : Frame) :
    .frame frame' ∉ (d.addAll arrivals).1 := by
  have hper : Packetizer.perBlock (p.count frame) = 1024 := by
    have hlt := (not_congr Packetizer.perBlock_lt_iff).mpr (Nat.not_le_of_lt hn)
    have hle : Packetizer.perBlock (p.count frame) ≤ 1024 := by
      have hblocks : Packetizer.blocks (p.count frame) = 4 := by
        change max 1 (min ((p.count frame + 255 - 1) / 255) 4) = 4
        omega
      rw [Packetizer.perBlock, hblocks]
      unfold Chunks.count
      omega
    omega
  have hlength : (p.blockOf frame idr 0).length = 1024 := by
    rw [Packetizer.blockOf, Chunks.length_piece, Packetizer.length_pieces, hper]
    omega
  -- nothing of the first block is ever held
  have hstep : ∀ {d : Depacketizer} {q}, d.blocks.lookup 0 = none → q ∈ (p.packets frame idr timestamp).1 →
      (d.add q).2.blocks.lookup 0 = none ∧ .frame frame' ∉ (d.add q).1 := by
    intro d q hnone hq
    obtain ⟨b, x, data, hdata, rfl⟩ := Packetizer.mem_packets.mp hq
    rcases d.add_cases (p.packetAt frame idr timestamp b x data) with hsame | ⟨h, d₀, lost, hheader, hd₀, hlost, hadd⟩
    · rw [hsame]
      exact ⟨hnone, List.not_mem_nil⟩
    · have hnone₀ : d₀.blocks.lookup 0 = none := by
        rcases hd₀ with rfl | rfl
        · exact hnone
        · rfl
      have hblock : h.block = b ∧ (b = 0 → h.dataShards = 0) := by
        rw [Packetizer.packetAt, header_packet _ _ _ _ (Packetizer.block_lt hdata) Packetizer.blocks_le] at hheader
        cases hheader
        refine ⟨rfl, ?_⟩
        rintro rfl
        have hx := Packetizer.place_lt hdata
        rw [hlength] at hx
        dsimp only
        rw [hlength]
        exact dataShards_fecInfo hx
      have hkept : (d₀.addShard h (p.packetAt frame idr timestamp b x data)).blocks.lookup 0 = none := by
        unfold addShard
        split
        case isTrue => exact hnone₀
        case isFalse hparity =>
          have hb : b ≠ 0 := by
            intro hb
            rw [hblock.2 hb] at hparity
            exact hparity (Nat.zero_le _)
          refine (AList.lookup_insert_ne ?_).trans hnone₀
          rw [hblock.1]
          exact hb.symm
      have hwhole : (d₀.addShard h (p.packetAt frame idr timestamp b x data)).whole = false := by
        refine Bool.eq_false_iff.mpr fun hwhole => ?_
        have hfirst := List.all_eq_true.mp hwhole 0 (List.mem_range.mpr (Nat.succ_pos _))
        rw [hkept] at hfirst
        cases hfirst
      have hpending : (d₀.addShard h (p.packetAt frame idr timestamp b x data)).complete
          = (.pending, d₀.addShard h (p.packetAt frame idr timestamp b x data)) := by
        rcases (d₀.addShard h _).complete_cases with heq | ⟨index, -, htrue, -⟩
        · exact heq
        · rw [hwhole] at htrue
          cases htrue
      rw [hadd]
      constructor
      · change ((d₀.addShard h _).complete).2.blocks.lookup 0 = none
        rw [hpending]
        exact hkept
      · intro hframe
        rcases List.mem_append.mp hframe with hmem | hmem
        · obtain ⟨index, hindex⟩ := hlost _ hmem
          cases hindex
        · obtain ⟨hcomplete, hne⟩ := mem_take hmem
          rw [hpending] at hcomplete
          exact hne hcomplete
  have hrun : ∀ {arrivals : List (List UInt8)} {d : Depacketizer}, d.blocks.lookup 0 = none →
      (∀ q ∈ arrivals, q ∈ (p.packets frame idr timestamp).1) → .frame frame' ∉ (d.addAll arrivals).1 := by
    intro arrivals
    induction arrivals with
    | nil => exact fun _ _ => List.not_mem_nil
    | cons q arrivals ih =>
      intro d hnone harrivals hmem
      obtain ⟨hnext, hno⟩ := hstep hnone (harrivals q List.mem_cons_self)
      rw [addAll_cons] at hmem
      rcases List.mem_append.mp hmem with hmem | hmem
      · exact hno hmem
      · exact ih hnext (fun q' hq' => harrivals q' (List.mem_cons_of_mem _ hq')) hmem
  exact hrun (by rw [hempty]; rfl) harrivals

/-- No frame is under way. -/
structure Idle (d : Depacketizer) : Prop where
  current : d.current = none
  blocks : d.blocks = ∅

/-- A depacketizer between frames gets back a frame from its packets, in any order and with
any of them repeated, exactly if the frame is not over for it, has at most 4092 packets,
and a last payload of less than 65536 bytes. -/
theorem frame_survives_iff (p : Packetizer) (frame : List UInt8) (idr : Bool) (timestamp : UInt32) (d : Depacketizer)
    (hidle : d.Idle) :
    (∀ arrivals, (∀ q, q ∈ arrivals ↔ q ∈ (p.packets frame idr timestamp).1) →
      (d.addAll arrivals).1 = [.frame ⟨p.frameIndex + 1, frame, idr, timestamp⟩])
    ↔ d.ahead (p.frameIndex + 1) = true ∧ p.Fits frame := by
  constructor
  · intro hall
    have hframe := hall _ fun q => Iff.rfl
    have hn : p.count frame ≤ 4092 := by
      by_contra hgt
      have hmem : .frame ⟨p.frameIndex + 1, frame, idr, timestamp⟩ ∈ (d.addAll (p.packets frame idr timestamp).1).1 := by
        rw [hframe]
        exact List.mem_singleton_self _
      rcases Nat.lt_or_ge 4096 (p.count frame) with hlarge | hsmall
      · exact not_mem_of_count hlarge hidle.blocks (fun q hq => hq) hmem
      · exact not_mem_of_perBlock (Nat.lt_of_not_le hgt) hsmall hidle.blocks (fun q hq => hq) _ hmem
    have hahead : d.ahead (p.frameIndex + 1) = true := by
      by_contra hover
      rw [addAll_over hn hidle.current (eq_false_of_ne_true hover) fun q hq => hq] at hframe
      cases hframe
    refine ⟨hahead, hn, ?_⟩
    by_contra hlong
    rw [addAll_frame hn hidle.current hahead fun q => Iff.rfl] at hframe
    simp only [List.cons.injEq, Received.frame.injEq, Frame.mk.injEq] at hframe
    exact Packetizer.data_ne (Nat.le_of_not_lt hlong) hframe.1.2.1
  · rintro ⟨hahead, hn, hlast⟩ arrivals harrivals
    rw [addAll_frame hn hidle.current hahead harrivals, Packetizer.data_eq hlast]

theorem frame_survives_iff_small :
    (default.addAll ((Packetizer.new 1024).packets [0, 0, 0, 1, 0x65] true 90).1.reverse).1
      = [.frame ⟨1, [0, 0, 0, 1, 0x65], true, 90⟩] :=
  (frame_survives_iff (.new 1024) [0, 0, 0, 1, 0x65] true 90 default ⟨rfl, rfl⟩).mpr ⟨by decide, by decide⟩ _
    fun _ => List.mem_reverse

/-- **A frame of more packets than the numbers reach does not survive.** -/
theorem large_lost : ¬ ∀ (packetSize : UInt32) (frame : List UInt8) (idr : Bool) (timestamp : UInt32)
    (arrivals : List (List UInt8)),
    (∀ q, q ∈ arrivals ↔ q ∈ ((Packetizer.new packetSize.toNat).packets frame idr timestamp).1) →
      (default.addAll arrivals).1 = [.frame ⟨1, frame, idr, timestamp⟩] := by
  intro h
  have hcount : (Packetizer.new (80 : UInt32).toNat).count (List.replicate 261888 0) = 4093 := by
    rw [Packetizer.count, List.length_replicate]
    decide
  refine @not_mem_of_perBlock default _ _ true 90 (by rw [hcount]; decide) (by rw [hcount]; decide) _ rfl
    (fun q hq => hq) ⟨1, List.replicate 261888 0, true, 90⟩ ?_
  rw [h 80 (List.replicate 261888 0) true 90 _ fun _ => Iff.rfl]
  exact List.mem_singleton_self _

end Depacketizer

end WindowCast.GameStream
