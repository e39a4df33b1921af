import WindowCast.Bud.Header
import WindowCast.Fec.Recover
import WindowCast.Lib.EvenSplit

/-!
# Parity packets

`bud/src/parity.rs`: a frame's data fragments are cut into blocks, and each
block gets parity fragments from a Cauchy code.  The policy that decides how
many is a parameter; `expect` on a code that cannot be built is `none`.

## Main definitions

* `blocks` — how the data fragments are grouped.
* `encode` — the parity packets of a frame.
* `Prefix`, `parse` — what a parity packet says about its shard.

## Main results

* `blocks_eq` — the blocks are an even split of the fragments.
* `blocks_fewest` — **the blocks are even, and fewer would not have every fragment**.
* `exists_encode` — the parity packets can always be made, and each carries a
  shard of a block.
* `parse_parityPayload` — what a parity packet says is read back.
-/

namespace WindowCast.Bud

open WindowCast.Fec

/-- A header and the payload that goes with it. -/
abbrev Packet := Header × List UInt8

/-- The bytes at the front of a parity packet's payload. -/
def PREFIX_LEN : ℕ := 6
/-- The size of every data fragment but a frame's last, and of every parity shard. -/
def FRAGMENT_SIZE : ℕ := MAX_PAYLOAD - PREFIX_LEN
/-- The most data fragments in one block. -/
def MAX_BLOCK_DATA : ℕ := 128

/-- The numbers from `start` up to and without `stop`. -/
structure Range where
  start : ℕ
  stop : ℕ
  deriving DecidableEq, Repr

namespace Range

def len (self : Range) : ℕ := self.stop - self.start

def indices (self : Range) : List ℕ := List.range' self.start self.len

@[simp] theorem length_indices (r : Range) : r.indices.length = r.len := List.length_range'

theorem mem_indices {r : Range} {i : ℕ} : i ∈ r.indices ↔ r.start ≤ i ∧ i < r.stop := by
  rw [indices, List.mem_range'_1, len]
  omega

/-- Ranges that have every place below `n`, none of them longer than `most`, are `n / most` or more. -/
theorem le_of_cover {n most : ℕ} {ranges : List Range} (hcover : ∀ i < n, ∃ r ∈ ranges, i ∈ r.indices)
    (hmost : ∀ r ∈ ranges, r.len ≤ most) : n ≤ ranges.length * most := by
  have hsubset : List.range n ⊆ ranges.flatMap indices := fun i hi =>
    List.mem_flatMap.mpr (hcover i (List.mem_range.mp hi))
  have hlength : (ranges.flatMap indices).length ≤ ranges.length * most := by
    rw [List.length_flatMap]
    refine (List.sum_le_card_nsmul _ most ?_).trans_eq (by rw [List.length_map, smul_eq_mul])
    intro l hl
    obtain ⟨r, hr, rfl⟩ := List.mem_map.mp hl
    rw [length_indices]
    exact hmost r hr
  have hle := (List.nodup_range.subperm hsubset).length_le
  rw [List.length_range] at hle
  exact hle.trans hlength

end Range

/-- Division, rounded up. -/
def divCeil (a b : ℕ) : ℕ := (a + b - 1) / b

/-- How the data fragments of a frame are grouped into blocks: as few as
`MAX_BLOCK_DATA` allows, as even as possible. -/
def blocks (dataFragments : ℕ) : List Range :=
  if dataFragments = 0 then []
  else
    let count := divCeil dataFragments MAX_BLOCK_DATA
    let base := dataFragments / count
    let extra := dataFragments % count
    let push (s : List Range × ℕ) (block : ℕ) : List Range × ℕ :=
      let len := base + if block < extra then 1 else 0
      (s.1 ++ [⟨s.2, s.2 + len⟩], s.2 + len)
    ((List.range count).foldl push ([], 0)).1

/-- Decides how many parity fragments a block of `data` fragments gets. -/
structure ParityPolicy where
  parityFor : ℕ → ℕ

/-- No parity: a lost fragment is lost. -/
def NoParity : ParityPolicy := ⟨fun _ => 0⟩

/-- Cut to `size`, or filled up with zeros. -/
def resize (shard : List UInt8) (size : ℕ) : List UInt8 :=
  shard.take size ++ List.replicate (size - shard.length) 0

/-- How many parity fragments a block of `k` data fragments really gets. -/
def parityCount (policy : ParityPolicy) (k : ℕ) : ℕ := min (policy.parityFor k) (256 - k)

/-- The shards of the fragments in `range`, all of one size. -/
def shardsOf (data : List Packet) (range : Range) : List Shard :=
  ((data.drop range.start).take range.len).map fun packet => resize packet.2 FRAGMENT_SIZE

/-- The parity shards of a block. -/
def parityShards (policy : ParityPolicy) (data : List Packet) (range : Range) :
    Option (List Shard) :=
  let m := parityCount policy range.len
  if m = 0 then some []
  else
    match Code.cauchy range.len m with
    | .error _ => none
    | .ok code =>
      match code.encode (shardsOf data range) with
      | .error _ => none
      | .ok parity => some parity

/-- The payload of a parity packet. -/
def parityPayload (block index count lastLen : ℕ) (shard : Shard) : List UInt8 :=
  BigEndian.toBytes 2 block ++ [UInt8.ofNat index, UInt8.ofNat count]
    ++ BigEndian.toBytes 2 lastLen ++ shard

/-- The length of the last fragment. -/
def lastLength (data : List Packet) : ℕ := (data.getLast?.map fun packet => packet.2.length).getD 0

/-- One turn of the loop of `encode`. -/
def encodeBlock (policy : ParityPolicy) (data : List Packet) (first : Header) (out : List Packet)
    (block : Range × ℕ) : Option (List Packet) :=
  match parityShards policy data block.1 with
  | none => none
  | some parity =>
    some (out ++ parity.zipIdx.map fun (shard, index) =>
      ({ flags := FLAG_PARITY
         stream := first.stream
         frame := first.frame
         fragment := UInt16.ofNat (out.length + index)
         fragments := first.fragments
         packet := 0
         sentUs := first.sentUs },
        parityPayload block.2 index (parityCount policy block.1.len) (lastLength data) shard))

/-- The parity packets for a frame's data fragments. -/
def encode (data : List Packet) (policy : ParityPolicy) : Option (List Packet) :=
  match data with
  | [] => some []
  | (first, _) :: _ =>
    (blocks data.length).zipIdx.foldlM (encodeBlock policy data first) []

/-- What a parity packet's prefix says. -/
structure Prefix where
  block : ℕ
  index : ℕ
  count : ℕ
  lastLen : ℕ
  index_lt : index < count
  lastLen_le : lastLen ≤ FRAGMENT_SIZE
  deriving DecidableEq

/-- Reads a parity packet's payload into its prefix and shard, or `none` if it
is not shaped like one. -/
def parse (payload : List UInt8) : Option (Prefix × Shard) :=
  if payload.length ≠ PREFIX_LEN + FRAGMENT_SIZE then none
  else
    let block := Header.field payload 0 2
    let index := Header.field payload 2 1
    let count := Header.field payload 3 1
    let lastLen := Header.field payload 4 2
    if h : count = 0 ∨ count ≤ index ∨ FRAGMENT_SIZE < lastLen then none
    else some (⟨block, index, count, lastLen, by omega, by omega⟩, payload.drop PREFIX_LEN)

/-! ### Blocks -/

/-- How many blocks there are. -/
def blockCount (n : ℕ) : ℕ := divCeil n MAX_BLOCK_DATA

/-- Block `b` of `n` fragments. -/
def part (n b : ℕ) : Range :=
  ⟨EvenSplit.start n (blockCount n) b, EvenSplit.start n (blockCount n) (b + 1)⟩

/-- **The blocks are an even split of the fragments.** -/
theorem blocks_eq {n : ℕ} (hn : 0 < n) : blocks n = (List.range (blockCount n)).map (part n) := by
  have hloop : ∀ t, (List.range t).foldl (fun (s : List Range × ℕ) (block : ℕ) =>
      (s.1 ++ [(⟨s.2, s.2 + (n / blockCount n + if block < n % blockCount n then 1 else 0)⟩ : Range)],
        s.2 + (n / blockCount n + if block < n % blockCount n then 1 else 0))) ([], 0)
      = ((List.range t).map (part n), EvenSplit.start n (blockCount n) t) := by
    intro t
    induction t with
    | zero => simp
    | succ t ih =>
      rw [List.range_succ, List.foldl_append, ih, List.map_append]
      simp only [List.foldl_cons, List.foldl_nil, List.map_cons, List.map_nil, part,
        EvenSplit.start_succ]
  rw [blocks, if_neg (by omega)]
  exact congrArg Prod.fst (hloop _)

theorem blockCount_pos {n : ℕ} (hn : 0 < n) : 0 < blockCount n := by
  unfold blockCount divCeil MAX_BLOCK_DATA
  omega

theorem blockCount_le {n : ℕ} (hn : 0 < n) : blockCount n ≤ n := by
  unfold blockCount divCeil MAX_BLOCK_DATA
  omega

theorem length_blocks {n : ℕ} (hn : 0 < n) : (blocks n).length = blockCount n := by
  rw [blocks_eq hn, List.length_map, List.length_range]

theorem getElem?_blocks {n b : ℕ} (hn : 0 < n) {range : Range} :
    (blocks n)[b]? = some range ↔ b < blockCount n ∧ range = part n b := by
  rw [blocks_eq hn, List.getElem?_map, Option.map_eq_some_iff]
  constructor
  · rintro ⟨b', hb', rfl⟩
    obtain ⟨hlt, rfl⟩ := List.getElem?_eq_some_iff.mp hb'
    rw [List.length_range] at hlt
    exact ⟨hlt, by rw [List.getElem_range]⟩
  · rintro ⟨hlt, rfl⟩
    exact ⟨b, by rw [List.getElem?_range hlt], rfl⟩

theorem mem_zipIdx_blocks {n : ℕ} (hn : 0 < n) {block : Range × ℕ} :
    block ∈ (blocks n).zipIdx ↔ block.2 < blockCount n ∧ block.1 = part n block.2 := by
  rw [List.mem_zipIdx_iff_getElem?, getElem?_blocks hn]

theorem stop_part_le {n b : ℕ} (hb : b < blockCount n) : (part n b).stop ≤ n := by
  have hmono := EvenSplit.start_mono n (blockCount n) (show b + 1 ≤ blockCount n from hb)
  rwa [EvenSplit.start_last (by omega)] at hmono

theorem len_part_pos {n : ℕ} (hn : 0 < n) (b : ℕ) : 0 < (part n b).len := by
  have := EvenSplit.part_pos (blockCount_pos hn) (blockCount_le hn) b
  simp only [Range.len, part]
  omega

theorem len_part_le (n b : ℕ) : (part n b).len ≤ MAX_BLOCK_DATA := by
  apply EvenSplit.part_le
  unfold blockCount divCeil MAX_BLOCK_DATA
  omega

/-- Every fragment lies in a block. -/
theorem exists_part {n i : ℕ} (hi : i < n) : ∃ b < blockCount n, i ∈ (part n b).indices := by
  obtain ⟨b, hb, hpart⟩ := EvenSplit.exists_part (blockCount_pos (Nat.zero_lt_of_lt hi)) hi
  exact ⟨b, hb, Range.mem_indices.mpr hpart⟩

/-- No fragment lies in two blocks. -/
theorem part_unique {n i b b' : ℕ} (h : i ∈ (part n b).indices) (h' : i ∈ (part n b').indices) :
    b = b' :=
  EvenSplit.part_unique (Range.mem_indices.mp h) (Range.mem_indices.mp h')

theorem lt_of_mem_part {n b i : ℕ} (hb : b < blockCount n) (h : i ∈ (part n b).indices) : i < n :=
  lt_of_lt_of_le (Range.mem_indices.mp h).2 (stop_part_le hb)

/-- One after the other, the blocks have every fragment. -/
theorem flatMap_blocks (n : ℕ) : (blocks n).flatMap Range.indices = List.range n := by
  rcases Nat.eq_zero_or_pos n with rfl | hn
  · rfl
  · have hsteps := Ladder.flatMap_steps (EvenSplit.start_mono n (blockCount n)) (EvenSplit.start_zero n _)
      (blockCount n)
    rw [EvenSplit.start_last (blockCount_pos hn)] at hsteps
    rw [blocks_eq hn, List.flatMap_map]
    exact hsteps

/-- A block is a part of the even split. -/
theorem exists_part_of_mem {n : ℕ} {r : Range} (h : r ∈ blocks n) : 0 < n ∧ ∃ b, r = part n b := by
  rcases Nat.eq_zero_or_pos n with rfl | hn
  · cases h
  · rw [blocks_eq hn] at h
    obtain ⟨b, -, rfl⟩ := List.mem_map.mp h
    exact ⟨hn, b, rfl⟩

/-- **The blocks are consecutive, none is empty or larger than allowed, they are as large as each other or
one larger, and fewer would not have every fragment.** -/
theorem blocks_fewest (n : ℕ) :
    (blocks n).flatMap Range.indices = List.range n ∧
    (blocks n).IsChain (fun r next => r.stop = next.start) ∧
    (∀ r ∈ blocks n, 0 < r.len ∧ r.len ≤ MAX_BLOCK_DATA ∧ ∀ r' ∈ blocks n, r.len ≤ r'.len + 1) ∧
    ∀ ranges : List Range, (∀ i < n, ∃ r ∈ ranges, i ∈ r.indices) → (∀ r ∈ ranges, r.len ≤ MAX_BLOCK_DATA) →
      (blocks n).length ≤ ranges.length := by
  refine ⟨flatMap_blocks n, ?_, fun r hr => ?_, fun ranges hcover hmost => ?_⟩
  · rcases Nat.eq_zero_or_pos n with rfl | hn
    · exact List.IsChain.nil
    · rw [blocks_eq hn, List.isChain_map, List.isChain_iff_getElem]
      intro b hb
      rw [List.getElem_range, List.getElem_range]
      rfl
  · obtain ⟨hn, b, rfl⟩ := exists_part_of_mem hr
    refine ⟨len_part_pos hn b, len_part_le n b, fun r' hr' => ?_⟩
    obtain ⟨-, b', rfl⟩ := exists_part_of_mem hr'
    exact EvenSplit.part_even n (blockCount n) b b'
  · rcases Nat.eq_zero_or_pos n with rfl | hn
    · exact Nat.zero_le _
    · have hle := Range.le_of_cover hcover hmost
      rw [length_blocks hn]
      unfold blockCount divCeil
      unfold MAX_BLOCK_DATA at hle ⊢
      omega

/-! ### Shards -/

@[simp] theorem length_resize (shard : List UInt8) (size : ℕ) : (resize shard size).length = size := by
  rw [resize, List.length_append, List.length_take, List.length_replicate]
  omega

/-- Cutting a padded fragment to its length gives it back. -/
theorem take_resize {shard : List UInt8} {size : ℕ} (h : shard.length ≤ size) :
    (resize shard size).take shard.length = shard := by
  rw [resize, List.take_of_length_le h, List.take_left]

theorem length_shardsOf {data : List Packet} {range : Range} (h : range.stop ≤ data.length) :
    (shardsOf data range).length = range.len := by
  rw [shardsOf, List.length_map, List.length_take, List.length_drop, Range.len]
  omega

theorem length_of_mem_shardsOf {data : List Packet} {range : Range} {s : Shard}
    (h : s ∈ shardsOf data range) : s.length = FRAGMENT_SIZE := by
  obtain ⟨packet, -, rfl⟩ := List.mem_map.mp h
  exact length_resize _ _

/-- The code of a block can always be built. -/
theorem exists_blockCode {n m : ℕ} (hn : 0 < n) (b : ℕ) (hm : m + (part n b).len ≤ 256) :
    ∃ code, Code.cauchy (part n b).len m = .ok code :=
  Code.exists_cauchy (len_part_pos hn b) (by omega)

/-- What the parity shards of a block are, when it has any. -/
theorem parityShards_eq_some {policy : ParityPolicy} {data : List Packet} {range : Range}
    {parity : List Shard} (h : parityShards policy data range = some parity) {shard : Shard}
    (hshard : shard ∈ parity) :
    ∃ code, Code.cauchy range.len (parityCount policy range.len) = .ok code ∧
      code.encode (shardsOf data range) = .ok parity := by
  unfold parityShards at h
  simp only at h
  split at h
  · rw [← Option.some.inj h] at hshard
    exact absurd hshard (List.not_mem_nil)
  split at h
  · cases h
  rename_i code hcode
  split at h
  · cases h
  rename_i parity' hparity
  rw [← Option.some.inj h]
  exact ⟨code, hcode, hparity⟩

theorem parityShards_isSome (policy : ParityPolicy) {data : List Packet} {b : ℕ}
    (hb : b < blockCount data.length) :
    ∃ parity, parityShards policy data (part data.length b) = some parity := by
  have hn : 0 < data.length := by
    by_contra hzero
    have hempty : data.length = 0 := by omega
    rw [hempty, show blockCount 0 = 0 from rfl] at hb
    exact absurd hb (Nat.not_lt_zero b)
  have hlen := len_part_le data.length b
  unfold parityShards
  simp only
  split
  · exact ⟨_, rfl⟩
  obtain ⟨code, hcode⟩ := exists_blockCode (m := parityCount policy (part data.length b).len) hn b (by
    unfold parityCount
    unfold MAX_BLOCK_DATA at hlen
    omega)
  have hdata : code.data = (part data.length b).len := (Code.isCauchy_of_cauchy hcode).2.1
  have hlen' : (shardsOf data (part data.length b)).length = code.data := by
    rw [length_shardsOf (stop_part_le hb), hdata]
  obtain ⟨parity, hparity⟩ := code.exists_encode hlen' fun s hs => length_of_mem_shardsOf hs
  rw [hcode]
  simp only [hparity]
  exact ⟨_, rfl⟩

theorem length_parityShards {policy : ParityPolicy} {data : List Packet} {range : Range}
    {parity : List Shard} (h : parityShards policy data range = some parity) :
    parity.length = parityCount policy range.len := by
  unfold parityShards at h
  simp only at h
  split at h
  · rename_i hm
    rw [← Option.some.inj h, hm]
    rfl
  split at h
  · cases h
  rename_i code hcode
  split at h
  · cases h
  rename_i parity' hparity
  rw [← Option.some.inj h, Code.length_of_encode hparity]
  exact (Code.isCauchy_of_cauchy hcode).2.2

/-- Parity shards are of full size. -/
theorem length_of_mem_parityShards {policy : ParityPolicy} {data : List Packet} {range : Range}
    {parity : List Shard} (h : parityShards policy data range = some parity) {shard : Shard}
    (hshard : shard ∈ parity) : shard.length = FRAGMENT_SIZE := by
  obtain ⟨code, -, hencode⟩ := parityShards_eq_some h hshard
  obtain ⟨size, henc⟩ := Code.encodes_of_encode hencode
  -- a data shard of the block says what the size of all its shards is
  have hpos : 0 < (shardsOf data range).length := by
    rw [henc.length_data]
    exact code.data_pos
  obtain ⟨s, hs⟩ := List.exists_mem_of_length_pos hpos
  have hsize := henc.size_eq s (List.mem_append_left _ hs)
  rw [length_of_mem_shardsOf hs] at hsize
  rw [hsize]
  exact henc.size_eq shard (List.mem_append_right _ hshard)

theorem parityCount_lt (policy : ParityPolicy) {n : ℕ} (hn : 0 < n) (b : ℕ) :
    parityCount policy (part n b).len < 256 := by
  have := len_part_pos hn b
  unfold parityCount
  omega

/-! ### The parity packets of a frame -/

/-- Packet `p` carries parity shard `index` of block `block` of the fragments `data`. -/
structure IsParityPacket (policy : ParityPolicy) (data : List Packet) (first : Header)
    (block index : ℕ) (p : Packet) : Prop where
  block_lt : block < blockCount data.length
  shard : ∃ parity shard, parityShards policy data (part data.length block) = some parity ∧
    parity[index]? = some shard ∧
    p.2 = parityPayload block index (parityCount policy (part data.length block).len)
      (lastLength data) shard
  header : ∃ fragment, p.1 = ⟨FLAG_PARITY, first.stream, first.frame, fragment, first.fragments, 0,
    first.sentUs⟩

/-- The loop of `encode` adds the packets of one block after the other. -/
theorem foldlM_encodeBlock (policy : ParityPolicy) (data : List Packet) (first : Header) :
    ∀ (l : List (Range × ℕ)) (out : List Packet),
      (∀ block ∈ l, block.2 < blockCount data.length ∧ block.1 = part data.length block.2) →
      ∃ out', l.foldlM (encodeBlock policy data first) out = some out' ∧
        ∀ p ∈ out', p ∈ out ∨ ∃ block index, IsParityPacket policy data first block index p := by
  intro l
  induction l with
  | nil => exact fun out _ => ⟨out, rfl, fun p hp => .inl hp⟩
  | cons block l ih =>
    intro out hl
    obtain ⟨hb, hpart⟩ := hl block List.mem_cons_self
    obtain ⟨parity, hparity⟩ := parityShards_isSome policy hb
    obtain ⟨out', hout', hmem⟩ := ih _ fun block' h' => hl block' (List.mem_cons_of_mem _ h')
    refine ⟨out', ?_, fun p hp => ?_⟩
    · rw [List.foldlM_cons, encodeBlock, hpart, hparity]
      exact hout'
    · rcases hmem p hp with hold | hnew
      rotate_left
      · exact .inr hnew
      rcases List.mem_append.mp hold with hold | hnew
      · exact .inl hold
      obtain ⟨⟨shard, index⟩, hshard, rfl⟩ := List.mem_map.mp hnew
      rw [List.mem_zipIdx_iff_getElem?] at hshard
      exact .inr ⟨block.2, index, hb, ⟨parity, shard, hparity, hshard, rfl⟩, ⟨_, rfl⟩⟩

/-- **The parity packets of a frame**: they can always be made, and each
carries a shard of a block. -/
theorem exists_encode (policy : ParityPolicy) (first : Packet) (rest : List Packet) :
    ∃ out, encode (first :: rest) policy = some out ∧
      ∀ p ∈ out, ∃ block index, IsParityPacket policy (first :: rest) first.1 block index p := by
  have hn : 0 < (first :: rest).length := Nat.succ_pos _
  obtain ⟨out, hout, hmem⟩ := foldlM_encodeBlock policy (first :: rest) first.1
    (blocks (first :: rest).length).zipIdx [] fun block hb => (mem_zipIdx_blocks hn).mp hb
  refine ⟨out, hout, fun p hp => ?_⟩
  rcases hmem p hp with hnil | h
  · exact absurd hnil List.not_mem_nil
  · exact h

/-- What a parity packet says is read back. -/
theorem parse_parityPayload {block index count lastLen : ℕ} {shard : Shard} (hblock : block < 65536)
    (hindex : index < count) (hcount : count < 256) (hlast : lastLen ≤ FRAGMENT_SIZE)
    (hshard : shard.length = FRAGMENT_SIZE) :
    parse (parityPayload block index count lastLen shard)
      = some (⟨block, index, count, lastLen, hindex, hlast⟩, shard) := by
  set payload := parityPayload block index count lastLen shard with hpayload
  have hbyte : ∀ x : ℕ, [UInt8.ofNat x] = BigEndian.toBytes 1 x := fun x => rfl
  have hlen : payload.length = PREFIX_LEN + FRAGMENT_SIZE := by
    simp only [hpayload, parityPayload, List.length_append, BigEndian.length_toBytes,
      List.length_cons, List.length_nil, hshard, PREFIX_LEN]
  have h0 : Header.field payload 0 2 = block :=
    Header.field_append (a := []) (by simp [hpayload, parityPayload]; rfl) rfl rfl hblock
  have h2 : Header.field payload 2 1 = index :=
    Header.field_append (a := BigEndian.toBytes 2 block)
      (by simp [hpayload, parityPayload]; rfl) (by simp) (hbyte index) (by omega)
  have h3 : Header.field payload 3 1 = count :=
    Header.field_append (a := BigEndian.toBytes 2 block ++ [UInt8.ofNat index])
      (by simp [hpayload, parityPayload]; rfl) (by simp) (hbyte count) (by omega)
  have h4 : Header.field payload 4 2 = lastLen :=
    Header.field_append (a := BigEndian.toBytes 2 block ++ [UInt8.ofNat index, UInt8.ofNat count])
      (by simp [hpayload, parityPayload]; rfl) (by simp) rfl
      (lt_of_le_of_lt hlast (by decide))
  have hdrop : payload.drop PREFIX_LEN = shard := by
    rw [hpayload, parityPayload, List.drop_left']
    simp [PREFIX_LEN]
  unfold parse
  rw [if_neg (not_not.mpr hlen), dif_neg (by rw [h2, h3, h4]; omega)]
  simp only [h0, h2, h3, h4, hdrop]

end WindowCast.Bud
