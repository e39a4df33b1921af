import WindowCast.Bud.Fidelity

/-!
# Delivery

A frame arrives when enough of it does: every block needs as many distinct
shards as it has data fragments.

## Main definitions

* `ShardId`, `shardId` — which shard a packet carries.
* `Covers` — enough shards of every block are among the packets.
* `Pending.Has` — a shard is stored or not needed any more.

## Main results

* `Pending.Genuine.parityStored_lt` — the bound on stored parity never refuses
  a shard that is missing.
* `Pending.not_covered` — a frame that still waits is not covered.
* `delivers_once` — **a covered frame is delivered, exactly once.**
-/

namespace WindowCast.Bud

open WindowCast.Fec

/-- A shard of a frame. -/
inductive ShardId
  | data (i : ℕ)
  | parity (block index : ℕ)
  deriving DecidableEq, Repr

/-- The shard a packet carries. -/
def shardId (packet : Packet) : ShardId :=
  if packet.1.isParity then .parity (Header.field packet.2 0 2) (Header.field packet.2 2 1)
  else .data packet.1.fragment.toNat

/-- Whether it is a shard of the block `block`, which has the fragments in `range`. -/
def ShardId.isOf (range : Range) (block : ℕ) : ShardId → Bool
  | .data i => decide (i ∈ range.indices)
  | .parity b _ => decide (b = block)

/-- For every block at least as many distinct shards are among the packets as
the block has data fragments. -/
def Covers (data : List UInt8) (packets : List Packet) : Prop :=
  ∀ block range, (blocks (fragmentCount data))[block]? = some range →
    range.len ≤ ((packets.map shardId).toFinset.filter fun id => id.isOf range block).card

namespace Pending

/-- The shard is stored, or its fragment was rebuilt. -/
def Has (p : Pending) : ShardId → Prop
  | .data i => p.Filled i
  | .parity b j => ∃ bp s, p.parity.lookup b = some bp ∧ bp.shards[j]? = some (some s)

/-- No block that has enough shards is incomplete. -/
def Saturated (p : Pending) : Prop :=
  ∀ b < blockCount p.slots.length, p.Recoverable b → ∀ i ∈ (part p.slots.length b).indices, p.Filled i

theorem Fills.has {p p' : Pending} (h : Fills p p') {id : ShardId} (hid : p.Has id) : p'.Has id := by
  cases id with
  | data i => exact h.filled hid
  | parity b j =>
    obtain ⟨bp, s, hbp, hs⟩ := hid
    exact ⟨bp, s, by rw [h.parity]; exact hbp, hs⟩

/-- Recovery leaves no block that has enough shards incomplete. -/
theorem Recovers.saturated {q p' : Pending} (hwf : q.WellFormed) (h : Recovers q p') :
    p'.Saturated := by
  intro b hb hrec i hi
  rw [h.fills.length] at hb hi
  by_cases hq : q.Recoverable b
  · exact h.complete b hb hq i hi
  -- the block got enough shards only by a slot that recovery filled
  rcases h.eq with rfl | hrecover
  · exact absurd hrec hq
  by_contra hempty
  apply hq
  obtain ⟨bp, hbp, henough, hsize⟩ := hrec
  rw [h.fills.length] at henough hsize
  refine ⟨bp, by rw [← h.fills.parity]; exact hbp, ?_, hsize⟩
  have hsame : p'.filledIn b = q.filledIn b := by
    unfold filledIn
    rw [h.fills.length]
    refine List.countP_congr fun j hj => ?_
    rw [← filled_iff, ← filled_iff]
    refine ⟨fun hj' => ?_, h.fills.filled⟩
    rcases filled_recover hwf.nonempty hrecover b hb j hj hj' with hold | ⟨-, hall⟩
    · exact hold
    · exact absurd (hall i hi) hempty
  rwa [← hsame]

theorem parse_fields {payload : List UInt8} {pre : Prefix} {shard : Shard}
    (h : parse payload = some (pre, shard)) :
    pre.block = Header.field payload 0 2 ∧ pre.index = Header.field payload 2 1 := by
  unfold parse at h
  split at h
  · cases h
  simp only at h
  split at h
  · cases h
  · cases h
    exact ⟨rfl, rfl⟩

/-- Storing a packet keeps the shards that are there, and adds its own. -/
theorem has_put {p q : Pending} {header : Header} {payload : List UInt8}
    {parsed : Option (Prefix × Shard)} (hparsed : inspect header payload = .admitted parsed)
    (h : p.put header payload parsed = some (.stored q)) :
    q.Has (shardId (header, payload)) ∧ ∀ id, p.Has id → q.Has id := by
  rcases put_stored h with ⟨rfl, hslot, -, rfl⟩ | ⟨pre, shard, rfl, -, -, hempty, rfl⟩
  · obtain ⟨hflag, -⟩ := inspect_data hparsed
    constructor
    · rw [shardId, if_neg (by rw [hflag]; exact Bool.false_ne_true)]
      exact ⟨payload, (holds_set hslot _ _).mpr (.inl ⟨rfl, rfl⟩)⟩
    · rintro (i | ⟨b, j⟩) hid
      · exact hid.imp fun x hx => (holds_set hslot i x).mpr (.inr hx)
      · exact hid
  · obtain ⟨hflag, hparse, -⟩ := inspect_parity hparsed
    obtain ⟨hblock, hindex⟩ := parse_fields hparse
    have hlt := (List.getElem?_eq_some_iff.mp hempty).1
    constructor
    · rw [shardId, if_pos hflag]
      simp only [← hblock, ← hindex]
      refine ⟨_, shard, AList.lookup_insert _, ?_⟩
      rw [List.getElem?_set, if_pos rfl, if_pos hlt]
    · rintro (i | ⟨b, j⟩) hid
      · exact hid
      obtain ⟨bp, s, hbp, hs⟩ := hid
      by_cases hb : b = pre.block
      · subst hb
        refine ⟨_, s, AList.lookup_insert _, ?_⟩
        have hentry : p.entry pre = bp := by
          rw [entry, hbp]
          rfl
        rw [hentry] at hempty ⊢
        rw [List.getElem?_set]
        split
        · rename_i hj
          rw [hj, hs] at hempty
          cases hempty
        · exact hs
      · exact ⟨bp, s, by rw [AList.lookup_insert_ne hb]; exact hbp, hs⟩

/-! ### The bound on stored parity -/

variable {policy : ParityPolicy} {parts : List Packet}

/-- How many parity shards of block `b` are stored. -/
def parityIn (p : Pending) (b : ℕ) : ℕ :=
  ((p.parity.lookup b).map fun bp => bp.shards.countP Option.isSome).getD 0

/-- A block never has more parity shards than its policy asked for. -/
theorem Genuine.parityIn_le {p : Pending} (h : p.Genuine policy parts) (b : ℕ) :
    p.parityIn b ≤ parityCount policy (part parts.length b).len := by
  unfold parityIn
  cases hbp : p.parity.lookup b with
  | none => exact Nat.zero_le _
  | some bp =>
    obtain ⟨parity, hparity, -, hlen, -⟩ := h.block b bp hbp
    rw [← length_parityShards hparity, ← hlen]
    exact List.countP_le_length

/-- A block with a missing parity shard has fewer. -/
theorem Genuine.parityIn_lt {p : Pending} (h : p.Genuine policy parts) {b j : ℕ}
    (hj : j < parityCount policy (part parts.length b).len) (hnot : ¬ p.Has (.parity b j)) :
    p.parityIn b < parityCount policy (part parts.length b).len := by
  refine lt_of_le_of_ne (h.parityIn_le b) fun heq => hnot ?_
  unfold parityIn at heq
  cases hbp : p.parity.lookup b with
  | none =>
    rw [hbp] at heq
    exact absurd hj (by rw [← heq]; exact Nat.not_lt_zero _)
  | some bp =>
    obtain ⟨parity, hparity, -, hlen, -⟩ := h.block b bp hbp
    rw [hbp, ← length_parityShards hparity, ← hlen] at heq
    rw [← length_parityShards hparity, ← hlen] at hj
    -- all shards of the block are there
    have hall := List.countP_eq_length.mp heq
    obtain ⟨s, hs⟩ := Option.isSome_iff_exists.mp (hall _ (List.getElem_mem hj))
    exact ⟨bp, s, hbp, by rw [List.getElem?_eq_getElem hj, hs]⟩

theorem sum_len_parts {n : ℕ} (hn : 0 < n) : ∑ b ∈ Finset.range (blockCount n), (part n b).len = n :=
  EvenSplit.sum_parts (blockCount_pos hn)

/-- **The bound on stored parity never refuses a shard that is missing**, if a
block has no more parity than data. -/
theorem Genuine.parityStored_lt {p : Pending} (h : p.Genuine policy parts) (hwf : p.WellFormed)
    (hpolicy : ∀ k, policy.parityFor k ≤ k) {b j : ℕ} (hb : b < blockCount parts.length)
    (hj : j < parityCount policy (part parts.length b).len) (hnot : ¬ p.Has (.parity b j)) :
    p.parityStored < parts.length := by
  have hle : ∀ b, parityCount policy (part parts.length b).len ≤ (part parts.length b).len :=
    fun b => (Nat.min_le_left _ _).trans (hpolicy _)
  have hkeys : ∀ a ∈ p.parity, a ∈ Finset.range (blockCount parts.length) := by
    intro a ha
    rw [Finset.mem_range, ← h.length]
    exact hwf.block_lt a ha
  have hn : 0 < parts.length := h.length ▸ hwf.nonempty
  rw [hwf.parityStored, KeyedSum.total_eq_sum _ _ _ hkeys]
  calc ∑ a ∈ Finset.range (blockCount parts.length), p.parityIn a
      < ∑ a ∈ Finset.range (blockCount parts.length), (part parts.length a).len :=
        Finset.sum_lt_sum (fun a _ => (h.parityIn_le a).trans (hle a))
          ⟨b, Finset.mem_range.mpr hb, lt_of_lt_of_le (h.parityIn_lt hj hnot) (hle b)⟩
    _ = parts.length := sum_len_parts hn

/-- A packet with nothing new carries a shard that is there. -/
theorem Genuine.has_of_ignored {p : Pending} (h : p.Genuine policy parts) (hwf : p.WellFormed)
    (hpolicy : ∀ k, policy.parityFor k ≤ k) {header : Header} {payload : List UInt8}
    {parsed : Option (Prefix × Shard)} (hfragments : header.fragments.toNat = parts.length)
    (hparsed : inspect header payload = .admitted parsed)
    (hcarries : Carries policy parts header payload parsed)
    (hput : p.put header payload parsed = some .ignored) : p.Has (shardId (header, payload)) := by
  cases hcarries with
  | data hpart =>
    rw [shardId, if_neg (by rw [(inspect_data hparsed).1]; exact Bool.false_ne_true)]
    unfold Pending.put putData at hput
    simp only at hput
    split at hput
    · cases hput
    · rename_i x hx
      exact ⟨x, hx⟩
    · split at hput <;> cases hput
  | parity hparity hshard hcount hlast =>
    rename_i pre shard parity
    obtain ⟨hflag, hparse, hblock⟩ := inspect_parity hparsed
    obtain ⟨hblockEq, hindexEq⟩ := parse_fields hparse
    rw [shardId, if_pos hflag]
    simp only [← hblockEq, ← hindexEq]
    by_contra hnot
    have hn : 0 < parts.length := h.length ▸ hwf.nonempty
    rw [hfragments, length_blocks hn] at hblock
    have hindex : pre.index < parityCount policy (part parts.length pre.block).len := by
      rw [← length_parityShards hparity, ← hcount]
      exact pre.index_lt
    have hlt := h.parityStored_lt hwf hpolicy hblock hindex hnot
    unfold Pending.put putParity at hput
    simp only at hput
    split at hput
    · rename_i hfull
      rw [hfragments] at hfull
      omega
    split at hput
    · cases hput
    split at hput
    · cases hput
    · rename_i x hx
      obtain ⟨bp, hbp, -⟩ := entry_eq (List.mem_of_getElem? hx)
      unfold Has at hnot
      rw [hbp] at hx
      exact hnot ⟨bp, x, hbp, hx⟩
    · cases hput

/-! ### A covered frame is complete -/

theorem countP_range {α : Type} (l : List (Option α)) :
    ((List.range l.length).countP fun j => (l[j]?.join).isSome) = l.countP Option.isSome := by
  have hmap : l = (List.range l.length).map fun j => l[j]?.join := by
    refine List.ext_getElem (by simp) fun j hj _ => ?_
    simp [List.getElem?_eq_getElem hj]
  conv_rhs => rw [hmap, List.countP_map]
  rfl

/-- The distinct shards of a block that are there are no more than the
fragments and parity shards counted. -/
theorem card_le_of_has {p : Pending} {n : ℕ} (hn : p.slots.length = n) {b : ℕ}
    {ids : Finset ShardId} (hids : ∀ id ∈ ids, p.Has id ∧ id.isOf (part n b) b = true) :
    ids.card ≤ p.filledIn b + p.parityIn b := by
  let fragments := (part n b).indices.filter fun i => (p.slots[i]?.join).isSome
  let shards := (p.parity.lookup b).elim [] fun bp =>
    (List.range bp.shards.length).filter fun j => (bp.shards[j]?.join).isSome
  have hsub : ids ⊆ fragments.toFinset.image ShardId.data
      ∪ shards.toFinset.image (ShardId.parity b) := by
    intro id hid
    obtain ⟨hhas, hof⟩ := hids id hid
    rw [Finset.mem_union, Finset.mem_image, Finset.mem_image]
    cases id with
    | data i =>
      refine .inl ⟨i, List.mem_toFinset.mpr (List.mem_filter.mpr ⟨?_, ?_⟩), rfl⟩
      · exact of_decide_eq_true hof
      · exact filled_iff.mp hhas
    | parity b' j =>
      obtain rfl : b' = b := of_decide_eq_true hof
      obtain ⟨bp, s, hbp, hs⟩ := hhas
      refine .inr ⟨j, List.mem_toFinset.mpr ?_, rfl⟩
      simp only [shards, hbp, Option.elim_some, List.mem_filter, List.mem_range, hs]
      exact ⟨(List.getElem?_eq_some_iff.mp hs).1, rfl⟩
  have hfragments : fragments.length = p.filledIn b := by
    rw [filledIn, hn, List.countP_eq_length_filter]
  have hshards : shards.length = p.parityIn b := by
    unfold parityIn
    cases hbp : p.parity.lookup b with
    | none => simp [shards, hbp]
    | some bp =>
      simp only [shards, hbp, Option.elim_some, Option.map_some, Option.getD_some]
      rw [← List.countP_eq_length_filter, countP_range]
  calc ids.card ≤ _ := Finset.card_le_card hsub
    _ ≤ _ := Finset.card_union_le _ _
    _ ≤ fragments.length + shards.length := Nat.add_le_add
        (Finset.card_image_le.trans (List.toFinset_card_le _))
        (Finset.card_image_le.trans (List.toFinset_card_le _))
    _ = p.filledIn b + p.parityIn b := by rw [hfragments, hshards]

/-- A block with enough shards is complete, if recovery left nothing to do. -/
theorem Genuine.filled_of_enough {p : Pending} (h : p.Genuine policy parts) (hsat : p.Saturated)
    {b : ℕ} (hb : b < blockCount parts.length)
    (henough : (part parts.length b).len ≤ p.filledIn b + p.parityIn b) :
    ∀ i ∈ (part parts.length b).indices, p.Filled i := by
  cases hbp : p.parity.lookup b with
  | none =>
    -- all that is there is data
    have hall : (part parts.length b).indices.length ≤ p.filledIn b := by
      rw [parityIn, hbp] at henough
      rw [Range.length_indices]
      exact henough
    intro i hi
    rw [filledIn, h.length] at hall
    exact filled_iff.mpr (List.countP_eq_length.mp (Nat.le_antisymm List.countP_le_length hall) i hi)
  | some bp =>
    rw [← h.length] at hb ⊢
    refine hsat b hb ⟨bp, hbp, ?_, ?_⟩
    · rw [parityIn, hbp] at henough
      rw [h.length]
      exact henough
    · obtain ⟨parity, hparity, -, hlen, -⟩ := h.block b bp hbp
      rw [hlen, length_parityShards hparity, h.length, parityCount]
      have := len_part_le parts.length b
      unfold MAX_BLOCK_DATA at this
      omega

/-- **A frame that still waits is not covered** by the packets whose shards it has. -/
theorem Genuine.not_covered {p : Pending} (h : p.Genuine policy parts) (hwf : p.WellFormed)
    (hsat : p.Saturated) (hmissing : p.received < p.slots.length) {data : List UInt8}
    (hlen : parts.length = fragmentCount data) {packets : List Packet}
    (hhas : ∀ packet ∈ packets, p.Has (shardId packet)) : ¬ Covers data packets := by
  intro hcovers
  have hn : 0 < parts.length := h.length ▸ hwf.nonempty
  have hfilled : ∀ i < parts.length, p.Filled i := by
    intro i hi
    obtain ⟨b, hb, hmem⟩ := exists_part hi
    refine h.filled_of_enough hsat hb ?_ i hmem
    have hcover := hcovers b (part parts.length b) (by
      rw [← hlen, getElem?_blocks hn]
      exact ⟨hb, rfl⟩)
    refine hcover.trans (card_le_of_has h.length fun id hid => ?_)
    obtain ⟨hid, hof⟩ := Finset.mem_filter.mp hid
    obtain ⟨packet, hpacket, rfl⟩ := List.mem_map.mp (List.mem_toFinset.mp hid)
    exact ⟨hhas packet hpacket, hof⟩
  have hcomplete : p.slots.length ≤ p.received := by
    rw [hwf.complete_iff, h.length]
    exact hfilled
  exact absurd hmissing (Nat.not_lt.mpr hcomplete)

theorem put_of_add_ignored {p : Pending} {header : Header} {payload : List UInt8}
    {parsed : Option (Prefix × Shard)} (h : p.add header payload parsed = some .ignored) :
    p.put header payload parsed = some .ignored := by
  unfold add at h
  split at h
  · cases h
  · assumption
  · cases h
  · split at h
    · cases h
    · split at h <;> cases h

end Pending

/-! ### Runs with the packets of one frame -/

/-- One frame and no other is sent. -/
def only (stream : UInt16) (frame : UInt32) (f : SentFrame) : Sent :=
  fun s n => if s = stream ∧ n = frame then some f else none

theorem spans_only (stream : UInt16) (frame : UInt32) (f : SentFrame) : Spans (only stream frame f) := by
  intro s
  refine ⟨frame, fun n hn => ?_⟩
  unfold only at hn
  split at hn
  · rename_i h
    rw [h.2, UInt32.sub_self]
    decide
  · exact absurd rfl hn

namespace History

/-- How far the frame got after the packets `seen`. -/
inductive Progress (stream : UInt16) (frame : UInt32) (f : SentFrame) (seen : List Packet)
    (h : History) : Prop
  | fresh (hseen : seen = []) (hst : h.reassembler.streams stream = StreamState.new)
      (hframes : h.frames = [])
  | waiting {p : Pending} (hst : h.reassembler.streams stream = ⟨none, [p]⟩)
      (hsent : p.sentUs = f.sentUs) (hsat : p.Saturated)
      (hhas : ∀ packet ∈ seen, p.Has (shardId packet)) (hframes : h.frames = [])
  | done (hlast : (h.reassembler.streams stream).lastDelivered = some frame)
      (hframes : h.frames = [⟨stream, frame, f.sentUs, f.data⟩])

variable {stream : UInt16} {frame : UInt32} {f : SentFrame} {seen : List Packet} {h : History}

/-- The only entry there can be is one for the frame, and it has what was seen. -/
theorem Progress.located (hf : h.Faithful (only stream frame f))
    (hprogress : Progress stream frame f seen h) (hlate : (h.reassembler.streams stream).late frame = false)
    {header : Header} (hframe : header.frame = frame) (hsentUs : header.sentUs = f.sentUs)
    {before after : List Pending} {p : Pending} {dropped : ℕ}
    (hloc : Reassembler.Located (h.reassembler.streams stream).pending header before p after dropped) :
    (h.reassembler.streams stream).lastDelivered = none ∧ before = [] ∧ after = [] ∧
      p.sentUs = f.sentUs ∧ p.Saturated ∧ (∀ packet ∈ seen, p.Has (shardId packet)) ∧
      h.frames = [] := by
  cases hprogress with
  | fresh hseen hst hframes =>
    rw [hst] at hloc ⊢
    cases hloc with
    | found hsplit => exact absurd hsplit.symm (by simp [StreamState.new])
    | created hnone hsize hroom =>
      have hsat : (Pending.new header).Saturated := by
        rintro b - ⟨bp, hbp, -⟩
        simp [Pending.new] at hbp
      cases hroom with
      | free => exact ⟨rfl, rfl, rfl, hsentUs, hsat, by simp [hseen], hframes⟩
      | evicted hfull => exact absurd hfull (by decide)
  | waiting hst hsent hsat hhas hframes =>
    rename_i q
    obtain ⟨f', parts, hq, -⟩ := hf.genuine stream q (by rw [hst]; exact List.mem_singleton_self q)
    have hqframe : q.frame = frame := by
      unfold only at hq
      split at hq
      · rename_i heq
        exact heq.2
      · cases hq
    rw [hst] at hloc ⊢
    cases hloc with
    | found hsplit =>
      rw [List.singleton_eq_append_iff] at hsplit
      rcases hsplit with ⟨rfl, hrest⟩ | ⟨-, hrest⟩
      · obtain ⟨rfl, rfl⟩ := List.cons.inj hrest
        exact ⟨rfl, rfl, rfl, hsent, hsat, hhas, hframes⟩
      · cases hrest
    | created hnone =>
      exact absurd (hqframe.trans hframe.symm) (hnone q (List.mem_singleton_self q))
  | done hlast =>
    have hnewer := StreamState.not_late hlate frame hlast
    rw [newer_iff] at hnewer
    exact absurd hnewer (SerialNumber.not_later_self _)

/-- **A packet of the frame brings it on**: it is stored, or was there before,
or completes the frame. -/
theorem Progress.step (hf : h.Faithful (only stream frame f))
    (hpolicy : ∀ k, f.policy.parityFor k ≤ k) (hprogress : Progress stream frame f seen h)
    {header : Header} {payload : List UInt8}
    (hpacket : IsPacket f.policy stream frame f.sentUs f.data header payload) {h' : History}
    (hstep : h.step (.push header payload) = some h') :
    Progress stream frame f (seen ++ [(header, payload)]) h' := by
  have hcomes : Comes (only stream frame f) (.push header payload) :=
    ⟨stream, frame, f, by simp [only], hpacket⟩
  obtain ⟨packets, hpackets, -⟩ := id hpacket
  obtain ⟨parts, -, hcut, -⟩ := fragmentWithParity_spec stream frame f.sentUs f.policy
    (length_le_of_sent hpackets)
  obtain ⟨rfl, rfl, hsentUs, hfragments, hpos, parsed, hparsed, hcarries⟩ := hcut.carries hpacket
  have hsized := hcut.sized
  simp only [History.step] at hstep
  split at hstep
  · cases hstep
  rename_i out r hpush
  cases hstep
  have hok : ∃ frame, out = .ok frame := by
    cases genuine_exit hf.inv (hf.genuine header.stream) hcomes hpush with
    | unchanged => exact ⟨_, rfl⟩
    | waits => exact ⟨_, rfl⟩
    | delivered => exact ⟨_, rfl⟩
  obtain ⟨delivered, rfl⟩ := hok
  have hsent : only header.stream header.frame f header.stream header.frame = some f := by simp [only]
  -- the entry of the frame, if the packet gets that far
  have hentry : ∀ {before after : List Pending} {p : Pending} {dropped : ℕ},
      (h.reassembler.streams header.stream).late header.frame = false →
      Reassembler.Located (h.reassembler.streams header.stream).pending header before p after dropped →
      p.WellFormed ∧ p.slots.length = header.fragments.toNat ∧ p.frame = header.frame ∧
        p.Genuine f.policy parts := by
    intro before after p dropped hlate hloc
    obtain ⟨hinv, hframe, hslots⟩ := (hf.inv header.stream).located hpos hlate hloc
    have hmem : p ∈ before ++ p :: after := List.mem_append_right _ List.mem_cons_self
    have hgenuine := StreamState.located_forall (hf.genuine header.stream)
      ⟨f, parts, hsent, hcut, Pending.genuine_new hfragments⟩ hloc p hmem
    exact ⟨hinv.wellFormed p hmem, hslots, hframe, hgenuine.of_frame hsent hcut hframe⟩
  have hstreams : ∀ st d r', (h.reassembler.update header.stream st d r').streams header.stream = st :=
    fun st d r' => by rw [Reassembler.streams_update, if_pos rfl]
  cases Reassembler.push_exit hpush with
  | ignored hignored =>
    rw [hparsed] at hignored
    cases hignored
  | late hlate =>
    have hframes : frames ⟨h.reassembler, h.created + (h.reassembler.creates header payload).toNat,
        h.returned ++ [.ok none]⟩ = h.frames := by
      rw [frames_append, Reassembler.delivery, Option.toList_none, List.append_nil, frames]
    cases hprogress with
    | fresh hseen hst =>
      rw [hst] at hlate
      cases hlate
    | waiting hst =>
      rw [hst] at hlate
      cases hlate
    | done hlast hdone => exact .done hlast (hframes.trans hdone)
  | nothingNew hparsed' hlate hloc hadd =>
    rw [hparsed] at hparsed'
    cases hparsed'
    obtain ⟨hwf, hslots, hframe, hgenuine⟩ := hentry hlate hloc
    obtain ⟨hlast, rfl, rfl, hpsent, hsat, hhas, hframes⟩ := hprogress.located hf hlate rfl hsentUs hloc
    have hnew := hgenuine.has_of_ignored hwf hpolicy hfragments hparsed hcarries
      (Pending.put_of_add_ignored hadd)
    refine .waiting ((hstreams _ _ _).trans (by rw [hlast]; rfl)) hpsent hsat (fun packet hmem => ?_) ?_
    · rcases List.mem_append.mp hmem with hmem | hmem
      · exact hhas packet hmem
      · rw [List.mem_singleton.mp hmem]
        exact hnew
    · rw [frames_append, Reassembler.delivery, Option.toList_none, List.append_nil]
      exact hframes
  | kept hparsed' hlate hloc hadd hmissing =>
    rw [hparsed] at hparsed'
    cases hparsed'
    obtain ⟨hwf, hslots, hframe, hgenuine⟩ := hentry hlate hloc
    obtain ⟨hlast, rfl, rfl, hpsent, hsat, hhas, hframes⟩ := hprogress.located hf hlate rfl hsentUs hloc
    obtain ⟨q, hput, hqwf, hrec, -⟩ := Pending.add_stored hwf hslots hparsed hadd
    obtain ⟨hnew, hold⟩ := Pending.has_put hparsed hput
    refine .waiting ((hstreams _ _ _).trans (by rw [hlast]; rfl))
      (hrec.fills.sentUs.trans ((Pending.frame_put hput).2.1.trans hpsent)) (hrec.saturated hqwf)
      (fun packet hmem => ?_) ?_
    · rcases List.mem_append.mp hmem with hmem | hmem
      · exact hrec.fills.has (hold _ (hhas packet hmem))
      · rw [List.mem_singleton.mp hmem]
        exact hrec.fills.has hnew
    · rw [frames_append, Reassembler.delivery, Option.toList_none, List.append_nil]
      exact hframes
  | delivered hparsed' hlate hloc hadd hcomplete =>
    rw [hparsed] at hparsed'
    cases hparsed'
    obtain ⟨hwf, hslots, hframe, hgenuine⟩ := hentry hlate hloc
    obtain ⟨hlast, rfl, rfl, hpsent, hsat, hhas, hframes⟩ := hprogress.located hf hlate rfl hsentUs hloc
    obtain ⟨q, hput, hqwf, hrec, -⟩ := Pending.add_stored hwf hslots hparsed hadd
    have hp' := hgenuine.add hsized hwf hslots hparsed hcarries hadd
    have hframe' := hrec.fills.frame.trans ((Pending.frame_put hput).1.trans hframe)
    refine .done ?_ ?_
    · rw [hstreams, hframe']
    · unfold frames at hframes
      rw [frames_append, Reassembler.delivery, Option.toList_some, hframes, List.nil_append, hframe',
        hrec.fills.sentUs, (Pending.frame_put hput).2.1, hpsent, hp'.data_eq hrec.wellFormed hcomplete,
        hcut.flatten_payloads]

/-- The packets of one frame bring it on, one after the other. -/
theorem progress_run {stream : UInt16} {frame : UInt32} {f : SentFrame}
    (hpolicy : ∀ k, f.policy.parityFor k ≤ k) : ∀ (packets seen : List Packet) (h : History),
      h.Faithful (only stream frame f) → Progress stream frame f seen h →
      (∀ packet ∈ packets, IsPacket f.policy stream frame f.sentUs f.data packet.1 packet.2) →
      ∃ h', (packets.map fun packet => Event.push packet.1 packet.2).foldlM step h = some h' ∧
        h'.Faithful (only stream frame f) ∧ Progress stream frame f (seen ++ packets) h' := by
  intro packets
  induction packets with
  | nil =>
    intro seen h hf hprogress _
    exact ⟨h, rfl, hf, by rw [List.append_nil]; exact hprogress⟩
  | cons packet packets ih =>
    intro seen h hf hprogress hpackets
    have hpacket := hpackets packet List.mem_cons_self
    obtain ⟨h₁, hstep, hf₁⟩ := hf.step (spans_only stream frame f) (.push packet.1 packet.2)
      ⟨stream, frame, f, by simp [only], hpacket⟩
    obtain ⟨h', hrun, hf', hprogress'⟩ := ih _ h₁ hf₁ (hprogress.step hf hpolicy hpacket hstep)
      fun packet' hmem => hpackets packet' (List.mem_cons_of_mem _ hmem)
    refine ⟨h', Run.cons.mpr ⟨h₁, hstep, hrun⟩, hf', ?_⟩
    rwa [List.append_assoc] at hprogress'

end History

/-- **A covered frame is delivered, exactly once.**  A frame of at most
`MAX_FRAME` bytes can be sent under every policy; and whatever packets of it
arrive, in any order and any number of times, if they cover every block then a
fresh reassembler delivers that frame and nothing else. -/
theorem delivers_once (stream : UInt16) (frame sentUs : UInt32) (data : List UInt8)
    (policy : ParityPolicy) (hlen : data.length ≤ MAX_FRAME)
    (hpolicy : ∀ k, policy.parityFor k ≤ k) :
    ∃ out, fragmentWithParity stream frame sentUs data policy = some (.ok out) ∧
      ∀ packets : List Packet, (∀ packet ∈ packets, packet ∈ out) → Covers data packets →
        ∃ h, History.run (packets.map fun packet => .push packet.1 packet.2) = some h ∧
          h.frames = [⟨stream, frame, sentUs, data⟩] := by
  obtain ⟨parts, out, hcut, hout, hspec⟩ :=
    fragmentWithParity_spec stream frame sentUs policy hlen
  refine ⟨out, hout, fun packets hpackets hcovers => ?_⟩
  let f : SentFrame := ⟨sentUs, data, policy⟩
  have hisPacket : ∀ packet ∈ packets,
      IsPacket f.policy stream frame f.sentUs f.data packet.1 packet.2 := by
    intro packet hmem
    -- a sender leaves the packet number 0
    have hzero : { packet.1 with packet := 0 } = packet.1 := by
      rcases hspec packet (hpackets packet hmem) with ⟨i, -, rfl⟩ | ⟨block, index, hparity⟩
      · rfl
      · obtain ⟨fragment, hheader⟩ := hparity.header
        rw [hheader]
    exact ⟨out, hout, by rw [hzero]; exact hpackets packet hmem⟩
  obtain ⟨h, hrun, hf, hprogress⟩ := History.progress_run hpolicy packets [] History.new
    (History.faithful_new (only stream frame f)) (.fresh rfl rfl rfl) hisPacket
  refine ⟨h, hrun, ?_⟩
  rw [List.nil_append] at hprogress
  cases hprogress with
  | fresh hseen =>
    have hn := fragmentCount_pos data
    have hnone := hcovers 0 (part (fragmentCount data) 0)
      ((getElem?_blocks hn).mpr ⟨blockCount_pos hn, rfl⟩)
    rw [hseen] at hnone
    exact absurd hnone (Nat.not_le_of_lt (len_part_pos hn 0))
  | waiting hst hsent hsat hhas hwaiting =>
    rename_i p
    have hmem : p ∈ (h.reassembler.streams stream).pending := by
      rw [hst]
      exact List.mem_singleton_self p
    obtain ⟨f', parts', hf', hcut', hgenuine⟩ := hf.genuine stream p hmem
    unfold only at hf'
    split at hf'
    · cases hf'
      exact absurd hcovers (hgenuine.not_covered ((hf.inv stream).wellFormed p hmem) hsat
        ((hf.inv stream).incomplete p hmem) hcut'.length_parts hhas)
    · cases hf'
  | done hlast hframes => exact hframes

/-- A frame of two bytes is one packet, which arrives twice. -/
theorem delivers_once_duplicate :
    ∃ h, History.run [.push ⟨0, 1, 0, 0, 1, 0, 500⟩ [7, 8], .push ⟨0, 1, 0, 0, 1, 0, 500⟩ [7, 8]]
      = some h ∧ h.frames = [⟨1, 0, 500, [7, 8]⟩] := by
  obtain ⟨out, hout, hall⟩ := delivers_once 1 0 500 [7, 8] NoParity (by decide) fun k => Nat.zero_le k
  have hsent : fragmentWithParity 1 0 500 [7, 8] NoParity
      = some (.ok [(⟨0, 1, 0, 0, 1, 0, 500⟩, [7, 8])]) := by rfl
  rw [hsent] at hout
  cases hout
  let packet : Packet := (⟨0, 1, 0, 0, 1, 0, 500⟩, [7, 8])
  refine hall [packet, packet] (by simp [packet]) fun block range hrange => ?_
  obtain ⟨hblock, rfl⟩ := (getElem?_blocks (by decide)).mp hrange
  obtain rfl : block = 0 := Nat.lt_one_iff.mp hblock
  decide

end WindowCast.Bud
