import WindowCast.Bud.Reassembly
import WindowCast.Bud.Sent

/-!
# Waiting for a frame that was sent

A waiting frame that got only packets of one sent frame holds fragments and
shards of that frame, and what recovery rebuilds are fragments of it too.

## Main definitions

* `Pending.Genuine` — what is stored is what was sent.

## Main results

* `Pending.Genuine.recover` — recovery rebuilds what was sent.
* `Pending.Genuine.put` — a packet of the frame is never refused.
* `Pending.Genuine.data_eq` — a complete frame is the frame that was sent.
-/

namespace WindowCast.Bud

open WindowCast.Fec

namespace Pending

/-- What is stored is what was sent: `parts` are the data packets of the frame. -/
structure Genuine (policy : ParityPolicy) (parts : List Packet) (p : Pending) : Prop where
  length : p.slots.length = parts.length
  slot : ∀ (i : ℕ) (x : List UInt8), p.Holds i x → parts[i]?.map (fun part => part.2) = some x
  block : ∀ b bp, p.parity.lookup b = some bp → ∃ parity,
    parityShards policy parts (part parts.length b) = some parity ∧ 0 < parity.length ∧
    bp.shards.length = parity.length ∧
    ∀ (j : ℕ) (s : Shard), bp.shards[j]? = some (some s) → parity[j]? = some s
  lastLen : ∀ l, p.lastLen = some l → l = lastLength parts

variable {policy : ParityPolicy} {parts : List Packet}

/-- A part of a list, index by index. -/
theorem getElem?_slice {α : Type} (l : List α) (range : Range) {offset : ℕ}
    (h : offset < range.len) : ((l.drop range.start).take range.len)[offset]?
      = l[range.start + offset]? := by
  rw [List.getElem?_take, if_pos h, List.getElem?_drop]

theorem getElem?_indices {range : Range} {offset i : ℕ} (h : range.indices[offset]? = some i) :
    offset < range.len ∧ i = range.start + offset := by
  obtain ⟨hlt, rfl⟩ := List.getElem?_eq_some_iff.mp h
  rw [Range.length_indices] at hlt
  refine ⟨hlt, ?_⟩
  simp [Range.indices]

/-- The fragments of a block that are there, padded, are shards of the block. -/
theorem Genuine.padded {p : Pending} (h : p.Genuine policy parts) {range : Range} {j : ℕ} {s : Shard}
    (hs : (p.padded range)[j]? = some (some s)) : (shardsOf parts range)[j]? = some s := by
  unfold Pending.padded at hs
  rw [List.map_map, List.getElem?_map, Option.map_eq_some_iff] at hs
  obtain ⟨i, hi, hs⟩ := hs
  obtain ⟨x, hx, rfl⟩ := Option.map_eq_some_iff.mp hs
  obtain ⟨hj, rfl⟩ := getElem?_indices hi
  have hholds : p.Holds (range.start + j) x := by
    rwa [Option.join_eq_some_iff] at hx
  have hpart := h.slot _ x hholds
  rw [shardsOf, List.getElem?_map, getElem?_slice _ _ hj]
  cases hget : parts[range.start + j]? with
  | none =>
    rw [hget] at hpart
    cases hpart
  | some part =>
    rw [hget] at hpart
    rw [← Option.some.inj hpart]
    rfl

/-- **Recovery of a block rebuilds what was sent.** -/
theorem Genuine.recover_shards {p : Pending} (h : p.Genuine policy parts) {b : ℕ} {bp : BlockParity}
    {code : Code} {data : List Shard} (hbp : p.parity.lookup b = some bp)
    (hcode : Code.cauchy (part parts.length b).len bp.shards.length = .ok code)
    (hdata : code.recover (p.padded (part parts.length b) ++ bp.shards) = some data) :
    data = shardsOf parts (part parts.length b) := by
  obtain ⟨parity, hparity, hpos, hlen, hshards⟩ := h.block b bp hbp
  obtain ⟨shard, hshard⟩ := List.exists_mem_of_length_pos hpos
  obtain ⟨code', hcode', hencode⟩ := parityShards_eq_some hparity hshard
  rw [hlen, length_parityShards hparity, hcode'] at hcode
  cases hcode
  obtain ⟨size, henc⟩ := Code.encodes_of_encode hencode
  refine Code.recover_sound henc ⟨?_, ?_⟩ hdata
  · rw [List.length_append, List.length_append, hlen, henc.length_data, Pending.padded,
      List.length_map, List.length_map, Range.length_indices,
      (Code.isCauchy_of_cauchy hcode').2.1]
  · have hpad : (p.padded (part parts.length b)).length
        = (shardsOf parts (part parts.length b)).length := by
      rw [henc.length_data, Pending.padded, List.length_map, List.length_map, Range.length_indices,
        (Code.isCauchy_of_cauchy hcode').2.1]
    intro j s hs
    rcases Nat.lt_or_ge j (p.padded (part parts.length b)).length with hj | hj
    · rw [List.getElem?_append_left hj] at hs
      rw [List.getElem?_append_left (hpad ▸ hj)]
      exact h.padded hs
    · rw [List.getElem?_append_right hj] at hs
      rw [List.getElem?_append_right (hpad ▸ hj), ← hpad]
      exact hshards _ s hs

/-- The sizes of the data packets of a frame. -/
structure Sized (parts : List Packet) : Prop where
  nonempty : 0 < parts.length
  le : ∀ part ∈ parts, part.2.length ≤ FRAGMENT_SIZE
  eq : ∀ i part, parts[i]? = some part → i + 1 < parts.length → part.2.length = FRAGMENT_SIZE

/-- A shard of the block, cut to the length of its fragment, is the fragment. -/
theorem take_shard (hsized : Sized parts) {range : Range} {offset : ℕ} {shard : Shard}
    (hoffset : offset < range.len) (hshard : (shardsOf parts range)[offset]? = some shard) :
    parts[range.start + offset]?.map (fun part => part.2)
      = some (shard.take (if range.start + offset = parts.length - 1 then lastLength parts
          else FRAGMENT_SIZE)) := by
  rw [shardsOf, List.getElem?_map, getElem?_slice _ _ hoffset] at hshard
  obtain ⟨part, hpart, rfl⟩ := Option.map_eq_some_iff.mp hshard
  have hlt := (List.getElem?_eq_some_iff.mp hpart).1
  rw [hpart, Option.map_some]
  congr 1
  split
  · rename_i hlast
    have hlastLength : lastLength parts = part.2.length := by
      rw [lastLength, List.getLast?_eq_getElem?, ← hlast, hpart]
      rfl
    rw [hlastLength, take_resize (hsized.le part (List.mem_of_getElem? hpart))]
  · rename_i hlast
    have hsize := hsized.eq _ part hpart (by omega)
    rw [← hsize, take_resize (Nat.le_refl _)]

/-- Filling one slot with what was sent. -/
theorem Genuine.fill (hsized : Sized parts) {p p' : Pending} (h : p.Genuine policy parts)
    {range : Range} {target : ℕ × ℕ} (htarget : target ∈ range.indices.zipIdx)
    (hfill : Pending.fill parts.length (lastLength parts) (shardsOf parts range) p target = some p') :
    p'.Genuine policy parts := by
  rcases fill_cases hfill with ⟨rfl, -⟩ | ⟨shard, x, hnone, hshard, hx, rfl⟩
  · exact h
  obtain ⟨i, offset⟩ := target
  obtain ⟨hoffset, hi⟩ := getElem?_indices (List.mem_zipIdx_iff_getElem?.mp htarget)
  simp only at hi hnone hshard hx ⊢
  subst hi
  refine ⟨List.length_set.trans h.length, fun j y hj => ?_, h.block, h.lastLen⟩
  rcases (holds_set hnone j y).mp hj with ⟨rfl, rfl⟩ | hj
  · rw [hx]
    exact take_shard hsized hoffset hshard
  · exact h.slot j y hj

/-- One turn of the loop of `recover` rebuilds what was sent. -/
theorem Genuine.recoverBlock (hsized : Sized parts) {p p' : Pending} (h : p.Genuine policy parts)
    {b : ℕ} (hb : b < blockCount parts.length)
    (hrec : Pending.recoverBlock parts.length (lastLength parts) p (part parts.length b, b) = some p') :
    p'.Genuine policy parts := by
  rcases recoverBlock_cases h.length hb hrec with rfl | ⟨bp, code, data, hbp, -, hcode, hdata, hfill⟩
  · exact h
  obtain rfl := h.recover_shards hbp hcode hdata
  exact Run.invariant (A := fun target => target ∈ (part parts.length b).indices.zipIdx)
    (fun q target q' hq htarget hstep => hq.fill hsized htarget hstep) _ p p' h
    (fun target htarget => htarget) hfill

/-- **Recovery rebuilds what was sent.** -/
theorem Genuine.recover (hsized : Sized parts) {p p' : Pending} (h : p.Genuine policy parts)
    (hrec : p.recover = some p') : p'.Genuine policy parts := by
  unfold Pending.recover at hrec
  simp only at hrec
  split at hrec
  · cases hrec
    exact h
  rename_i lastLen hlast
  obtain rfl := h.lastLen lastLen hlast
  rw [h.length] at hrec
  refine Run.invariant (A := fun target => target ∈ (blocks parts.length).zipIdx) ?_ _ p p' h
    (fun target htarget => htarget) hrec
  rintro q ⟨range, b⟩ q' hq htarget hstep
  obtain ⟨hb, hrange⟩ := (mem_zipIdx_blocks hsized.nonempty).mp htarget
  obtain rfl : range = part parts.length b := hrange
  exact hq.recoverBlock hsized hb hstep

/-! ### Packets of the frame -/

/-- What a packet carries, as `inspect` admits it: a data fragment or a parity
shard of the frame. -/
inductive Carries (policy : ParityPolicy) (parts : List Packet) (header : Header)
    (payload : List UInt8) : Option (Prefix × Shard) → Prop
  | data (h : parts[header.fragment.toNat]?.map (fun part => part.2) = some payload) :
      Carries policy parts header payload none
  | parity {pre : Prefix} {shard : Shard} {parity : List Shard}
      (hparity : parityShards policy parts (part parts.length pre.block) = some parity)
      (hshard : parity[pre.index]? = some shard) (hcount : pre.count = parity.length)
      (hlast : pre.lastLen = lastLength parts) :
      Carries policy parts header payload (some (pre, shard))

/-- Slots that hold only fragments of a frame hold no more bytes than it has. -/
theorem bytes_le {slots : List (Option (List UInt8))} {parts : List Packet}
    (hlen : slots.length = parts.length)
    (hslots : ∀ (i : ℕ) (x : List UInt8), slots[i]? = some (some x) →
      parts[i]?.map (fun part => part.2) = some x) :
    slots.reduceOption.flatten.length ≤ (parts.map fun part => part.2).flatten.length := by
  induction slots generalizing parts with
  | nil => exact Nat.zero_le _
  | cons slot slots ih =>
    cases parts with
    | nil => cases hlen
    | cons part parts =>
      have hrest := ih (Nat.succ.inj hlen) fun i x hx => hslots (i + 1) x hx
      cases slot with
      | none =>
        rw [List.reduceOption_cons_of_none, List.map_cons, List.flatten_cons, List.length_append]
        omega
      | some x =>
        have hx : part.2 = x := Option.some.inj (hslots 0 x rfl)
        rw [List.reduceOption_cons_of_some, List.map_cons, List.flatten_cons, List.flatten_cons,
          List.length_append, List.length_append, hx]
        omega

/-- **A packet of the frame is never refused.** -/
theorem Genuine.put_ne_refused {p : Pending} (h : p.Genuine policy parts) (hwf : p.WellFormed)
    (hbytes : (parts.map fun part => part.2).flatten.length ≤ MAX_FRAME) {header : Header}
    {payload : List UInt8} {parsed : Option (Prefix × Shard)}
    (hcarries : Carries policy parts header payload parsed) (e : ReassembleError) :
    p.put header payload parsed ≠ some (.refused e) := by
  intro hput
  cases hcarries with
  | data hpart =>
    unfold put putData at hput
    simp only at hput
    split at hput
    · cases hput
    · cases hput
    rename_i hslot
    split at hput
    rotate_left
    · cases hput
    rename_i hlarge
    -- with this fragment the slots would still hold only fragments of the frame
    have hslots : ∀ (i : ℕ) (x : List UInt8),
        (p.slots.set header.fragment.toNat (some payload))[i]? = some (some x) →
          parts[i]?.map (fun part => part.2) = some x := by
      intro i x hx
      rcases (holds_set hslot i x).mp hx with ⟨rfl, rfl⟩ | hx
      · exact hpart
      · exact h.slot i x hx
    have hle := bytes_le (List.length_set.trans h.length) hslots
    rw [bytes_set hslot, ← hwf.bytes] at hle
    omega
  | parity hparity hshard hcount hlast =>
    rename_i pre shard parity
    unfold put putParity at hput
    simp only at hput
    split at hput
    · cases hput
    split at hput
    · rename_i hdisagree
      apply hdisagree
      rw [hcount]
      cases hbp : p.parity.lookup pre.block with
      | none => simp
      | some bp =>
        obtain ⟨parity', hparity', -, hlen, -⟩ := h.block _ bp hbp
        rw [hparity] at hparity'
        cases hparity'
        exact hlen
    split at hput
    · cases hput
    · cases hput
    · cases hput

/-- **What is stored of a packet of the frame is what was sent.** -/
theorem Genuine.put {p q : Pending} (h : p.Genuine policy parts) {header : Header}
    {payload : List UInt8} {parsed : Option (Prefix × Shard)}
    (hcarries : Carries policy parts header payload parsed)
    (hput : p.put header payload parsed = some (.stored q)) : q.Genuine policy parts := by
  cases hcarries with
  | data hpart =>
    rcases put_stored hput with ⟨-, hslot, -, rfl⟩ | ⟨pre, shard, hparsed, -⟩
    rotate_left
    · cases hparsed
    refine ⟨List.length_set.trans h.length, fun i x hx => ?_, h.block, h.lastLen⟩
    rcases (holds_set hslot i x).mp hx with ⟨rfl, rfl⟩ | hx
    · exact hpart
    · exact h.slot i x hx
  | parity hparity hshard hcount hlast =>
    rename_i pre shard parity
    rcases put_stored hput with ⟨hparsed, -⟩ | ⟨pre', shard', hparsed, -, hlen, hempty, rfl⟩
    · cases hparsed
    obtain ⟨rfl, rfl⟩ := Prod.mk.inj (Option.some.inj hparsed)
    refine ⟨h.length, h.slot, fun b bp hbp => ?_, fun l hl => ?_⟩
    rotate_left
    · cases hl
      exact hlast
    simp only at hbp
    by_cases hb : b = pre.block
    · subst hb
      rw [AList.lookup_insert] at hbp
      cases hbp
      refine ⟨parity, hparity, ?_, ?_, fun j s hs => ?_⟩
      · exact (List.getElem?_eq_some_iff.mp hshard).1.pos
      · rw [List.length_set, hlen, hcount]
      · rw [List.getElem?_set] at hs
        split at hs
        · rename_i hj
          subst hj
          split at hs
          · cases hs
            exact hshard
          · cases hs
        · -- a shard that was there before
          obtain ⟨bp, hbp, -⟩ := entry_eq (List.mem_of_getElem? hs)
          obtain ⟨parity', hparity', -, -, hshards⟩ := h.block _ bp hbp
          rw [hparity] at hparity'
          cases hparity'
          unfold entry at hs
          rw [hbp] at hs
          exact hshards j s hs
    · rw [AList.lookup_insert_ne hb] at hbp
      exact h.block b bp hbp

/-- **Adding a packet of the frame**, which is never refused, keeps what was sent. -/
theorem Genuine.add (hsized : Sized parts) {p p' : Pending} (h : p.Genuine policy parts)
    (hwf : p.WellFormed) {header : Header} {payload : List UInt8}
    {parsed : Option (Prefix × Shard)} {recovered : ℕ}
    (hslots : p.slots.length = header.fragments.toNat)
    (hparsed : inspect header payload = .admitted parsed)
    (hcarries : Carries policy parts header payload parsed)
    (hadd : p.add header payload parsed = some (.stored p' recovered)) : p'.Genuine policy parts := by
  obtain ⟨q, hput, -, hrec, -⟩ := add_stored hwf hslots hparsed hadd
  have hq := h.put hcarries hput
  rcases hrec.eq with rfl | hrecover
  · exact hq
  · exact hq.recover hsized hrecover

theorem Genuine.add_ne_refused {p : Pending} (h : p.Genuine policy parts) (hwf : p.WellFormed)
    (hbytes : (parts.map fun part => part.2).flatten.length ≤ MAX_FRAME) {header : Header}
    {payload : List UInt8} {parsed : Option (Prefix × Shard)}
    (hcarries : Carries policy parts header payload parsed) (e : ReassembleError) :
    p.add header payload parsed ≠ some (.refused e) := by
  intro hadd
  unfold Pending.add at hadd
  split at hadd
  · cases hadd
  · cases hadd
  · rename_i e' hput
    exact h.put_ne_refused hwf hbytes hcarries e' hput
  · split at hadd
    · cases hadd
    · split at hadd <;> cases hadd

/-- A frame of which nothing arrived yet. -/
theorem genuine_new {header : Header} (h : header.fragments.toNat = parts.length) :
    (new header).Genuine policy parts := by
  refine ⟨List.length_replicate.trans h, fun i x hx => ?_, fun b bp hbp => ?_, fun l hl => ?_⟩
  · simp [Holds, new, List.getElem?_replicate] at hx
  · simp [new] at hbp
  · simp [new] at hl

/-- **A complete frame is the frame that was sent.** -/
theorem Genuine.data_eq {p : Pending} (h : p.Genuine policy parts) (hwf : p.WellFormed)
    (hcomplete : ¬ p.received < p.slots.length) :
    p.slots.reduceOption.flatten = (parts.map fun part => part.2).flatten := by
  have hfilled := hwf.complete_iff.mp (Nat.le_of_not_lt hcomplete)
  have hslots : p.slots = (parts.map fun part => part.2).map some := by
    refine List.ext_getElem? fun i => ?_
    rw [List.map_map, List.getElem?_map]
    cases hi : p.slots[i]? with
    | none =>
      have hlen := List.getElem?_eq_none_iff.mp hi
      rw [h.length] at hlen
      rw [List.getElem?_eq_none hlen]
      rfl
    | some slot =>
      obtain ⟨x, hx⟩ := hfilled i (List.getElem?_eq_some_iff.mp hi).1
      rw [Holds, hi] at hx
      cases hx
      obtain ⟨part, hpart, rfl⟩ := Option.map_eq_some_iff.mp (h.slot i x hi)
      rw [hpart]
      rfl
  rw [hslots, List.reduceOption, List.filterMap_map]
  simp

end Pending

/-! ### Packets of a sent frame -/

section Sent

variable {policy : ParityPolicy} {stream : UInt16} {frame sentUs : UInt32} {data : List UInt8}
  {parts : List Packet}

theorem Cut.sized (h : Cut stream frame sentUs data parts) : Pending.Sized parts := by
  refine ⟨by rw [h.length_parts]; exact fragmentCount_pos data, fun part hpart => ?_,
    fun i part hpart hi => ?_⟩
  · rw [h.parts_eq] at hpart
    obtain ⟨i, -, rfl⟩ := List.mem_map.mp hpart
    exact length_fragmentAt_le data i
  · rw [h.length_parts] at hi
    rw [h.getElem?_parts (by omega)] at hpart
    cases hpart
    exact length_fragmentAt_eq hi

theorem Cut.lastLength_le (h : Cut stream frame sentUs data parts) :
    lastLength parts ≤ FRAGMENT_SIZE := by
  rw [h.lastLength_eq]
  exact length_fragmentAt_le _ _

/-- A packet of the frame, under whatever number the sealer gave it. -/
def IsPacket (policy : ParityPolicy) (stream : UInt16) (frame sentUs : UInt32) (data : List UInt8)
    (header : Header) (payload : List UInt8) : Prop :=
  ∃ out, fragmentWithParity stream frame sentUs data policy = some (.ok out) ∧
    ({ header with packet := 0 }, payload) ∈ out

/-- **A packet of a sent frame is admitted**, and carries a part of the frame. -/
theorem Cut.carries (h : Cut stream frame sentUs data parts) {header : Header} {payload : List UInt8}
    (hpacket : IsPacket policy stream frame sentUs data header payload) :
    header.stream = stream ∧ header.frame = frame ∧ header.sentUs = sentUs ∧
      header.fragments.toNat = parts.length ∧ header.IsPosition ∧
      ∃ parsed, inspect header payload = .admitted parsed ∧
        Pending.Carries policy parts header payload parsed := by
  obtain ⟨out, hout, hmem⟩ := hpacket
  obtain ⟨parts', out', hcut, hout', hspec⟩ :=
    fragmentWithParity_spec stream frame sentUs policy h.length_le
  rw [hout] at hout'
  cases hout'
  have hparts : parts' = parts := hcut.parts_eq.trans h.parts_eq.symm
  subst hparts
  have hcount : (UInt16.ofNat (fragmentCount data)).toNat = parts'.length := by
    rw [UInt16.toNat_ofNat', Nat.mod_eq_of_lt h.count_lt, h.length_parts]
  have hne : UInt16.ofNat (fragmentCount data) ≠ 0 := by
    intro h0
    rw [h0, h.length_parts] at hcount
    exact absurd hcount (fragmentCount_pos data).ne
  rcases hspec _ hmem with ⟨i, hi, hpacket⟩ | ⟨block, index, hpacket⟩
  · have hfragment : (UInt16.ofNat i).toNat = i := by
      rw [UInt16.toNat_ofNat', Nat.mod_eq_of_lt (hi.trans h.count_lt)]
    obtain ⟨hheader, hpayload⟩ := Prod.mk.inj hpacket
    obtain ⟨flags, stream', frame', fragment, fragments, packet, sentUs'⟩ := header
    obtain ⟨rfl, rfl, rfl, rfl, rfl, -, rfl⟩ := Header.mk.inj hheader
    subst hpayload
    have hlt : UInt16.ofNat i < UInt16.ofNat (fragmentCount data) := by
      rw [UInt16.lt_iff_toNat_lt, hfragment, hcount, h.length_parts]
      exact hi
    refine ⟨rfl, rfl, rfl, hcount, ⟨hne, fun _ => hlt⟩, none, ?_, .data ?_⟩
    · unfold inspect
      simp only [hfragment, hcount, h.length_parts]
      rw [if_neg (by simp [Header.isParity]), if_neg]
      rintro (hlarge | ⟨hlast, hsize⟩)
      · exact absurd (length_fragmentAt_le data i) (Nat.not_le_of_lt hlarge)
      · exact hsize (length_fragmentAt_eq (by omega))
    · simp only [hfragment]
      rw [h.getElem?_parts hi]
      rfl
  · obtain ⟨hblock, ⟨parity, shard, hparity, hshard, hpayload⟩, fragment, hheader⟩ := hpacket
    obtain ⟨flags, stream', frame', fragment', fragments, packet, sentUs'⟩ := header
    simp only [Header.mk.injEq] at hheader
    obtain ⟨rfl, rfl, rfl, -, rfl, -, rfl⟩ := hheader
    simp only at hpayload
    subst hpayload
    have hpos : 0 < parts'.length := by rw [h.length_parts]; exact fragmentCount_pos data
    have hlt : block < 65536 := by
      have hle := blockCount_le hpos
      have := h.count_lt
      rw [h.length_parts] at hle hblock
      omega
    have hlen := length_parityShards hparity
    have hindex : index < parityCount policy (part parts'.length block).len := by
      rw [← hlen]
      exact (List.getElem?_eq_some_iff.mp hshard).1
    have hparse := parse_parityPayload hlt hindex (parityCount_lt policy hpos block) h.lastLength_le
      (length_of_mem_parityShards hparity (List.mem_of_getElem? hshard))
    have hflag : ∀ s f g c p u, Header.isParity ⟨FLAG_PARITY, s, f, g, c, p, u⟩ = true := by
      intro s f g c p u
      simp [Header.isParity, FLAG_PARITY]
    refine ⟨rfl, rfl, rfl, hcount, ⟨hne, fun hflags => ?_⟩,
      some (⟨block, index, _, _, hindex, h.lastLength_le⟩, shard), ?_,
      .parity hparity hshard hlen.symm rfl⟩
    · rw [hflag] at hflags
      cases hflags
    · unfold inspect
      simp only [hflag, if_true, hparse, hcount]
      rw [if_neg]
      rw [length_blocks hpos]
      exact Nat.not_le_of_lt hblock

end Sent

end WindowCast.Bud
