import WindowCast.Bud.Fragment

/-!
# What a sender sends

The packets `fragmentWithParity` makes of a frame, as data fragments and parity
shards.

## Main definitions

* `fragmentAt`, `fragmentCount` — the data fragments of a frame.
* `Cut` — the data packets of a frame.

## Main results

* `Cut.flatten_payloads` — the fragments put together are the frame.
* `fragmentWithParity_spec` — a frame of at most `MAX_FRAME` bytes can be sent,
  and what its packets are.
-/

namespace WindowCast.Bud

open WindowCast.Fec

theorem fragmentSize_eq : FRAGMENT_SIZE = 1154 := rfl

theorem maxFrame_eq : MAX_FRAME = 16777216 := rfl

/-- How many data fragments a frame is cut into. -/
def fragmentCount (data : List UInt8) : ℕ := max (divCeil data.length FRAGMENT_SIZE) 1

/-- The bytes of data fragment `i`. -/
def fragmentAt (data : List UInt8) (i : ℕ) : List UInt8 :=
  (data.drop (i * FRAGMENT_SIZE)).take FRAGMENT_SIZE

theorem fragmentCount_pos (data : List UInt8) : 0 < fragmentCount data :=
  lt_of_lt_of_le Nat.zero_lt_one (Nat.le_max_right _ _)

/-- The fragments reach to the end of the frame, and the last one starts inside it. -/
theorem fragmentCount_bounds (data : List UInt8) :
    data.length ≤ fragmentCount data * FRAGMENT_SIZE ∧
      (fragmentCount data - 1) * FRAGMENT_SIZE ≤ data.length := by
  unfold fragmentCount divCeil
  rw [fragmentSize_eq]
  omega

theorem fragmentCount_le {data : List UInt8} (h : data.length ≤ MAX_FRAME) :
    fragmentCount data * FRAGMENT_SIZE ≤ MAX_FRAME + FRAGMENT_SIZE := by
  have hlast := (fragmentCount_bounds data).2
  have hpred : fragmentCount data = fragmentCount data - 1 + 1 :=
    (Nat.sub_add_cancel (fragmentCount_pos data)).symm
  rw [hpred, Nat.succ_mul]
  exact Nat.add_le_add_right (hlast.trans h) _

theorem length_fragmentAt (data : List UInt8) (i : ℕ) :
    (fragmentAt data i).length = min FRAGMENT_SIZE (data.length - i * FRAGMENT_SIZE) := by
  rw [fragmentAt, List.length_take, List.length_drop]

theorem length_fragmentAt_le (data : List UInt8) (i : ℕ) :
    (fragmentAt data i).length ≤ FRAGMENT_SIZE := by
  rw [length_fragmentAt]
  exact Nat.min_le_left _ _

/-- Every fragment but the last is of full size. -/
theorem length_fragmentAt_eq {data : List UInt8} {i : ℕ} (h : i + 1 < fragmentCount data) :
    (fragmentAt data i).length = FRAGMENT_SIZE := by
  have hlast := (fragmentCount_bounds data).2
  have hmul : (i + 1) * FRAGMENT_SIZE ≤ (fragmentCount data - 1) * FRAGMENT_SIZE :=
    Nat.mul_le_mul_right _ (by omega)
  rw [Nat.succ_mul] at hmul
  rw [length_fragmentAt]
  omega

/-- The fragments up to `n`, put together. -/
theorem flatten_fragmentAt (data : List UInt8) (n : ℕ) :
    ((List.range n).map (fragmentAt data)).flatten = data.take (n * FRAGMENT_SIZE) := by
  induction n with
  | zero => simp
  | succ n ih =>
    rw [List.range_succ, List.map_append, List.flatten_append, ih, List.map_singleton,
      List.flatten_singleton, fragmentAt, Nat.succ_mul, List.take_add]

/-- `parts` are the data packets of a frame. -/
structure Cut (stream : UInt16) (frame sentUs : UInt32) (data : List UInt8) (parts : List Packet) :
    Prop where
  length_le : data.length ≤ MAX_FRAME
  parts_eq : parts = (List.range (fragmentCount data)).map fun i =>
    (⟨0, stream, frame, UInt16.ofNat i, UInt16.ofNat (fragmentCount data), 0, sentUs⟩,
      fragmentAt data i)

namespace Cut

variable {stream : UInt16} {frame sentUs : UInt32} {data : List UInt8} {parts : List Packet}

theorem length_parts (h : Cut stream frame sentUs data parts) :
    parts.length = fragmentCount data := by
  rw [h.parts_eq, List.length_map, List.length_range]

theorem count_lt (h : Cut stream frame sentUs data parts) : fragmentCount data < 65536 := by
  have := fragmentCount_le h.length_le
  rw [fragmentSize_eq, maxFrame_eq] at this
  omega

theorem getElem?_parts (h : Cut stream frame sentUs data parts) {i : ℕ}
    (hi : i < fragmentCount data) : parts[i]? = some
      (⟨0, stream, frame, UInt16.ofNat i, UInt16.ofNat (fragmentCount data), 0, sentUs⟩,
        fragmentAt data i) := by
  rw [h.parts_eq, List.getElem?_map, List.getElem?_range hi]
  rfl

/-- **The fragments put together are the frame.** -/
theorem flatten_payloads (h : Cut stream frame sentUs data parts) :
    (parts.map fun p => p.2).flatten = data := by
  rw [h.parts_eq, List.map_map]
  exact (flatten_fragmentAt data _).trans (List.take_of_length_le (fragmentCount_bounds data).1)

theorem lastLength_eq (h : Cut stream frame sentUs data parts) :
    lastLength parts = (fragmentAt data (fragmentCount data - 1)).length := by
  have hpos := fragmentCount_pos data
  rw [lastLength, List.getLast?_eq_getElem?, h.length_parts, h.getElem?_parts (by omega)]
  rfl

theorem exists_head (h : Cut stream frame sentUs data parts) :
    ∃ rest, parts = (⟨0, stream, frame, 0, UInt16.ofNat (fragmentCount data), 0, sentUs⟩,
      fragmentAt data 0) :: rest := by
  have hhead := h.getElem?_parts (fragmentCount_pos data)
  cases parts with
  | nil => cases hhead
  | cons p rest =>
    cases hhead
    exact ⟨rest, rfl⟩

end Cut

/-- `fragment` cuts every frame of at most `MAX_FRAME` bytes. -/
theorem fragment_eq (stream : UInt16) (frame sentUs : UInt32) {data : List UInt8}
    (h : data.length ≤ MAX_FRAME) :
    ∃ parts, fragment stream frame sentUs data = .ok parts ∧
      Cut stream frame sentUs data parts := by
  have hcount : ¬ fragmentCount data > 0xffff := by
    have := fragmentCount_le h
    rw [fragmentSize_eq, maxFrame_eq] at this
    omega
  unfold fragment
  simp only
  rw [if_neg (Nat.not_lt.mpr h), ← fragmentCount, if_neg hcount]
  refine ⟨_, rfl, h, List.map_congr_left fun i hi => ?_⟩
  -- the slice up to the end of the frame is the whole fragment
  have hslice : (data.drop (i * FRAGMENT_SIZE)).take
      (min (i * FRAGMENT_SIZE + FRAGMENT_SIZE) data.length - i * FRAGMENT_SIZE)
      = fragmentAt data i := by
    rw [fragmentAt, List.take_eq_take_iff, List.length_drop]
    omega
  rw [hslice]

/-- Packet `p` carries data fragment `i`. -/
def IsDataPacket (stream : UInt16) (frame sentUs : UInt32) (data : List UInt8) (i : ℕ)
    (p : Packet) : Prop :=
  i < fragmentCount data ∧
    p = (⟨0, stream, frame, UInt16.ofNat i, UInt16.ofNat (fragmentCount data), 0, sentUs⟩,
      fragmentAt data i)

/-- **What is sent of a frame**: it can be sent if it is not larger than
`MAX_FRAME`, and each packet carries a data fragment or a parity shard. -/
theorem fragmentWithParity_spec (stream : UInt16) (frame sentUs : UInt32) {data : List UInt8}
    (policy : ParityPolicy) (h : data.length ≤ MAX_FRAME) :
    ∃ parts out, Cut stream frame sentUs data parts ∧
      fragmentWithParity stream frame sentUs data policy = some (.ok out) ∧
      ∀ p ∈ out, (∃ i, IsDataPacket stream frame sentUs data i p) ∨
        ∃ block index, IsParityPacket policy parts
          ⟨0, stream, frame, 0, UInt16.ofNat (fragmentCount data), 0, sentUs⟩ block index p := by
  obtain ⟨parts, hparts, hcut⟩ := fragment_eq stream frame sentUs h
  obtain ⟨rest, hrest⟩ := hcut.exists_head
  obtain ⟨parity, hparity, hmem⟩ := exists_encode policy _ rest
  rw [← hrest] at hparity hmem
  refine ⟨parts, parts ++ parity, hcut, ?_, fun p hp => ?_⟩
  · unfold fragmentWithParity
    rw [hparts]
    simp only [hparity]
  · rcases List.mem_append.mp hp with hp | hp
    · rw [hcut.parts_eq] at hp
      obtain ⟨i, hi, rfl⟩ := List.mem_map.mp hp
      exact .inl ⟨i, List.mem_range.mp hi, rfl⟩
    · exact .inr (hmem p hp)

/-- A frame that was sent is not larger than `MAX_FRAME`. -/
theorem length_le_of_sent {stream : UInt16} {frame sentUs : UInt32} {data : List UInt8}
    {policy : ParityPolicy} {out : List Packet}
    (h : fragmentWithParity stream frame sentUs data policy = some (.ok out)) :
    data.length ≤ MAX_FRAME := by
  by_contra hlarge
  unfold fragmentWithParity fragment at h
  rw [if_pos (Nat.lt_of_not_le hlarge)] at h
  cases h

end WindowCast.Bud
