import WindowCast.Bud.Header
import WindowCast.Lib.Run
import WindowCast.Lib.Runs

/-!
# Feedback on the wire

`bud/src/recovery.rs`: the messages from the receiving side to the sending side.
A NACK names fragments by the runs of consecutive ones.  (A run of all 65536
fragments would not fit its length, and is written as one of none.)

## Main definitions

* `Feedback`, `Feedback.encode`, `Feedback.decode`.
* `Feedback.named` — the fragments a NACK names on the wire.

## Main results

* `Feedback.decode_encode_nack` — **what becomes of a NACK on the wire.**
* `Feedback.length_le_of_decode` — no NACK read asks for too much.
-/

namespace WindowCast.Bud

/-- The stream number feedback travels on. -/
def FEEDBACK_STREAM : UInt16 := 0xffff
/-- How many fragments one NACK may name. -/
def MAX_NACK_FRAGMENTS : ℕ := 4096
/-- How many ranges a NACK is encoded as at most. -/
def MAX_RANGES : ℕ := 64

/-- A message from the receiving side to the sending side. -/
inductive Feedback
  /-- These data fragments of the frame are wanted again. -/
  | nack (stream : UInt16) (frame : UInt32) (fragments : List UInt16)
  /-- The receiver gave up on this frame. -/
  | refresh (stream : UInt16) (frame : UInt32)
  /-- Of `sent` packets, `lost` did not arrive. -/
  | report (sent lost : UInt32)
  deriving DecidableEq, Repr

namespace Feedback

def NACK : UInt8 := 1
def REFRESH : UInt8 := 2
def REPORT : UInt8 := 3

/-- The fragments in order, each once. -/
def sorted (fragments : List UInt16) : List UInt16 := fragments.mergeSort.destutter (· ≠ ·)

/-- A range: its first fragment, and how many there are. -/
def encodeRange (range : ℕ × ℕ) : List UInt8 :=
  BigEndian.toBytes 2 range.1 ++ BigEndian.toBytes 2 range.2

def encode : Feedback → List UInt8
  | .nack stream frame fragments =>
    let ranges := (Runs.runs ((sorted fragments).map UInt16.toNat)).take MAX_RANGES
    [NACK] ++ BigEndian.toBytes 2 stream.toNat ++ BigEndian.toBytes 4 frame.toNat
      ++ BigEndian.toBytes 2 ranges.length ++ ranges.flatMap encodeRange
  | .refresh stream frame =>
    [REFRESH] ++ BigEndian.toBytes 2 stream.toNat ++ BigEndian.toBytes 4 frame.toNat
  | .report sent lost =>
    [REPORT] ++ BigEndian.toBytes 4 sent.toNat ++ BigEndian.toBytes 4 lost.toNat

/-- The number in the `n` bytes at `offset`, if they are there. -/
def be (n : ℕ) (bytes : List UInt8) (offset : ℕ) : Option ℕ :=
  if offset + n ≤ bytes.length then some (Header.field bytes offset n) else none

def be16 : List UInt8 → ℕ → Option ℕ := be 2

def be32 : List UInt8 → ℕ → Option ℕ := be 4

/-- One turn of the loop of `decode` over the ranges. -/
def decodeRange (bytes : List UInt8) (fragments : List UInt16) (i : ℕ) : Option (List UInt16) := do
  let start ← be16 bytes (9 + i * 4)
  let len ← be16 bytes (11 + i * 4)
  if len = 0 ∨ start + len > 0xffff + 1 then none
  else if fragments.length + len > MAX_NACK_FRAGMENTS then none
  else some (fragments ++ (List.range' start len).map UInt16.ofNat)

/-- Reads feedback from a datagram's payload. -/
def decode (bytes : List UInt8) : Option Feedback := do
  let tag ← bytes.head?
  if tag = NACK then
    let stream ← be16 bytes 1
    let frame ← be32 bytes 3
    let count ← be16 bytes 7
    if count > MAX_RANGES ∨ bytes.length ≠ 9 + count * 4 then none
    else
      let fragments ← (List.range count).foldlM (decodeRange bytes) []
      some (.nack (UInt16.ofNat stream) (UInt32.ofNat frame) fragments)
  else if tag = REFRESH ∧ bytes.length = 7 then
    let stream ← be16 bytes 1
    let frame ← be32 bytes 3
    some (.refresh (UInt16.ofNat stream) (UInt32.ofNat frame))
  else if tag = REPORT ∧ bytes.length = 9 then
    let sent ← be32 bytes 1
    let lost ← be32 bytes 5
    some (.report (UInt32.ofNat sent) (UInt32.ofNat lost))
  else none

/-- The fragments a NACK names on the wire: those of the first `MAX_RANGES` runs. -/
def named (fragments : List UInt16) : List UInt16 :=
  (Runs.first MAX_RANGES ((sorted fragments).map UInt16.toNat)).map UInt16.ofNat

/-! ### Reading numbers back -/

theorem be_append {bytes a b c : List UInt8} {n offset x : ℕ} (h : bytes = a ++ b ++ c)
    (ha : a.length = offset) (hb : b = BigEndian.toBytes n x) :
    be n bytes offset = some (x % 256 ^ n) := by
  have hlen : offset + n ≤ bytes.length := by
    rw [h, List.length_append, List.length_append, ha, hb, BigEndian.length_toBytes]
    omega
  rw [be, if_pos hlen, Header.field, h, hb, List.append_assoc, List.drop_left' ha,
    List.take_left' (BigEndian.length_toBytes n x), BigEndian.ofBytes_toBytes]

theorem be16_append {bytes a c : List UInt8} {offset : ℕ} {x : UInt16}
    (h : bytes = a ++ BigEndian.toBytes 2 x.toNat ++ c) (ha : a.length = offset) :
    be16 bytes offset = some x.toNat := by
  rw [be16, be_append h ha rfl, Nat.mod_eq_of_lt (show x.toNat < 256 ^ 2 from x.toNat_lt)]

theorem be32_append {bytes a c : List UInt8} {offset : ℕ} {x : UInt32}
    (h : bytes = a ++ BigEndian.toBytes 4 x.toNat ++ c) (ha : a.length = offset) :
    be32 bytes offset = some x.toNat := by
  rw [be32, be_append h ha rfl, Nat.mod_eq_of_lt (show x.toNat < 256 ^ 4 from x.toNat_lt)]

theorem length_flatMap_encodeRange (ranges : List (ℕ × ℕ)) :
    (ranges.flatMap encodeRange).length = ranges.length * 4 := by
  induction ranges with
  | nil => rfl
  | cons range ranges ih =>
    rw [List.flatMap_cons, List.length_append, ih, encodeRange, List.length_append,
      BigEndian.length_toBytes, BigEndian.length_toBytes, List.length_cons]
    omega

/-- A range is read back where it was written. -/
theorem be16_range {bytes head : List UInt8} {ranges : List (ℕ × ℕ)}
    (hbytes : bytes = head ++ ranges.flatMap encodeRange) (hhead : head.length = 9) {i : ℕ}
    {range : ℕ × ℕ} (hi : ranges[i]? = some range) :
    be16 bytes (9 + i * 4) = some (range.1 % 65536) ∧
      be16 bytes (11 + i * 4) = some (range.2 % 65536) := by
  obtain ⟨hlt, hrange⟩ := List.getElem?_eq_some_iff.mp hi
  have hsplit : ranges = ranges.take i ++ range :: ranges.drop (i + 1) := by
    rw [← hrange, ← List.drop_eq_getElem_cons hlt, List.take_append_drop]
  have hfront : ((ranges.take i).flatMap encodeRange).length = i * 4 := by
    rw [length_flatMap_encodeRange, List.length_take, Nat.min_eq_left hlt.le]
  have hwhole : bytes = head ++ (ranges.take i).flatMap encodeRange ++ BigEndian.toBytes 2 range.1
      ++ (BigEndian.toBytes 2 range.2 ++ (ranges.drop (i + 1)).flatMap encodeRange) := by
    rw [hbytes]
    conv_lhs => rw [hsplit]
    simp only [List.flatMap_append, List.flatMap_cons, encodeRange, List.append_assoc]
  refine ⟨be_append hwhole ?_ rfl, be_append (hwhole.trans (List.append_assoc _ _ _).symm) ?_ rfl⟩
  · rw [List.length_append, hhead, hfront]
  · rw [List.length_append, List.length_append, hhead, hfront, BigEndian.length_toBytes]
    omega

/-! ### NACKs -/

/-- The loop of `decode` over ranges of fragments, written one after the other. -/
theorem foldlM_decodeRange {bytes : List UInt8} : ∀ (ranges : List (ℕ × ℕ)) (k : ℕ)
    (fragments : List UInt16),
    (∀ i range, ranges[i]? = some range → be16 bytes (9 + (k + i) * 4) = some (range.1 % 65536) ∧
      be16 bytes (11 + (k + i) * 4) = some (range.2 % 65536)) →
    (∀ range ∈ ranges, 0 < range.2 ∧ range.1 + range.2 ≤ 65536) →
    fragments.length ≤ MAX_NACK_FRAGMENTS →
    (List.range' k ranges.length).foldlM (decodeRange bytes) fragments =
      if fragments.length + (ranges.flatMap Runs.expand).length ≤ MAX_NACK_FRAGMENTS then
        some (fragments ++ (ranges.flatMap Runs.expand).map UInt16.ofNat)
      else none := by
  intro ranges
  induction ranges with
  | nil =>
    intro k fragments _ _ hle
    rw [List.flatMap_nil, List.map_nil, List.append_nil]
    exact (if_pos hle).symm
  | cons range ranges ih =>
    obtain ⟨start, len⟩ := range
    intro k fragments hread hranges hle
    obtain ⟨hpos, hend⟩ := hranges _ List.mem_cons_self
    obtain ⟨hstart, hlen⟩ := hread 0 _ List.getElem?_cons_zero
    simp only at hpos hend hstart hlen
    rw [Nat.add_zero, Nat.mod_eq_of_lt (by omega)] at hstart
    rw [Nat.add_zero] at hlen
    have hcount : (((start, len) :: ranges).flatMap Runs.expand).length
        = len + (ranges.flatMap Runs.expand).length := by
      rw [List.flatMap_cons, List.length_append, Runs.expand, List.length_range']
    rw [hcount, List.length_cons, List.range'_succ, List.foldlM_cons]
    unfold decodeRange
    simp only [hstart, hlen, Option.bind_eq_bind, Option.bind_some]
    rcases Nat.lt_or_ge len 65536 with hsmall | hall
    · rw [Nat.mod_eq_of_lt hsmall, if_neg (by omega)]
      split
      · rename_i hmany
        rw [if_neg (by omega)]
        rfl
      · rename_i hfew
        have hlen' : (fragments ++ (List.range' start len).map UInt16.ofNat).length
            = fragments.length + len := by
          rw [List.length_append, List.length_map, List.length_range']
        have hrec := ih (k + 1) (fragments ++ (List.range' start len).map UInt16.ofNat)
          (fun i range hi => by
            have := hread (i + 1) range (by rwa [List.getElem?_cons_succ])
            rwa [show k + 1 + i = k + (i + 1) by omega])
          (fun range hrange => hranges range (List.mem_cons_of_mem _ hrange)) (by omega)
        rw [Option.bind_some]
        refine hrec.trans ?_
        rw [hlen', Nat.add_assoc, List.flatMap_cons, List.map_append, List.append_assoc]
        rfl
    · -- a run of all fragments is written with length zero
      have hfull : len = 65536 := by omega
      rw [hfull, if_pos (.inl rfl), if_neg (by unfold MAX_NACK_FRAGMENTS; omega)]
      rfl

/-- The runs of fragment numbers are ranges `decode` accepts. -/
theorem range_of_mem_runs {fragments : List UInt16} {range : ℕ × ℕ}
    (h : range ∈ Runs.runs (fragments.map UInt16.toNat)) :
    0 < range.2 ∧ range.1 + range.2 ≤ 65536 := by
  have hsplits := Runs.splits_runs (fragments.map UInt16.toNat)
  have hpos := hsplits.pos range h
  refine ⟨hpos, ?_⟩
  -- the last fragment of the range is one of those given
  have hlast : range.1 + range.2 - 1 ∈ Runs.expand range := by
    rw [Runs.expand, List.mem_range'_1]
    omega
  have hmem : range.1 + range.2 - 1 ∈ fragments.map UInt16.toNat := by
    rw [← hsplits.flatten]
    exact List.mem_flatten.mpr ⟨_, List.mem_map_of_mem h, hlast⟩
  obtain ⟨f, -, hf⟩ := List.mem_map.mp hmem
  have := f.toNat_lt
  omega

/-- **What becomes of a NACK on the wire**: it names the fragments of the first
`MAX_RANGES` runs, if these are not too many, and is refused otherwise. -/
theorem decode_encode_nack (stream : UInt16) (frame : UInt32) (fragments : List UInt16) :
    decode (encode (.nack stream frame fragments)) =
      if (named fragments).length ≤ MAX_NACK_FRAGMENTS then
        some (.nack stream frame (named fragments))
      else none := by
  set ranges := (Runs.runs ((sorted fragments).map UInt16.toNat)).take MAX_RANGES with hranges
  have hcount : ranges.length ≤ MAX_RANGES := by
    rw [hranges, List.length_take]
    exact Nat.min_le_left _ _
  have hnamed : (ranges.flatMap Runs.expand).map UInt16.ofNat = named fragments := by
    rw [hranges, Runs.flatMap_take_runs]
    rfl
  set head := [NACK] ++ BigEndian.toBytes 2 stream.toNat ++ BigEndian.toBytes 4 frame.toNat
    ++ BigEndian.toBytes 2 ranges.length with hhead
  obtain ⟨bytes, hbytes⟩ : ∃ bytes, bytes = head ++ ranges.flatMap encodeRange := ⟨_, rfl⟩
  have hencode : encode (.nack stream frame fragments) = bytes := hbytes.symm
  have hlen : head.length = 9 := by simp [hhead]
  have htag : bytes.head? = some NACK := by rw [hbytes]; rfl
  have hsize : bytes.length = 9 + ranges.length * 4 := by
    rw [hbytes, List.length_append, hlen, length_flatMap_encodeRange]
  have h1 : be16 bytes 1 = some stream.toNat :=
    be16_append (a := [NACK]) (by simp [hbytes, hhead]; rfl) rfl
  have h3 : be32 bytes 3 = some frame.toNat :=
    be32_append (a := [NACK] ++ BigEndian.toBytes 2 stream.toNat) (by simp [hbytes, hhead]; rfl)
      (by simp)
  have h7 : be16 bytes 7 = some ranges.length := by
    have hread : be 2 bytes 7 = some (ranges.length % 256 ^ 2) :=
      be_append (a := [NACK] ++ BigEndian.toBytes 2 stream.toNat ++ BigEndian.toBytes 4 frame.toNat)
        (by simp [hbytes, hhead]; rfl) (by simp) rfl
    rwa [Nat.mod_eq_of_lt (lt_of_le_of_lt hcount (by decide))] at hread
  have hloop : (List.range ranges.length).foldlM (decodeRange bytes) [] =
      if (named fragments).length ≤ MAX_NACK_FRAGMENTS then some (named fragments) else none := by
    rw [List.range_eq_range', foldlM_decodeRange ranges 0 [] ?_ ?_ (Nat.zero_le _), hnamed,
      ← hnamed, List.length_map, List.length_nil, Nat.zero_add, List.nil_append]
    · intro i range hi
      rw [Nat.zero_add]
      exact be16_range hbytes hlen hi
    · exact fun range hrange => range_of_mem_runs (List.mem_of_mem_take hrange)
  rw [hencode, decode]
  simp only [htag, h1, h3, h7, hsize, hloop, Option.bind_eq_bind, Option.bind_some, if_true]
  rw [if_neg (by omega)]
  split
  · rw [UInt16.ofNat_toNat, UInt32.ofNat_toNat]
    rfl
  · rfl

theorem length_le_of_decodeRange {bytes : List UInt8} {fragments fragments' : List UInt16} {i : ℕ}
    (h : decodeRange bytes fragments i = some fragments') :
    fragments'.length ≤ MAX_NACK_FRAGMENTS := by
  unfold decodeRange at h
  simp only [Option.bind_eq_bind, Option.bind_eq_some_iff] at h
  obtain ⟨start, -, len, -, h⟩ := h
  split at h
  · cases h
  split at h
  · cases h
  rename_i hfew
  cases h
  rw [List.length_append, List.length_map, List.length_range']
  exact Nat.le_of_not_lt hfew

/-- **No NACK that is read names more than `MAX_NACK_FRAGMENTS`.** -/
theorem length_le_of_decode {bytes : List UInt8} {stream : UInt16} {frame : UInt32}
    {fragments : List UInt16} (h : decode bytes = some (.nack stream frame fragments)) :
    fragments.length ≤ MAX_NACK_FRAGMENTS := by
  unfold decode at h
  simp only [Option.bind_eq_bind, Option.bind_eq_some_iff] at h
  obtain ⟨tag, -, h⟩ := h
  split at h
  · obtain ⟨s, -, h⟩ := Option.bind_eq_some_iff.mp h
    obtain ⟨f, -, h⟩ := Option.bind_eq_some_iff.mp h
    obtain ⟨count, -, h⟩ := Option.bind_eq_some_iff.mp h
    split at h
    · cases h
    obtain ⟨read, hloop, h⟩ := Option.bind_eq_some_iff.mp h
    cases h
    exact Run.invariant (I := fun l => l.length ≤ MAX_NACK_FRAGMENTS) (A := fun _ => True)
      (fun _ _ _ _ _ hstep => length_le_of_decodeRange hstep) _ _ _ (Nat.zero_le _)
      (fun _ _ => trivial) hloop
  split at h
  · obtain ⟨s, -, h⟩ := Option.bind_eq_some_iff.mp h
    obtain ⟨f, -, h⟩ := Option.bind_eq_some_iff.mp h
    cases h
  split at h
  · obtain ⟨s, -, h⟩ := Option.bind_eq_some_iff.mp h
    obtain ⟨l, -, h⟩ := Option.bind_eq_some_iff.mp h
    cases h
  · cases h

/-! ### The other messages -/

/-- **A refresh survives the wire.** -/
theorem decode_encode_refresh (stream : UInt16) (frame : UInt32) :
    decode (encode (.refresh stream frame)) = some (.refresh stream frame) := by
  obtain ⟨bytes, hbytes⟩ : ∃ bytes, bytes = encode (.refresh stream frame) := ⟨_, rfl⟩
  have htag : bytes.head? = some REFRESH := by rw [hbytes]; rfl
  have hsize : bytes.length = 7 := by simp [hbytes, encode]
  have h1 : be16 bytes 1 = some stream.toNat := be16_append (a := [REFRESH]) hbytes rfl
  have h3 : be32 bytes 3 = some frame.toNat :=
    be32_append (a := [REFRESH] ++ BigEndian.toBytes 2 stream.toNat)
      (by rw [hbytes, encode, List.append_nil]) (by simp)
  rw [← hbytes, decode]
  simp only [htag, h1, h3, hsize, Option.bind_eq_bind, Option.bind_some, and_true]
  rw [if_neg (by decide), if_pos trivial, UInt16.ofNat_toNat, UInt32.ofNat_toNat]

/-- **A report survives the wire.** -/
theorem decode_encode_report (sent lost : UInt32) :
    decode (encode (.report sent lost)) = some (.report sent lost) := by
  obtain ⟨bytes, hbytes⟩ : ∃ bytes, bytes = encode (.report sent lost) := ⟨_, rfl⟩
  have htag : bytes.head? = some REPORT := by rw [hbytes]; rfl
  have hsize : bytes.length = 9 := by simp [hbytes, encode]
  have h1 : be32 bytes 1 = some sent.toNat := be32_append (a := [REPORT]) hbytes rfl
  have h5 : be32 bytes 5 = some lost.toNat :=
    be32_append (a := [REPORT] ++ BigEndian.toBytes 4 sent.toNat)
      (by rw [hbytes, encode, List.append_nil]) (by simp)
  rw [← hbytes, decode]
  simp only [htag, h1, h5, hsize, Option.bind_eq_bind, Option.bind_some, and_true]
  rw [if_neg (by decide), if_neg (by decide), if_pos trivial, UInt32.ofNat_toNat, UInt32.ofNat_toNat]

end Feedback

end WindowCast.Bud
