import WindowCast.Bud.Fragment
import WindowCast.Lib.Run

/-!
# A frame that waits for fragments

What `Pending` keeps while packets are stored in it and fragments are recovered:
its counters are the true counts, whatever the packets say.

## Main definitions

* `Pending.WellFormed` — the invariant of one waiting frame.
* `Pending.Fills` — only empty slots were filled.
* `Pending.Recoverable` — a block that has enough shards.

## Main results

* `Pending.recover_spec` — recovery never indexes out of range, keeps the
  invariant, and completes every recoverable block.
* `Pending.wellFormed_put` — storing a packet keeps the invariant.
* `Pending.add_stored` — what adding a packet did.
-/

namespace WindowCast.Bud.Pending

open WindowCast.Fec

/-- Slot `i` holds the fragment `x`. -/
def Holds (p : Pending) (i : ℕ) (x : List UInt8) : Prop := p.slots[i]? = some (some x)

/-- Slot `i` holds a fragment. -/
def Filled (p : Pending) (i : ℕ) : Prop := ∃ x, p.Holds i x

/-- How many fragments of block `b` are there. -/
def filledIn (p : Pending) (b : ℕ) : ℕ :=
  (part p.slots.length b).indices.countP fun i => (p.slots[i]?.join).isSome

/-- The counters are the true counts, and what is stored has the sizes the
checks of `push` allow. -/
structure WellFormed (p : Pending) : Prop where
  nonempty : 0 < p.slots.length
  received : p.received = p.slots.countP Option.isSome
  bytes : p.bytes = p.slots.reduceOption.flatten.length
  parityStored : p.parityStored = KeyedSum.total (fun b => b.shards.countP Option.isSome) p.parity
  slot_le : ∀ i x, p.Holds i x → x.length ≤ FRAGMENT_SIZE
  slot_eq : ∀ i x, p.Holds i x → i + 1 ≠ p.slots.length → x.length = FRAGMENT_SIZE
  shard_eq : ∀ b bp, p.parity.lookup b = some bp → ∀ s, some s ∈ bp.shards →
    s.length = FRAGMENT_SIZE
  block_lt : ∀ b ∈ p.parity, b < blockCount p.slots.length
  lastLen_le : ∀ l, p.lastLen = some l → l ≤ FRAGMENT_SIZE
  lastLen_ne : p.parity.entries ≠ [] → p.lastLen ≠ none

/-- `p'` is `p` with some of the empty slots filled. -/
structure Fills (p p' : Pending) : Prop where
  frame : p'.frame = p.frame
  sentUs : p'.sentUs = p.sentUs
  parity : p'.parity = p.parity
  parityStored : p'.parityStored = p.parityStored
  lastLen : p'.lastLen = p.lastLen
  length : p'.slots.length = p.slots.length
  holds : ∀ i x, p.Holds i x → p'.Holds i x
  /-- A rebuilt last fragment has the length parity packets said. -/
  last : ∀ x, p'.Holds (p.slots.length - 1) x →
    p.Holds (p.slots.length - 1) x ∨ p.lastLen = some x.length

theorem Fills.refl (p : Pending) : Fills p p :=
  ⟨rfl, rfl, rfl, rfl, rfl, rfl, fun _ _ h => h, fun _ h => .inl h⟩

theorem Fills.trans {p q r : Pending} (h : Fills p q) (h' : Fills q r) : Fills p r where
  frame := h'.frame.trans h.frame
  sentUs := h'.sentUs.trans h.sentUs
  parity := h'.parity.trans h.parity
  parityStored := h'.parityStored.trans h.parityStored
  lastLen := h'.lastLen.trans h.lastLen
  length := h'.length.trans h.length
  holds i x hx := h'.holds i x (h.holds i x hx)
  last x hx := by
    rw [← h.length] at hx
    rcases h'.last x hx with hq | hq
    · rw [h.length] at hq
      exact h.last x hq
    · exact .inr (h.lastLen ▸ hq)

theorem Fills.filled {p p' : Pending} (h : Fills p p') {i : ℕ} (hi : p.Filled i) : p'.Filled i :=
  hi.imp fun x hx => h.holds i x hx

/-! ### Setting a slot -/

theorem countP_set {slots : List (Option (List UInt8))} {i : ℕ} (h : slots[i]? = some none)
    (x : List UInt8) : (slots.set i (some x)).countP Option.isSome
      = slots.countP Option.isSome + 1 := by
  obtain ⟨before, after, rfl, rfl⟩ := Reassembler.split_of_getElem? h
  rw [Reassembler.set_split, List.countP_append, List.countP_append, List.countP_cons_of_pos rfl,
    List.countP_cons_of_neg (by simp), Nat.add_assoc]

theorem bytes_set {slots : List (Option (List UInt8))} {i : ℕ} (h : slots[i]? = some none)
    (x : List UInt8) : (slots.set i (some x)).reduceOption.flatten.length
      = slots.reduceOption.flatten.length + x.length := by
  obtain ⟨before, after, rfl, rfl⟩ := Reassembler.split_of_getElem? h
  simp only [Reassembler.set_split, List.reduceOption_append, List.reduceOption_cons_of_some,
    List.reduceOption_cons_of_none, List.flatten_append, List.flatten_cons, List.length_append]
  omega

theorem holds_set {p : Pending} {i : ℕ} {x : List UInt8} (hi : p.slots[i]? = some none) (j : ℕ)
    (y : List UInt8) :
    (p.slots.set i (some x))[j]? = some (some y) ↔ (j = i ∧ y = x) ∨ p.Holds j y := by
  have hlt : i < p.slots.length := (List.getElem?_eq_some_iff.mp hi).1
  rw [List.getElem?_set, Holds]
  by_cases hj : i = j
  · subst hj
    rw [if_pos rfl, if_pos hlt, hi]
    simp [eq_comm]
  · rw [if_neg hj]
    simp [Ne.symm hj]

/-- A fragment of the right size in an empty slot, counted. -/
theorem WellFormed.set {p : Pending} (h : WellFormed p) {i : ℕ} {x : List UInt8}
    (hi : p.slots[i]? = some none) (hle : x.length ≤ FRAGMENT_SIZE)
    (heq : i + 1 ≠ p.slots.length → x.length = FRAGMENT_SIZE) :
    WellFormed { p with
      slots := p.slots.set i (some x)
      received := p.received + 1
      bytes := p.bytes + x.length } where
  nonempty := by rw [List.length_set]; exact h.nonempty
  received := by rw [h.received, countP_set hi]
  bytes := by rw [h.bytes, bytes_set hi]
  parityStored := h.parityStored
  slot_le j y hj := by
    rcases (holds_set hi j y).mp hj with ⟨-, rfl⟩ | hj
    · exact hle
    · exact h.slot_le j y hj
  slot_eq j y hj hne := by
    rw [List.length_set] at hne
    rcases (holds_set hi j y).mp hj with ⟨rfl, rfl⟩ | hj
    · exact heq hne
    · exact h.slot_eq j y hj hne
  shard_eq := h.shard_eq
  block_lt := by rw [List.length_set]; exact h.block_lt
  lastLen_le := h.lastLen_le
  lastLen_ne := h.lastLen_ne

/-! ### Recovering a block -/

/-- What filling one slot does. -/
theorem fill_cases {n lastLen : ℕ} {data : List Shard} {p p' : Pending} {target : ℕ × ℕ}
    (h : fill n lastLen data p target = some p') :
    (p' = p ∧ p.Filled target.1) ∨
    ∃ shard x, p.slots[target.1]? = some none ∧ data[target.2]? = some shard ∧
      x = shard.take (if target.1 = n - 1 then lastLen else FRAGMENT_SIZE) ∧
      p' = { p with
        slots := p.slots.set target.1 (some x)
        received := p.received + 1
        bytes := p.bytes + x.length } := by
  obtain ⟨i, offset⟩ := target
  unfold fill at h
  simp only at h
  split at h
  · cases h
  · rename_i x hx
    cases h
    exact .inl ⟨rfl, x, hx⟩
  · rename_i hnone
    split at h
    · cases h
    · rename_i shard hshard
      cases h
      exact .inr ⟨shard, _, hnone, hshard, rfl, rfl⟩

/-- Filling one slot fills that slot and no other. -/
theorem filled_fill {n lastLen : ℕ} {data : List Shard} {p p' : Pending} {target : ℕ × ℕ}
    (h : fill n lastLen data p target = some p') :
    p'.slots.length = p.slots.length ∧ p'.parity = p.parity ∧
      ∀ i, p'.Filled i ↔ i = target.1 ∨ p.Filled i := by
  rcases fill_cases h with ⟨rfl, hfilled⟩ | ⟨shard, x, hnone, -, -, rfl⟩
  · refine ⟨rfl, rfl, fun i => ⟨.inr, ?_⟩⟩
    rintro (rfl | hi)
    · exact hfilled
    · exact hi
  · refine ⟨List.length_set, rfl, fun i => ⟨?_, ?_⟩⟩
    · rintro ⟨y, hy⟩
      rcases (holds_set hnone i y).mp hy with ⟨hi, -⟩ | hy
      · exact .inl hi
      · exact .inr ⟨y, hy⟩
    · rintro (rfl | ⟨y, hy⟩)
      · exact ⟨x, (holds_set hnone _ _).mpr (.inl ⟨rfl, rfl⟩)⟩
      · exact ⟨y, (holds_set hnone i y).mpr (.inr hy)⟩

/-- The loop that fills the slots of a block fills those and no other. -/
theorem filled_foldlM_fill {n lastLen : ℕ} {data : List Shard} (targets : List (ℕ × ℕ)) :
    ∀ {p p' : Pending}, targets.foldlM (fill n lastLen data) p = some p' →
      p'.slots.length = p.slots.length ∧ p'.parity = p.parity ∧
      ∀ i, p'.Filled i ↔ (∃ target ∈ targets, target.1 = i) ∨ p.Filled i := by
  induction targets with
  | nil =>
    intro p p' h
    rw [Run.nil.mp h]
    simp
  | cons target targets ih =>
    intro p p' h
    obtain ⟨q, hq, hrest⟩ := Run.cons.mp h
    obtain ⟨hlen, hparity, hfilled⟩ := filled_fill hq
    obtain ⟨hlen', hparity', hfilled'⟩ := ih hrest
    refine ⟨hlen'.trans hlen, hparity'.trans hparity, fun i => ?_⟩
    rw [hfilled' i, hfilled i, List.exists_mem_cons_iff, eq_comm (a := i), or_left_comm, or_assoc]

theorem fills_fill {n lastLen : ℕ} {data : List Shard} {p p' : Pending} {target : ℕ × ℕ}
    (hn : p.slots.length = n) (hlast : p.lastLen = some lastLen) (hle : lastLen ≤ FRAGMENT_SIZE)
    (hdata : ∀ s ∈ data, s.length = FRAGMENT_SIZE)
    (h : fill n lastLen data p target = some p') : Fills p p' := by
  rcases fill_cases h with ⟨rfl, -⟩ | ⟨shard, x, hnone, hshard, hx, rfl⟩
  · exact Fills.refl p'
  have hlen : shard.length = FRAGMENT_SIZE := hdata _ (List.mem_of_getElem? hshard)
  refine ⟨rfl, rfl, rfl, rfl, rfl, List.length_set, fun j y hj => ?_, fun y hy => ?_⟩
  · exact (holds_set hnone j y).mpr (.inr hj)
  · rcases (holds_set hnone _ y).mp hy with ⟨hi, rfl⟩ | hy
    · have hi' : target.1 = n - 1 := by omega
      rw [if_pos hi'] at hx
      refine .inr ?_
      rw [hlast, hx, List.length_take, hlen, Nat.min_eq_left hle]
    · exact .inl hy

theorem wellFormed_fill {n lastLen : ℕ} {data : List Shard} {p p' : Pending} {target : ℕ × ℕ}
    (hwf : WellFormed p) (hn : p.slots.length = n)
    (hdata : ∀ s ∈ data, s.length = FRAGMENT_SIZE)
    (h : fill n lastLen data p target = some p') : WellFormed p' := by
  rcases fill_cases h with ⟨rfl, -⟩ | ⟨shard, x, hnone, hshard, hx, rfl⟩
  · exact hwf
  have hlen : shard.length = FRAGMENT_SIZE := hdata _ (List.mem_of_getElem? hshard)
  refine hwf.set hnone ?_ fun hne => ?_
  · rw [hx, List.length_take, hlen]
    exact Nat.min_le_right _ _
  · have hi' : target.1 ≠ n - 1 := by
      have := hwf.nonempty
      omega
    rw [hx, if_neg hi', List.length_take, hlen, Nat.min_self]

/-- The loop that puts the recovered fragments of a block into its slots. -/
theorem foldlM_fill {n lastLen : ℕ} {data : List Shard} {p : Pending} (hwf : WellFormed p)
    (hn : p.slots.length = n) (hlast : p.lastLen = some lastLen)
    (hdata : ∀ s ∈ data, s.length = FRAGMENT_SIZE) (targets : List (ℕ × ℕ))
    (htargets : ∀ target ∈ targets, target.1 < n ∧ target.2 < data.length) :
    ∃ p', targets.foldlM (fill n lastLen data) p = some p' ∧ Fills p p' ∧ WellFormed p' ∧
      ∀ target ∈ targets, p'.Filled target.1 := by
  have hle := hwf.lastLen_le lastLen hlast
  -- what holds of every state of the loop
  let I : Pending → Prop := fun q => Fills p q ∧ WellFormed q
  have hI : ∀ q q' target, I q → fill n lastLen data q target = some q' → I q' := by
    rintro q q' target ⟨hfills, hq⟩ h
    have hqn : q.slots.length = n := hfills.length.trans hn
    exact ⟨hfills.trans (fills_fill hqn (hfills.lastLen.trans hlast) hle hdata h),
      wellFormed_fill hq hqn hdata h⟩
  have hstep : ∀ q target, I q → (target.1 < n ∧ target.2 < data.length) →
      ∃ q', fill n lastLen data q target = some q' ∧ I q' := by
    intro q target hq ⟨hi, hoffset⟩
    have hlt : target.1 < q.slots.length := by rw [hq.1.length, hn]; exact hi
    obtain ⟨q', hq'⟩ : ∃ q', fill n lastLen data q target = some q' := by
      unfold fill
      simp only [List.getElem?_eq_getElem hlt, List.getElem?_eq_getElem hoffset]
      cases q.slots[target.1] with
      | none => exact ⟨_, rfl⟩
      | some x => exact ⟨_, rfl⟩
    exact ⟨q', hq', hI q q' target hq hq'⟩
  obtain ⟨p', hp', hfills, hwf'⟩ := Run.total hstep targets p ⟨Fills.refl p, hwf⟩ htargets
  exact ⟨p', hp', hfills, hwf', fun target htarget =>
    ((filled_foldlM_fill targets hp').2.2 target.1).mpr (.inl ⟨target, htarget, rfl⟩)⟩

/-- The data shards of a block, as far as they are there. -/
def padded (p : Pending) (range : Range) : List (Option Shard) :=
  (range.indices.map fun i => p.slots[i]?.join).map (Option.map fun data => resize data FRAGMENT_SIZE)

/-- The block has enough shards, and not too many for a code. -/
def Recoverable (p : Pending) (b : ℕ) : Prop :=
  ∃ bp, p.parity.lookup b = some bp ∧
    (part p.slots.length b).len ≤ p.filledIn b + bp.shards.countP Option.isSome ∧
    (part p.slots.length b).len + bp.shards.length ≤ 256

theorem filled_iff {p : Pending} {i : ℕ} : p.Filled i ↔ (p.slots[i]?.join).isSome := by
  unfold Filled Holds
  cases p.slots[i]? with
  | none => simp
  | some slot => cases slot <;> simp

/-- A frame has all its fragments when the count says so. -/
theorem WellFormed.complete_iff {p : Pending} (h : WellFormed p) :
    p.slots.length ≤ p.received ↔ ∀ i < p.slots.length, p.Filled i := by
  have heq : p.slots.length ≤ p.slots.countP Option.isSome ↔
      p.slots.countP Option.isSome = p.slots.length :=
    ⟨Nat.le_antisymm List.countP_le_length, fun h => h.ge⟩
  rw [h.received, heq, List.countP_eq_length]
  constructor
  · intro hall i hi
    obtain ⟨x, hx⟩ := Option.isSome_iff_exists.mp (hall _ (List.getElem_mem hi))
    exact ⟨x, by rw [Holds, List.getElem?_eq_getElem hi, hx]⟩
  · intro hall slot hslot
    obtain ⟨i, hi, rfl⟩ := List.getElem_of_mem hslot
    obtain ⟨x, hx⟩ := hall i hi
    rw [Holds, List.getElem?_eq_getElem hi, Option.some.injEq] at hx
    rw [hx]
    rfl

/-- Reading slots that are there. -/
theorem mapM_slots (p : Pending) (l : List ℕ) (hl : ∀ i ∈ l, i < p.slots.length) :
    (l.mapM fun i => p.slots[i]?) = some (l.map fun i => p.slots[i]?.join) := by
  induction l with
  | nil => rfl
  | cons i l ih =>
    have hi := hl i List.mem_cons_self
    rw [List.mapM_cons, ih fun j hj => hl j (List.mem_cons_of_mem _ hj), List.map_cons,
      List.getElem?_eq_getElem hi]
    rfl

/-- A recovery of shards of one size, whoever made them. -/
theorem recover_padded {p : Pending} (hwf : WellFormed p) {b : ℕ} {bp : BlockParity} {code : Code}
    (hbp : p.parity.lookup b = some bp)
    (hcode : Code.cauchy (part p.slots.length b).len bp.shards.length = .ok code)
    (henough : (part p.slots.length b).len ≤ p.filledIn b + bp.shards.countP Option.isSome) :
    ∃ data, code.recover (p.padded (part p.slots.length b) ++ bp.shards) = some data ∧
      data.length = (part p.slots.length b).len ∧ ∀ s ∈ data, s.length = FRAGMENT_SIZE := by
  obtain ⟨hcauchy, hdata, hparity⟩ := Code.isCauchy_of_cauchy hcode
  have hpadded : (p.padded (part p.slots.length b)).countP Option.isSome = p.filledIn b := by
    rw [padded, List.countP_map, List.countP_map, filledIn]
    refine List.countP_congr fun i _ => ?_
    simp
  have hlen : (p.padded (part p.slots.length b) ++ bp.shards).length = code.shards := by
    rw [List.length_append, padded, List.length_map, List.length_map, Range.length_indices,
      Code.shards, hdata, hparity]
  rw [← hdata] at henough ⊢
  refine Code.recover_isSome (Code.IsCauchy.independent hcauchy) hlen ?_ fun s hs => ?_
  · rw [List.countP_append, hpadded]
    exact henough
  · rcases List.mem_append.mp hs with hs | hs
    · obtain ⟨slot, -, hslot⟩ := List.mem_map.mp hs
      obtain ⟨x, -, rfl⟩ := Option.map_eq_some_iff.mp hslot
      exact length_resize _ _
    · exact hwf.shard_eq b bp hbp s hs

/-- What recovering one block did. -/
theorem recoverBlock_cases {p p' : Pending} {n lastLen b : ℕ} (hn : p.slots.length = n)
    (hb : b < blockCount n) (h : recoverBlock n lastLen p (part n b, b) = some p') :
    p' = p ∨ ∃ bp code data, p.parity.lookup b = some bp ∧
      (part n b).len ≤ p.filledIn b + bp.shards.countP Option.isSome ∧
      Code.cauchy (part n b).len bp.shards.length = .ok code ∧
      code.recover (p.padded (part n b) ++ bp.shards) = some data ∧
      (part n b).indices.zipIdx.foldlM (fill n lastLen data) p = some p' := by
  have hmapM := p.mapM_slots (part n b).indices fun i hi => by
    rw [hn]
    exact lt_of_mem_part hb hi
  have hcount : ((part n b).indices.map fun i => p.slots[i]?.join).countP Option.isSome
      = p.filledIn b := by
    rw [List.countP_map, filledIn, hn]
    rfl
  unfold recoverBlock at h
  simp only [hmapM, hcount] at h
  split at h
  · exact .inl (Option.some.inj h).symm
  rename_i bp hbp
  split at h
  · exact .inl (Option.some.inj h).symm
  split at h
  · exact .inl (Option.some.inj h).symm
  rename_i hmany
  split at h
  · exact .inl (Option.some.inj h).symm
  rename_i code hcode
  split at h
  · exact .inl (Option.some.inj h).symm
  rename_i data hdata
  exact .inr ⟨bp, code, data, hbp, Nat.le_of_not_lt hmany, hcode, hdata, h⟩

/-- Recovering one block fills the whole block, which had enough shards, or nothing. -/
theorem filled_recoverBlock {p p' : Pending} {n lastLen b : ℕ} (hn : p.slots.length = n)
    (hb : b < blockCount n) (h : recoverBlock n lastLen p (part n b, b) = some p') :
    p'.slots.length = n ∧ p'.parity = p.parity ∧
      (p' = p ∨ p.Recoverable b ∧ ∀ i, p'.Filled i ↔ i ∈ (part n b).indices ∨ p.Filled i) := by
  rcases recoverBlock_cases hn hb h with rfl | ⟨bp, code, data, hbp, henough, hcode, -, hfill⟩
  · exact ⟨hn, rfl, .inl rfl⟩
  obtain ⟨hlen, hparity, hfilled⟩ := filled_foldlM_fill _ hfill
  have hsize : (part p.slots.length b).len + bp.shards.length ≤ 256 := by
    obtain ⟨hcauchy, hdata, hrows⟩ := Code.isCauchy_of_cauchy hcode
    rw [hn, ← hdata, ← hrows]
    exact hcauchy.1
  refine ⟨hlen.trans hn, hparity, .inr ⟨⟨bp, hbp, by rw [hn]; exact henough, hsize⟩,
    fun i => (hfilled i).trans (or_congr ?_ Iff.rfl)⟩⟩
  constructor
  · rintro ⟨⟨j, offset⟩, htarget, rfl⟩
    exact List.mem_of_getElem? (List.mem_zipIdx_iff_getElem?.mp htarget)
  · intro hi
    obtain ⟨offset, hoffset⟩ := List.mem_iff_getElem?.mp hi
    exact ⟨(i, offset), List.mem_zipIdx_iff_getElem?.mpr hoffset, rfl⟩

/-- **Recovering one block** never fails, and completes it if it has enough shards. -/
theorem recoverBlock_spec {p : Pending} (hwf : WellFormed p) {n lastLen b : ℕ}
    (hn : p.slots.length = n) (hlast : p.lastLen = some lastLen) (hb : b < blockCount n) :
    ∃ p', recoverBlock n lastLen p (part n b, b) = some p' ∧ Fills p p' ∧ WellFormed p' ∧
      (p.Recoverable b → ∀ i ∈ (part n b).indices, p'.Filled i) := by
  subst hn
  set range := part p.slots.length b with hrange
  have hmapM := p.mapM_slots range.indices fun i hi => lt_of_mem_part hb hi
  have hcount : (range.indices.map fun i => p.slots[i]?.join).countP Option.isSome = p.filledIn b := by
    rw [List.countP_map, filledIn]
    rfl
  unfold recoverBlock
  simp only
  cases hbp : p.parity.lookup b with
  | none =>
    refine ⟨p, rfl, Fills.refl p, hwf, ?_⟩
    rintro ⟨bp, hbp', -⟩
    rw [hbp] at hbp'
    cases hbp'
  | some bp =>
    simp only [hmapM, hcount]
    split
    · rename_i hall
      refine ⟨p, rfl, Fills.refl p, hwf, fun _ i hi => ?_⟩
      rw [filled_iff]
      exact List.all_eq_true.mp hall _ (List.mem_map_of_mem hi)
    split
    · rename_i hfew
      refine ⟨p, rfl, Fills.refl p, hwf, ?_⟩
      rintro ⟨bp', hbp', henough, -⟩
      rw [hbp] at hbp'
      cases hbp'
      exact absurd henough (by rw [← hrange]; omega)
    · rename_i hmany
      cases hcode : Code.cauchy range.len bp.shards.length with
      | error e =>
        refine ⟨p, rfl, Fills.refl p, hwf, ?_⟩
        rintro ⟨bp', hbp', -, hsize⟩
        rw [hbp] at hbp'
        cases hbp'
        obtain ⟨code, hcode'⟩ := Code.exists_cauchy (len_part_pos hwf.nonempty b) hsize
        rw [← hrange, hcode] at hcode'
        cases hcode'
      | ok code =>
        obtain ⟨data, hdata, hlen, hsize⟩ := recover_padded hwf hbp hcode (Nat.le_of_not_lt hmany)
        rw [padded, ← hrange] at hdata
        simp only [hdata]
        obtain ⟨p', hp', hfills, hwf', hfilled⟩ := foldlM_fill hwf rfl hlast hsize
          range.indices.zipIdx (by
            rintro ⟨i, offset⟩ htarget
            rw [List.mem_zipIdx_iff_getElem?] at htarget
            refine ⟨lt_of_mem_part hb (List.mem_of_getElem? htarget), ?_⟩
            rw [hlen, ← hrange, ← Range.length_indices]
            exact (List.getElem?_eq_some_iff.mp htarget).1)
        refine ⟨p', hp', hfills, hwf', fun _ i hi => ?_⟩
        obtain ⟨offset, hoffset⟩ := List.mem_iff_getElem?.mp hi
        exact hfilled (i, offset) (List.mem_zipIdx_iff_getElem?.mpr hoffset)

theorem Fills.filledIn_le {p p' : Pending} (h : Fills p p') (b : ℕ) : p.filledIn b ≤ p'.filledIn b := by
  unfold filledIn
  rw [h.length]
  refine List.countP_mono_left fun i _ hi => ?_
  exact filled_iff.mp (h.filled (filled_iff.mpr hi))

theorem Fills.recoverable {p p' : Pending} (h : Fills p p') {b : ℕ} (hb : p.Recoverable b) :
    p'.Recoverable b := by
  obtain ⟨bp, hbp, henough, hsize⟩ := hb
  have hle := h.filledIn_le b
  refine ⟨bp, by rw [h.parity]; exact hbp, ?_, ?_⟩ <;> rw [h.length]
  · omega
  · exact hsize

/-- **Recovery** never fails, only fills empty slots, and completes every block
that has enough shards. -/
theorem recover_spec {p : Pending} (hwf : WellFormed p) :
    ∃ p', p.recover = some p' ∧ Fills p p' ∧ WellFormed p' ∧
      ∀ b < blockCount p.slots.length, p.Recoverable b →
        ∀ i ∈ (part p.slots.length b).indices, p'.Filled i := by
  unfold recover
  simp only
  cases hlast : p.lastLen with
  | none =>
    refine ⟨p, rfl, Fills.refl p, hwf, ?_⟩
    rintro b - ⟨bp, hbp, -⟩
    -- without a recorded length there is no parity at all
    have hempty : p.parity.entries = [] := by
      by_contra hne
      exact hwf.lastLen_ne hne hlast
    have hmem := AList.mem_lookup_iff.mp hbp
    rw [hempty] at hmem
    exact absurd hmem List.not_mem_nil
  | some lastLen =>
    simp only
    set n := p.slots.length with hn
    let I : Pending → Prop := fun q => Fills p q ∧ WellFormed q
    let A : Range × ℕ → Prop := fun target => target.2 < blockCount n ∧ target.1 = part n target.2
    have hspec : ∀ q target, I q → A target → ∃ q', recoverBlock n lastLen q target = some q' ∧
        I q' ∧ (q.Recoverable target.2 → ∀ i ∈ target.1.indices, q'.Filled i) ∧ Fills q q' := by
      rintro q ⟨range, b⟩ ⟨hfills, hq⟩ ⟨hb, hrange⟩
      obtain rfl : range = part n b := hrange
      obtain ⟨q', hq', hfills', hwf', hfilled⟩ := recoverBlock_spec hq (hfills.length.trans hn.symm)
        (hfills.lastLen.trans hlast) hb
      exact ⟨q', hq', ⟨hfills.trans hfills', hwf'⟩, hfilled, hfills'⟩
    have hblocks : ∀ target ∈ (blocks n).zipIdx, A target := fun target h =>
      (mem_zipIdx_blocks hwf.nonempty).mp h
    obtain ⟨p', hp', hfills, hwf'⟩ := Run.total (fun q target hq hA =>
      (hspec q target hq hA).imp fun q' h => ⟨h.1, h.2.1⟩) _ p ⟨Fills.refl p, hwf⟩ hblocks
    refine ⟨p', hp', hfills, hwf', fun b hb hrec => ?_⟩
    have hvisit := Run.visits (I := I) (A := A)
      (Q := fun target q => p.Recoverable target.2 → ∀ i ∈ target.1.indices, q.Filled i) ?_
      _ p p' ⟨Fills.refl p, hwf⟩ hblocks hp'
    · exact hvisit (part n b, b) ((mem_zipIdx_blocks hwf.nonempty).mpr ⟨hb, rfl⟩) hrec
    · intro q target q' hq hA h
      obtain ⟨q'', hq'', hI, hfilled, hfills'⟩ := hspec q target hq hA
      rw [h] at hq''
      cases hq''
      exact ⟨hI, fun hr => hfilled (hq.1.recoverable hr),
        fun _ hd hr i hi => hfills'.filled (hd hr i hi)⟩

/-- Recovery fills whole blocks: where it filled a slot, the block had enough
shards and is complete. -/
theorem filled_recover {p p' : Pending} (hn : 0 < p.slots.length) (h : p.recover = some p') :
    ∀ b < blockCount p.slots.length, ∀ i ∈ (part p.slots.length b).indices, p'.Filled i →
      p.Filled i ∨ p.Recoverable b ∧ ∀ j ∈ (part p.slots.length b).indices, p'.Filled j := by
  unfold recover at h
  simp only at h
  split at h
  · cases h
    exact fun b _ i _ hi => .inl hi
  rename_i lastLen hlast
  set n := p.slots.length with hpn
  let I : Pending → Prop := fun q => q.slots.length = n ∧ q.parity = p.parity ∧
    ∀ b < blockCount n, ∀ i ∈ (part n b).indices, q.Filled i →
      p.Filled i ∨ p.Recoverable b ∧ ∀ j ∈ (part n b).indices, q.Filled j
  refine (Run.invariant (I := I) (A := fun target => target ∈ (blocks n).zipIdx) ?_ _ p p'
    ⟨rfl, rfl, fun b _ i _ hi => .inl hi⟩ (fun target htarget => htarget) h).2.2
  rintro q ⟨range, b₀⟩ q' ⟨hqn, hqparity, hq⟩ htarget hstep
  obtain ⟨hb₀, hrange⟩ := (mem_zipIdx_blocks hn).mp htarget
  obtain rfl : range = part n b₀ := hrange
  obtain ⟨hlen, hparity, rfl | ⟨hrec, hfilled⟩⟩ := filled_recoverBlock hqn hb₀ hstep
  · exact ⟨hqn, hqparity, hq⟩
  refine ⟨hlen, hparity.trans hqparity, fun b hb i hi hi' => ?_⟩
  rcases (hfilled i).mp hi' with hmem | hold
  · -- the slot was filled in this turn, so this is its block
    obtain rfl := part_unique hi hmem
    refine .inr ⟨?_, fun j hj => (hfilled j).mpr (.inl hj)⟩
    by_cases hsame : ∀ j ∈ (part n b).indices, q.Filled j → p.Filled j
    · -- nothing of the block was rebuilt before, so it had enough shards from the start
      obtain ⟨bp, hbp, henough, hsize⟩ : q.Recoverable b := hrec
      rw [hqn] at henough hsize
      have hle : q.filledIn b ≤ p.filledIn b := by
        unfold filledIn
        rw [hqn, ← hpn]
        exact List.countP_mono_left fun j hj hj' => filled_iff.mp (hsame j hj (filled_iff.mpr hj'))
      exact ⟨bp, by rw [← hqparity]; exact hbp, by rw [← hpn]; omega, hsize⟩
    · simp only [not_forall] at hsame
      obtain ⟨j, hj, hjq, hjp⟩ := hsame
      rcases hq b hb j hj hjq with hp | hr
      · exact absurd hp hjp
      · exact hr.1
  · rcases hq b hb i hi hold with hp | ⟨hr, hall⟩
    · exact .inl hp
    · exact .inr ⟨hr, fun j hj => (hfilled j).mpr (.inr (hall j hj))⟩

/-! ### Storing a packet -/

theorem wellFormed_new {header : Header} (h : header.fragments ≠ 0) : WellFormed (new header) := by
  have hlen : (new header).slots.length = header.fragments.toNat := List.length_replicate
  have hholds : ∀ i x, ¬ (new header).Holds i x := by
    intro i x hi
    simp [Holds, new, List.getElem?_replicate] at hi
  refine ⟨?_, ?_, ?_, rfl, fun i x hx => absurd hx (hholds i x), fun i x hx => absurd hx (hholds i x),
    ?_, ?_, ?_, fun hne => absurd rfl hne⟩
  · rw [hlen]
    exact Nat.pos_of_ne_zero fun h0 => h (UInt16.toNat_inj.mp h0)
  · simp [new, List.countP_replicate]
  · simp [new, List.reduceOption]
  · intro b bp hbp
    simp [new] at hbp
  · intro b hb
    exact absurd hb (AList.notMem_empty b)
  · intro l hl
    simp [new] at hl

theorem parse_size {payload : List UInt8} {pre : Prefix} {shard : Shard}
    (h : parse payload = some (pre, shard)) : shard.length = FRAGMENT_SIZE := by
  unfold parse at h
  split at h
  · cases h
  rename_i hlen
  simp only at h
  split at h
  · cases h
  cases h
  rw [List.length_drop, not_not.mp hlen]
  omega

/-- What an admitted data fragment passed. -/
theorem inspect_data {header : Header} {payload : List UInt8}
    (h : inspect header payload = .admitted none) : header.isParity = false ∧
      payload.length ≤ FRAGMENT_SIZE ∧
      (header.fragment.toNat + 1 ≠ header.fragments.toNat → payload.length = FRAGMENT_SIZE) := by
  unfold inspect at h
  simp only at h
  split at h
  · split at h
    · cases h
    split at h
    · cases h
    · cases h
  rename_i hparity
  split at h
  · cases h
  rename_i hsize
  refine ⟨Bool.not_eq_true _ ▸ hparity, ?_, fun hlast => ?_⟩ <;> by_contra hne <;> apply hsize
  · exact .inl (Nat.lt_of_not_le hne)
  · exact .inr ⟨hlast, hne⟩

/-- What an admitted parity packet passed. -/
theorem inspect_parity {header : Header} {payload : List UInt8} {pre : Prefix} {shard : Shard}
    (h : inspect header payload = .admitted (some (pre, shard))) : header.isParity = true ∧
      parse payload = some (pre, shard) ∧ pre.block < (blocks header.fragments.toNat).length := by
  unfold inspect at h
  simp only at h
  split at h
  · rename_i hparity
    split at h
    · cases h
    rename_i parsed hparsed
    split at h
    · cases h
    rename_i hblock
    cases h
    exact ⟨hparity, hparsed, Nat.lt_of_not_le hblock⟩
  · split at h
    · cases h
    · cases h

/-- The parity of the packet's block before it is stored. -/
def entry (p : Pending) (pre : Prefix) : BlockParity :=
  (p.parity.lookup pre.block).getD ⟨List.replicate pre.count none⟩

/-- What storing a packet did. -/
theorem put_stored {p q : Pending} {header : Header} {payload : List UInt8}
    {parsed : Option (Prefix × Shard)} (h : p.put header payload parsed = some (.stored q)) :
    (parsed = none ∧ p.slots[header.fragment.toNat]? = some none ∧
      p.bytes + payload.length ≤ MAX_FRAME ∧
      q = { p with
        slots := p.slots.set header.fragment.toNat (some payload)
        received := p.received + 1
        bytes := p.bytes + payload.length }) ∨
    ∃ pre shard, parsed = some (pre, shard) ∧
      p.parityStored < max header.fragments.toNat 8 ∧ (p.entry pre).shards.length = pre.count ∧
      (p.entry pre).shards[pre.index]? = some none ∧
      q = { p with
        parity := p.parity.insert pre.block ⟨(p.entry pre).shards.set pre.index (some shard)⟩
        parityStored := p.parityStored + 1
        lastLen := some pre.lastLen } := by
  cases parsed with
  | none =>
    unfold put putData at h
    simp only at h
    split at h
    · cases h
    · cases h
    rename_i hslot
    split at h
    · cases h
    rename_i hbytes
    cases h
    exact .inl ⟨rfl, hslot, Nat.le_of_not_lt hbytes, rfl⟩
  | some parsed =>
    obtain ⟨pre, shard⟩ := parsed
    unfold put putParity at h
    simp only at h
    split at h
    · cases h
    rename_i hfull
    split at h
    · cases h
    rename_i hcount
    split at h
    · cases h
    · cases h
    rename_i hshard
    cases h
    exact .inr ⟨pre, shard, rfl, Nat.lt_of_not_le hfull, not_not.mp hcount, hshard, rfl⟩

/-- Storing a packet of the right frame never indexes out of range. -/
theorem put_isSome {p : Pending} {header : Header} {payload : List UInt8}
    {parsed : Option (Prefix × Shard)} (hslots : p.slots.length = header.fragments.toNat)
    (hpos : header.IsPosition) (hparsed : inspect header payload = .admitted parsed) :
    ∃ r, p.put header payload parsed = some r := by
  cases parsed with
  | none =>
    have hlt : header.fragment.toNat < p.slots.length := by
      rw [hslots]
      exact UInt16.lt_iff_toNat_lt.mp (hpos.2 (inspect_data hparsed).1)
    unfold put putData
    simp only [List.getElem?_eq_getElem hlt]
    cases p.slots[header.fragment.toNat] with
    | some x => exact ⟨_, rfl⟩
    | none =>
      simp only
      split <;> exact ⟨_, rfl⟩
  | some parsed =>
    obtain ⟨pre, shard⟩ := parsed
    unfold put putParity
    simp only
    split
    · exact ⟨_, rfl⟩
    split
    · exact ⟨_, rfl⟩
    rename_i hcount
    have hlt : pre.index < (p.entry pre).shards.length :=
      lt_of_lt_of_eq pre.index_lt (not_not.mp hcount).symm
    rw [← entry, List.getElem?_eq_getElem hlt]
    cases (p.entry pre).shards[pre.index] with
    | some x => exact ⟨_, rfl⟩
    | none => exact ⟨_, rfl⟩

/-- The shards that the packet's block holds, none if it has no entry yet. -/
theorem entry_eq {p : Pending} {pre : Prefix} {s : Shard} (h : some s ∈ (p.entry pre).shards) :
    ∃ bp, p.parity.lookup pre.block = some bp ∧ some s ∈ bp.shards := by
  unfold entry at h
  cases hbp : p.parity.lookup pre.block with
  | none =>
    rw [hbp] at h
    exact absurd (List.eq_of_mem_replicate h) (by simp)
  | some bp =>
    rw [hbp] at h
    exact ⟨bp, rfl, h⟩

/-- **Storing a packet keeps the invariant.** -/
theorem wellFormed_put {p q : Pending} {header : Header} {payload : List UInt8}
    {parsed : Option (Prefix × Shard)} (hwf : WellFormed p)
    (hslots : p.slots.length = header.fragments.toNat)
    (hparsed : inspect header payload = .admitted parsed)
    (h : p.put header payload parsed = some (.stored q)) : WellFormed q := by
  rcases put_stored h with ⟨rfl, hslot, -, rfl⟩ | ⟨pre, shard, rfl, -, hcount, hshard, rfl⟩
  · obtain ⟨-, hle, heq⟩ := inspect_data hparsed
    exact hwf.set hslot hle (by rw [hslots]; exact heq)
  obtain ⟨-, hparse, hblock⟩ := inspect_parity hparsed
  have hblock' : pre.block < blockCount p.slots.length := by
    rwa [← hslots, length_blocks hwf.nonempty] at hblock
  refine ⟨hwf.nonempty, hwf.received, hwf.bytes, ?_, hwf.slot_le, hwf.slot_eq, ?_, ?_, ?_, ?_⟩
  · -- the block has one shard more
    have htotal := KeyedSum.total_insert (fun b : BlockParity => b.shards.countP Option.isSome)
      p.parity pre.block ⟨(p.entry pre).shards.set pre.index (some shard)⟩
    have hold : ((p.parity.lookup pre.block).map fun b => b.shards.countP Option.isSome).getD 0
        = (p.entry pre).shards.countP Option.isSome := by
      unfold entry
      cases p.parity.lookup pre.block with
      | none => simp [List.countP_replicate]
      | some bp => rfl
    simp only [hold, countP_set hshard] at htotal
    rw [← hwf.parityStored] at htotal
    simp only
    omega
  · intro b bp hbp s hs
    simp only at hbp
    by_cases hb : b = pre.block
    · subst hb
      rw [AList.lookup_insert] at hbp
      cases hbp
      rcases List.mem_or_eq_of_mem_set hs with hs | hs
      · obtain ⟨bp, hbp, hmem⟩ := entry_eq hs
        exact hwf.shard_eq _ bp hbp s hmem
      · cases hs
        exact parse_size hparse
    · rw [AList.lookup_insert_ne hb] at hbp
      exact hwf.shard_eq b bp hbp s hs
  · intro b hb
    rcases (AList.mem_insert _).mp hb with rfl | hb
    · exact hblock'
    · exact hwf.block_lt b hb
  · intro l hl
    cases hl
    exact pre.lastLen_le
  · intro _ hnone
    cases hnone

/-- `p'` is `q` after recovery. -/
structure Recovers (q p' : Pending) : Prop where
  eq : p' = q ∨ q.recover = some p'
  fills : Fills q p'
  wellFormed : WellFormed p'
  complete : ∀ b < blockCount q.slots.length, q.Recoverable b →
    ∀ i ∈ (part q.slots.length b).indices, p'.Filled i

/-- What adding a packet did: it was stored, and then fragments were recovered. -/
theorem add_stored {p p' : Pending} {header : Header} {payload : List UInt8}
    {parsed : Option (Prefix × Shard)} {recovered : ℕ} (hwf : WellFormed p)
    (hslots : p.slots.length = header.fragments.toNat)
    (hparsed : inspect header payload = .admitted parsed)
    (h : p.add header payload parsed = some (.stored p' recovered)) :
    ∃ q, p.put header payload parsed = some (.stored q) ∧ WellFormed q ∧ Recovers q p' ∧
      recovered = p'.received - q.received := by
  unfold add at h
  split at h
  · cases h
  · cases h
  · cases h
  rename_i q hput
  have hq := wellFormed_put hwf hslots hparsed hput
  split at h
  · rename_i hempty
    cases h
    refine ⟨p', hput, hq, ⟨.inl rfl, Fills.refl p', hq, ?_⟩, (Nat.sub_self _).symm⟩
    rintro b - ⟨bp, hbp, -⟩
    have hmem := AList.mem_lookup_iff.mp hbp
    rw [hempty.2] at hmem
    exact absurd hmem List.not_mem_nil
  · obtain ⟨q', hq', hfills, hwf', hcomplete⟩ := recover_spec hq
    rw [hq'] at h
    cases h
    exact ⟨q, hput, hq, ⟨.inr hq', hfills, hwf', hcomplete⟩, rfl⟩

/-- Adding a packet of the right frame never fails. -/
theorem add_isSome {p : Pending} {header : Header} {payload : List UInt8}
    {parsed : Option (Prefix × Shard)} (hwf : WellFormed p)
    (hslots : p.slots.length = header.fragments.toNat) (hpos : header.IsPosition)
    (hparsed : inspect header payload = .admitted parsed) :
    ∃ r, p.add header payload parsed = some r := by
  obtain ⟨r, hput⟩ := put_isSome hslots hpos hparsed
  unfold add
  rw [hput]
  cases r with
  | ignored => exact ⟨_, rfl⟩
  | refused e => exact ⟨_, rfl⟩
  | stored q =>
    simp only
    split
    · exact ⟨_, rfl⟩
    · obtain ⟨q', hq', -⟩ := recover_spec (wellFormed_put hwf hslots hparsed hput)
      rw [hq']
      exact ⟨_, rfl⟩

/-- Storing a packet changes neither the frame's number and time nor how many
fragments it has. -/
theorem frame_put {p q : Pending} {header : Header} {payload : List UInt8}
    {parsed : Option (Prefix × Shard)} (h : p.put header payload parsed = some (.stored q)) :
    q.frame = p.frame ∧ q.sentUs = p.sentUs ∧ q.slots.length = p.slots.length := by
  rcases put_stored h with ⟨-, -, -, rfl⟩ | ⟨pre, shard, -, -, -, -, rfl⟩
  · exact ⟨rfl, rfl, List.length_set⟩
  · exact ⟨rfl, rfl, rfl⟩

end WindowCast.Bud.Pending
