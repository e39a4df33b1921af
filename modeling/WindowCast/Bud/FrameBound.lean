import WindowCast.Bud.Reassembly
import WindowCast.Bud.Sent

/-!
# How long a delivered frame is

A frame of 14539 fragments has room for more than `MAX_FRAME` bytes.  Storing a
data fragment checks the bytes, recovering one does not.

## Main definitions

* `Reassembler.Overlong` — a packet with which parity completes such a frame.

## Main results

* `Reassembler.overlong_iff` — when a push delivers more than `MAX_FRAME` bytes.
* `History.run_frames_le_iff` — **when no frame of a run is longer than `MAX_FRAME`.**
* `History.overrun_delivers_longer` — a run with a frame that is.
-/

namespace WindowCast.Bud

open WindowCast.Fec

namespace Pending

/-- The packet is something new for the frame, and is not refused. -/
def Takes (p : Pending) (header : Header) (payload : List UInt8) : Option (Prefix × Shard) → Prop
  | none => p.slots[header.fragment.toNat]? = some none ∧ p.bytes + payload.length ≤ MAX_FRAME
  | some (pre, _) => p.parityStored < max header.fragments.toNat 8 ∧
      (p.entry pre).shards.length = pre.count ∧ (p.entry pre).shards[pre.index]? = some none

/-- The frame with the packet in it. -/
def taken (p : Pending) (header : Header) (payload : List UInt8) :
    Option (Prefix × Shard) → Pending
  | none => { p with
      slots := p.slots.set header.fragment.toNat (some payload)
      received := p.received + 1
      bytes := p.bytes + payload.length }
  | some (pre, shard) => { p with
      parity := p.parity.insert pre.block ⟨(p.entry pre).shards.set pre.index (some shard)⟩
      parityStored := p.parityStored + 1
      lastLen := some pre.lastLen }

theorem length_taken (p : Pending) (header : Header) (payload : List UInt8)
    (parsed : Option (Prefix × Shard)) :
    (p.taken header payload parsed).slots.length = p.slots.length := by
  cases parsed with
  | none => exact List.length_set
  | some parsed => rfl

theorem filledIn_taken_parity (p : Pending) (header : Header) (payload : List UInt8)
    (parsed : Prefix × Shard) (b : ℕ) :
    (p.taken header payload (some parsed)).filledIn b = p.filledIn b := rfl

/-- What storing a packet does, as a condition and a value. -/
theorem put_eq_stored_iff {p q : Pending} {header : Header} {payload : List UInt8}
    {parsed : Option (Prefix × Shard)} : p.put header payload parsed = some (.stored q) ↔
      p.Takes header payload parsed ∧ q = p.taken header payload parsed := by
  constructor
  · intro h
    rcases put_stored h with ⟨rfl, hslot, hbytes, rfl⟩ | ⟨pre, shard, rfl, hfew, hcount, hnone, rfl⟩
    · exact ⟨⟨hslot, hbytes⟩, rfl⟩
    · exact ⟨⟨hfew, hcount, hnone⟩, rfl⟩
  · rintro ⟨htakes, rfl⟩
    cases parsed with
    | none =>
      obtain ⟨hslot, hbytes⟩ := htakes
      simp only [put, putData, hslot]
      rw [if_neg (Nat.not_lt_of_le hbytes)]
      rfl
    | some parsed =>
      obtain ⟨pre, shard⟩ := parsed
      obtain ⟨hfew, hcount, hnone⟩ := htakes
      unfold entry at hcount hnone
      simp only [put, putParity, hnone]
      rw [if_neg (Nat.not_le_of_lt hfew), if_neg (not_not.mpr hcount)]
      rfl

/-- How long the last fragment is, or will be when it is rebuilt. -/
def lastSize (p : Pending) : ℕ :=
  match p.slots[p.slots.length - 1]?.join with
  | some x => x.length
  | none => p.lastLen.getD 0

theorem Fills.length_last {q p' : Pending} (h : Fills q p') {x : List UInt8}
    (hx : p'.Holds (q.slots.length - 1) x) : x.length = q.lastSize := by
  unfold lastSize
  cases hslot : q.slots[q.slots.length - 1]?.join with
  | some y =>
    have hy : q.Holds (q.slots.length - 1) y := Option.join_eq_some_iff.mp hslot
    have heq := h.holds _ y hy
    rw [Holds, hx] at heq
    cases heq
    rfl
  | none =>
    rcases h.last x hx with hq | hq
    · rw [hq] at hslot
      cases hslot
    · rw [hq]
      rfl

/-- Fragments that are all there, and all of one size. -/
theorem length_flatten_reduceOption {size : ℕ} :
    ∀ {slots : List (Option (List UInt8))}, (∀ s ∈ slots, ∃ x, s = some x ∧ x.length = size) →
      slots.reduceOption.flatten.length = slots.length * size := by
  intro slots
  induction slots with
  | nil => exact fun _ => (Nat.zero_mul size).symm
  | cons s slots ih =>
    intro h
    obtain ⟨x, rfl, hx⟩ := h s List.mem_cons_self
    rw [List.reduceOption_cons_of_some, List.flatten_cons, List.length_append, hx,
      ih fun s hs => h s (List.mem_cons_of_mem _ hs), List.length_cons]
    ring

/-- How long the data of a complete frame is. -/
theorem WellFormed.length_data {p : Pending} (h : WellFormed p)
    (hall : ∀ i < p.slots.length, p.Filled i) {x : List UInt8}
    (hx : p.Holds (p.slots.length - 1) x) :
    p.slots.reduceOption.flatten.length = (p.slots.length - 1) * FRAGMENT_SIZE + x.length := by
  have hpos := h.nonempty
  obtain ⟨before, after, hsplit, hlen⟩ := Reassembler.split_of_getElem? hx
  -- nothing comes after the last fragment
  have hafter : after = [] := by
    have hcount := congrArg List.length hsplit
    rw [List.length_append, List.length_cons] at hcount
    exact List.length_eq_zero_iff.mp (by omega)
  subst hafter
  have hbefore : ∀ s ∈ before, ∃ y, s = some y ∧ y.length = FRAGMENT_SIZE := by
    intro s hs
    obtain ⟨i, hi, rfl⟩ := List.getElem_of_mem hs
    obtain ⟨y, hy⟩ := hall i (by omega)
    refine ⟨y, ?_, h.slot_eq i y hy (by omega)⟩
    rw [Holds, hsplit, List.getElem?_append_left hi, List.getElem?_eq_getElem hi] at hy
    exact Option.some.inj hy
  have hfront := length_flatten_reduceOption hbefore
  rw [← hlen, ← hfront]
  conv_lhs => rw [hsplit]
  rw [List.reduceOption_append, List.flatten_append, List.length_append,
    List.reduceOption_cons_of_some, List.flatten_cons, List.length_append]
  rfl

/-- With all that parity can rebuild, a complete frame of 14539 fragments whose
last one is longer than 364 bytes: 14538 fragments and 364 bytes are
`MAX_FRAME` bytes. -/
structure Oversized (q : Pending) : Prop where
  fragments : q.slots.length = 14539
  last : 364 < q.lastSize
  blocks : ∀ b < blockCount q.slots.length,
    (∀ i ∈ (part q.slots.length b).indices, q.Filled i) ∨ q.Recoverable b

/-- Recovery completes a frame of which every block is there or has enough shards. -/
theorem Recovers.complete_iff {q p' : Pending} (hrec : q.Recovers p') (hn : 0 < q.slots.length) :
    (∀ i < q.slots.length, p'.Filled i) ↔ ∀ b < blockCount q.slots.length,
      (∀ i ∈ (part q.slots.length b).indices, q.Filled i) ∨ q.Recoverable b := by
  constructor
  · intro hall b hb
    rcases hrec.eq with rfl | hrecover
    · exact .inl fun i hi => hall i (lt_of_mem_part hb hi)
    rcases Classical.em (q.Recoverable b) with hyes | hno
    · exact .inr hyes
    refine .inl fun i hi => ?_
    rcases filled_recover hn hrecover b hb i hi (hall i (lt_of_mem_part hb hi)) with h | h
    · exact h
    · exact absurd h.1 hno
  · intro hblocks i hi
    obtain ⟨b, hb, hmem⟩ := exists_part hi
    rcases hblocks b hb with hfilled | hrecoverable
    · exact hrec.fills.filled (hfilled i hmem)
    · exact hrec.complete b hb hrecoverable i hmem

/-- **When recovery makes a frame of more than `MAX_FRAME` bytes.** -/
theorem Recovers.oversized_iff {q p' : Pending} (hrec : q.Recovers p') (hn : 0 < q.slots.length)
    (hcount : q.slots.length * FRAGMENT_SIZE ≤ MAX_FRAME + FRAGMENT_SIZE) :
    (p'.slots.length ≤ p'.received ∧ MAX_FRAME < p'.slots.reduceOption.flatten.length) ↔
      q.Oversized := by
  have hlen : p'.slots.length = q.slots.length := hrec.fills.length
  -- the length of the frame, once it is complete
  have hdata : p'.slots.length ≤ p'.received → p'.slots.reduceOption.flatten.length
      = (q.slots.length - 1) * FRAGMENT_SIZE + q.lastSize ∧ q.lastSize ≤ FRAGMENT_SIZE := by
    intro hcomplete
    have hall := hrec.wellFormed.complete_iff.mp hcomplete
    obtain ⟨x, hx⟩ := hall (p'.slots.length - 1) (by omega)
    have hlast := hrec.fills.length_last (hlen ▸ hx)
    rw [hrec.wellFormed.length_data hall hx, hlen, ← hlast]
    exact ⟨rfl, hrec.wellFormed.slot_le _ x hx⟩
  rw [fragmentSize_eq, maxFrame_eq] at hcount
  constructor
  · rintro ⟨hcomplete, hlong⟩
    obtain ⟨hsize, hle⟩ := hdata hcomplete
    rw [hsize, maxFrame_eq, fragmentSize_eq] at hlong
    rw [fragmentSize_eq] at hle
    refine ⟨by omega, by omega, (hrec.complete_iff hn).mp ?_⟩
    rw [← hlen]
    exact hrec.wellFormed.complete_iff.mp hcomplete
  · rintro ⟨hfragments, hlast, hblocks⟩
    have hcomplete : p'.slots.length ≤ p'.received := by
      rw [hrec.wellFormed.complete_iff, hlen]
      exact (hrec.complete_iff hn).mpr hblocks
    refine ⟨hcomplete, ?_⟩
    rw [(hdata hcomplete).1, hfragments, maxFrame_eq, fragmentSize_eq]
    omega

end Pending

/-- The entry of the packet's frame, or the one that is made for it. -/
def StreamState.entry (st : StreamState) (header : Header) : Pending :=
  (st.pending.find? fun p => p.frame = header.frame).getD (Pending.new header)

theorem StreamState.entry_of_none {st : StreamState} {header : Header}
    (hnone : ∀ p ∈ st.pending, p.frame ≠ header.frame) : st.entry header = Pending.new header := by
  have hfind : st.pending.find? (fun q => q.frame = header.frame) = none := by
    rw [List.find?_eq_none]
    intro q hq hframe
    exact hnone q hq (decide_eq_true_eq.mp hframe)
  rw [StreamState.entry, hfind]
  rfl

theorem StreamState.Inv.entry_of_split {st : StreamState} (h : st.Inv) {header : Header}
    {before after : List Pending} {p : Pending} (hsplit : st.pending = before ++ p :: after)
    (hframe : p.frame = header.frame) : st.entry header = p := by
  have hdistinct := h.distinct
  rw [hsplit, List.map_append, List.map_cons] at hdistinct
  have hbefore : before.find? (fun q => q.frame = header.frame) = none := by
    rw [List.find?_eq_none]
    intro q hq hqframe
    rw [decide_eq_true_eq, ← hframe] at hqframe
    exact (List.nodup_append.mp hdistinct).2.2 _ (List.mem_map_of_mem hq) _ List.mem_cons_self hqframe
  have hcons : (p :: after).find? (fun q => q.frame = header.frame) = some p :=
    List.find?_cons_of_pos (decide_eq_true hframe)
  rw [StreamState.entry, hsplit, List.find?_append, hbefore, Option.none_or, hcons]
  rfl

theorem StreamState.Inv.entry_of_located {st : StreamState} (h : st.Inv) {header : Header}
    {before after : List Pending} {p : Pending} {dropped : ℕ}
    (hloc : Reassembler.Located st.pending header before p after dropped) :
    st.entry header = p := by
  cases hloc with
  | found hsplit hframe => exact h.entry_of_split hsplit hframe
  | created hnone =>
    exact entry_of_none hnone

namespace Reassembler

/-- The packet is one with which parity completes an oversized frame. -/
def Overlong (self : Reassembler) (header : Header) (payload : List UInt8) : Prop :=
  ∃ parsed, inspect header payload = .admitted parsed ∧
    (self.streams header.stream).late header.frame = false ∧
    ((self.streams header.stream).entry header).slots.length = header.fragments.toNat ∧
    ((self.streams header.stream).entry header).Takes header payload parsed ∧
    (((self.streams header.stream).entry header).taken header payload parsed).Oversized

/-- The packet that completes an oversized frame is stored. -/
theorem Overlong.add {self : Reassembler} (hinv : self.Inv) {header : Header} {payload : List UInt8}
    {parsed : Option (Prefix × Shard)} {before after : List Pending} {p : Pending} {dropped : ℕ}
    (hpos : header.IsPosition) (hparsed : inspect header payload = .admitted parsed)
    (hloc : Located (self.streams header.stream).pending header before p after dropped)
    (ho : self.Overlong header payload) :
    ∃ p' recovered, p.add header payload parsed = some (.stored p' recovered) := by
  obtain ⟨parsed', hparsed', hlate, hslots, htakes, -⟩ := ho
  rw [hparsed] at hparsed'
  cases hparsed'
  rw [(hinv header.stream).entry_of_located hloc] at hslots htakes
  have hwf := ((hinv header.stream).located hpos hlate hloc).1.wellFormed p
    (List.mem_append_right _ List.mem_cons_self)
  have hput := Pending.put_eq_stored_iff.mpr ⟨htakes, rfl⟩
  unfold Pending.add
  rw [hput]
  simp only
  split
  · exact ⟨_, _, rfl⟩
  · obtain ⟨q', hq', -⟩ := Pending.recover_spec (Pending.wellFormed_put hwf hslots hparsed hput)
    rw [hq']
    exact ⟨_, _, rfl⟩

/-- **When a push delivers more than `MAX_FRAME` bytes.** -/
theorem overlong_iff {self self' : Reassembler} (hinv : self.Inv) {header : Header}
    {payload : List UInt8} {out : Pushed} (hpos : header.IsPosition)
    (hpush : self.push header payload = some (out, self')) :
    (∃ g, delivery out = some g ∧ MAX_FRAME < g.data.length) ↔ self.Overlong header payload := by
  have hst := hinv header.stream
  -- what the exits that store a packet come to
  have hstored : ∀ {parsed before p after dropped p' recovered},
      inspect header payload = .admitted parsed →
      (self.streams header.stream).late header.frame = false →
      Located (self.streams header.stream).pending header before p after dropped →
      p.add header payload parsed = some (.stored p' recovered) →
      ((p'.slots.length ≤ p'.received ∧ MAX_FRAME < p'.slots.reduceOption.flatten.length) ↔
        self.Overlong header payload) := by
    intro parsed before p after dropped p' recovered hparsed hlate hloc hadd
    obtain ⟨hinv', -, hslots⟩ := hst.located hpos hlate hloc
    have hmem : p ∈ before ++ p :: after := List.mem_append_right _ List.mem_cons_self
    obtain ⟨q, hput, hq, hrec, -⟩ :=
      Pending.add_stored (hinv'.wellFormed p hmem) hslots hparsed hadd
    have hcount := hinv'.count_le p hmem
    rw [← (Pending.frame_put hput).2.2] at hcount
    rw [hrec.oversized_iff hq.nonempty hcount]
    obtain ⟨htakes, rfl⟩ := Pending.put_eq_stored_iff.mp hput
    unfold Overlong
    rw [hst.entry_of_located hloc]
    constructor
    · exact fun ho => ⟨parsed, hparsed, hlate, hslots, htakes, ho⟩
    · rintro ⟨parsed', hparsed', -, -, -, ho⟩
      rw [hparsed] at hparsed'
      cases hparsed'
      exact ho
  -- and those that do not
  have hnothing : ∀ {out : Pushed}, delivery out = none → ¬ self.Overlong header payload →
      ((∃ g, delivery out = some g ∧ MAX_FRAME < g.data.length) ↔ self.Overlong header payload) := by
    intro out hout hnot
    rw [hout]
    refine ⟨?_, fun ho => absurd ho hnot⟩
    rintro ⟨g, hg, -⟩
    cases hg
  cases push_exit hpush with
  | ignored h | refused h =>
    refine hnothing rfl fun ⟨parsed, hparsed, _⟩ => ?_
    rw [h] at hparsed
    cases hparsed
  | late h =>
    refine hnothing rfl fun ⟨parsed, _, hlate, _⟩ => ?_
    rw [h] at hlate
    cases hlate
  | tooMany hparsed hlate hnone hsize =>
    refine hnothing rfl fun ⟨parsed, _, _, hslots, _, ho⟩ => ?_
    -- 14539 fragments are not too many
    have hfragments := ho.fragments
    rw [Pending.length_taken, hslots] at hfragments
    rw [hfragments, maxFrame_eq, fragmentSize_eq] at hsize
    omega
  | disagreed hparsed hlate hsplit hframe hslots =>
    refine hnothing rfl fun ⟨parsed, _, _, hslots', _⟩ => hslots ?_
    rwa [hst.entry_of_split hsplit hframe] at hslots'
  | gaveUp hparsed hlate hloc hadd | nothingNew hparsed hlate hloc hadd =>
    refine hnothing rfl fun ho => ?_
    obtain ⟨p', recovered, hadd'⟩ := ho.add hinv hpos hparsed hloc
    rw [hadd] at hadd'
    cases hadd'
  | kept hparsed hlate hloc hadd hmissing =>
    exact hnothing rfl fun ho =>
      absurd ((hstored hparsed hlate hloc hadd).mpr ho).1 (Nat.not_le_of_lt hmissing)
  | delivered hparsed hlate hloc hadd hcomplete =>
    rw [← hstored hparsed hlate hloc hadd]
    constructor
    · rintro ⟨g, hg, hlong⟩
      cases hg
      exact ⟨Nat.le_of_not_lt hcomplete, hlong⟩
    · rintro ⟨-, hlong⟩
      exact ⟨_, rfl, hlong⟩

end Reassembler

namespace History

theorem push_of_step {h h' : History} {header : Header} {payload : List UInt8}
    (hstep : h.step (.push header payload) = some h') : ∃ out r,
      h.reassembler.push header payload = some (out, r) ∧
      h' = ⟨r, h.created + (h.reassembler.creates header payload).toNat, h.returned ++ [out]⟩ := by
  unfold step at hstep
  simp only at hstep
  split at hstep
  · cases hstep
  rename_i out r hpush
  exact ⟨out, r, hpush, (Option.some.inj hstep).symm⟩

theorem abandon_of_step {h h' : History} {stream : UInt16} {frame : UInt32}
    (hstep : h.step (.abandon stream frame) = some h') : h'.frames = h.frames := by
  cases hstep
  rfl

theorem inv_of_run {events : List Event} (hevents : ∀ event ∈ events, Decodes event) {h : History}
    (hrun : run events = some h) : h.Inv := by
  obtain ⟨h', hrun', hinv⟩ := Run.total (fun h event hinv hevent => Inv.step hinv event hevent)
    events new inv_new hevents
  rw [run, hrun'] at hrun
  cases hrun
  exact hinv

/-- No push of the events completes an oversized frame. -/
def NeverOverlong : List Event → Prop :=
  Run.Always fun before event => ∀ header payload, event = .push header payload →
    ∀ h, run before = some h → ¬ h.reassembler.Overlong header payload

/-- **When no frame is longer than `MAX_FRAME`**: in every run, whatever the
packets say, exactly if no packet is one with which parity completes an
oversized frame. -/
theorem run_frames_le_iff (events : List Event)
    (hevents : ∀ header payload, .push header payload ∈ events →
      ∃ datagram, Header.decode datagram = .ok header) :
    ∃ h, run events = some h ∧
      ((∀ g ∈ h.frames, g.data.length ≤ MAX_FRAME) ↔ NeverOverlong events) := by
  suffices hsuff : ∃ h, run events = some h ∧ h.Inv ∧
      ((∀ g ∈ h.frames, g.data.length ≤ MAX_FRAME) ↔ NeverOverlong events) by
    obtain ⟨h, hrun, -, hiff⟩ := hsuff
    exact ⟨h, hrun, hiff⟩
  induction events using List.reverseRecOn with
  | nil =>
    exact ⟨new, rfl, inv_new, fun _ => Run.always_nil, fun _ g hg => absurd hg List.not_mem_nil⟩
  | append_singleton events event ih =>
    obtain ⟨h, hrun, hinv, hiff⟩ := ih fun header payload hmem =>
      hevents header payload (List.mem_append_left _ hmem)
    have hdecodes : Decodes event := by
      cases event with
      | push header payload => exact hevents header payload (List.mem_append_right _ List.mem_cons_self)
      | abandon stream frame => trivial
    obtain ⟨h', hstep, hinv'⟩ := hinv.step event hdecodes
    refine ⟨h', Run.snoc.mpr ⟨h, hrun, hstep⟩, hinv', ?_⟩
    have hsnoc : NeverOverlong (events ++ [event]) ↔ NeverOverlong events ∧
        ∀ header payload, event = .push header payload →
          ¬ h.reassembler.Overlong header payload := by
      refine Run.always_concat.trans (and_congr_right fun _ => forall₃_congr fun _ _ _ => ?_)
      constructor
      · exact fun hall => hall h hrun
      · intro hnot h' hrun'
        rw [hrun] at hrun'
        cases hrun'
        exact hnot
    rw [hsnoc, ← hiff]
    cases event with
    | push header payload =>
      obtain ⟨out, r, hpush, rfl⟩ := push_of_step hstep
      obtain ⟨datagram, hdecode⟩ := hdecodes
      have hstep' := Reassembler.overlong_iff hinv.streams (Header.isPosition_of_decode hdecode) hpush
      rw [frames_append]
      constructor
      · intro hall
        refine ⟨fun g hg => hall g (List.mem_append_left _ hg), ?_⟩
        rintro header' payload' heq ho
        cases heq
        obtain ⟨g, hg, hlong⟩ := hstep'.mpr ho
        exact absurd (hall g (List.mem_append_right _ (by simp [hg]))) (Nat.not_le_of_lt hlong)
      · rintro ⟨hall, hnot⟩ g hg
        rcases List.mem_append.mp hg with hg | hg
        · exact hall g hg
        · by_contra hlong
          exact hnot header payload rfl
            (hstep'.mp ⟨g, by simpa using hg, Nat.lt_of_not_le hlong⟩)
    | abandon stream frame =>
      rw [abandon_of_step hstep]
      exact ⟨fun hall => ⟨hall, fun _ _ heq => nomatch heq⟩, fun h => h.1⟩

/-- A frame of one fragment. -/
theorem run_frames_le_iff_one :
    ∃ h, run [.push ⟨0, 1, 0, 0, 1, 0, 500⟩ [1, 2, 3]] = some h ∧
      ((∀ g ∈ h.frames, g.data.length ≤ MAX_FRAME) ↔
        NeverOverlong [.push ⟨0, 1, 0, 0, 1, 0, 500⟩ [1, 2, 3]]) :=
  run_frames_le_iff [.push ⟨0, 1, 0, 0, 1, 0, 500⟩ [1, 2, 3]] (by
    intro header payload hmem
    obtain ⟨rfl, -⟩ := Event.push.inj (List.mem_singleton.mp hmem)
    exact ⟨_, (Header.decode_encode_append _ []).trans (if_pos (by decide))⟩)

/-! ### The longest frame -/

/-- A full fragment. -/
def fullFragment : List UInt8 := List.replicate FRAGMENT_SIZE 0

def dataHeader (i : ℕ) : Header := ⟨0, 1, 0, UInt16.ofNat i, 14539, 0, 0⟩

def parityHeader : Header := ⟨FLAG_PARITY, 1, 0, 0, 14539, 0, 0⟩

/-- All fragments but the last of 14539 full ones, and a parity shard for the last block. -/
def overrun : List Event :=
  (List.range 14538).map (fun i => .push (dataHeader i) fullFragment)
    ++ [.push parityHeader (parityPayload 113 0 1 FRAGMENT_SIZE fullFragment)]

/-- The frame of `overrun` after `k` fragments. -/
def filling (k : ℕ) : Pending where
  frame := 0
  sentUs := 0
  slots := List.replicate k (some fullFragment) ++ List.replicate (14539 - k) none
  received := k
  bytes := k * FRAGMENT_SIZE
  parity := ∅
  parityStored := 0
  lastLen := none

theorem length_fullFragment : fullFragment.length = FRAGMENT_SIZE := List.length_replicate

theorem toNat_dataHeader {i : ℕ} (hi : i < 14539) : (dataHeader i).fragment.toNat = i := by
  rw [dataHeader, UInt16.toNat_ofNat', Nat.mod_eq_of_lt (by omega)]

theorem length_filling {k : ℕ} (hk : k ≤ 14539) : (filling k).slots.length = 14539 := by
  rw [filling, List.length_append, List.length_replicate, List.length_replicate]
  omega

theorem filled_filling {k i : ℕ} (hi : i < k) : (filling k).Filled i := by
  refine ⟨fullFragment, ?_⟩
  rw [Pending.Holds, filling, List.getElem?_append_left (by rwa [List.length_replicate]),
    List.getElem?_replicate, if_pos hi]

theorem slots_filling {k : ℕ} (hk : k < 14539) : (filling k).slots[k]? = some none := by
  rw [filling, List.getElem?_append_right (by rw [List.length_replicate]), List.length_replicate,
    Nat.sub_self, List.getElem?_replicate, if_pos (by omega)]

theorem new_dataHeader (i : ℕ) : Pending.new (dataHeader i) = filling 0 := by
  rw [Pending.new, filling, List.replicate_zero, List.nil_append, Nat.zero_mul]
  rfl

theorem inspect_dataHeader (i : ℕ) : inspect (dataHeader i) fullFragment = .admitted none := by
  unfold inspect
  simp only [length_fullFragment]
  rw [if_neg (by simp [dataHeader, Header.isParity]), if_neg (by simp)]

theorem taken_filling {k : ℕ} (hk : k < 14539) :
    (filling k).taken (dataHeader k) fullFragment none = filling (k + 1) := by
  have hslots : (filling k).slots.set k (some fullFragment) = (filling (k + 1)).slots := by
    have hsplit : (filling k).slots = List.replicate k (some fullFragment)
        ++ none :: List.replicate (14539 - (k + 1)) none := by
      rw [filling, show 14539 - k = (14539 - (k + 1)) + 1 by omega, List.replicate_succ]
    have hset := Reassembler.set_split (List.replicate k (some fullFragment))
      (List.replicate (14539 - (k + 1)) none) none (some fullFragment)
    rw [List.length_replicate] at hset
    rw [hsplit, hset, filling, List.replicate_succ', List.append_assoc]
    rfl
  rw [Pending.taken, toNat_dataHeader hk, hslots, length_fullFragment]
  simp [filling, Nat.succ_mul]

theorem locate_filling {k : ℕ} (hk : k < 14538) {st : StreamState}
    (hst : st = ⟨none, []⟩ ∧ k = 0 ∨ st = ⟨none, [filling k]⟩) :
    st.locate (dataHeader k) = some (.ok 0, ⟨none, [filling k]⟩, 0) := by
  rcases hst with ⟨rfl, rfl⟩ | rfl
  · have hsize : ¬ (dataHeader 0).fragments.toNat * FRAGMENT_SIZE > MAX_FRAME + FRAGMENT_SIZE := by
      decide
    unfold StreamState.locate
    simp only [List.findIdx?_nil, if_neg hsize, new_dataHeader]
    rfl
  · have hfind : [filling k].findIdx? (fun p => p.frame = (dataHeader k).frame) = some 0 := by
      rw [List.findIdx?_cons]
      rfl
    have hlen : ([filling k][0]?.map fun p => p.slots.length)
        = some (dataHeader k).fragments.toNat := by
      rw [List.getElem?_cons_zero, Option.map_some, length_filling (by omega)]
      rfl
    unfold StreamState.locate
    simp only [hfind, hlen, ne_eq, not_true_eq_false, if_false]

theorem add_filling {k : ℕ} (hk : k < 14538) :
    (filling k).add (dataHeader k) fullFragment none = some (.stored (filling (k + 1)) 0) := by
  have hput : (filling k).put (dataHeader k) fullFragment none
      = some (.stored (filling (k + 1))) := by
    refine Pending.put_eq_stored_iff.mpr ⟨⟨?_, ?_⟩, (taken_filling (by omega)).symm⟩
    · rw [toNat_dataHeader (by omega)]
      exact slots_filling (by omega)
    · rw [length_fullFragment, maxFrame_eq, filling, fragmentSize_eq]
      simp only
      omega
  unfold Pending.add
  rw [hput]
  exact if_pos ⟨rfl, rfl⟩

/-- Another fragment of `overrun`. -/
theorem push_filling {r : Reassembler} {k : ℕ} (hk : k < 14538)
    (hst : r.streams 1 = ⟨none, []⟩ ∧ k = 0 ∨ r.streams 1 = ⟨none, [filling k]⟩) :
    ∃ r', r.push (dataHeader k) fullFragment = some (.ok none, r') ∧
      r'.streams 1 = ⟨none, [filling (k + 1)]⟩ := by
  have hlate : (r.streams (dataHeader k).stream).late (dataHeader k).frame = false := by
    change (r.streams 1).late 0 = false
    rcases hst with ⟨hst, -⟩ | hst <;> rw [hst] <;> rfl
  have hlocate : (r.streams (dataHeader k).stream).locate (dataHeader k)
      = some (.ok 0, ⟨none, [filling k]⟩, 0) := locate_filling hk hst
  have hmissing : (filling (k + 1)).received < (filling (k + 1)).slots.length := by
    rw [length_filling (by omega)]
    exact Nat.succ_lt_succ hk
  unfold Reassembler.push
  simp only [inspect_dataHeader, hlate, hlocate, add_filling hk, if_pos hmissing,
    List.getElem?_cons_zero, List.set_cons_zero, Bool.false_eq_true, if_false]
  refine ⟨_, rfl, ?_⟩
  rw [Reassembler.streams_update]
  exact if_pos rfl

/-- `overrun` without its parity packet. -/
theorem run_filling : ∀ k ≤ 14538, ∃ h,
    run ((List.range k).map fun i => .push (dataHeader i) fullFragment) = some h ∧
      (h.reassembler.streams 1 = ⟨none, []⟩ ∧ k = 0 ∨
        h.reassembler.streams 1 = ⟨none, [filling k]⟩) := by
  intro k
  induction k with
  | zero => exact fun _ => ⟨new, rfl, .inl ⟨rfl, rfl⟩⟩
  | succ k ih =>
    intro hk
    obtain ⟨h, hrun, hst⟩ := ih (by omega)
    obtain ⟨r, hpush, hr⟩ := push_filling (by omega) hst
    have hstep : h.step (.push (dataHeader k) fullFragment) = some ⟨r, h.created
        + (h.reassembler.creates (dataHeader k) fullFragment).toNat, h.returned ++ [.ok none]⟩ := by
      simp only [step, hpush]
    rw [List.range_succ, List.map_append]
    exact ⟨_, Run.snoc.mpr ⟨h, hrun, hstep⟩, .inr hr⟩

theorem decodes_overrun {header : Header} {payload : List UInt8}
    (hmem : .push header payload ∈ overrun) : ∃ datagram, Header.decode datagram = .ok header := by
  refine ⟨header.encode ++ [], (Header.decode_encode_append header []).trans (if_pos ?_)⟩
  rcases List.mem_append.mp hmem with hmem | hmem
  · obtain ⟨i, hi, heq⟩ := List.mem_map.mp hmem
    cases heq
    have hlt : i < 14538 := List.mem_range.mp hi
    refine ⟨show (14539 : UInt16) ≠ 0 by decide, fun _ => ?_⟩
    rw [UInt16.lt_iff_toNat_lt, toNat_dataHeader (by omega)]
    exact hlt.trans (show 14538 < (14539 : UInt16).toNat by decide)
  · cases List.mem_singleton.mp hmem
    decide

/-- What the parity packet says. -/
def parityPrefix : Prefix := ⟨113, 0, 1, FRAGMENT_SIZE, Nat.one_pos, Nat.le_refl _⟩

theorem inspect_parityHeader :
    inspect parityHeader (parityPayload 113 0 1 FRAGMENT_SIZE fullFragment)
      = .admitted (some (parityPrefix, fullFragment)) := by
  have hparse : parse (parityPayload 113 0 1 FRAGMENT_SIZE fullFragment)
      = some (parityPrefix, fullFragment) :=
    parse_parityPayload (by decide) Nat.one_pos (by decide) (Nat.le_refl _) length_fullFragment
  have hblocks : ¬ 113 ≥ (blocks parityHeader.fragments.toNat).length := by
    rw [length_blocks (by decide)]
    decide
  unfold inspect
  rw [if_pos (by decide), hparse]
  exact if_neg hblocks

theorem parity_taken_filling :
    ((filling 14538).taken parityHeader (parityPayload 113 0 1 FRAGMENT_SIZE fullFragment)
      (some (parityPrefix, fullFragment))).parity.lookup 113 = some ⟨[some fullFragment]⟩ := by
  simp only [Pending.taken, parityPrefix, AList.lookup_insert]
  rfl

theorem lastPart_eq : part 14539 113 = ⟨14412, 14539⟩ := by decide

/-- All but one of the slots of the last block are filled. -/
theorem filledIn_filling : 126 ≤ (filling 14538).filledIn 113 := by
  unfold Pending.filledIn
  rw [length_filling (by omega), lastPart_eq, Range.indices,
    show (⟨14412, 14539⟩ : Range).len = 126 + 1 from rfl, List.range'_concat, List.countP_append]
  refine Nat.le_add_right_of_le (Nat.le_of_eq ?_)
  rw [List.countP_eq_length.mpr, List.length_range']
  intro i hi
  have hlt : i < 14538 := (List.mem_range'_1.mp hi).2
  exact Pending.filled_iff.mp (filled_filling hlt)

theorem lastPart_enough {held : ℕ} (h : 126 ≤ held) {bp : BlockParity}
    (hbp : bp.shards = [some fullFragment]) :
    (⟨14412, 14539⟩ : Range).len ≤ held + bp.shards.countP Option.isSome := by
  rw [show (⟨14412, 14539⟩ : Range).len = 126 + 1 from rfl, hbp, List.countP_singleton]
  exact Nat.succ_le_succ h

/-- **The parity packet of `overrun` completes an oversized frame.** -/
theorem overlong_overrun {r : Reassembler} (hst : r.streams 1 = ⟨none, [filling 14538]⟩) :
    r.Overlong parityHeader (parityPayload 113 0 1 FRAGMENT_SIZE fullFragment) := by
  have hentry : (r.streams parityHeader.stream).entry parityHeader = filling 14538 := by
    change (r.streams 1).entry parityHeader = _
    rw [hst]
    rfl
  have hlen := length_filling (k := 14538) (by omega)
  unfold Reassembler.Overlong
  rw [hentry]
  refine ⟨_, inspect_parityHeader, ?_, hlen, ⟨by decide, rfl, rfl⟩, hlen, ?_, ?_⟩
  · change (r.streams 1).late 0 = false
    rw [hst]
    rfl
  · -- the last fragment is to be rebuilt, at the length of a full one
    have hslot : (filling 14538).slots[14538]? = some none := slots_filling (by omega)
    unfold Pending.lastSize
    simp only [Pending.taken, hlen, hslot]
    decide
  · intro b hb
    rw [Pending.length_taken, hlen] at hb ⊢
    rcases eq_or_ne b 113 with rfl | hne
    · refine .inr ⟨_, parity_taken_filling, ?_, ?_⟩
      · rw [Pending.length_taken, hlen, lastPart_eq, Pending.filledIn_taken_parity]
        exact lastPart_enough filledIn_filling rfl
      · rw [Pending.length_taken, hlen, lastPart_eq]
        decide
    · -- the fragment that is missing is in the last block
      refine .inl fun i hi => ?_
      have hlt : i < 14539 := lt_of_mem_part hb hi
      have hmissing : i ≠ 14538 := by
        rintro rfl
        refine hne (part_unique hi ?_)
        rw [lastPart_eq]
        exact Range.mem_indices.mpr (by decide)
      exact filled_filling (show i < 14538 by omega)

/-- **A frame longer than `MAX_FRAME`**: `overrun` delivers one. -/
theorem overrun_delivers_longer :
    (∀ header payload, .push header payload ∈ overrun →
      ∃ datagram, Header.decode datagram = .ok header) ∧
    ∃ h, run overrun = some h ∧ ∃ g ∈ h.frames, MAX_FRAME < g.data.length := by
  refine ⟨fun header payload => decodes_overrun, ?_⟩
  obtain ⟨h₀, hrun, ⟨-, hzero⟩ | hst⟩ := run_filling 14538 (Nat.le_refl _)
  · cases hzero
  have hinv : h₀.Inv := inv_of_run (fun event hmem => by
    obtain ⟨i, -, rfl⟩ := List.mem_map.mp hmem
    exact decodes_overrun (List.mem_append_left _ hmem)) hrun
  have hpos : parityHeader.IsPosition := by decide
  obtain ⟨⟨out, r⟩, hpush⟩ := Reassembler.push_isSome hinv.streams
    (parityPayload 113 0 1 FRAGMENT_SIZE fullFragment) hpos
  obtain ⟨g, hg, hlong⟩ :=
    (Reassembler.overlong_iff hinv.streams hpos hpush).mpr (overlong_overrun hst)
  have hstep : h₀.step
      (.push parityHeader (parityPayload 113 0 1 FRAGMENT_SIZE fullFragment)) = some ⟨r,
        h₀.created + (h₀.reassembler.creates parityHeader
          (parityPayload 113 0 1 FRAGMENT_SIZE fullFragment)).toNat, h₀.returned ++ [out]⟩ := by
    simp only [step, hpush]
  refine ⟨_, Run.snoc.mpr ⟨h₀, hrun, hstep⟩, g, ?_, hlong⟩
  rw [frames_append]
  exact List.mem_append_right _ (by simp [hg])

end History

end WindowCast.Bud
