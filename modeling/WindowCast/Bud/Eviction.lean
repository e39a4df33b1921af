import WindowCast.Bud.Fidelity
import WindowCast.Lib.Descent

/-!
# Which frame makes room

When a stream has as many unfinished frames as it may have, `push` of `bud/src/fragment.rs`
gives up the oldest of them for a packet of another frame.  The frame of the packet is not
among those that are compared.

## Main definitions

* `MakesRoom` — the packet starts a frame for which another one has to go.
* `Evicts` — the frame that goes.
* `YieldsNewest`, `Within` — the condition, and where the order of the numbers is one.

## Main results

* `evicts_iff` — the frame that goes is where a walk to ever older frames ends.
* `spares_newer_iff` — **a packet spares the frames that are newer than its own exactly if
  one that is not newer is in the way.**
-/

namespace WindowCast.Bud

open WindowCast.Fec

/-- The packet starts a frame, and there is no room for it. -/
structure MakesRoom (r : Reassembler) (header : Header) (payload : List UInt8) : Prop where
  admitted : ∃ parsed, inspect header payload = .admitted parsed
  timely : (r.streams header.stream).late header.frame = false
  unknown : ∀ p ∈ (r.streams header.stream).pending, p.frame ≠ header.frame
  small : header.fragments.toNat * FRAGMENT_SIZE ≤ MAX_FRAME + FRAGMENT_SIZE
  full : MAX_IN_FLIGHT ≤ (r.streams header.stream).pending.length

/-- The push gives up `p` to make room: its own frame is waited for instead. -/
def Evicts (r : Reassembler) (header : Header) (payload : List UInt8) (p : Pending) : Prop :=
  ∃ parsed before after index, inspect header payload = .admitted parsed ∧
    (r.streams header.stream).late header.frame = false ∧
    (r.streams header.stream).pending = before ++ p :: after ∧
    (r.streams header.stream).locate header = some (.ok index,
      ⟨(r.streams header.stream).lastDelivered, before ++ after ++ [Pending.new header]⟩, 1)

/-- A walk along the unfinished frames, as they came, always on to an older one, ends at one that
is not newer than the packet's. -/
def YieldsOlder (pending : List Pending) (frame : UInt32) : Prop :=
  ∃ first rest v, pending.map (fun p => p.frame) = first :: rest ∧ Descent.Ends newer first rest v ∧
    newer v frame = false

/-- The numbers of the unfinished frames and of another are within half of the circle. -/
def Within (st : StreamState) (frame : UInt32) : Prop :=
  ∃ base : UInt32, (frame - base).toNat < 2 ^ 31 ∧ ∀ p ∈ st.pending, (p.frame - base).toNat < 2 ^ 31

/-- The oldest frame is where the walk ends. -/
theorem oldest_frame {pending : List Pending} {i : ℕ} (h : StreamState.oldest pending = some i) :
    ∃ p rest v, pending = p :: rest ∧ pending[i]? = some v ∧
      v.frame = Descent.last newer p.frame (rest.map fun q => q.frame) := by
  cases pending with
  | nil => cases h
  | cons p rest =>
    have hmem := Descent.last_mem (fun a b : Pending × ℕ => newer a.1.frame b.1.frame) (p, 0) (rest.zipIdx 1)
    have hframe := Descent.last_map newer (fun a : Pending × ℕ => a.1.frame) (p, 0) (rest.zipIdx 1)
    rw [← List.zipIdx_cons, List.mem_zipIdx_iff_getElem?] at hmem
    have hindex : (Descent.last (fun a b : Pending × ℕ => newer a.1.frame b.1.frame) (p, 0) (rest.zipIdx 1)).2 = i :=
      Option.some.inj h
    have hmap : (rest.zipIdx 1).map (fun a => a.1.frame) = rest.map fun q => q.frame := by
      have h := congrArg (List.map fun q : Pending => q.frame) (List.zipIdx_map_fst 1 rest)
      rwa [List.map_map] at h
    rw [hmap] at hframe
    exact ⟨p, rest, _, rfl, hindex ▸ hmem, hframe⟩

variable {r : Reassembler} {header : Header} {payload : List UInt8} {p : Pending}

/-- Room is made where it has to be, by the frame at the end of the walk. -/
theorem exists_evicts (h : MakesRoom r header payload) :
    ∃ p first rest, Evicts r header payload p ∧
      (r.streams header.stream).pending.map (fun q => q.frame) = first :: rest ∧
      Descent.Ends newer first rest p.frame := by
  obtain ⟨parsed, hparsed⟩ := h.admitted
  have hne : (r.streams header.stream).pending ≠ [] := fun hnil => by
    have hfull := h.full
    rw [hnil] at hfull
    exact absurd hfull (by decide)
  obtain ⟨i, hi⟩ := Reassembler.oldest_isSome hne
  obtain ⟨first, rest, v, hpending, hv, hframe⟩ := oldest_frame hi
  obtain ⟨before, after, hsplit, hbefore⟩ := Reassembler.split_of_getElem? hv
  have hfind : (r.streams header.stream).pending.findIdx? (fun q => decide (q.frame = header.frame)) = none := by
    rw [List.findIdx?_eq_none_iff]
    exact fun q hq => decide_eq_false (h.unknown q hq)
  have herase : (r.streams header.stream).pending.eraseIdx i = before ++ after := by
    rw [hsplit, ← hbefore, Reassembler.eraseIdx_split]
  refine ⟨v, first.frame, rest.map fun q => q.frame, ⟨parsed, before, after, (before ++ after).length, hparsed,
    h.timely, hsplit, ?_⟩, ?_, Descent.ends_iff.mpr hframe.symm⟩
  · unfold StreamState.locate
    simp only [hfind, if_neg (Nat.not_lt.mpr h.small), if_pos h.full, hi, herase]
  · rw [hpending, List.map_cons]

/-- Only one frame is given up. -/
theorem evicts_unique {p q : Pending} (hp : Evicts r header payload p) (hq : Evicts r header payload q) :
    p = q := by
  obtain ⟨-, before, after, index, -, -, hsplit, hlocate⟩ := hp
  obtain ⟨-, before', after', index', -, -, hsplit', hlocate'⟩ := hq
  rw [hlocate] at hlocate'
  have hstates : before ++ after ++ [Pending.new header] = before' ++ after' ++ [Pending.new header] :=
    congrArg (fun s : StreamState => s.pending) (Prod.mk.inj (Prod.mk.inj (Option.some.inj hlocate')).2).1
  have hkept : before ++ after = before' ++ after' := List.append_cancel_right hstates
  -- what is left is the same, so what is gone is, too
  have hperm : (p :: (before ++ after)).Perm (q :: (before ++ after)) := by
    have hfirst : (before ++ p :: after).Perm (p :: (before ++ after)) := List.perm_middle
    have hsecond : (before' ++ q :: after').Perm (q :: (before' ++ after')) := List.perm_middle
    rw [← hsplit] at hfirst
    rw [← hsplit', ← hkept] at hsecond
    exact hfirst.symm.trans hsecond
  have hsingle : [p].Perm [q] := (List.perm_append_right_iff (before ++ after)).mp hperm
  exact List.singleton_perm_singleton.mp hsingle

/-- A frame that is given up makes room. -/
theorem makesRoom_of_evicts (h : Evicts r header payload p) : MakesRoom r header payload := by
  obtain ⟨parsed, before, after, index, hparsed, htimely, -, hlocate⟩ := h
  obtain ⟨before', p', after', -, -, hloc⟩ := Reassembler.locate_ok hlocate
  cases hloc with
  | created hnone hsize hroom =>
    cases hroom with
    | evicted hfull hsplit holdest => exact ⟨⟨parsed, hparsed⟩, htimely, hnone, hsize, hfull⟩

/-- **The frame that goes is where the walk ends.** -/
theorem evicts_iff (h : MakesRoom r header payload) :
    (∀ p, Evicts r header payload p → newer p.frame header.frame = false) ↔
      YieldsOlder (r.streams header.stream).pending header.frame := by
  obtain ⟨p, first, rest, hp, hframes, hends⟩ := exists_evicts h
  constructor
  · intro hall
    exact ⟨first, rest, p.frame, hframes, hends, hall p hp⟩
  · rintro ⟨first', rest', v, hframes', hends', hv⟩ q hq
    rw [hframes] at hframes'
    obtain ⟨rfl, rfl⟩ := List.cons.inj hframes'
    rw [evicts_unique hq hp, ← Descent.ends_iff.mp hends, Descent.ends_iff.mp hends']
    exact hv

/-- Within half of the circle the walk ends at the oldest frame of all. -/
theorem yieldsOlder_iff {st : StreamState} {frame : UInt32} (hwithin : Within st frame) (hne : st.pending ≠ []) :
    YieldsOlder st.pending frame ↔ ∃ q ∈ st.pending, newer q.frame frame = false := by
  obtain ⟨base, hframe, hpending⟩ := hwithin
  -- from `base` on the numbers are ordered as their distances are
  have hnear {f : UInt32} (hf : (f - base).toNat < 2 ^ 31) : SerialNumber.Near base.toBitVec f.toBitVec := by
    have hsub : (f - base).toNat = (f.toBitVec - base.toBitVec).toNat := rfl
    unfold SerialNumber.Near
    omega
  have hnewer {a b : UInt32} (ha : (a - base).toNat < 2 ^ 31) (hb : (b - base).toNat < 2 ^ 31) :
      newer a b = true ↔ (b - base).toNat < (a - base).toNat :=
    (newer_iff a b).trans (SerialNumber.later_iff (hnear ha) (hnear hb))
  have holder {a b : UInt32} (ha : (a - base).toNat < 2 ^ 31) (hb : (b - base).toNat < 2 ^ 31) :
      newer a b = false ↔ (a - base).toNat ≤ (b - base).toNat := by
    rw [← Bool.not_eq_true, hnewer ha hb, Nat.not_lt]
  have hall : ∀ f ∈ st.pending.map (fun p => p.frame), (f - base).toNat < 2 ^ 31 := by
    intro f hf
    obtain ⟨q, hq, rfl⟩ := List.mem_map.mp hf
    exact hpending q hq
  constructor
  · rintro ⟨first, rest, v, hframes, hends, hv⟩
    have hmem : v ∈ st.pending.map fun p => p.frame := by
      rw [hframes, ← Descent.ends_iff.mp hends]
      exact Descent.last_mem newer first rest
    obtain ⟨q, hq, rfl⟩ := List.mem_map.mp hmem
    exact ⟨q, hq, hv⟩
  · rintro ⟨q, hq, hold⟩
    obtain ⟨first, rest, hframes⟩ : ∃ first rest, st.pending.map (fun p => p.frame) = first :: rest :=
      List.exists_cons_of_ne_nil fun hnil => hne (List.map_eq_nil_iff.mp hnil)
    rw [hframes] at hall
    -- the end of the walk is no further from `base` than the one that is not newer
    have hleast := Descent.last_le (fun f : UInt32 => (f - base).toNat)
      (fun b hb c hc => hnewer (hall b hb) (hall c hc)) q.frame (by rw [← hframes]; exact List.mem_map_of_mem hq)
    refine ⟨first, rest, _, hframes, Descent.ends_iff.mpr rfl, ?_⟩
    rw [holder (hall _ (Descent.last_mem newer first rest)) hframe]
    exact hleast.trans ((holder (hpending q hq) hframe).mp hold)

/-- Once a frame was delivered, all that is waited for is ahead of it. -/
theorem within_of_delivered {st : StreamState} {frame last : UInt32} (hinv : st.Inv)
    (hlast : st.lastDelivered = some last) (htimely : st.late frame = false) : Within st frame := by
  have hahead {f : UInt32} (hf : newer f last = true) : (f - last).toNat < 2 ^ 31 := by
    rw [newer, decide_eq_true_eq] at hf
    exact hf.2
  exact ⟨last, hahead (StreamState.not_late htimely last hlast),
    fun p hp => hahead (hinv.newer_last p hp last hlast)⟩

/-- **A packet spares the frames that are newer than its own exactly if one that is not newer is in
the way**: the one at the end of the walk, and within half of the circle (always, once a frame
was delivered) any of them. -/
theorem spares_newer_iff (r : Reassembler) (header : Header) (payload : List UInt8) :
    ((∀ p, Evicts r header payload p → newer p.frame header.frame = false) ↔
      (MakesRoom r header payload → YieldsOlder (r.streams header.stream).pending header.frame)) ∧
    (Within (r.streams header.stream) header.frame →
      ((∀ p, Evicts r header payload p → newer p.frame header.frame = false) ↔
        (MakesRoom r header payload →
          ∃ q ∈ (r.streams header.stream).pending, newer q.frame header.frame = false))) ∧
    ((r.streams header.stream).Inv → (r.streams header.stream).lastDelivered ≠ none →
      (r.streams header.stream).late header.frame = false → Within (r.streams header.stream) header.frame) := by
  have hgeneral : (∀ p, Evicts r header payload p → newer p.frame header.frame = false) ↔
      (MakesRoom r header payload → YieldsOlder (r.streams header.stream).pending header.frame) := by
    constructor
    · exact fun hall hroom => (evicts_iff hroom).mp hall
    · exact fun hyields p hp => (evicts_iff (makesRoom_of_evicts hp)).mpr (hyields (makesRoom_of_evicts hp)) p hp
  refine ⟨hgeneral, fun hwithin => hgeneral.trans (imp_congr_right fun hroom => ?_), fun hinv hdelivered htimely => ?_⟩
  · refine yieldsOlder_iff hwithin fun hnil => ?_
    have hfull := hroom.full
    rw [hnil] at hfull
    exact absurd hfull (by decide)
  · obtain ⟨last, hlast⟩ := Option.ne_none_iff_exists'.mp hdelivered
    exact within_of_delivered hinv hlast htimely

/-- The last fragment of a frame of two. -/
def lastOfTwo (frame : UInt32) : Header := ⟨0, 0, frame, 1, 2, 0, 0⟩

/-- A frame of two fragments of which the last has come. -/
def halfway (frame : UInt32) : Pending := ⟨frame, 0, [none, some [7]], 1, 1, ∅, 0, none⟩

set_option maxRecDepth 4000 in
/-- The last fragments of four frames have come, and now that of an older one: the frame it pushes out
is newer. -/
theorem older_pushes_out_newer :
    ∃ r : Reassembler, [10, 11, 12, 13].foldlM (fun r frame => (r.push (lastOfTwo frame) [7]).map Prod.snd)
        Reassembler.new = some r ∧
      Evicts r (lastOfTwo 5) [7] (halfway 10) ∧ newer (halfway 10).frame (lastOfTwo 5).frame = true ∧
      (r.push (lastOfTwo 5) [7]).map (fun s => (s.2.streams 0).pending) =
        some [halfway 11, halfway 12, halfway 13, halfway 5] := by
  refine ⟨_, rfl, ⟨none, [], [halfway 11, halfway 12, halfway 13], 3, rfl, rfl, rfl, rfl⟩, by decide, rfl⟩

end WindowCast.Bud
