import WindowCast.Bud.Pending

/-!
# Runs of the reassembler

Packets pushed and frames abandoned, in any order and whatever the packets say.

## Main definitions

* `StreamState.Inv` — the invariant of one stream.
* `History` — a reassembler with what it created and returned; `History.run`.

## Main results

* `Reassembler.push_isSome` — a push never indexes out of range.
* `StreamState.Inv.push`, `StreamState.Inv.abandon` — both keep the invariant.
* `History.run_accounts` — **every run keeps the bounds and accounts for every
  frame it ever waited for.**
-/

namespace WindowCast.Bud

open WindowCast.Fec

/-- What every push and every abandonment preserves of a stream. -/
structure StreamState.Inv (st : StreamState) : Prop where
  length_le : st.pending.length ≤ MAX_IN_FLIGHT
  distinct : (st.pending.map fun p => p.frame).Nodup
  newer_last : ∀ p ∈ st.pending, ∀ last, st.lastDelivered = some last → newer p.frame last = true
  wellFormed : ∀ p ∈ st.pending, p.WellFormed
  incomplete : ∀ p ∈ st.pending, p.received < p.slots.length
  count_le : ∀ p ∈ st.pending, p.slots.length * FRAGMENT_SIZE ≤ MAX_FRAME + FRAGMENT_SIZE

/-- The invariant of every stream. -/
def Reassembler.Inv (r : Reassembler) : Prop := ∀ stream, (r.streams stream).Inv

namespace StreamState

theorem inv_new : new.Inv := by
  refine ⟨Nat.zero_le _, List.nodup_nil, ?_, ?_, ?_, ?_⟩ <;> intro p hp <;> exact absurd hp List.not_mem_nil

/-- A stream with fewer waiting frames keeps the invariant. -/
theorem Inv.sublist {st : StreamState} (h : st.Inv) {kept : List Pending}
    (hkept : kept.Sublist st.pending) : Inv ⟨st.lastDelivered, kept⟩ where
  length_le := hkept.length_le.trans h.length_le
  distinct := h.distinct.sublist (hkept.map _)
  newer_last p hp := h.newer_last p (hkept.subset hp)
  wellFormed p hp := h.wellFormed p (hkept.subset hp)
  incomplete p hp := h.incomplete p (hkept.subset hp)
  count_le p hp := h.count_le p (hkept.subset hp)

theorem not_late {st : StreamState} {frame : UInt32} (h : st.late frame = false) :
    ∀ last, st.lastDelivered = some last → newer frame last = true := by
  intro last hlast
  unfold late at h
  rw [hlast] at h
  simpa using h

/-- What holds of the waiting frames and of a new one, holds of the entries `push` works on. -/
theorem located_forall {pending before after : List Pending} {p : Pending} {header : Header}
    {dropped : ℕ} {P : Pending → Prop} (h : ∀ q ∈ pending, P q) (hnew : P (Pending.new header))
    (hloc : Reassembler.Located pending header before p after dropped) :
    ∀ q ∈ before ++ p :: after, P q := by
  cases hloc with
  | found hsplit =>
    rw [← hsplit]
    exact h
  | created hnone hsize hroom =>
    intro q hq
    rcases List.mem_append.mp hq with hq | hq
    · cases hroom with
      | free => exact h q hq
      | evicted hfull hsplit =>
        rw [hsplit] at h
        rcases List.mem_append.mp hq with hq | hq
        · exact h q (List.mem_append_left _ hq)
        · exact h q (List.mem_append_right _ (List.mem_cons_of_mem _ hq))
    · rw [List.mem_singleton.mp hq]
      exact hnew

/-- The entries `push` works on keep the invariant, with the entry of its frame in place. -/
theorem Inv.located {st : StreamState} (h : st.Inv) {header : Header} {before after : List Pending}
    {p : Pending} {dropped : ℕ} (hpos : header.IsPosition) (hlate : st.late header.frame = false)
    (hloc : Reassembler.Located st.pending header before p after dropped) :
    Inv ⟨st.lastDelivered, before ++ p :: after⟩ ∧ p.frame = header.frame ∧
      p.slots.length = header.fragments.toNat := by
  cases hloc with
  | found hsplit hframe hslots =>
    refine ⟨?_, hframe, hslots⟩
    rw [← hsplit]
    exact h
  | created hnone hsize hroom =>
    have hlen : (Pending.new header).slots.length = header.fragments.toNat := List.length_replicate
    refine ⟨?_, rfl, hlen⟩
    have hnew := Pending.wellFormed_new hpos.1
    have hsub : before.Sublist st.pending ∧ before.length < MAX_IN_FLIGHT := by
      cases hroom with
      | free hlt => exact ⟨List.Sublist.refl _, hlt⟩
      | evicted hfull hsplit holdest =>
        rename_i front back q
        have hlen := h.length_le
        rw [hsplit] at hlen ⊢
        refine ⟨List.Sublist.append_left (List.sublist_cons_self _ _) _, ?_⟩
        rw [List.length_append, List.length_cons] at hlen
        rw [List.length_append]
        omega
    obtain ⟨hsub, hlt⟩ := hsub
    have hkept := h.sublist hsub
    have hloc : Reassembler.Located st.pending header before (Pending.new header) [] dropped :=
      .created hnone hsize hroom
    refine ⟨?_, ?_, located_forall h.newer_last (not_late hlate) hloc,
      located_forall h.wellFormed hnew hloc, located_forall h.incomplete hnew.nonempty hloc,
      located_forall h.count_le (by rw [hlen]; exact hsize) hloc⟩
    · rw [List.length_append, List.length_singleton]
      exact hlt
    · rw [List.map_append]
      refine List.Nodup.append hkept.distinct (List.nodup_singleton _) ?_
      intro frame hmem hframe
      obtain ⟨q, hq, rfl⟩ := List.mem_map.mp hmem
      exact hnone q (hsub.subset hq) (List.mem_singleton.mp hframe)

/-- Replacing an entry by one of the same frame that is still incomplete. -/
theorem Inv.replace {last : Option UInt32} {before after : List Pending} {p p' : Pending}
    (h : Inv ⟨last, before ++ p :: after⟩) (hframe : p'.frame = p.frame) (hlen : p'.slots.length = p.slots.length)
    (hwf : p'.WellFormed) (hmissing : p'.received < p'.slots.length) : Inv ⟨last, before ++ p' :: after⟩ := by
  have hmem : ∀ q ∈ before ++ p' :: after, q = p' ∨ q ∈ before ++ p :: after := by
    intro q hq
    rcases List.mem_append.mp hq with hq | hq
    · exact .inr (List.mem_append_left _ hq)
    rcases List.mem_cons.mp hq with rfl | hq
    · exact .inl rfl
    · exact .inr (List.mem_append_right _ (List.mem_cons_of_mem _ hq))
  refine ⟨?_, ?_, ?_, ?_, ?_, ?_⟩
  · have := h.length_le
    simpa using this
  · have := h.distinct
    simp only [List.map_append, List.map_cons] at this ⊢
    rw [hframe]
    exact this
  · intro q hq l hl
    rcases hmem q hq with rfl | hq
    · rw [hframe]
      exact h.newer_last p (List.mem_append_right _ List.mem_cons_self) l hl
    · exact h.newer_last q hq l hl
  · intro q hq
    rcases hmem q hq with rfl | hq
    · exact hwf
    · exact h.wellFormed q hq
  · intro q hq
    rcases hmem q hq with rfl | hq
    · exact hmissing
    · exact h.incomplete q hq
  · intro q hq
    rcases hmem q hq with rfl | hq
    · rw [hlen]
      exact h.count_le p (List.mem_append_right _ List.mem_cons_self)
    · exact h.count_le q hq

/-- What is kept after a delivery is newer than what was delivered. -/
theorem Inv.delivered {st : StreamState} (h : st.Inv) (frame : UInt32) :
    Inv ⟨some frame, st.pending.filter fun q => newer q.frame frame⟩ := by
  have hsub : (st.pending.filter fun q => newer q.frame frame).Sublist st.pending :=
    List.filter_sublist
  have hkept := h.sublist hsub
  refine ⟨hkept.length_le, hkept.distinct, ?_, hkept.wellFormed, hkept.incomplete, hkept.count_le⟩
  intro q hq last hlast
  cases hlast
  exact (List.mem_filter.mp hq).2

end StreamState

namespace Reassembler

theorem streams_update (self : Reassembler) (stream : UInt16) (st : StreamState) (d r : ℕ)
    (s : UInt16) : (self.update stream st d r).streams s = if s = stream then st else self.streams s :=
  Function.update_apply _ _ _ _

theorem Inv.update {self : Reassembler} (h : self.Inv) {stream : UInt16} {st : StreamState}
    (hst : st.Inv) (d r : ℕ) : (self.update stream st d r).Inv := by
  intro s
  rw [streams_update]
  split
  · exact hst
  · exact h s

/-- The entries but the one of the packet's frame. -/
theorem sublist_split {before after : List Pending} {p : Pending} :
    (before ++ after).Sublist (before ++ p :: after) :=
  List.Sublist.append_left (List.sublist_cons_self _ _) _

/-- **A push keeps the invariant of every stream.** -/
theorem Inv.push {self self' : Reassembler} (h : self.Inv) {header : Header}
    {payload : List UInt8} {out : Pushed} (hpos : header.IsPosition)
    (hpush : self.push header payload = some (out, self')) : self'.Inv := by
  have hst := h header.stream
  cases push_exit hpush with
  | ignored => exact h
  | refused => exact h
  | late => exact h
  | tooMany => exact h
  | disagreed _ _ hsplit =>
    refine h.update (hst.sublist ?_) _ _
    rw [hsplit]
    exact sublist_split
  | gaveUp hparsed hlate hloc hadd =>
    obtain ⟨hinv, -⟩ := hst.located hpos hlate hloc
    exact h.update (hinv.sublist sublist_split) _ _
  | nothingNew hparsed hlate hloc hadd =>
    obtain ⟨hinv, -⟩ := hst.located hpos hlate hloc
    exact h.update hinv _ _
  | kept hparsed hlate hloc hadd hmissing =>
    rename_i parsed before after p p' dropped recovered
    obtain ⟨hinv, -, hslots⟩ := hst.located hpos hlate hloc
    have hwf := hinv.wellFormed p (List.mem_append_right _ List.mem_cons_self)
    obtain ⟨q, hput, -, hrec, -⟩ := Pending.add_stored hwf hslots hparsed hadd
    have hframe : p'.frame = p.frame := hrec.fills.frame.trans (Pending.frame_put hput).1
    have hlen : p'.slots.length = p.slots.length :=
      hrec.fills.length.trans (Pending.frame_put hput).2.2
    exact h.update (hinv.replace hframe hlen hrec.wellFormed hmissing) _ _
  | delivered hparsed hlate hloc hadd hcomplete =>
    obtain ⟨hinv, -⟩ := hst.located hpos hlate hloc
    exact h.update ((hinv.sublist sublist_split).delivered _) _ _

/-- A push touches one stream. -/
theorem streams_push_of_ne {self self' : Reassembler} {header : Header} {payload : List UInt8}
    {out : Pushed} (hpush : self.push header payload = some (out, self')) {s : UInt16}
    (hne : s ≠ header.stream) : self'.streams s = self.streams s := by
  cases push_exit hpush with
  | ignored => rfl
  | refused => rfl
  | late => rfl
  | tooMany => rfl
  | disagreed => rw [streams_update, if_neg hne]
  | gaveUp => rw [streams_update, if_neg hne]
  | nothingNew => rw [streams_update, if_neg hne]
  | kept => rw [streams_update, if_neg hne]
  | delivered => rw [streams_update, if_neg hne]

/-- A push never indexes out of range. -/
theorem push_isSome {self : Reassembler} (h : self.Inv) {header : Header} (payload : List UInt8)
    (hpos : header.IsPosition) : ∃ out, self.push header payload = some out := by
  unfold push
  cases hparsed : inspect header payload with
  | ignored => exact ⟨_, rfl⟩
  | refused e => exact ⟨_, rfl⟩
  | admitted parsed =>
    simp only
    split
    · exact ⟨_, rfl⟩
    rename_i hlate
    rw [Bool.not_eq_true] at hlate
    obtain ⟨out, hlocate⟩ : ∃ out, (self.streams header.stream).locate header = some out := by
      unfold StreamState.locate
      simp only
      split
      · split <;> exact ⟨_, rfl⟩
      split
      · exact ⟨_, rfl⟩
      split
      · rename_i hfull
        have hne : (self.streams header.stream).pending ≠ [] := by
          intro hnil
          rw [hnil] at hfull
          exact absurd hfull (by decide)
        obtain ⟨i, hi⟩ := oldest_isSome hne
        rw [hi]
        exact ⟨_, rfl⟩
      · exact ⟨_, rfl⟩
    obtain ⟨found, st, dropped⟩ := out
    rw [hlocate]
    cases found with
    | error e => exact ⟨_, rfl⟩
    | ok index =>
      obtain ⟨before, p, after, rfl, rfl, hloc⟩ := locate_ok hlocate
      obtain ⟨hinv, -, hslots⟩ := (h header.stream).located hpos hlate hloc
      obtain ⟨r, hadd⟩ := Pending.add_isSome
        (hinv.wellFormed p (List.mem_append_right _ List.mem_cons_self)) hslots hpos hparsed
      simp only [List.getElem?_append_right (Nat.le_refl _), Nat.sub_self, List.getElem?_cons_zero,
        hadd]
      cases r with
      | ignored => exact ⟨_, rfl⟩
      | refused e => exact ⟨_, rfl⟩
      | stored p' recovered =>
        simp only
        split <;> exact ⟨_, rfl⟩

/-- What abandoning a frame does. -/
theorem abandon_cases (self : Reassembler) (stream : UInt16) (frame : UInt32) :
    (self.abandon stream frame = (self, false) ∧
      ∀ p ∈ (self.streams stream).pending, p.frame ≠ frame) ∨
    ∃ before p after, (self.streams stream).pending = before ++ p :: after ∧ p.frame = frame ∧
      self.abandon stream frame = (self.update stream
        ⟨(self.streams stream).lastDelivered, before ++ after⟩ 1 0, true) := by
  unfold abandon
  simp only
  split
  · rename_i hfind
    exact .inl ⟨rfl, by simpa [List.findIdx?_eq_none_iff] using hfind⟩
  · rename_i index hfind
    obtain ⟨hlt, hframe, -⟩ := List.findIdx?_eq_some_iff_getElem.mp hfind
    obtain ⟨before, after, hsplit, hi⟩ := split_of_getElem? (List.getElem?_eq_getElem hlt)
    rw [decide_eq_true_eq] at hframe
    refine .inr ⟨before, _, after, hsplit, hframe, ?_⟩
    have herase := eraseIdx_split before after ((self.streams stream).pending[index])
    rw [← hsplit, hi] at herase
    rw [herase]

/-- An abandonment at most removes a waiting frame. -/
theorem streams_abandon (self : Reassembler) (stream : UInt16) (frame : UInt32) (s : UInt16) :
    ((self.abandon stream frame).1.streams s).lastDelivered = (self.streams s).lastDelivered ∧
      ((self.abandon stream frame).1.streams s).pending.Sublist (self.streams s).pending := by
  rcases self.abandon_cases stream frame with ⟨heq, -⟩ | ⟨before, p, after, hsplit, -, heq⟩
  · rw [heq]
    exact ⟨rfl, List.Sublist.refl _⟩
  · rw [heq]
    simp only [streams_update]
    split
    · rename_i hs
      subst hs
      rw [hsplit]
      exact ⟨rfl, sublist_split⟩
    · exact ⟨rfl, List.Sublist.refl _⟩

/-- **An abandonment keeps the invariant of every stream.** -/
theorem Inv.abandon {self : Reassembler} (h : self.Inv) (stream : UInt16) (frame : UInt32) :
    (self.abandon stream frame).1.Inv := by
  rcases self.abandon_cases stream frame with ⟨heq, -⟩ | ⟨before, p, after, hsplit, -, heq⟩
  · rw [heq]
    exact h
  · rw [heq]
    refine h.update ((h stream).sublist ?_) _ _
    rw [hsplit]
    exact sublist_split

/-! ### Counting frames -/

/-- Whether a push makes an entry for a frame that had none. -/
def creates (self : Reassembler) (header : Header) (payload : List UInt8) : Bool :=
  match inspect header payload with
  | .admitted _ =>
    !(self.streams header.stream).late header.frame
      && (self.streams header.stream).pending.all (fun p => p.frame ≠ header.frame)
      && decide (header.fragments.toNat * FRAGMENT_SIZE ≤ MAX_FRAME + FRAGMENT_SIZE)
  | _ => false

/-- The frame a push delivered. -/
def delivery : Pushed → Option Frame
  | .ok frame => frame
  | .error _ => none

/-- How many frames are waiting. -/
def waiting (self : Reassembler) : ℕ := ∑ stream, (self.streams stream).pending.length

theorem waiting_new : new.waiting = 0 := by
  apply Finset.sum_eq_zero
  exact fun stream _ => rfl

theorem waiting_update (self : Reassembler) (stream : UInt16) (st : StreamState) (d r : ℕ) :
    (self.update stream st d r).waiting + (self.streams stream).pending.length
      = self.waiting + st.pending.length := by
  unfold waiting
  rw [← Finset.add_sum_erase _ _ (Finset.mem_univ stream),
    ← Finset.add_sum_erase _ (fun s => (self.streams s).pending.length) (Finset.mem_univ stream)]
  have hrest : ∑ s ∈ Finset.univ.erase stream, ((self.update stream st d r).streams s).pending.length
      = ∑ s ∈ Finset.univ.erase stream, (self.streams s).pending.length := by
    refine Finset.sum_congr rfl fun s hs => ?_
    rw [streams_update, if_neg (Finset.ne_of_mem_erase hs)]
  rw [hrest, streams_update, if_pos rfl]
  omega

/-- The entries `push` works on, counted. -/
theorem Located.balance {self : Reassembler} {header : Header} {payload : List UInt8}
    {parsed : Option (Prefix × Shard)} {before after : List Pending} {p : Pending} {dropped : ℕ}
    (hparsed : inspect header payload = .admitted parsed)
    (hlate : (self.streams header.stream).late header.frame = false)
    (hloc : Located (self.streams header.stream).pending header before p after dropped) :
    (self.creates header payload).toNat + (self.streams header.stream).pending.length
      = (before ++ p :: after).length + dropped := by
  unfold creates
  rw [hparsed]
  simp only [hlate, Bool.not_false, Bool.true_and]
  cases hloc with
  | found hsplit hframe =>
    have hall : (self.streams header.stream).pending.all (fun p => p.frame ≠ header.frame) = false := by
      rw [hsplit, List.all_eq_false]
      exact ⟨p, List.mem_append_right _ List.mem_cons_self, by simp [hframe]⟩
    rw [hall, hsplit]
    simp
  | created hnone hsize hroom =>
    have hall : (self.streams header.stream).pending.all (fun p => p.frame ≠ header.frame) = true := by
      rw [List.all_eq_true]
      exact fun q hq => decide_eq_true (hnone q hq)
    rw [hall, decide_eq_true hsize]
    cases hroom with
    | free => simp [Nat.add_comm]
    | evicted hfull hsplit =>
      rw [hsplit]
      simp
      omega

theorem creates_iff {self : Reassembler} {header : Header} {payload : List UInt8} :
    self.creates header payload = true ↔ (∃ parsed, inspect header payload = .admitted parsed) ∧
      (self.streams header.stream).late header.frame = false ∧
      (∀ p ∈ (self.streams header.stream).pending, p.frame ≠ header.frame) ∧
      header.fragments.toNat * FRAGMENT_SIZE ≤ MAX_FRAME + FRAGMENT_SIZE := by
  unfold creates
  cases inspect header payload with
  | ignored => simp
  | refused e => simp
  | admitted parsed => simp [and_assoc]

/-- **What a push creates is delivered, dropped or waiting.** -/
theorem push_balance {self self' : Reassembler} {header : Header} {payload : List UInt8}
    {out : Pushed} (hpush : self.push header payload = some (out, self')) :
    (self.creates header payload).toNat + self.waiting + self.dropped
      = (delivery out).toList.length + self'.waiting + self'.dropped := by
  have hnone : ∀ {b : Bool}, ¬ b = true → b.toNat = 0 := by
    intro b hb
    cases b with
    | false => rfl
    | true => exact absurd rfl hb
  cases push_exit hpush with
  | ignored h | refused h =>
    have hc : (self.creates header payload).toNat = 0 := hnone fun hc => by
      obtain ⟨⟨parsed, hparsed⟩, -⟩ := creates_iff.mp hc
      rw [h] at hparsed
      cases hparsed
    simp [hc, delivery]
  | late h =>
    have hc : (self.creates header payload).toNat = 0 := hnone fun hc => by
      rw [(creates_iff.mp hc).2.1] at h
      cases h
    simp [hc, delivery]
  | tooMany _ _ _ hsize =>
    have hc : (self.creates header payload).toNat = 0 := hnone fun hc =>
      absurd (creates_iff.mp hc).2.2.2 (Nat.not_le_of_lt hsize)
    simp [hc, delivery]
  | disagreed hparsed hlate hsplit hframe hslots =>
    rename_i parsed before after p
    have hmem : p ∈ (self.streams header.stream).pending := by
      rw [hsplit]
      exact List.mem_append_right _ List.mem_cons_self
    have hc : (self.creates header payload).toNat = 0 := hnone fun hc =>
      (creates_iff.mp hc).2.2.1 p hmem hframe
    have hwait := self.waiting_update header.stream
      ⟨(self.streams header.stream).lastDelivered, before ++ after⟩ 1 0
    rw [hsplit] at hwait
    simp only [List.length_append, List.length_cons] at hwait
    simp only [hc, delivery, update, Option.toList_none, List.length_nil] at hwait ⊢
    omega
  | gaveUp hparsed hlate hloc hadd =>
    rename_i parsed before after p dropped e
    have hbal := Located.balance hparsed hlate hloc
    have hwait := self.waiting_update header.stream
      ⟨(self.streams header.stream).lastDelivered, before ++ after⟩ (dropped + 1) 0
    simp only [List.length_append, List.length_cons] at hwait hbal
    simp only [delivery, update, Option.toList_none, List.length_nil] at hwait ⊢
    omega
  | nothingNew hparsed hlate hloc hadd =>
    rename_i parsed before after p dropped
    have hbal := Located.balance hparsed hlate hloc
    have hwait := self.waiting_update header.stream
      ⟨(self.streams header.stream).lastDelivered, before ++ p :: after⟩ dropped 0
    simp only [delivery, update, Option.toList_none, List.length_nil] at hwait ⊢
    omega
  | kept hparsed hlate hloc hadd hmissing =>
    rename_i parsed before after p p' dropped recovered
    have hbal := Located.balance hparsed hlate hloc
    have hwait := self.waiting_update header.stream
      ⟨(self.streams header.stream).lastDelivered, before ++ p' :: after⟩ dropped recovered
    simp only [List.length_append, List.length_cons] at hwait hbal
    simp only [delivery, update, Option.toList_none, List.length_nil] at hwait ⊢
    omega
  | delivered hparsed hlate hloc hadd hcomplete =>
    rename_i parsed before after p p' dropped recovered
    have hbal := Located.balance hparsed hlate hloc
    set kept := (before ++ after).filter fun q => newer q.frame p'.frame with hkept
    have hle : kept.length ≤ (before ++ after).length := List.length_filter_le _ _
    have hwait := self.waiting_update header.stream ⟨some p'.frame, kept⟩
      (dropped + ((before ++ after).length - kept.length)) recovered
    simp only [List.length_append, List.length_cons] at hwait hbal hle
    simp only [delivery, update, Option.toList_some, List.length_singleton, List.length_append]
      at hwait ⊢
    omega

theorem abandon_balance (self : Reassembler) (stream : UInt16) (frame : UInt32) :
    self.waiting + self.dropped
      = (self.abandon stream frame).1.waiting + (self.abandon stream frame).1.dropped := by
  rcases self.abandon_cases stream frame with ⟨heq, -⟩ | ⟨before, p, after, hsplit, -, heq⟩
  · rw [heq]
  · have hwait := self.waiting_update stream
      ⟨(self.streams stream).lastDelivered, before ++ after⟩ 1 0
    rw [heq]
    rw [hsplit] at hwait
    simp only [List.length_append, List.length_cons] at hwait
    simp only [update] at hwait ⊢
    omega

end Reassembler

/-! ### Runs -/

/-- What a reassembler is asked to do. -/
inductive Event
  | push (header : Header) (payload : List UInt8)
  | abandon (stream : UInt16) (frame : UInt32)

/-- A reassembler, how many entries it made, and what its pushes returned. -/
structure History where
  reassembler : Reassembler
  created : ℕ
  returned : List Pushed

namespace History

def new : History := ⟨Reassembler.new, 0, []⟩

def step (self : History) : Event → Option History
  | .push header payload =>
    match self.reassembler.push header payload with
    | none => none
    | some (out, reassembler) =>
      let created := self.created + (self.reassembler.creates header payload).toNat
      some ⟨reassembler, created, self.returned ++ [out]⟩
  | .abandon stream frame =>
    some { self with reassembler := (self.reassembler.abandon stream frame).1 }

/-- A fresh reassembler after some events; `none` if one of them panicked. -/
def run (events : List Event) : Option History := events.foldlM step new

/-- The frames delivered. -/
def frames (self : History) : List Frame := self.returned.filterMap Reassembler.delivery

/-- The frames delivered after one more push. -/
theorem frames_append (r : Reassembler) (created : ℕ) (returned : List Pushed) (out : Pushed) :
    frames ⟨r, created, returned ++ [out]⟩
      = returned.filterMap Reassembler.delivery ++ (Reassembler.delivery out).toList := by
  unfold frames
  rw [List.filterMap_append]
  cases hout : Reassembler.delivery out <;> simp [hout]

/-- The invariant of every stream, and the account of every entry made. -/
structure Inv (h : History) : Prop where
  streams : h.reassembler.Inv
  account : h.created = h.frames.length + h.reassembler.dropped + h.reassembler.waiting

theorem inv_new : new.Inv := by
  refine ⟨fun _ => StreamState.inv_new, ?_⟩
  rw [show new.reassembler = Reassembler.new from rfl, Reassembler.waiting_new]
  rfl

/-- An event the reassembler can meet: its header is one that `decode` accepts. -/
def Decodes : Event → Prop
  | .push header _ => ∃ datagram, Header.decode datagram = .ok header
  | .abandon _ _ => True

/-- A step never fails, and keeps the invariant. -/
theorem Inv.step {h : History} (hinv : h.Inv) (event : Event) (hevent : Decodes event) :
    ∃ h', h.step event = some h' ∧ h'.Inv := by
  cases event with
  | push header payload =>
    obtain ⟨datagram, hdecode⟩ := hevent
    have hpos := Header.isPosition_of_decode hdecode
    obtain ⟨⟨out, r⟩, hpush⟩ := Reassembler.push_isSome hinv.streams payload hpos
    simp only [History.step, hpush]
    refine ⟨_, rfl, hinv.streams.push hpos hpush, ?_⟩
    have hbal := Reassembler.push_balance hpush
    have haccount := hinv.account
    rw [frames_append, List.length_append]
    unfold frames at haccount
    simp only
    omega
  | abandon stream frame =>
    refine ⟨_, rfl, hinv.streams.abandon stream frame, ?_⟩
    have hbal := h.reassembler.abandon_balance stream frame
    have haccount := hinv.account
    unfold frames at haccount ⊢
    simp only
    omega

/-- **Every run keeps the bounds and accounts for every frame.**  Whatever the
packets say: no step indexes out of range; every stream has at most
`MAX_IN_FLIGHT` waiting frames, distinct, newer than the last one delivered,
none complete, and with true counters; and the entries made are the frames
delivered, dropped or still waiting. -/
theorem run_accounts (events : List Event)
    (hevents : ∀ header payload, .push header payload ∈ events →
      ∃ datagram, Header.decode datagram = .ok header) :
    ∃ h, run events = some h ∧
      (∀ stream, (h.reassembler.streams stream).pending.length ≤ MAX_IN_FLIGHT ∧
        ((h.reassembler.streams stream).pending.map fun p => p.frame).Nodup ∧
        ∀ p ∈ (h.reassembler.streams stream).pending,
          (∀ last, (h.reassembler.streams stream).lastDelivered = some last →
            newer p.frame last = true) ∧
          p.received < p.slots.length ∧
          p.received = p.slots.countP Option.isSome ∧
          p.bytes = p.slots.reduceOption.flatten.length ∧
          p.parityStored = (p.parity.entries.map fun e => e.2.shards.countP Option.isSome).sum) ∧
      h.created = h.frames.length + h.reassembler.dropped
        + ∑ stream, (h.reassembler.streams stream).pending.length := by
  have hdecodes : ∀ event ∈ events, Decodes event := by
    intro event hmem
    cases event with
    | push header payload => exact hevents header payload hmem
    | abandon stream frame => trivial
  obtain ⟨h, hrun, hinv⟩ := Run.total (fun h event hinv hevent => Inv.step hinv event hevent)
    events new inv_new hdecodes
  refine ⟨h, hrun, fun stream => ?_, hinv.account⟩
  have hst := hinv.streams stream
  refine ⟨hst.length_le, hst.distinct, fun p hp => ?_⟩
  have hwf := hst.wellFormed p hp
  exact ⟨hst.newer_last p hp, hst.incomplete p hp, hwf.received, hwf.bytes, hwf.parityStored⟩

/-- Half a frame arrives and is abandoned. -/
theorem run_accounts_abandoned :
    ∃ h, run [.push ⟨0, 1, 0, 0, 2, 0, 500⟩ (List.replicate FRAGMENT_SIZE 7), .abandon 1 0] = some h ∧
      h.created = h.frames.length + h.reassembler.dropped
        + ∑ stream, (h.reassembler.streams stream).pending.length := by
  obtain ⟨h, hrun, -, haccount⟩ := run_accounts
    [.push ⟨0, 1, 0, 0, 2, 0, 500⟩ (List.replicate FRAGMENT_SIZE 7), .abandon 1 0] (by
      intro header payload hmem
      simp only [List.mem_cons, Event.push.injEq, reduceCtorEq, List.not_mem_nil, or_false] at hmem
      obtain ⟨rfl, -⟩ := hmem
      exact ⟨_, (Header.decode_encode_append _ []).trans (if_pos (by decide))⟩)
  exact ⟨h, hrun, haccount⟩

end History

end WindowCast.Bud
