import WindowCast.Bud.Genuine

/-!
# Runs with genuine packets

Any interleaving of packets of sent frames, with loss, duplication, reordering
and abandoned frames.

## Main definitions

* `SentFrame`, `Comes` — the frames sent, and packets that come from them.
* `History.Faithful` — what every step of such a run preserves.

## Main results

* `History.Faithful.step` — a step never fails and keeps the invariant.
* `History.run_faithful` — **what is delivered is what was sent, once and in order.**
-/

namespace WindowCast.Bud

open WindowCast.Fec

/-- A frame as its sender had it. -/
structure SentFrame where
  sentUs : UInt32
  data : List UInt8
  policy : ParityPolicy

/-- The frames sent, by stream and frame number. -/
abbrev Sent := UInt16 → UInt32 → Option SentFrame

/-- The packet of an event is one of a sent frame's. -/
def Comes (sent : Sent) : Event → Prop
  | .push header payload => ∃ stream frame f, sent stream frame = some f ∧
      IsPacket f.policy stream frame f.sentUs f.data header payload
  | .abandon _ _ => True

/-- The numbers of the frames of each stream span less than half the circle. -/
def Spans (sent : Sent) : Prop :=
  ∀ stream, ∃ base : UInt32, ∀ frame, sent stream frame ≠ none → (frame - base).toNat < 2 ^ 31

theorem newer_iff (a b : UInt32) :
    newer a b = true ↔ SerialNumber.Later a.toBitVec b.toBitVec := by
  have hsub : (a - b).toNat = (a.toBitVec - b.toBitVec).toNat := rfl
  have hne : a ≠ b ↔ a.toBitVec ≠ b.toBitVec := not_congr UInt32.toBitVec_inj.symm
  rw [newer, decide_eq_true_eq, SerialNumber.Later, hsub, hne]
  refine and_congr Iff.rfl ?_
  omega

/-- Among the frames of a stream, newer is transitive. -/
theorem Spans.newer_trans {sent : Sent} (h : Spans sent) {stream : UInt16} {a b c : UInt32}
    (ha : sent stream a ≠ none) (hb : sent stream b ≠ none) (hc : sent stream c ≠ none)
    (hab : newer a b = true) (hbc : newer b c = true) : newer a c = true := by
  obtain ⟨base, hbase⟩ := h stream
  have hnear : ∀ f, sent stream f ≠ none → SerialNumber.Near base.toBitVec f.toBitVec := by
    intro f hf
    have hlt := hbase f hf
    have hsub : (f - base).toNat = (f.toBitVec - base.toBitVec).toNat := rfl
    unfold SerialNumber.Near
    omega
  rw [newer_iff, SerialNumber.later_iff (hnear _ ha) (hnear _ hb)] at hab
  rw [newer_iff, SerialNumber.later_iff (hnear _ hb) (hnear _ hc)] at hbc
  rw [newer_iff, SerialNumber.later_iff (hnear _ ha) (hnear _ hc)]
  exact hbc.trans hab

/-- The waiting frame `p` of `stream` holds only what was sent of its frame. -/
def GenuineIn (sent : Sent) (stream : UInt16) (p : Pending) : Prop :=
  ∃ f parts, sent stream p.frame = some f ∧ Cut stream p.frame f.sentUs f.data parts ∧
    p.Genuine f.policy parts

theorem Comes.isPosition {sent : Sent} {header : Header} {payload : List UInt8}
    (h : Comes sent (.push header payload)) : header.IsPosition := by
  obtain ⟨stream, frame, f, -, hpacket⟩ := h
  obtain ⟨packets, hpackets, -⟩ := id hpacket
  obtain ⟨parts, -, hcut, -⟩ := fragmentWithParity_spec stream frame f.sentUs f.policy
    (length_le_of_sent hpackets)
  obtain ⟨-, -, -, -, hpos, -⟩ := hcut.carries hpacket
  exact hpos

/-- What the entry of a sent frame holds is what was sent of that frame. -/
theorem GenuineIn.of_frame {sent : Sent} {stream : UInt16} {frame : UInt32} {f : SentFrame}
    {parts : List Packet} {p : Pending} (h : GenuineIn sent stream p)
    (hsent : sent stream frame = some f) (hcut : Cut stream frame f.sentUs f.data parts)
    (hframe : p.frame = frame) : p.Genuine f.policy parts := by
  obtain ⟨f', parts', hsent', hcut', hp⟩ := h
  rw [hframe, hsent] at hsent'
  cases hsent'
  rw [hframe] at hcut'
  rwa [hcut.parts_eq, ← hcut'.parts_eq]

namespace History

/-- What every step of a run with genuine packets preserves. -/
structure Faithful (sent : Sent) (h : History) : Prop where
  inv : h.reassembler.Inv
  genuine : ∀ stream, ∀ p ∈ (h.reassembler.streams stream).pending, GenuineIn sent stream p
  last_sent : ∀ stream last, (h.reassembler.streams stream).lastDelivered = some last →
    sent stream last ≠ none
  no_error : ∀ out ∈ h.returned, ∃ frame, out = .ok frame
  delivered : ∀ g ∈ h.frames, ∃ f, sent g.stream g.frame = some f ∧ g.data = f.data
  /-- No delivered frame is newer than the last one of its stream. -/
  behind : ∀ g ∈ h.frames, ∃ last, (h.reassembler.streams g.stream).lastDelivered = some last ∧
    (g.frame = last ∨ newer last g.frame = true)
  increasing : h.frames.Pairwise fun a b => a.stream = b.stream → newer b.frame a.frame = true

theorem faithful_new (sent : Sent) : Faithful sent new := by
  refine ⟨fun _ => StreamState.inv_new, ?_, ?_, ?_, ?_, ?_, List.Pairwise.nil⟩
  · exact fun stream p hp => absurd hp List.not_mem_nil
  · intro stream last hlast
    cases hlast
  · exact fun out hout => absurd hout List.not_mem_nil
  · exact fun g hg => absurd hg List.not_mem_nil
  · exact fun g hg => absurd hg List.not_mem_nil

/-- What a push of a genuine packet comes to: too late, nothing new, kept or delivered. -/
inductive GenuineExit (sent : Sent) (self : Reassembler) (header : Header) :
    Pushed → Reassembler → Prop
  | unchanged : GenuineExit sent self header (.ok none) self
  | waits {pending : List Pending} {d r : ℕ} (hpending : ∀ p ∈ pending, GenuineIn sent header.stream p) :
      GenuineExit sent self header (.ok none) (self.update header.stream
        ⟨(self.streams header.stream).lastDelivered, pending⟩ d r)
  | delivered {pending : List Pending} {d r : ℕ} {f : SentFrame} {sentUs : UInt32}
      (hpending : ∀ p ∈ pending, GenuineIn sent header.stream p)
      (hlate : (self.streams header.stream).late header.frame = false)
      (hsent : sent header.stream header.frame = some f) :
      GenuineExit sent self header (.ok (some ⟨header.stream, header.frame, sentUs, f.data⟩))
        (self.update header.stream ⟨some header.frame, pending⟩ d r)

/-- **A push of a genuine packet is never an error.** -/
theorem genuine_exit {sent : Sent} {self self' : Reassembler} {header : Header}
    {payload : List UInt8} {out : Pushed} (hinv : self.Inv)
    (hgenuine : ∀ p ∈ (self.streams header.stream).pending, GenuineIn sent header.stream p)
    (hcomes : Comes sent (.push header payload))
    (hpush : self.push header payload = some (out, self')) :
    GenuineExit sent self header out self' := by
  obtain ⟨stream, frame, f, hsent, hpacket⟩ := hcomes
  obtain ⟨packets, hpackets, -⟩ := id hpacket
  obtain ⟨parts, -, hcut, -⟩ := fragmentWithParity_spec stream frame f.sentUs f.policy
    (length_le_of_sent hpackets)
  obtain ⟨rfl, rfl, -, hfragments, hpos, parsed, hparsed, hcarries⟩ := hcut.carries hpacket
  have hst := hinv header.stream
  have hsized := hcut.sized
  have hbytes : (parts.map fun part => part.2).flatten.length ≤ MAX_FRAME := by
    rw [hcut.flatten_payloads]
    exact hcut.length_le
  have hparts : ∀ p, p.frame = header.frame → GenuineIn sent header.stream p →
      p.Genuine f.policy parts := fun p hframe hp => hp.of_frame hsent hcut hframe
  have hlocated : ∀ {before after : List Pending} {p : Pending} {dropped : ℕ},
      Reassembler.Located (self.streams header.stream).pending header before p after dropped →
      ∀ q ∈ before ++ p :: after, GenuineIn sent header.stream q :=
    fun hloc => StreamState.located_forall hgenuine
      ⟨f, parts, hsent, hcut, Pending.genuine_new hfragments⟩ hloc
  have hstored : ∀ {before after : List Pending} {p p' : Pending} {dropped recovered : ℕ},
      Reassembler.Located (self.streams header.stream).pending header before p after dropped →
      (self.streams header.stream).late header.frame = false →
      p.add header payload parsed = some (.stored p' recovered) →
      p'.frame = header.frame ∧ p'.WellFormed ∧ p'.Genuine f.policy parts := by
    intro before after p p' dropped recovered hloc hlate hadd
    obtain ⟨hinv', hframe, hslots⟩ := hst.located hpos hlate hloc
    have hmem : p ∈ before ++ p :: after := List.mem_append_right _ List.mem_cons_self
    have hwf := hinv'.wellFormed p hmem
    obtain ⟨q, hput, -, hrec, -⟩ := Pending.add_stored hwf hslots hparsed hadd
    exact ⟨hrec.fills.frame.trans ((Pending.frame_put hput).1.trans hframe), hrec.wellFormed,
      (hparts p hframe (hlocated hloc p hmem)).add hsized hwf hslots hparsed hcarries hadd⟩
  cases Reassembler.push_exit hpush with
  | ignored h =>
    rw [hparsed] at h
    cases h
  | refused h =>
    rw [hparsed] at h
    cases h
  | late => exact .unchanged
  | tooMany _ _ hnone hsize =>
    rw [hfragments, hcut.length_parts] at hsize
    exact absurd (fragmentCount_le hcut.length_le) (Nat.not_le_of_lt hsize)
  | disagreed hparsed' hlate hsplit hframe hslots =>
    rename_i parsed' before after p
    have hmem : p ∈ (self.streams header.stream).pending := by
      rw [hsplit]
      exact List.mem_append_right _ List.mem_cons_self
    exact absurd ((hparts p hframe (hgenuine p hmem)).length.trans hfragments.symm) hslots
  | gaveUp hparsed' hlate hloc hadd =>
    rename_i parsed' before after p dropped e
    rw [hparsed] at hparsed'
    cases hparsed'
    obtain ⟨hinv', hframe, hslots⟩ := hst.located hpos hlate hloc
    have hmem : p ∈ before ++ p :: after := List.mem_append_right _ List.mem_cons_self
    exact absurd hadd ((hparts p hframe (hlocated hloc p hmem)).add_ne_refused
      (hinv'.wellFormed p hmem) hbytes hcarries e)
  | nothingNew hparsed' hlate hloc hadd => exact .waits (hlocated hloc)
  | kept hparsed' hlate hloc hadd hmissing =>
    rename_i parsed' before after p p' dropped recovered
    rw [hparsed] at hparsed'
    cases hparsed'
    obtain ⟨hframe', -, hp'⟩ := hstored hloc hlate hadd
    refine .waits fun q hq => ?_
    rcases List.mem_append.mp hq with hq | hq
    · exact hlocated hloc q (List.mem_append_left _ hq)
    rcases List.mem_cons.mp hq with rfl | hq
    · exact ⟨f, parts, by rw [hframe']; exact hsent, by rw [hframe']; exact hcut, hp'⟩
    · exact hlocated hloc q (List.mem_append_right _ (List.mem_cons_of_mem _ hq))
  | delivered hparsed' hlate hloc hadd hcomplete =>
    rename_i parsed' before after p p' dropped recovered
    rw [hparsed] at hparsed'
    cases hparsed'
    obtain ⟨hframe', hwf', hp'⟩ := hstored hloc hlate hadd
    rw [hp'.data_eq hwf' hcomplete, hcut.flatten_payloads, hframe']
    refine .delivered (fun q hq => ?_) hlate hsent
    have hq := (List.mem_filter.mp hq).1
    exact hlocated hloc q (Reassembler.sublist_split.subset hq)

theorem Faithful.no_error_ok {sent : Sent} {h : History} (hf : h.Faithful sent)
    (frame : Option Frame) : ∀ out ∈ h.returned ++ [.ok frame], ∃ frame, out = .ok frame := by
  intro out hout
  rcases List.mem_append.mp hout with hout | hout
  · exact hf.no_error out hout
  · exact ⟨frame, List.mem_singleton.mp hout⟩

/-- **A step with a genuine packet** never fails and keeps the invariant. -/
theorem Faithful.step {sent : Sent} (hspan : Spans sent) {h : History} (hf : h.Faithful sent)
    (event : Event) (hcomes : Comes sent event) :
    ∃ h', h.step event = some h' ∧ h'.Faithful sent := by
  cases event with
  | abandon stream frame =>
    have hstreams := h.reassembler.streams_abandon stream frame
    refine ⟨_, rfl, hf.inv.abandon stream frame, fun s p hp => ?_, fun s last hlast => ?_,
      hf.no_error, hf.delivered, fun g hg => ?_, hf.increasing⟩
    · exact hf.genuine s p ((hstreams s).2.subset hp)
    · exact hf.last_sent s last ((hstreams s).1 ▸ hlast)
    · simp only [(hstreams g.stream).1]
      exact hf.behind g hg
  | push header payload =>
    obtain ⟨⟨out, r⟩, hpush⟩ := Reassembler.push_isSome hf.inv payload hcomes.isPosition
    have hinv := hf.inv.push hcomes.isPosition hpush
    have hexit := genuine_exit hf.inv (hf.genuine header.stream) hcomes hpush
    simp only [History.step, hpush]
    refine ⟨_, rfl, ?_⟩
    cases hexit with
    | unchanged =>
      refine ⟨hinv, hf.genuine, hf.last_sent, hf.no_error_ok none, ?_, ?_, ?_⟩ <;>
        simp only [frames_append, Reassembler.delivery, Option.toList_none, List.append_nil]
      · exact hf.delivered
      · exact hf.behind
      · exact hf.increasing
    | waits hpending =>
      rename_i pending d r'
      -- no stream delivered anything
      have hlast : ∀ s, ((h.reassembler.update header.stream
          ⟨(h.reassembler.streams header.stream).lastDelivered, pending⟩ d r').streams s).lastDelivered
          = (h.reassembler.streams s).lastDelivered := by
        intro s
        rw [Reassembler.streams_update]
        split
        · rename_i hs
          rw [hs]
        · rfl
      refine ⟨hinv, fun s p hp => ?_, fun s last hs => hf.last_sent s last ((hlast s).symm.trans hs),
        hf.no_error_ok none, ?_, ?_, ?_⟩
      · rw [Reassembler.streams_update] at hp
        split at hp
        · rename_i hs
          rw [hs]
          exact hpending p hp
        · exact hf.genuine s p hp
      all_goals
        simp only [frames_append, Reassembler.delivery, Option.toList_none, List.append_nil, hlast]
      · exact hf.delivered
      · exact hf.behind
      · exact hf.increasing
    | delivered hpending hlate hsent =>
      rename_i pending d r' f sentUs
      have hne : sent header.stream header.frame ≠ none := by
        rw [hsent]
        exact Option.some_ne_none _
      -- the delivered frame is newer than every earlier one of the stream
      have hnewer : ∀ g ∈ h.frames, g.stream = header.stream → newer header.frame g.frame = true := by
        intro g hg hs
        obtain ⟨last, hlast, hor⟩ := hf.behind g hg
        rw [hs] at hlast
        have hnew := StreamState.not_late hlate last hlast
        rcases hor with heq | hor
        · rw [heq]
          exact hnew
        · obtain ⟨f', hsent', -⟩ := hf.delivered g hg
          refine hspan.newer_trans hne (hf.last_sent _ last hlast) ?_ hnew hor
          rw [← hs, hsent']
          exact Option.some_ne_none _
      refine ⟨hinv, fun s p hp => ?_, fun s last hs => ?_, hf.no_error_ok _, ?_, ?_, ?_⟩
      · rw [Reassembler.streams_update] at hp
        split at hp
        · rename_i hs
          rw [hs]
          exact hpending p hp
        · exact hf.genuine s p hp
      · rw [Reassembler.streams_update] at hs
        split at hs
        · rename_i heq
          cases hs
          rw [heq]
          exact hne
        · exact hf.last_sent s last hs
      all_goals simp only [frames_append, Reassembler.delivery, Option.toList_some]
      · intro g hg
        rcases List.mem_append.mp hg with hg | hg
        · exact hf.delivered g hg
        · rw [List.mem_singleton.mp hg]
          exact ⟨f, hsent, rfl⟩
      · intro g hg
        rw [Reassembler.streams_update]
        rcases List.mem_append.mp hg with hg | hg
        · split
          · rename_i hs
            exact ⟨_, rfl, .inr (hnewer g hg hs)⟩
          · exact hf.behind g hg
        · rw [List.mem_singleton.mp hg, if_pos rfl]
          exact ⟨_, rfl, .inl rfl⟩
      · refine List.pairwise_append.mpr ⟨hf.increasing, List.pairwise_singleton _ _, ?_⟩
        intro a ha b hb hs
        rw [List.mem_singleton.mp hb] at hs ⊢
        exact hnewer a ha hs

/-- **What is delivered is what was sent, once and in order.**  In every run of
pushes of packets of sent frames, under any interleaving, loss, duplication and
reordering, and of abandonments: no push is an error; every delivered frame has
the bytes sent under its stream and number; none is delivered twice; and the
numbers delivered on a stream increase. -/
theorem run_faithful (sent : Sent) (hspan : Spans sent) (events : List Event)
    (hcomes : ∀ event ∈ events, Comes sent event) :
    ∃ h, run events = some h ∧
      (∀ out ∈ h.returned, ∀ e, out ≠ .error e) ∧
      (∀ g ∈ h.frames, ∃ f, sent g.stream g.frame = some f ∧ g.data = f.data) ∧
      (h.frames.map fun g => (g.stream, g.frame)).Nodup ∧
      h.frames.Pairwise (fun a b => a.stream = b.stream → newer b.frame a.frame = true) := by
  obtain ⟨h, hrun, hf⟩ := Run.total (fun h event hf hevent => Faithful.step hspan hf event hevent)
    events new (faithful_new sent) hcomes
  refine ⟨h, hrun, fun out hout e herr => ?_, hf.delivered, ?_, hf.increasing⟩
  · obtain ⟨frame, hok⟩ := hf.no_error out hout
    rw [herr] at hok
    cases hok
  · refine List.pairwise_map.mpr (hf.increasing.imp fun {a b} hab heq => ?_)
    obtain ⟨hs, hframe⟩ := Prod.mk.inj heq
    have hnewer := hab hs
    rw [hframe, newer_iff] at hnewer
    exact SerialNumber.not_later_self _ hnewer

/-- Two frames of one stream, whose numbers wrap. -/
def wrapping : Sent := fun stream frame =>
  if stream = 1 ∧ (frame = 0xffffffff ∨ frame = 0) then some ⟨500, [7, 8], NoParity⟩ else none

/-- The frame after the wrap arrives first. -/
theorem run_faithful_wrapping :
    ∃ h, run [.push ⟨0, 1, 0, 0, 1, 0, 500⟩ [7, 8], .push ⟨0, 1, 0xffffffff, 0, 1, 0, 500⟩ [7, 8],
        .abandon 1 0] = some h ∧
      (∀ out ∈ h.returned, ∀ e, out ≠ .error e) ∧
      h.frames.Pairwise (fun a b => a.stream = b.stream → newer b.frame a.frame = true) := by
  have hspan : Spans wrapping := by
    intro stream
    refine ⟨0xffffffff, fun frame hframe => ?_⟩
    unfold wrapping at hframe
    split at hframe
    · rename_i h
      rcases h.2 with rfl | rfl <;> decide
    · exact absurd rfl hframe
  obtain ⟨h, hrun, herror, -, -, hpairwise⟩ := run_faithful wrapping hspan
    [.push ⟨0, 1, 0, 0, 1, 0, 500⟩ [7, 8], .push ⟨0, 1, 0xffffffff, 0, 1, 0, 500⟩ [7, 8],
      .abandon 1 0] (by
      intro event hmem
      rcases List.mem_cons.mp hmem with rfl | hmem
      · exact ⟨1, 0, _, rfl, _, rfl, List.mem_singleton_self _⟩
      rcases List.mem_cons.mp hmem with rfl | hmem
      · exact ⟨1, 0xffffffff, _, rfl, _, rfl, List.mem_singleton_self _⟩
      rw [List.mem_singleton.mp hmem]
      trivial)
  exact ⟨h, hrun, herror, hpairwise⟩

end History

end WindowCast.Bud
