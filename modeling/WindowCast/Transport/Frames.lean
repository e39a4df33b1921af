import WindowCast.Transport.RemoteWindow
import WindowCast.Lib.Run

/-!
# Frames from a lossy track

A track sends its packets in order, numbered on sixteen bits; what arrives of
them may have gaps, repetitions and any order.  A frame that is returned should
be one access unit, whole, and a keyframe after every loss.  The loop drops a
damaged frame only if it is no keyframe: one that reads as a keyframe is returned
whatever is missing of it.

## Main definitions

* `Track` — the packets a host sends.
* `Complete` — what ends with a packet is one access unit with nothing missing.
* `Decodable` — a frame is complete, and every access unit since a keyframe is.
* `Unmasked` — no gap that the sixteen bits hide.

## Main results

* `Track.Inv.receive` — what every packet preserves.
* `Track.decodable_of_keyframes` — **every frame is decodable if nothing
  incomplete reads as a keyframe**, and only then.
-/

namespace WindowCast.Transport

/-- What a reassembler has made of some packets. -/
structure Assembly (σ : Type) where
  reassembler : σ
  data : List UInt8
  /-- Whether each could be parsed. -/
  parsed : Bool

namespace Depacketizer

variable {σ : Type} (self : Depacketizer σ)

/-- One more packet. -/
def assembleOne (assembly : Assembly σ) (packet : RtpPacket) : Assembly σ :=
  if packet.payload = [] then assembly
  else
    match self.push assembly.reassembler packet with
    | (reassembler, some bitstream) => ⟨reassembler, assembly.data ++ bitstream, assembly.parsed⟩
    | (reassembler, none) => ⟨reassembler, assembly.data, false⟩

def assemble (reassembler : σ) (packets : List RtpPacket) : Assembly σ :=
  packets.foldl self.assembleOne ⟨reassembler, [], true⟩

theorem assemble_concat (reassembler : σ) (packets : List RtpPacket) (packet : RtpPacket) :
    self.assemble reassembler (packets ++ [packet])
      = self.assembleOne (self.assemble reassembler packets) packet := by
  unfold assemble
  rw [List.foldl_append]
  rfl

end Depacketizer

/-- The packets a host sends on a track. -/
structure Track where
  packet : ℕ → RtpPacket
  numbered : ∀ n, (packet n).sequenceNumber = (packet 0).sequenceNumber + BitVec.ofNat 16 n

namespace Track

variable {σ : Type} (depacketizer : Depacketizer σ) (codec : VideoCodec) (track : Track)

def marker (n : ℕ) : Bool := (track.packet n).marker

/-- What arrived up to the last marker. -/
def earlier (arrivals : List ℕ) : List ℕ := arrivals.rdropWhile fun n => !track.marker n

/-- What arrived since. -/
def group (arrivals : List ℕ) : List ℕ := arrivals.rtakeWhile fun n => !track.marker n

/-- The window after some packets. -/
def after (arrivals : List ℕ) : RemoteWindow σ :=
  arrivals.foldl (fun window n => (window.receive depacketizer (track.packet n)).1) (.new depacketizer codec)

/-- What comes of packet `n` after some others. -/
def received (before : List ℕ) (n : ℕ) : Received :=
  ((track.after depacketizer codec before).receive depacketizer (track.packet n)).2

/-- What the packets since the last marker are put together to. -/
def assembled (before packets : List ℕ) : Assembly σ :=
  depacketizer.assemble (track.after depacketizer codec (track.earlier before)).reassembler
    (packets.map track.packet)

/-- The packets of one access unit, in order and with none missing. -/
structure Whole (packets : List ℕ) : Prop where
  next : packets.IsChain fun a b => b = a + 1
  starts : ∀ first ∈ packets.head?, first = 0 ∨ track.marker (first - 1) = true
  inner : ∀ n ∈ packets.dropLast, track.marker n = false
  ends : ∀ last ∈ packets.getLast?, track.marker last = true

/-- What ends with packet `n` is one access unit, each packet of it parsed. -/
def Complete (before : List ℕ) (n : ℕ) : Prop :=
  track.Whole (track.group before ++ [n]) ∧
    (track.assembled depacketizer codec before (track.group before ++ [n])).parsed = true

/-- A frame is the whole of one access unit, and it is a keyframe, or from a
keyframe that was returned on no packet is missing and every access unit is
complete. -/
structure Decodable (before : List ℕ) (n : ℕ) (frame : WindowFrame) : Prop where
  complete : track.Complete depacketizer codec before n
  data : frame.data = (track.assembled depacketizer codec before (track.group before ++ [n])).data
  follows : frame.keyframe = true ∨ ∃ start m since key, before = start ++ m :: since ∧
    track.received depacketizer codec start m = .frame key ∧ key.keyframe = true ∧
    (m :: (since ++ [n])).IsChain (fun a b => b = a + 1) ∧
    Run.Always (fun between k => track.marker k = true →
      track.Complete depacketizer codec (start ++ m :: between) k) (since ++ [n])

/-- Sequence numbers that follow on are those of packets that do. -/
def Unmasked (arrivals : List ℕ) : Prop :=
  arrivals.IsChain fun m n =>
    (track.packet n).sequenceNumber = (track.packet m).sequenceNumber + 1 → n = m + 1

/-- What is read as a keyframe is complete. -/
def KeyframeComplete (before : List ℕ) (n : ℕ) : Prop :=
  track.marker n = true → ¬ track.Complete depacketizer codec before n →
    isKeyframe codec (track.assembled depacketizer codec before (track.group before ++ [n])).data = false

/-- Nothing incomplete reads as a keyframe. -/
def KeyframesComplete (arrivals : List ℕ) : Prop :=
  Run.Always (track.KeyframeComplete depacketizer codec) arrivals

/-- Every frame returned is decodable. -/
def Intact (arrivals : List ℕ) : Prop :=
  Run.Always (fun before n => ∀ frame, track.received depacketizer codec before n = .frame frame →
    track.Decodable depacketizer codec before n frame) arrivals

variable {depacketizer codec track}

/-! ### One packet more -/

theorem after_concat (before : List ℕ) (n : ℕ) :
    track.after depacketizer codec (before ++ [n])
      = ((track.after depacketizer codec before).receive depacketizer (track.packet n)).1 := by
  unfold after
  rw [List.foldl_append]
  rfl

theorem earlier_append_group (before : List ℕ) : track.earlier before ++ track.group before = before :=
  List.rdropWhile_append_rtakeWhile

theorem earlier_inner {before : List ℕ} {n : ℕ} (h : track.marker n = false) :
    track.earlier (before ++ [n]) = track.earlier before :=
  List.rdropWhile_concat_pos _ _ _ (by rw [h]; rfl)

theorem group_inner {before : List ℕ} {n : ℕ} (h : track.marker n = false) :
    track.group (before ++ [n]) = track.group before ++ [n] :=
  List.rtakeWhile_concat_pos _ _ _ (by rw [h]; rfl)

theorem earlier_marker {before : List ℕ} {n : ℕ} (h : track.marker n = true) :
    track.earlier (before ++ [n]) = before ++ [n] :=
  List.rdropWhile_concat_neg _ _ _ (by rw [h]; exact Bool.false_ne_true)

theorem group_marker {before : List ℕ} {n : ℕ} (h : track.marker n = true) :
    track.group (before ++ [n]) = [] :=
  List.rtakeWhile_concat_neg _ _ _ (by rw [h]; exact Bool.false_ne_true)

theorem marker_group {before : List ℕ} {n : ℕ} (h : n ∈ track.group before) : track.marker n = false := by
  have := List.mem_rtakeWhile_imp h
  rwa [Bool.not_eq_true'] at this

/-- Before the packets since the last marker is that marker. -/
theorem marker_earlier {before : List ℕ} {m : ℕ} (h : m ∈ (track.earlier before).getLast?) :
    track.marker m = true := by
  have hne : track.earlier before ≠ [] := by
    rintro hnil
    rw [hnil] at h
    cases h
  have hlast := List.rdropWhile_last_not _ _ hne
  rw [List.getLast?_eq_some_getLast hne, Option.mem_some_iff] at h
  rw [← h]
  rwa [Bool.not_eq_true', Bool.not_eq_false] at hlast

/-! ### The invariant -/

variable (depacketizer codec track) in
/-- The keyframe that was returned last, with nothing missing since. -/
def Fed (upTo : List ℕ) : Prop :=
  ∃ start m since key, upTo = start ++ m :: since ∧
    track.received depacketizer codec start m = .frame key ∧ key.keyframe = true ∧
    (m :: since).IsChain (fun a b => b = a + 1) ∧
    Run.Always (fun between k => track.marker k = true →
      track.Complete depacketizer codec (start ++ m :: between) k) since

variable (depacketizer codec track) in
/-- The window that has put packet `n` to the others. -/
def taken (before : List ℕ) (n : ℕ) : RemoteWindow σ :=
  ((track.after depacketizer codec before).sequenced (track.packet n).sequenceNumber).push depacketizer
    (track.packet n)

theorem receive_eq (before : List ℕ) (n : ℕ) :
    (track.after depacketizer codec before).receive depacketizer (track.packet n)
      = if track.marker n then (track.taken depacketizer codec before n).finish (track.packet n).timestamp
        else (track.taken depacketizer codec before n, .nothing) := rfl

theorem after_inner {before : List ℕ} {n : ℕ} (h : track.marker n = false) :
    track.after depacketizer codec (before ++ [n]) = track.taken depacketizer codec before n := by
  rw [after_concat, receive_eq, h, if_neg Bool.false_ne_true]

theorem after_marker {before : List ℕ} {n : ℕ} (h : track.marker n = true) :
    ∃ awaiting, track.after depacketizer codec (before ++ [n])
      = (track.taken depacketizer codec before n).cleared awaiting := by
  rw [after_concat, receive_eq, h, if_pos rfl]
  rcases (track.taken depacketizer codec before n).finish_cases (track.packet n).timestamp with
    ⟨-, hfinish⟩ | ⟨-, -, hfinish⟩ | ⟨-, -, hfinish⟩
  · exact ⟨_, congrArg Prod.fst hfinish⟩
  · exact ⟨_, congrArg Prod.fst hfinish⟩
  · exact ⟨_, congrArg Prod.fst hfinish⟩

variable (depacketizer codec track) in
/-- What a window holds when `packets` came since the last marker. -/
structure Held (before packets : List ℕ) (window : RemoteWindow σ) : Prop where
  coded : window.codec = codec
  reassembler : window.reassembler = (track.assembled depacketizer codec before packets).reassembler
  frame : window.frame = (track.assembled depacketizer codec before packets).data
  parsed : window.frameDamaged = false →
    (track.assembled depacketizer codec before packets).parsed = true

/-- A packet's bitstream is appended. -/
theorem Held.taken {before : List ℕ}
    (h : track.Held depacketizer codec before (track.group before) (track.after depacketizer codec before))
    (n : ℕ) :
    track.Held depacketizer codec before (track.group before ++ [n])
      (track.taken depacketizer codec before n) := by
  have hassembled : track.assembled depacketizer codec before (track.group before ++ [n])
      = depacketizer.assembleOne (track.assembled depacketizer codec before (track.group before))
        (track.packet n) := by
    unfold assembled
    rw [List.map_append]
    exact depacketizer.assemble_concat _ _ _
  unfold Track.taken
  have hsequenced : track.Held depacketizer codec before (track.group before)
      ((track.after depacketizer codec before).sequenced (track.packet n).sequenceNumber) :=
    ⟨h.coded, h.reassembler, h.frame, fun hclean => h.parsed (Bool.or_eq_false_iff.mp hclean).1⟩
  generalize (track.after depacketizer codec before).sequenced (track.packet n).sequenceNumber = window
    at hsequenced ⊢
  unfold RemoteWindow.push
  rw [hsequenced.reassembler]
  by_cases hpayload : (track.packet n).payload = []
  · rw [Depacketizer.assembleOne, if_pos hpayload] at hassembled
    rw [if_pos hpayload]
    refine ⟨hsequenced.coded, ?_, ?_, ?_⟩
    · rw [hassembled]
      exact hsequenced.reassembler
    · rw [hassembled]
      exact hsequenced.frame
    · rw [hassembled]
      exact hsequenced.parsed
  · rw [Depacketizer.assembleOne, if_neg hpayload] at hassembled
    rw [if_neg hpayload]
    split
    · rename_i reassembler bitstream hpush
      rw [hpush] at hassembled
      refine ⟨hsequenced.coded, ?_, ?_, ?_⟩
      · rw [hassembled]
      · rw [hassembled]
        exact congrArg (· ++ bitstream) hsequenced.frame
      · rw [hassembled]
        exact hsequenced.parsed
    · rename_i reassembler hpush
      rw [hpush] at hassembled
      refine ⟨hsequenced.coded, ?_, ?_, nofun⟩
      · rw [hassembled]
      · rw [hassembled]
        exact hsequenced.frame

theorem assembled_inner {before packets : List ℕ} {n : ℕ} (h : track.marker n = false) :
    track.assembled depacketizer codec (before ++ [n]) packets
      = track.assembled depacketizer codec before packets := by
  unfold assembled
  rw [earlier_inner h]

/-- A window holds what its packets are put together to. -/
theorem held (before : List ℕ) :
    track.Held depacketizer codec before (track.group before)
      (track.after depacketizer codec before) := by
  induction before using List.reverseRecOn with
  | nil => exact ⟨rfl, rfl, rfl, fun _ => rfl⟩
  | append_singleton before n ih =>
    cases hmarker : track.marker n with
    | false =>
      have htaken := ih.taken n
      rw [after_inner hmarker, group_inner hmarker]
      refine ⟨htaken.coded, ?_, ?_, ?_⟩
      · rw [assembled_inner hmarker]
        exact htaken.reassembler
      · rw [assembled_inner hmarker]
        exact htaken.frame
      · rw [assembled_inner hmarker]
        exact htaken.parsed
    | true =>
      -- after the marker nothing is put together yet
      obtain ⟨awaiting, hafter⟩ := @after_marker _ depacketizer codec track before n hmarker
      rw [group_marker hmarker]
      refine ⟨?_, ?_, ?_, fun _ => rfl⟩
      · rw [hafter]
        exact (ih.taken n).coded
      · unfold assembled
        rw [earlier_marker hmarker]
        rfl
      · rw [hafter]
        rfl

variable (depacketizer codec track) in
/-- What a window knows of gaps. -/
structure Inv (before packets : List ℕ) (window : RemoteWindow σ) : Prop where
  last : window.lastSequence
    = ((track.earlier before ++ packets).getLast?).map fun m => (track.packet m).sequenceNumber
  next : window.frameDamaged = false →
    ((track.earlier before).getLast?.toList ++ packets).IsChain fun a b => b = a + 1
  fed : window.awaitingKeyframe = false → track.Fed depacketizer codec (track.earlier before)

theorem inv_new : track.Inv depacketizer codec [] [] (.new depacketizer codec) where
  last := rfl
  next _ := List.isChain_nil
  fed h := by cases h

/-- The last packet, seen from the last marker on. -/
theorem getLast?_toList_append (l packets : List ℕ) :
    (l.getLast?.toList ++ packets).getLast? = (l ++ packets).getLast? := by
  rw [List.getLast?_append, List.getLast?_append]
  cases l.getLast? <;> rfl

/-- Appending a bitstream leaves alone what the numbers say. -/
theorem push_fields (window : RemoteWindow σ) (packet : RtpPacket) :
    (window.push depacketizer packet).lastSequence = window.lastSequence ∧
      (window.push depacketizer packet).awaitingKeyframe = window.awaitingKeyframe ∧
      ((window.push depacketizer packet).frameDamaged = false → window.frameDamaged = false) := by
  unfold RemoteWindow.push
  split
  · exact ⟨rfl, rfl, id⟩
  · split
    · exact ⟨rfl, rfl, id⟩
    · exact ⟨rfl, rfl, nofun⟩

/-- A packet's number is looked at. -/
theorem Inv.taken {before : List ℕ}
    (h : track.Inv depacketizer codec before (track.group before) (track.after depacketizer codec before))
    {n : ℕ} (hunmasked : ∀ m ∈ before.getLast?,
      (track.packet n).sequenceNumber = (track.packet m).sequenceNumber + 1 → n = m + 1) :
    track.Inv depacketizer codec before (track.group before ++ [n])
      (track.taken depacketizer codec before n) := by
  obtain ⟨hlast, hawaiting, hdamaged⟩ := @push_fields _ depacketizer
    ((track.after depacketizer codec before).sequenced (track.packet n).sequenceNumber) (track.packet n)
  refine ⟨?_, ?_, ?_⟩
  · rw [← List.append_assoc, List.getLast?_concat]
    exact hlast
  · intro hclean
    -- an undamaged frame goes on where the last packet was
    obtain ⟨hwindow, hany⟩ := Bool.or_eq_false_iff.mp (hdamaged hclean)
    rw [← List.append_assoc]
    refine List.isChain_append.mpr ⟨h.next hwindow, List.isChain_singleton _, ?_⟩
    intro m hm b hb
    rw [List.head?_cons, Option.mem_some_iff] at hb
    subst hb
    rw [getLast?_toList_append, earlier_append_group] at hm
    apply hunmasked m hm
    rw [h.last, earlier_append_group, hm, Option.map_some, Option.any_some,
      decide_eq_false_iff_not, ne_eq, not_not] at hany
    exact hany
  · intro hfed
    exact h.fed (hawaiting.symm.trans hfed)

/-- What came undamaged from the last marker to the next one is one access unit. -/
theorem Inv.complete {before : List ℕ} {n m : ℕ}
    (h : track.Inv depacketizer codec before (track.group before ++ [n])
      (track.taken depacketizer codec before n))
    (hm : m ∈ (track.earlier before).getLast?) (hmarker : track.marker n = true)
    (hclean : (track.taken depacketizer codec before n).frameDamaged = false) :
    track.Complete depacketizer codec before n := by
  have hchain := h.next hclean
  have hparsed := ((held before).taken n).parsed hclean
  rw [Option.mem_def.mp hm, Option.toList_some, List.singleton_append] at hchain
  refine ⟨⟨hchain.tail, ?_, ?_, ?_⟩, hparsed⟩
  · intro first hfirst
    obtain ⟨rest, hrest⟩ := List.head?_eq_some_iff.mp hfirst
    rw [hrest] at hchain
    rw [(List.isChain_cons_cons.mp hchain).1, Nat.add_sub_cancel]
    exact .inr (marker_earlier hm)
  · rw [List.dropLast_concat]
    exact fun k hk => marker_group hk
  · rw [List.getLast?_concat]
    rintro _ ⟨⟩
    exact hmarker

/-- An access unit more since the keyframe. -/
theorem Fed.concat {before : List ℕ} {n : ℕ} (hfed : track.Fed depacketizer codec (track.earlier before))
    (h : track.Inv depacketizer codec before (track.group before ++ [n])
      (track.taken depacketizer codec before n))
    (hmarker : track.marker n = true)
    (hclean : (track.taken depacketizer codec before n).frameDamaged = false) :
    track.Fed depacketizer codec (before ++ [n]) ∧ track.Complete depacketizer codec before n := by
  obtain ⟨start, m, since, key, hsplit, hkey, hkeyframe, hchain, hcomplete⟩ := hfed
  have hbefore : before = start ++ m :: (since ++ track.group before) := by
    conv_lhs => rw [← track.earlier_append_group before, hsplit, List.append_assoc, List.cons_append]
  have hlast : (track.earlier before).getLast? = (m :: since).getLast? := by
    rw [hsplit, List.getLast?_append]
    cases hsince : (m :: since).getLast? with
    | none => exact absurd (List.getLast?_eq_none_iff.mp hsince) (List.cons_ne_nil _ _)
    | some k => rfl
  have hdone : track.Complete depacketizer codec before n := by
    cases hsince : (m :: since).getLast? with
    | none => exact absurd (List.getLast?_eq_none_iff.mp hsince) (List.cons_ne_nil _ _)
    | some k => exact h.complete (hlast.trans hsince) hmarker hclean
  refine ⟨⟨start, m, since ++ (track.group before ++ [n]), key, ?_, hkey, hkeyframe, ?_, ?_⟩, hdone⟩
  · conv_lhs => rw [hbefore]
    rw [List.append_assoc, List.cons_append, List.append_assoc]
  · have hjoin := h.next hclean
    rw [hlast] at hjoin
    rw [← List.cons_append]
    refine List.isChain_append.mpr ⟨hchain, (List.isChain_append.mp hjoin).2.1, ?_⟩
    intro k hk b hb
    rw [Option.mem_def.mp hk] at hjoin
    exact (List.isChain_append.mp hjoin).2.2 k rfl b hb
  · rw [← List.append_assoc]
    refine Run.always_concat.mpr ⟨?_, ?_⟩
    · refine Run.always_append_of_forall hcomplete fun k hk between hk' => ?_
      rw [marker_group hk] at hk'
      cases hk'
    · intro _
      rw [← hbefore]
      exact hdone

/-- From the keyframe on, nothing is missing up to a packet that a frame comes of. -/
theorem Fed.follows {before : List ℕ} {n : ℕ} {frame : WindowFrame}
    (hfed : track.Fed depacketizer codec (before ++ [n]))
    (hframe : track.received depacketizer codec before n = .frame frame) :
    frame.keyframe = true ∨ ∃ start m since key, before = start ++ m :: since ∧
      track.received depacketizer codec start m = .frame key ∧ key.keyframe = true ∧
      (m :: (since ++ [n])).IsChain (fun a b => b = a + 1) ∧
      Run.Always (fun between k => track.marker k = true →
        track.Complete depacketizer codec (start ++ m :: between) k) (since ++ [n]) := by
  obtain ⟨start, m, since, key, hsplit, hkey, hkeyframe, hchain, hcomplete⟩ := hfed
  rcases List.eq_nil_or_concat since with rfl | ⟨since, k, rfl⟩
  · -- the keyframe is the frame
    obtain ⟨rfl, hn⟩ := List.append_inj' hsplit rfl
    cases hn
    rw [hkey] at hframe
    cases hframe
    exact .inl hkeyframe
  · rw [List.concat_eq_append] at hsplit hchain hcomplete
    rw [← List.cons_append, ← List.append_assoc] at hsplit
    obtain ⟨rfl, hn⟩ := List.append_inj' hsplit rfl
    cases hn
    exact .inr ⟨start, m, since, key, rfl, hkey, hkeyframe, hchain, hcomplete⟩

/-- Two packets that come one after the other. -/
theorem Unmasked.next {before after : List ℕ} {n : ℕ} {arrivals : List ℕ}
    (h : track.Unmasked arrivals) (hsplit : arrivals = before ++ n :: after) :
    ∀ m ∈ before.getLast?,
      (track.packet n).sequenceNumber = (track.packet m).sequenceNumber + 1 → n = m + 1 := by
  unfold Unmasked at h
  rw [hsplit] at h
  intro m hm
  exact (List.isChain_append.mp h).2.2 m hm n rfl

/-- **What every packet preserves**, and that a frame that comes of it is decodable. -/
theorem Inv.receive {before : List ℕ}
    (h : track.Inv depacketizer codec before (track.group before) (track.after depacketizer codec before))
    {n : ℕ} (hunmasked : ∀ m ∈ before.getLast?,
      (track.packet n).sequenceNumber = (track.packet m).sequenceNumber + 1 → n = m + 1)
    (hkeyframe : track.KeyframeComplete depacketizer codec before n) :
    track.Inv depacketizer codec (before ++ [n]) (track.group (before ++ [n]))
        (track.after depacketizer codec (before ++ [n])) ∧
      ∀ frame, track.received depacketizer codec before n = .frame frame →
        track.Decodable depacketizer codec before n frame := by
  have htaken := h.taken hunmasked
  have hheld := (@held _ depacketizer codec track before).taken n
  unfold received
  cases hmarker : track.marker n with
  | false =>
    rw [after_inner hmarker, group_inner hmarker, receive_eq, hmarker, if_neg Bool.false_ne_true]
    refine ⟨⟨?_, ?_, ?_⟩, nofun⟩
    · rw [earlier_inner hmarker]
      exact htaken.last
    · rw [earlier_inner hmarker]
      exact htaken.next
    · rw [earlier_inner hmarker]
      exact htaken.fed
  | true =>
    rw [group_marker hmarker]
    have hreceive := @receive_eq _ depacketizer codec track before n
    rw [hmarker, if_pos rfl] at hreceive
    have hclean : ((track.taken depacketizer codec before n).awaitingKeyframe ||
          (track.taken depacketizer codec before n).frameDamaged) = false →
        track.Fed depacketizer codec (before ++ [n]) ∧ track.Complete depacketizer codec before n := by
      intro hboth
      obtain ⟨hawaiting, hdamaged⟩ := Bool.or_eq_false_iff.mp hboth
      exact (htaken.fed hawaiting).concat htaken hmarker hdamaged
    generalize track.taken depacketizer codec before n = window at *
    have hafter : ∀ {awaiting : Bool} {received : Received},
        window.finish (track.packet n).timestamp = (window.cleared awaiting, received) →
        (awaiting = false → track.Fed depacketizer codec (before ++ [n])) →
        track.Inv depacketizer codec (before ++ [n]) [] (track.after depacketizer codec (before ++ [n])) := by
      intro awaiting received hfinish hfed
      rw [after_concat, hreceive, hfinish]
      refine ⟨?_, ?_, ?_⟩
      · rw [earlier_marker hmarker, List.append_nil]
        have hlast := htaken.last
        rw [← List.append_assoc, earlier_append_group] at hlast
        exact hlast
      · intro _
        rw [earlier_marker hmarker, List.getLast?_concat]
        exact List.isChain_singleton _
      · rw [earlier_marker hmarker]
        exact hfed
    rw [hreceive]
    rcases window.finish_cases (track.packet n).timestamp with
      ⟨-, hfinish⟩ | ⟨-, -, hfinish⟩ | ⟨-, hreturned, hfinish⟩
    · rw [hfinish]
      exact ⟨hafter hfinish fun hboth => (hclean hboth).1, nofun⟩
    · rw [hfinish]
      exact ⟨hafter hfinish nofun, nofun⟩
    · have hcomplete : track.Complete depacketizer codec before n := by
        rcases hreturned with hboth | hread
        · exact (hclean hboth).2
        · by_contra hincomplete
          have := hkeyframe hmarker hincomplete
          rw [← hheld.frame, ← hheld.coded, hread] at this
          cases this
      have hframe : track.received depacketizer codec before n = .frame ⟨window.frame, window.codec,
          (track.packet n).timestamp, isKeyframe window.codec window.frame⟩ := by
        unfold received
        rw [hreceive, hfinish]
      have hfed : track.Fed depacketizer codec (before ++ [n]) := by
        rcases hreturned with hboth | hread
        · exact (hclean hboth).1
        · exact ⟨before, n, [], _, rfl, hframe, hread, List.isChain_singleton _, Run.always_nil⟩
      rw [hfinish]
      refine ⟨hafter hfinish fun _ => hfed, ?_⟩
      rintro _ ⟨⟩
      exact ⟨hcomplete, hheld.frame, hfed.follows hframe⟩

/-- **Every frame is decodable if nothing incomplete reads as a keyframe**, and only
then; if it is, as long as no gap is hidden by the width of the numbers. -/
theorem decodable_of_keyframes (depacketizer : Depacketizer σ) (codec : VideoCodec) (track : Track)
    (arrivals : List ℕ) :
    (track.Unmasked arrivals → track.KeyframesComplete depacketizer codec arrivals →
        track.Intact depacketizer codec arrivals) ∧
      (track.Intact depacketizer codec arrivals →
        track.KeyframesComplete depacketizer codec arrivals) := by
  constructor
  · intro hunmasked hkeyframes
    have hinv : ∀ before after, arrivals = before ++ after →
        track.Inv depacketizer codec before (track.group before)
          (track.after depacketizer codec before) := by
      intro before
      induction before using List.reverseRecOn with
      | nil => exact fun _ _ => inv_new
      | append_singleton before n ih =>
        intro after hsplit
        rw [List.append_assoc] at hsplit
        exact ((ih _ hsplit).receive (hunmasked.next hsplit) (hkeyframes before n after hsplit)).1
    intro before n after hsplit
    exact ((hinv before _ hsplit).receive (hunmasked.next hsplit) (hkeyframes before n after hsplit)).2
  · intro hintact before n after hsplit hmarker hincomplete
    rw [← Bool.not_eq_true]
    intro hread
    have hheld := (@held _ depacketizer codec track before).taken n
    have hread : isKeyframe (track.taken depacketizer codec before n).codec
        (track.taken depacketizer codec before n).frame = true := by
      rw [hheld.frame, hheld.coded]
      exact hread
    have hreceive := @receive_eq _ depacketizer codec track before n
    rw [hmarker, if_pos rfl] at hreceive
    -- what reads as a keyframe is returned
    rcases (track.taken depacketizer codec before n).finish_cases (track.packet n).timestamp with
      ⟨hempty, -⟩ | ⟨-, hnot, -⟩ | ⟨-, -, hfinish⟩
    · rw [hempty, isKeyframe_nil] at hread
      cases hread
    · rw [hread] at hnot
      cases hnot
    · have hframe := congrArg Prod.snd (hreceive.trans hfinish)
      exact hincomplete (hintact before n after hsplit _ hframe).complete

/-! ### A keyframe with a gap -/

/-- H.264 units of a packet each, as the library writes them. -/
def singleUnits : Depacketizer Unit where
  new _ := ()
  push _ packet := ((), some ([0, 0, 0, 1] ++ packet.payload))

/-- A track of keyframes only: parameter sets in two packets, and an IDR slice. -/
def keyframes : Track where
  packet n := ⟨BitVec.ofNat 16 n, 0, n % 3 = 2,
    if n % 3 = 0 then [0x67, 0x42] else if n % 3 = 1 then [0x68, 0xce] else [0x65, 0x88]⟩
  numbered n := by
    rw [BitVec.zero_add]

/-- **A keyframe with a packet missing is returned.** -/
theorem keyframe_with_gap :
    ¬ ∀ (σ : Type) (depacketizer : Depacketizer σ) (codec : VideoCodec) (track : Track)
        (arrivals : List ℕ), track.Intact depacketizer codec arrivals := by
  intro h
  have hdecodable := h Unit singleUnits .h264 keyframes [0, 2] [0] 2 [] rfl
    ⟨[0, 0, 0, 1, 0x67, 0x42, 0, 0, 0, 1, 0x65, 0x88], .h264, 0, true⟩ (by decide +kernel)
  have hnext := hdecodable.complete.1.next
  rw [show keyframes.group [0] ++ [2] = [0, 2] by decide] at hnext
  have := (List.isChain_cons_cons.mp hnext).1
  omega

end Track

end WindowCast.Transport
