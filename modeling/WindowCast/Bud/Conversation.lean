import WindowCast.Bud.Delivery
import WindowCast.Bud.Packet
import WindowCast.Bud.Retransmitter

/-!
# A conversation

The two ends that `bud/src/lib.rs` describes, over a network that is anybody's.  A sender cuts
frames into packets, remembers them for those that are asked for again, and seals them; a
receiver opens what the network presents, and pushes what opens to its reassembler.

## Main definitions

* `Conversation`, `Conversation.step` — both ends, with the history of what they did.
* `Conversation.Allowed` — the cipher is ideal, and no frame number is used for two frames.
* `Conversation.arrivals` — what arrived of what was sealed.

## Main results

* `Conversation.Inv.step` — what every step preserves.
* `Conversation.frames_are_sent` — **what is delivered was sent, once and in order, whatever the network does**.
* `Conversation.frame_arrives` — **a frame is delivered once enough of it arrived, in any order and among
  any forgeries**.
-/

namespace WindowCast.Bud

open WindowCast.Fec

/-- Both ends of a conversation, in one direction. -/
structure Conversation (Key : Type) where
  link : Link Key
  memory : Retransmitter.History
  /-- The packets that are still to be sealed. -/
  outgoing : List Packet
  history : History
  /-- The sealed datagrams that the network has presented. -/
  arrived : List (List UInt8)

namespace Conversation

inductive Event
  /-- A frame is cut, and remembered. -/
  | send (stream : UInt16) (frame : UInt32) (f : SentFrame)
  /-- Fragments are asked for again. -/
  | nack (stream : UInt16) (frame : UInt32) (fragments : List UInt16)
  /-- One of the packets that are to be sealed is. -/
  | sealNext (i : ℕ)
  /-- The network presents some bytes. -/
  | present (datagram : List UInt8)
  /-- The receiver waits for a frame no longer. -/
  | abandon (stream : UInt16) (frame : UInt32)

section

variable {Key : Type}

def new (key : Key) : Conversation Key := ⟨.new key, .new, [], .new, []⟩

/-- One step; `none` if it panics. -/
def step (aead : Aead Key) (s : Conversation Key) : Event → Option (Conversation Key)
  | .send stream frame f =>
    match fragmentWithParity stream frame f.sentUs f.data f.policy with
    | none => none
    | some (.error _) => some s
    | some (.ok packets) =>
      (s.memory.step (.remember stream frame f.sentUs f.data f.policy)).map fun memory =>
        { s with memory := memory, outgoing := s.outgoing ++ packets }
  | .nack stream frame fragments =>
    (s.memory.step (.respond stream frame fragments)).map fun memory =>
      { s with memory := memory, outgoing := s.outgoing ++ (s.memory.memory.respond stream frame fragments).2 }
  | .sealNext i =>
    match s.outgoing[i]? with
    | none => some s
    | some packet =>
      some { s with link := s.link.step aead (.send packet.1 packet.2), outgoing := s.outgoing.eraseIdx i }
  | .present datagram =>
    let arrived := if ∃ r ∈ s.link.sealed, r.datagram = datagram then s.arrived ++ [datagram] else s.arrived
    let link := s.link.step aead (.present datagram)
    match (s.link.opener.openDatagram aead datagram).1 with
    | .error _ => some { s with link := link, arrived := arrived }
    | .ok (header, payload) =>
      (s.history.step (.push header payload)).map fun history =>
        { s with link := link, arrived := arrived, history := history }
  | .abandon stream frame =>
    (s.history.step (.abandon stream frame)).map fun history => { s with history := history }

/-- The cipher is ideal at what is presented, and a frame number stands for one frame. -/
def Allowed (aead : Aead Key) (sent : Sent) (s : Conversation Key) : Event → Prop
  | .send stream frame f => sent stream frame = some f
  | .present datagram => s.link.Ideal aead datagram
  | _ => True

/-- What was sealed and has arrived. -/
def arrivals (s : Conversation Key) : List Packet :=
  (s.link.sealed.filter fun r => s.arrived.contains r.datagram).map fun r => (r.header, r.payload)

end

/-! ### What the memory gives -/

/-- Only frames that were sent are remembered. -/
def Remembers (sent : Sent) (calls : List Retransmitter.Call) : Prop :=
  ∀ stream frame sentUs data policy, Retransmitter.Call.remember stream frame sentUs data policy ∈ calls →
    sent stream frame = some ⟨sentUs, data, policy⟩ ∧
      ∃ packets, fragmentWithParity stream frame sentUs data policy = some (.ok packets)

theorem sound_mono {calls calls' : List Retransmitter.Call} {h : Retransmitter.History}
    (hsound : Retransmitter.Sound calls h) (hsub : calls ⊆ calls') : Retransmitter.Sound calls' h := by
  refine { hsound with kept := fun j s hs => ?_ }
  have hkept := hsound.kept j s hs
  obtain ⟨sentUs, data, policy, hcall, hcut⟩ := hkept.cut
  exact { hkept with cut := ⟨sentUs, data, policy, hsub hcall, hcut⟩ }

/-- A data packet of a frame that was sent is one of its packets. -/
theorem isPacket_of_isDataPacket {stream : UInt16} {frame sentUs : UInt32} {data : List UInt8}
    {policy : ParityPolicy} {packets : List Packet} {i : ℕ} {p : Packet}
    (hsent : fragmentWithParity stream frame sentUs data policy = some (.ok packets))
    (hp : IsDataPacket stream frame sentUs data i p) : IsPacket policy stream frame sentUs data p.1 p.2 := by
  obtain ⟨hi, rfl⟩ := hp
  have hcut := Retransmitter.cut_of_sent hsent
  have hpart := List.mem_of_getElem? (hcut.getElem?_parts hi)
  exact ⟨packets, hsent, List.mem_of_mem_filter hpart⟩

/-- What a sender cuts comes with the packet number 0. -/
theorem packet_eq_zero {stream : UInt16} {frame sentUs : UInt32} {data : List UInt8} {policy : ParityPolicy}
    {packets : List Packet} (hsent : fragmentWithParity stream frame sentUs data policy = some (.ok packets))
    {p : Packet} (hp : p ∈ packets) : { p.1 with packet := 0 } = p.1 := by
  obtain ⟨parts, out, -, hout, hspec⟩ := fragmentWithParity_spec stream frame sentUs policy (length_le_of_sent hsent)
  rw [hsent] at hout
  cases hout
  rcases hspec p hp with ⟨i, -, rfl⟩ | ⟨block, index, hparity⟩
  · rfl
  · obtain ⟨fragment, hheader⟩ := hparity.header
    rw [hheader]

/-! ### What every step preserves -/

section

variable {Key : Type} {aead : Aead Key} {key : Key} {sent : Sent} {s s' : Conversation Key}

/-- What every step preserves. -/
structure Inv (aead : Aead Key) (key : Key) (sent : Sent) (s : Conversation Key) : Prop where
  link : s.link.Inv aead key
  memory : ∃ calls, Retransmitter.Sound calls s.memory ∧ Remembers sent calls
  outgoing : ∀ p ∈ s.outgoing, Comes sent (.push p.1 p.2)
  sealed : ∀ r ∈ s.link.sealed, Comes sent (.push r.header r.payload)
  faithful : s.history.Faithful sent

theorem inv_new (aead : Aead Key) (key : Key) (sent : Sent) : Inv aead key sent (new key) where
  link := Link.inv_new aead key
  memory := ⟨[], Retransmitter.sound_new [], fun _ _ _ _ _ h => absurd h List.not_mem_nil⟩
  outgoing := fun _ h => absurd h List.not_mem_nil
  sealed := fun _ h => absurd h List.not_mem_nil
  faithful := History.faithful_new sent

/-- The number a packet is sealed under says nothing of where it comes from. -/
theorem comes_packet {header : Header} {payload : List UInt8} (h : Comes sent (.push header payload))
    (n : UInt64) : Comes sent (.push { header with packet := n } payload) := h

/-- What sealing a packet does to what is sealed. -/
theorem sealed_send (aead : Aead Key) (link : Link Key) (header : Header) (payload : List UInt8) :
    (link.step aead (.send header payload)).opener = link.opener ∧
      (link.step aead (.send header payload)).opened = link.opened ∧
      ((link.step aead (.send header payload)).sealed = link.sealed ∨
        ∃ r : Record, r.payload = payload ∧ r.header = { header with packet := link.sealer.next } ∧
          (link.step aead (.send header payload)).sealed = link.sealed ++ [r]) := by
  simp only [Link.step]
  split
  · exact ⟨rfl, rfl, .inr ⟨_, rfl, rfl, rfl⟩⟩
  · exact ⟨rfl, rfl, .inl rfl⟩

/-- What presenting some bytes does, whether they open or not. -/
theorem opened_present (aead : Aead Key) (link : Link Key) (datagram : List UInt8) :
    (∃ e, (link.opener.openDatagram aead datagram).1 = .error e ∧
        (link.step aead (.present datagram)).opened = link.opened) ∨
      ∃ r : Record, (link.opener.openDatagram aead datagram).1 = .ok (r.header, r.payload) ∧ r.datagram = datagram ∧
        (link.step aead (.present datagram)).opened = link.opened ++ [r] := by
  simp only [Link.step]
  split
  · rename_i header payload opener hopen
    exact .inr ⟨⟨header, payload, datagram⟩, by rw [hopen], rfl, rfl⟩
  · rename_i e opener hopen
    exact .inl ⟨e, by rw [hopen], rfl⟩

/-- Sealing a packet that is to be sealed. -/
theorem Inv.seal (h : Inv aead key sent s) {i : ℕ} {packet : Packet} (hi : s.outgoing[i]? = some packet) :
    Inv aead key sent
      { s with link := s.link.step aead (.send packet.1 packet.2), outgoing := s.outgoing.eraseIdx i } := by
  refine ⟨h.link.send packet.1 packet.2, h.memory, fun p hp => h.outgoing p (List.mem_of_mem_eraseIdx hp), ?_,
    h.faithful⟩
  have hcomes := h.outgoing packet (List.mem_of_getElem? hi)
  intro r hr
  rcases (sealed_send aead s.link packet.1 packet.2).2.2 with heq | ⟨new, hpayload, hheader, heq⟩
  · rw [heq] at hr
    exact h.sealed r hr
  · rw [heq] at hr
    rcases List.mem_append.mp hr with hr | hr
    · exact h.sealed r hr
    · rw [List.mem_singleton.mp hr, hheader, hpayload]
      exact comes_packet hcomes _

/-- What is presented opens only as what was sealed, and what opens is pushed without an error. -/
theorem Inv.present (hlawful : aead.Lawful) (hspan : Spans sent) (h : Inv aead key sent s) {datagram : List UInt8}
    (hideal : s.link.Ideal aead datagram) :
    ∃ s', step aead s (.present datagram) = some s' ∧ Inv aead key sent s' := by
  have hlink := Link.Inv.present hlawful h.link hideal
  have hsealed : ∀ r ∈ (s.link.step aead (.present datagram)).sealed, Comes sent (.push r.header r.payload) := by
    rw [Link.step_present_sealed]
    exact h.sealed
  rcases opened_present aead s.link datagram with ⟨e, hopen, -⟩ | ⟨r, hopen, -, hopened⟩
  · simp only [step, hopen]
    exact ⟨_, rfl, hlink, h.memory, h.outgoing, hsealed, h.faithful⟩
  · have hr : r ∈ (s.link.step aead (.present datagram)).sealed := by
      refine hlink.opened_sealed r ?_
      rw [hopened]
      exact List.mem_append_right _ (List.mem_singleton_self r)
    obtain ⟨history, hpush, hfaithful⟩ := h.faithful.step hspan (.push r.header r.payload) (hsealed r hr)
    simp only [step, hopen, hpush]
    exact ⟨_, rfl, hlink, h.memory, h.outgoing, hsealed, hfaithful⟩

/-- **A step never fails, and keeps the invariant.** -/
theorem Inv.step (hlawful : aead.Lawful) (hspan : Spans sent) (h : Inv aead key sent s) (e : Event)
    (hallowed : Allowed aead sent s e) : ∃ s', Conversation.step aead s e = some s' ∧ Inv aead key sent s' := by
  obtain ⟨calls, hsound, hremembers⟩ := h.memory
  cases e with
  | send stream frame f =>
    obtain ⟨out, hout⟩ := Retransmitter.exists_sent stream frame f.sentUs f.data f.policy
    cases out with
    | error e =>
      refine ⟨s, ?_, h⟩
      simp only [Conversation.step, hout]
    | ok packets =>
      have hsound' := sound_mono hsound (List.subset_cons_self
        (Retransmitter.Call.remember stream frame f.sentUs f.data f.policy) calls)
      obtain ⟨memory, hmemory, hsound''⟩ := Retransmitter.sound_remember hsound' List.mem_cons_self
      refine ⟨{ s with memory := memory, outgoing := s.outgoing ++ packets }, ?_, h.link, ⟨_, hsound'', ?_⟩, ?_,
        h.sealed, h.faithful⟩
      · simp only [Conversation.step, hout, hmemory, Option.map_some]
      · intro stream' frame' sentUs' data' policy' hcall
        rcases List.mem_cons.mp hcall with hcall | hcall
        · cases hcall
          exact ⟨hallowed, packets, hout⟩
        · exact hremembers _ _ _ _ _ hcall
      · intro p hp
        rcases List.mem_append.mp hp with hp | hp
        · exact h.outgoing p hp
        · refine ⟨stream, frame, f, hallowed, packets, hout, ?_⟩
          rw [packet_eq_zero hout hp]
          exact hp
  | nack stream frame fragments =>
    obtain ⟨memory, hmemory, hsound'⟩ : ∃ memory,
        s.memory.step (.respond stream frame fragments) = some memory ∧ Retransmitter.Sound calls memory :=
      Retransmitter.sound_respond hsound fragments
    refine ⟨{ s with
        memory := memory
        outgoing := s.outgoing ++ (s.memory.memory.respond stream frame fragments).2 }, ?_, h.link,
      ⟨calls, hsound', hremembers⟩, ?_, h.sealed, h.faithful⟩
    · simp only [Conversation.step, hmemory, Option.map_some]
    · intro p hp
      rcases List.mem_append.mp hp with hp | hp
      · exact h.outgoing p hp
      · obtain ⟨sentUs, data, policy, i, hcall, hdata⟩ :=
          (Retransmitter.asked_of_sound hsound stream frame fragments).sent p hp
        obtain ⟨hsent, packets, hpackets⟩ := hremembers _ _ _ _ _ hcall
        exact ⟨stream, frame, ⟨sentUs, data, policy⟩, hsent, isPacket_of_isDataPacket hpackets hdata⟩
  | sealNext i =>
    cases hi : s.outgoing[i]? with
    | none =>
      refine ⟨s, ?_, h⟩
      simp only [Conversation.step, hi]
    | some packet =>
      refine ⟨_, ?_, h.seal hi⟩
      simp only [Conversation.step, hi]
  | present datagram => exact h.present hlawful hspan hallowed
  | abandon stream frame =>
    obtain ⟨history, hstep, hfaithful⟩ := h.faithful.step hspan (.abandon stream frame) trivial
    refine ⟨{ s with history := history }, ?_, h.link, h.memory, h.outgoing, h.sealed, hfaithful⟩
    simp only [Conversation.step, hstep, Option.map_some]

theorem Inv.of_step (hlawful : aead.Lawful) (hspan : Spans sent) (h : Inv aead key sent s) {e : Event}
    (hallowed : Allowed aead sent s e) (hstep : Conversation.step aead s e = some s') : Inv aead key sent s' := by
  obtain ⟨t, ht, hinv⟩ := h.step hlawful hspan e hallowed
  rw [hstep] at ht
  cases ht
  exact hinv

/-! ### What is delivered -/

/-- The numbers of what is delivered increase, so none is delivered twice. -/
theorem frames_nodup {h : History} (hfaithful : h.Faithful sent) :
    (h.frames.map fun g => (g.stream, g.frame)).Nodup := by
  refine List.pairwise_map.mpr (hfaithful.increasing.imp fun {a b} hab heq => ?_)
  obtain ⟨hstream, hframe⟩ := Prod.mk.inj heq
  have hnewer := hab hstream
  rw [hframe, newer_iff] at hnewer
  exact SerialNumber.not_later_self _ hnewer

/-- **What is delivered was sent, once and in order, whatever the network does**: with an ideal
cipher, in every interleaving of frames that are cut, packets that are sealed or asked for again,
anything the network presents, and frames that are given up, no step panics and no push is an
error; each frame delivered has the bytes of the frame that was sent under its stream and number,
none is delivered twice, and the numbers delivered on a stream increase. -/
theorem frames_are_sent (hlawful : aead.Lawful) (hspan : Spans sent) {events : List Event}
    (hrun : Run.Guarded (step aead) (Allowed aead sent) events (new key) s) :
    (∀ e, Allowed aead sent s e → (step aead s e).isSome) ∧
      (∀ out ∈ s.history.returned, ∀ e, out ≠ .error e) ∧
      (∀ g ∈ s.history.frames, ∃ f, .send g.stream g.frame f ∈ events ∧ g.data = f.data) ∧
      (s.history.frames.map fun g => (g.stream, g.frame)).Nodup ∧
      s.history.frames.Pairwise (fun a b => a.stream = b.stream → newer b.frame a.frame = true) := by
  classical
  have hinv := hrun.invariant (fun s e s' h hallowed hstep => Inv.of_step hlawful hspan h hallowed hstep)
    (inv_new aead key sent)
  -- the frames that were sent so far are all the frames there are
  let sofar : Sent := fun stream frame => (sent stream frame).filter fun f => Event.send stream frame f ∈ events
  have hsofar : Spans sofar := by
    intro stream
    obtain ⟨base, hbase⟩ := hspan stream
    refine ⟨base, fun frame hframe => hbase frame fun hnone => hframe ?_⟩
    simp only [sofar, hnone, Option.filter_none]
  have hrun' := (hrun.and (.of_run hrun.run fun e he _ => he)).imp (I := fun _ => True)
    (B := Allowed aead sofar) (fun _ _ _ _ _ _ => trivial) (fun t e _ hboth => by
      obtain ⟨hallowed, hmem⟩ := hboth
      cases e with
      | send stream frame f => exact Option.filter_eq_some_iff.mpr ⟨hallowed, decide_eq_true hmem⟩
      | nack _ _ _ => trivial
      | sealNext _ => trivial
      | present _ => exact hallowed
      | abandon _ _ => trivial) trivial
  have hinv' := hrun'.invariant (fun s e s' h hallowed hstep => Inv.of_step hlawful hsofar h hallowed hstep)
    (inv_new aead key sofar)
  refine ⟨fun e hallowed => ?_, fun out hout e heq => ?_, fun g hg => ?_, frames_nodup hinv.faithful,
    hinv.faithful.increasing⟩
  · obtain ⟨t, ht, -⟩ := hinv.step hlawful hspan e hallowed
    exact Option.isSome_iff_exists.mpr ⟨t, ht⟩
  · obtain ⟨frame, hok⟩ := hinv.faithful.no_error out hout
    rw [heq] at hok
    cases hok
  · obtain ⟨f, hf, hdata⟩ := hinv'.faithful.delivered g hg
    exact ⟨f, of_decide_eq_true (Option.filter_eq_some_iff.mp hf).2, hdata⟩

/-! ### What arrives -/

/-- A record is known by its datagram, which has its number. -/
theorem eq_of_datagram {link : Link Key} (h : link.Inv aead key) {r r' : Record} (hr : r ∈ link.sealed)
    (hr' : r' ∈ link.sealed) (heq : r.datagram = r'.datagram) : r = r' := by
  have hpacket : r.header.packet = r'.header.packet := by
    rw [h.packet_sealed hr, h.packet_sealed hr', heq]
  have hnodup : (link.sealed.map fun r => r.header.packet.toNat).Nodup := by
    rw [h.numbers]
    exact List.nodup_range
  exact List.inj_on_of_nodup_map hnodup hr hr' (congrArg UInt64.toNat hpacket)

/-- The numbers of what was sealed are below the count of it. -/
theorem packet_lt {link : Link Key} (h : link.Inv aead key) {r : Record} (hr : r ∈ link.sealed) :
    r.header.packet.toNat < link.sealed.length := by
  have hlength : link.sealed.length = link.sealer.next.toNat := by
    rw [← List.length_map (fun r : Record => r.header.packet.toNat), h.numbers, List.length_range]
  have hmem : r.header.packet.toNat ∈ link.sealed.map fun r => r.header.packet.toNat := List.mem_map_of_mem hr
  rw [h.numbers, List.mem_range] at hmem
  rwa [hlength]

/-- What every step preserves while one frame is sent: its packets that opened bring it on, and what
arrived has opened. -/
structure Arriving (aead : Aead Key) (key : Key) (stream : UInt16) (frame : UInt32) (f : SentFrame)
    (s : Conversation Key) : Prop where
  inv : Inv aead key (only stream frame f) s
  progress : History.Progress stream frame f (s.link.opened.map fun o => (o.header, o.payload)) s.history
  genuine : ∀ d ∈ s.arrived, ∃ r ∈ s.link.sealed, r.datagram = d
  opened : s.link.sealed.length ≤ WINDOW → ∀ r ∈ s.link.sealed, r.datagram ∈ s.arrived → r ∈ s.link.opened

variable {stream : UInt16} {frame : UInt32} {f : SentFrame}

theorem arriving_new (aead : Aead Key) (key : Key) : Arriving aead key stream frame f (new key) where
  inv := inv_new aead key _
  progress := .fresh rfl rfl rfl
  genuine := fun _ h => absurd h List.not_mem_nil
  opened := fun _ _ h => absurd h List.not_mem_nil

/-- What comes of the only frame is a packet of it. -/
theorem isPacket_of_comes {header : Header} {payload : List UInt8}
    (h : Comes (only stream frame f) (.push header payload)) :
    IsPacket f.policy stream frame f.sentUs f.data header payload := by
  obtain ⟨stream', frame', f', hf', hpacket⟩ := h
  unfold only at hf'
  split at hf'
  · rename_i heq
    cases hf'
    rwa [heq.1, heq.2] at hpacket
  · cases hf'

/-- Sealing one more packet: none that arrived is new. -/
theorem Arriving.seal (h : Arriving aead key stream frame f s) {i : ℕ} {packet : Packet}
    (hi : s.outgoing[i]? = some packet) :
    Arriving aead key stream frame f
      { s with link := s.link.step aead (.send packet.1 packet.2), outgoing := s.outgoing.eraseIdx i } := by
  have hinv := h.inv.seal hi
  obtain ⟨-, hopened, hsealed⟩ := sealed_send aead s.link packet.1 packet.2
  have hsub : ∀ r ∈ s.link.sealed, r ∈ (s.link.step aead (.send packet.1 packet.2)).sealed := by
    intro r hr
    rcases hsealed with heq | ⟨new, -, -, heq⟩ <;> rw [heq]
    · exact hr
    · exact List.mem_append_left _ hr
  have hle : s.link.sealed.length ≤ (s.link.step aead (.send packet.1 packet.2)).sealed.length := by
    rcases hsealed with heq | ⟨new, -, -, heq⟩ <;> rw [heq]
    rw [List.length_append]
    exact Nat.le_add_right _ _
  refine ⟨hinv, ?_, fun d hd => ?_, fun hwindow r hr harrived => ?_⟩
  · simp only [hopened]
    exact h.progress
  · obtain ⟨r, hr, heq⟩ := h.genuine d hd
    exact ⟨r, hsub r hr, heq⟩
  · -- it arrived, so it was sealed before
    obtain ⟨old, hold, heq⟩ := h.genuine _ harrived
    have hsame : old = r := eq_of_datagram hinv.link (hsub old hold) hr heq
    simp only [hopened]
    exact h.opened (hle.trans hwindow) r (hsame ▸ hold) harrived

/-- What is presented opens, if it was sealed and did not open before. -/
theorem Arriving.present (hlawful : aead.Lawful) (hpolicy : ∀ k, f.policy.parityFor k ≤ k)
    (h : Arriving aead key stream frame f s) {datagram : List UInt8} (hideal : s.link.Ideal aead datagram)
    (hstep : step aead s (.present datagram) = some s') : Arriving aead key stream frame f s' := by
  have hinv := Inv.of_step hlawful (spans_only stream frame f) h.inv (e := .present datagram) hideal hstep
  -- a datagram that was sealed opens, or has opened
  have hgenuine : s.link.sealed.length ≤ WINDOW → ∀ r ∈ s.link.sealed, r.datagram = datagram →
      r ∉ s.link.opened → (s.link.opener.openDatagram aead datagram).1 = .ok (r.header, r.payload) := by
    intro hwindow r hr heq hnew
    have hpos := Comes.isPosition (h.inv.sealed r hr)
    rw [← heq]
    refine Link.Inv.open_genuine h.inv.link hlawful hr hpos hnew fun o ho => ?_
    have := packet_lt h.inv.link (h.inv.link.opened_sealed o ho)
    omega
  have hmem : ∀ d ∈ (if ∃ r ∈ s.link.sealed, r.datagram = datagram then s.arrived ++ [datagram] else s.arrived),
      d ∈ s.arrived ∨ d = datagram ∧ ∃ r ∈ s.link.sealed, r.datagram = datagram := by
    intro d hd
    split at hd
    · rename_i hsealed
      rcases List.mem_append.mp hd with hd | hd
      · exact .inl hd
      · exact .inr ⟨List.mem_singleton.mp hd, hsealed⟩
    · exact .inl hd
  have hfresh : ∀ d ∈ (if ∃ r ∈ s.link.sealed, r.datagram = datagram then s.arrived ++ [datagram] else s.arrived),
      ∃ r ∈ s.link.sealed, r.datagram = d := by
    intro d hd
    rcases hmem d hd with hd | ⟨rfl, hsealed⟩
    · exact h.genuine d hd
    · exact hsealed
  rcases opened_present aead s.link datagram with ⟨e, hopen, hopened⟩ | ⟨r, hopen, hdatagram, hopened⟩
  · simp only [step, hopen] at hstep
    cases hstep
    refine ⟨hinv, ?_, ?_, ?_⟩
    · simp only [hopened]
      exact h.progress
    · simp only [Link.step_present_sealed]
      exact hfresh
    · simp only [Link.step_present_sealed, hopened]
      intro hwindow r hr harrived
      rcases hmem _ harrived with hold | ⟨heq, -⟩
      · exact h.opened hwindow r hr hold
      · by_contra hnew
        rw [hgenuine hwindow r hr heq hnew] at hopen
        cases hopen
  · simp only [step, hopen] at hstep
    obtain ⟨history, hpush, rfl⟩ := Option.map_eq_some_iff.mp hstep
    have hr : r ∈ s.link.sealed := by
      have hmem := hinv.link.opened_sealed r (by
        simp only [hopened]
        exact List.mem_append_right _ (List.mem_singleton_self r))
      simpa only [Link.step_present_sealed] using hmem
    have hpacket := isPacket_of_comes (h.inv.sealed r hr)
    refine ⟨hinv, ?_, ?_, ?_⟩
    · simp only [hopened, List.map_append, List.map_cons, List.map_nil]
      exact h.progress.step h.inv.faithful hpolicy hpacket hpush
    · simp only [Link.step_present_sealed]
      exact hfresh
    · simp only [Link.step_present_sealed, hopened]
      intro hwindow r' hr' harrived
      rcases hmem _ harrived with hold | ⟨heq, -⟩
      · exact List.mem_append_left _ (h.opened hwindow r' hr' hold)
      · rw [eq_of_datagram h.inv.link hr' hr (heq.trans hdatagram.symm)]
        exact List.mem_append_right _ (List.mem_singleton_self r)

/-- **A step brings the frame on**, unless it is given up. -/
theorem Arriving.step (hlawful : aead.Lawful) (hpolicy : ∀ k, f.policy.parityFor k ≤ k)
    (h : Arriving aead key stream frame f s) {e : Event} (hallowed : Allowed aead (only stream frame f) s e)
    (hgiven : ∀ stream frame, e ≠ .abandon stream frame) (hstep : Conversation.step aead s e = some s') :
    Arriving aead key stream frame f s' := by
  have hinv := Inv.of_step hlawful (spans_only stream frame f) h.inv hallowed hstep
  cases e with
  | send stream' frame' f' =>
    simp only [Conversation.step] at hstep
    split at hstep
    · cases hstep
    · cases hstep
      exact h
    · obtain ⟨memory, -, rfl⟩ := Option.map_eq_some_iff.mp hstep
      exact ⟨hinv, h.progress, h.genuine, h.opened⟩
  | nack stream' frame' fragments =>
    simp only [Conversation.step] at hstep
    obtain ⟨memory, -, rfl⟩ := Option.map_eq_some_iff.mp hstep
    exact ⟨hinv, h.progress, h.genuine, h.opened⟩
  | sealNext i =>
    simp only [Conversation.step] at hstep
    split at hstep
    · cases hstep
      exact h
    · rename_i packet hi
      cases hstep
      exact h.seal hi
  | present datagram => exact h.present hlawful hpolicy hallowed hstep
  | abandon stream' frame' => exact absurd rfl (hgiven stream' frame')

/-- A frame of which enough was seen is delivered. -/
theorem frames_of_covers {history : History} {seen : List Packet} (hf : history.Faithful (only stream frame f))
    (hprogress : History.Progress stream frame f seen history) (hcovers : Covers f.data seen) :
    history.frames = [⟨stream, frame, f.sentUs, f.data⟩] := by
  cases hprogress with
  | fresh hseen =>
    have hn := fragmentCount_pos f.data
    have hnone := hcovers 0 (part (fragmentCount f.data) 0)
      ((getElem?_blocks hn).mpr ⟨blockCount_pos hn, rfl⟩)
    rw [hseen] at hnone
    exact absurd hnone (Nat.not_le_of_lt (len_part_pos hn 0))
  | waiting hst hsent hsat hhas hwaiting =>
    rename_i p
    have hmem : p ∈ (history.reassembler.streams stream).pending := by
      rw [hst]
      exact List.mem_singleton_self p
    obtain ⟨f', parts', hf', hcut', hgenuine⟩ := hf.genuine stream p hmem
    unfold only at hf'
    split at hf'
    · cases hf'
      exact absurd hcovers (hgenuine.not_covered ((hf.inv stream).wellFormed p hmem) hsat
        ((hf.inv stream).incomplete p hmem) hcut'.length_parts hhas)
    · cases hf'
  | done hlast hframes => exact hframes

/-- More packets cover as much. -/
theorem covers_mono {data : List UInt8} {packets packets' : List Packet} (h : Covers data packets)
    (hsub : packets ⊆ packets') : Covers data packets' := by
  intro block range hrange
  refine (h block range hrange).trans (Finset.card_le_card (Finset.filter_subset_filter _ ?_))
  intro id hid
  rw [List.mem_toFinset] at hid ⊢
  exact List.map_subset _ hsub hid

/-- **A frame is delivered once enough of it arrived, in any order and among any forgeries**: if of each
block as many distinct shards arrived as it has data fragments, be they sent at first or again, and
no more than a window of packets was sealed, then the receiver has delivered that frame, once,
and nothing else. -/
theorem frame_arrives (hlawful : aead.Lawful) (hpolicy : ∀ k, f.policy.parityFor k ≤ k) {events : List Event}
    (hrun : Run.Guarded (step aead) (Allowed aead (only stream frame f)) events (new key) s)
    (hgiven : ∀ stream frame, .abandon stream frame ∉ events) (hwindow : s.link.sealed.length ≤ WINDOW)
    (hcovers : Covers f.data s.arrivals) : s.history.frames = [⟨stream, frame, f.sentUs, f.data⟩] := by
  have harriving := (hrun.and (.of_run hrun.run fun e he _ => he)).invariant
    (fun s e s' h hboth hstep => Arriving.step hlawful hpolicy h hboth.1 (fun stream frame heq =>
      hgiven stream frame (heq ▸ hboth.2)) hstep) (arriving_new aead key)
  refine frames_of_covers harriving.inv.faithful harriving.progress (covers_mono hcovers ?_)
  intro packet hpacket
  obtain ⟨r, hr, rfl⟩ := List.mem_map.mp hpacket
  obtain ⟨hsealed, harrived⟩ := List.mem_filter.mp hr
  exact List.mem_map.mpr ⟨r, harriving.opened hwindow r hsealed (List.contains_iff_mem.mp harrived), rfl⟩

end

/-- A frame of one byte. -/
def oneByte : SentFrame := ⟨500, [7], NoParity⟩

/-- It is sent, and its packet arrives behind a forgery, and twice. -/
def sentOnce : List Event :=
  [.send 1 0 oneByte, .sealNext 0, .present (Link.firstRecord.header.encode ++ List.replicate 17 0),
    .present Link.firstRecord.datagram, .present Link.firstRecord.datagram]

theorem ideal_sentOnce {link : Link Unit} (h : link.sealed = [Link.firstRecord]) :
    link.Ideal Link.checksumAead Link.firstRecord.datagram ∧
      link.Ideal Link.checksumAead (Link.firstRecord.header.encode ++ List.replicate 17 0) := by
  refine ⟨fun n hn => ?_, fun n hn => ?_⟩
  · refine ⟨Link.firstRecord, by rw [h]; exact List.mem_singleton_self _, ?_, rfl⟩
    rw [(Link.decrypt_checksumAead hn).1]
    decide
  · obtain ⟨rfl, htag⟩ := Link.decrypt_checksumAead hn
    exact absurd htag (by decide)

theorem sealed_of_present {Key : Type} {aead : Aead Key} {s s' : Conversation Key} {datagram : List UInt8}
    (h : step aead s (.present datagram) = some s') : s'.link.sealed = s.link.sealed := by
  simp only [step] at h
  split at h
  · cases h
    exact Link.step_present_sealed _ _ _
  · obtain ⟨history, -, rfl⟩ := Option.map_eq_some_iff.mp h
    exact Link.step_present_sealed _ _ _

theorem guarded_sentOnce : ∃ s, Run.Guarded (step Link.checksumAead) (Allowed Link.checksumAead (only 1 0 oneByte))
      sentOnce (new ()) s ∧ s.link.sealed = [Link.firstRecord] ∧
      s.arrived = List.replicate 2 Link.firstRecord.datagram := by
  have hsealed : ((sentOnce.take 2).foldlM (step Link.checksumAead) (new ())).map (fun s => s.link.sealed)
      = some [Link.firstRecord] := by decide +kernel
  have harrived : (sentOnce.foldlM (step Link.checksumAead) (new ())).map (fun s => s.arrived)
      = some (List.replicate 2 Link.firstRecord.datagram) := by decide +kernel
  obtain ⟨s₂, hs₂, hsealed⟩ := Option.map_eq_some_iff.mp hsealed
  obtain ⟨s₅, hs₅, harrived⟩ := Option.map_eq_some_iff.mp harrived
  obtain ⟨s₁, hsend, hs₂⟩ := Run.cons.mp hs₂
  obtain ⟨_, hseal, hnil⟩ := Run.cons.mp hs₂
  obtain rfl := Run.nil.mp hnil
  obtain ⟨t, hsend', hs₅⟩ := Run.cons.mp hs₅
  rw [hsend] at hsend'
  cases hsend'
  obtain ⟨t, hseal', hs₅⟩ := Run.cons.mp hs₅
  rw [hseal] at hseal'
  cases hseal'
  obtain ⟨s₃, hs₃, hs₅⟩ := Run.cons.mp hs₅
  obtain ⟨s₄, hs₄, hs₅⟩ := Run.cons.mp hs₅
  obtain ⟨_, hlast, hnil⟩ := Run.cons.mp hs₅
  obtain rfl := Run.nil.mp hnil
  have hsealed₃ := (sealed_of_present hs₃).trans hsealed
  have hsealed₄ := (sealed_of_present hs₄).trans hsealed₃
  have hsealed₅ := (sealed_of_present hlast).trans hsealed₄
  exact ⟨_, ⟨rfl, _, hsend, trivial, _, hseal, (ideal_sentOnce hsealed).2, _, hs₃, (ideal_sentOnce hsealed₃).1, _, hs₄,
    (ideal_sentOnce hsealed₄).1, _, hlast, rfl⟩, hsealed₅, harrived⟩

/-- What is delivered of it was sent. -/
theorem frames_are_sent_once : ∃ s, sentOnce.foldlM (step Link.checksumAead) (new ()) = some s ∧
    ∀ g ∈ s.history.frames, ∃ f, .send g.stream g.frame f ∈ sentOnce ∧ g.data = f.data := by
  obtain ⟨s, hrun, -, -⟩ := guarded_sentOnce
  obtain ⟨-, -, hsent, -, -⟩ := frames_are_sent Link.checksumAead_lawful (spans_only 1 0 oneByte) hrun
  exact ⟨s, hrun.run, hsent⟩

/-- It is delivered, once. -/
theorem frame_arrives_once : ∃ s, sentOnce.foldlM (step Link.checksumAead) (new ()) = some s ∧
    s.history.frames = [⟨1, 0, 500, [7]⟩] := by
  obtain ⟨s, hrun, hsealed, harrived⟩ := guarded_sentOnce
  refine ⟨s, hrun.run, frame_arrives Link.checksumAead_lawful (fun k => Nat.zero_le k) hrun ?_ ?_ ?_⟩
  · intro stream frame hmem
    simp [sentOnce] at hmem
  · rw [hsealed]
    decide
  · have harrivals : s.arrivals = [(Link.firstRecord.header, Link.firstRecord.payload)] := by
      rw [arrivals, hsealed, harrived]
      decide +kernel
    rw [harrivals]
    intro block range hrange
    obtain ⟨hblock, rfl⟩ := (getElem?_blocks (by decide)).mp hrange
    obtain rfl : block = 0 := Nat.lt_one_iff.mp hblock
    decide

end Conversation

end WindowCast.Bud
