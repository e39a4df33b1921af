import WindowCast.Transport.Punched
import WindowCast.Lib.Run

/-!
# A stream between two programs

Two endpoints and a network that may lose, repeat, reorder and delay what they
send.  As long as no sequence number that arrives is half the circle behind, each
program is handed the bytes that the other wrote, in order, and it reads the end of
the stream behind the last of them, unless its own endpoint was dropped.

## Main definitions

* `Network`, `Network.step` — the endpoints, what they have sent, the programs and
  the time.
* `Link` — what holds between an outgoing stream and the incoming one it feeds.
* `Datagram.Genuine` — what a datagram says is true of its sender.
* `Network.Near` — what arrives is less than half the circle behind.

## Main results

* `Link.keep`, `Link.drain`, `Link.ack`, `Link.push` — what one step preserves.
* `Network.Inv.step` — so does a step of the network.
* `Network.reads_what_was_written` — **what is handed over is what was written, and the end of the
  stream comes behind it**.
-/

namespace WindowCast.Transport

/-! ### The network -/

inductive Event
  | wait (ms : ℕ)
  /-- The opening is done. -/
  | start (side : Side)
  | act (side : Side) (act : Act)
  /-- A datagram the other side has sent arrives. -/
  | deliver (side : Side) (k : ℕ)
  /-- Another stream takes its place at the socket. -/
  | replace (side : Side)
  deriving DecidableEq, Repr

/-- The two endpoints, and all that they have sent. -/
structure Network where
  now : ℕ
  endpoint : Side → Endpoint
  sent : Side → List Datagram

namespace Network

/-- Nothing is open yet. -/
def new (id : BitVec 32) : Network := ⟨0, fun _ => .new id, fun _ => []⟩

/-- One side has done something. -/
def after (self : Network) (side : Side) (turn : Endpoint × List Datagram) : Network :=
  { self with
    endpoint := Function.update self.endpoint side turn.1
    sent := Function.update self.sent side (self.sent side ++ turn.2) }

def Running (self : Network) (side : Side) : Prop := (self.endpoint side).phase = .running

instance (self : Network) (side : Side) : Decidable (self.Running side) :=
  inferInstanceAs (Decidable (_ = _))

def step (self : Network) : Event → Option Network
  | .wait ms => some { self with now := self.now + ms }
  | .start side =>
    if (self.endpoint side).phase = .opening then
      some (self.after side ((self.endpoint side).start self.now, []))
    else none
  | .act side act =>
    if self.Running side then ((self.endpoint side).act self.now act).map (self.after side) else none
  | .deliver side k =>
    if self.Running side then
      (self.sent side.other)[k]?.map fun datagram =>
        self.after side ((self.endpoint side).take self.now datagram.segment)
    else none
  | .replace side =>
    if self.Running side then some (self.after side ((self.endpoint side).drop .replaced, [])) else none

/-- What arrives is less than half the circle behind. -/
def Near (self : Network) : Event → Prop
  | .deliver side k =>
    ∀ datagram, (self.sent side.other)[k]? = some datagram →
      (datagram.segment.kind = DATA →
        (self.endpoint side.other).outgoing.read.length < datagram.number + 2 ^ 31)
      ∧ (datagram.segment.kind = ACK →
        (self.endpoint side).outgoing.read.length < datagram.number + 2 ^ 31)
  | _ => True

end Network

/-! ### An outgoing stream and the incoming one it feeds -/

/-- The segments are those from `base` up to `next`, in order. -/
structure InOrder (unacked : List Unacked) (base next : ℕ) : Prop where
  numbers : unacked.map Unacked.number = List.range' base unacked.length
  next : base + unacked.length = next

namespace InOrder

variable {unacked : List Unacked} {base next : ℕ}

theorem concat (h : InOrder unacked base next) (seq : BitVec 32) (payload : Bytes) (sent every : ℕ) :
    InOrder (unacked ++ [⟨seq, payload, sent, every, next⟩]) base (next + 1) where
  numbers := by
    rw [List.map_append, h.numbers, List.length_append, List.length_singleton, List.range'_concat,
      Nat.one_mul, h.next]
    rfl
  next := by rw [List.length_append, List.length_singleton, ← h.next, Nat.add_assoc]

theorem number_bounds (h : InOrder unacked base next) {u : Unacked} (hu : u ∈ unacked) :
    base ≤ u.number ∧ u.number < next := by
  have hmem : u.number ∈ List.range' base unacked.length := h.numbers ▸ List.mem_map_of_mem hu
  rw [List.mem_range'_1, h.next] at hmem
  exact hmem

/-- Those at the front, up to a number, are taken off. -/
theorem dropWhile (h : InOrder unacked base next) {p : Unacked → Bool} {bound : ℕ} (hbase : base ≤ bound)
    (hp : ∀ u ∈ unacked, p u = true → u.number < bound) :
    ∃ base' ≤ bound, InOrder (unacked.dropWhile p) base' next := by
  induction unacked generalizing base with
  | nil => exact ⟨base, hbase, h⟩
  | cons u rest ih =>
    by_cases hu : p u = true
    · rw [List.dropWhile_cons_of_pos hu]
      have hnumbers := h.numbers
      rw [List.map_cons, List.length_cons, List.range'_succ, List.cons.injEq] at hnumbers
      have hrest : InOrder rest (base + 1) next :=
        ⟨hnumbers.2, by rw [← h.next, List.length_cons, Nat.add_assoc, Nat.add_comm 1]⟩
      have hbound : base + 1 ≤ bound := by
        rw [← hnumbers.1]
        exact hp u List.mem_cons_self hu
      exact ih hrest hbound fun v hv => hp v (List.mem_cons_of_mem _ hv)
    · rw [List.dropWhile_cons_of_neg hu]
      exact ⟨base, hbase, h⟩

end InOrder

structure Link (out : Outgoing) (back : Incoming) : Prop where
  wrote : out.wrote = out.read.flatten ++ out.unread
  nextOut : out.nextOut = BitVec.ofNat 32 out.read.length
  unacked : ∀ u ∈ out.unacked, u.seq = BitVec.ofNat 32 u.number ∧ out.read[u.number]? = some u.payload
  window : ∃ base ≤ back.taken, InOrder out.unacked base out.read.length
  inFlight : out.unacked.length ≤ WINDOW
  closed : out.readClosed = true → out.closed = true ∧ out.unread = []
  finSent : out.finSent.isSome = true → out.readClosed = true
  nextIn : back.nextIn = BitVec.ofNat 32 back.taken
  taken : back.taken ≤ out.read.length
  handed : back.handed = (out.read.take back.taken).flatten
  early : ∀ seq payload, back.early.lookup seq = some payload →
    ∃ number, back.taken ≤ number ∧ seq = BitVec.ofNat 32 number ∧ out.read[number]? = some payload
  peerFin : ∀ seq, back.peerFin = some seq →
    out.readClosed = true ∧ seq = BitVec.ofNat 32 out.read.length
  finished : back.ending = some .finished → out.readClosed = true ∧ back.taken = out.read.length
  silent : ∀ heard now, back.ending = some (.silent heard now) → IDLE < now - heard

namespace Link

variable {out : Outgoing} {back : Incoming}

/-- Nothing that was read is further ahead than the window. -/
theorem ahead (h : Link out back) : out.read.length ≤ back.taken + WINDOW := by
  obtain ⟨base, hbase, hwindow⟩ := h.window
  have := hwindow.next
  have := h.inFlight
  omega

theorem new : Link .new .new where
  wrote := rfl
  nextOut := rfl
  unacked := fun u hu => absurd hu List.not_mem_nil
  window := ⟨0, Nat.le_refl _, rfl, rfl⟩
  inFlight := Nat.zero_le _
  closed := fun h => absurd h (by decide)
  finSent := fun h => absurd h (by decide)
  nextIn := rfl
  taken := Nat.le_refl _
  handed := rfl
  early := fun seq payload h => by
    rw [show Incoming.new.early = ∅ from rfl, AList.lookup_empty] at h
    cases h
  peerFin := fun seq h => by cases h
  finished := fun h => by cases h
  silent := fun heard now h => by cases h

/-! #### What the sender does -/

theorem write (h : Link out back) (bytes : Bytes) (hopen : ¬ out.closed = true) :
    Link { out with unread := out.unread ++ bytes, wrote := out.wrote ++ bytes } back :=
  { h with
    wrote := by
      simp only
      rw [h.wrote, List.append_assoc]
    closed := fun hclosed => absurd (h.closed hclosed).1 hopen }

theorem close (h : Link out back) : Link { out with closed := true } back :=
  { h with closed := fun hclosed => ⟨rfl, (h.closed hclosed).2⟩ }

/-- Reading the end of the pipe. -/
theorem readClosed (h : Link out back) (hclosed : out.closed = true) (hunread : out.unread = []) :
    Link { out with readClosed := true } back :=
  { h with
    closed := fun _ => ⟨hclosed, hunread⟩
    finSent := fun _ => rfl
    peerFin := fun seq hseq => ⟨rfl, (h.peerFin seq hseq).2⟩
    finished := fun hfinished => ⟨rfl, (h.finished hfinished).2⟩ }

theorem push (h : Link out back) (now n : ℕ) (hcan : out.canSend = true) : Link (out.push now n) back := by
  have hcan' : out.readClosed = false ∧ out.unacked.length < WINDOW := by
    simpa [Outgoing.canSend] using hcan
  have hread : ∀ {number : ℕ} {payload : Bytes}, out.read[number]? = some payload →
      (out.push now n).read[number]? = some payload := by
    intro number payload hnumber
    exact (List.getElem?_append_left (List.getElem?_eq_some_iff.mp hnumber).1).trans hnumber
  exact
    { nextIn := h.nextIn
      silent := h.silent
      finSent := h.finSent
      wrote := by
        change out.wrote = (out.read ++ [out.unread.take n]).flatten ++ out.unread.drop n
        rw [h.wrote, List.flatten_append, List.flatten_singleton, List.append_assoc,
          List.take_append_drop]
      nextOut := by
        change out.nextOut + 1 = BitVec.ofNat 32 (out.read ++ [out.unread.take n]).length
        rw [h.nextOut, List.length_append, List.length_singleton, BitVec.ofNat_add]
        rfl
      unacked := by
        intro u hu
        rcases List.mem_append.mp hu with hu | hu
        · exact ⟨(h.unacked u hu).1, hread (h.unacked u hu).2⟩
        · cases List.mem_singleton.mp hu
          exact ⟨h.nextOut, List.getElem?_concat_length⟩
      window := by
        obtain ⟨base, hbase, hwindow⟩ := h.window
        refine ⟨base, hbase, ?_⟩
        change InOrder (out.unacked ++ [_]) base (out.read ++ [_]).length
        rw [List.length_append, List.length_singleton]
        exact hwindow.concat _ _ _ _
      inFlight := by
        change (out.unacked ++ [_]).length ≤ WINDOW
        rw [List.length_append]
        exact hcan'.2
      closed := fun hclosed => absurd (hcan'.1.symm.trans hclosed) (by decide)
      taken := by
        change back.taken ≤ (out.read ++ [_]).length
        rw [List.length_append]
        exact Nat.le_succ_of_le h.taken
      handed := by
        change back.handed = ((out.read ++ [_]).take back.taken).flatten
        rw [List.take_append_of_le_length h.taken, h.handed]
      early := by
        intro seq payload hlookup
        obtain ⟨number, htaken, hseq, hpayload⟩ := h.early seq payload hlookup
        exact ⟨number, htaken, hseq, hread hpayload⟩
      peerFin := fun seq hseq => absurd (hcan'.1.symm.trans (h.peerFin seq hseq).1) (by decide)
      finished := fun hfinished => absurd (hcan'.1.symm.trans (h.finished hfinished).1) (by decide) }

/-- An acknowledgement takes off only what was handed over. -/
theorem ack (h : Link out back) {number : ℕ} (htaken : number ≤ back.taken)
    (hnear : out.read.length < number + 2 ^ 31) : Link (out.ack (BitVec.ofNat 32 number)) back := by
  obtain ⟨base, hbase, hwindow⟩ := h.window
  have hsub : ∀ {u : Unacked}, u ∈ (out.ack (BitVec.ofNat 32 number)).unacked → u ∈ out.unacked :=
    fun hu => (List.dropWhile_sublist _).subset hu
  refine { h with
    unacked := fun u hu => h.unacked u (hsub hu)
    window := hwindow.dropWhile hbase ?_
    inFlight := Nat.le_trans (List.dropWhile_sublist _).length_le h.inFlight }
  intro u hu hlater
  obtain ⟨hlow, hhigh⟩ := hwindow.number_bounds hu
  have hlength : out.unacked.length ≤ 16 := h.inFlight
  have hnext := hwindow.next
  have htaken' := h.taken
  have hsigned := of_decide_eq_true hlater
  rw [(h.unacked u hu).1, SerialNumber.toInt_ofNat_sub (by omega) (by omega)] at hsigned
  omega

theorem resend (h : Link out back) (now : ℕ) : Link (out.resend now) back := by
  have hsame : ∀ u : Unacked, ∃ sent every, (if Outgoing.Unacked.due u now then
      { u with sent := now, every := min (u.every * 2) RESEND_MAX } else u)
        = ⟨u.seq, u.payload, sent, every, u.number⟩ := by
    intro u
    split
    · exact ⟨_, _, rfl⟩
    · exact ⟨_, _, rfl⟩
  have hnumber : ((out.resend now).unacked.map Unacked.number) = out.unacked.map Unacked.number := by
    rw [Outgoing.resend, List.map_map]
    refine List.map_congr_left fun u _ => ?_
    obtain ⟨sent, every, hu⟩ := hsame u
    exact (congrArg Unacked.number hu).trans rfl
  refine { h with unacked := ?_, window := ?_, inFlight := ?_ }
  · intro u hu
    obtain ⟨v, hv, rfl⟩ := List.mem_map.mp hu
    obtain ⟨sent, every, hu⟩ := hsame v
    rw [hu]
    exact h.unacked v hv
  · obtain ⟨base, hbase, hwindow⟩ := h.window
    refine ⟨base, hbase, ?_, ?_⟩
    · rw [hnumber, hwindow.numbers, Outgoing.resend, List.length_map]
    · rw [Outgoing.resend, List.length_map]
      exact hwindow.next
  · rw [Outgoing.resend, List.length_map]
    exact h.inFlight

theorem fin (h : Link out back) (now : ℕ) (hclosed : out.readClosed = true) :
    Link { out with finSent := some now } back :=
  { h with finSent := fun _ => hclosed }

/-! #### What the receiver does -/

theorem keep (h : Link out back) {number : ℕ} {payload : Bytes} (hread : out.read[number]? = some payload)
    (hnear : out.read.length < number + 2 ^ 31) :
    Link out (back.keep (BitVec.ofNat 32 number) payload) := by
  unfold Incoming.keep
  split
  case isFalse => exact h
  case isTrue hnonneg =>
    have hlength : number < out.read.length := (List.getElem?_eq_some_iff.mp hread).1
    have hahead : out.read.length ≤ back.taken + 16 := h.ahead
    have htaken := h.taken
    rw [h.nextIn, SerialNumber.toInt_ofNat_sub (by omega) (by omega)] at hnonneg
    have hbehind : back.taken ≤ number := by omega
    refine { h with early := ?_ }
    intro seq payload' hlookup
    by_cases hseq : seq = BitVec.ofNat 32 number
    · subst hseq
      rw [AList.lookup_insert] at hlookup
      cases hlookup
      exact ⟨number, hbehind, rfl, hread⟩
    · rw [AList.lookup_insert_ne hseq] at hlookup
      exact h.early seq payload' hlookup

/-- What is kept under the next number is the next segment. -/
theorem next (h : Link out back) {payload : Bytes} (hlookup : back.early.lookup back.nextIn = some payload) :
    out.read[back.taken]? = some payload := by
  obtain ⟨number, htaken, hseq, hread⟩ := h.early _ _ hlookup
  have hlength : number < out.read.length := (List.getElem?_eq_some_iff.mp hread).1
  have hahead : out.read.length ≤ back.taken + 16 := h.ahead
  rw [h.nextIn] at hseq
  rw [SerialNumber.ofNat_inj htaken (by omega) hseq]
  exact hread

theorem remove (h : Link out back) : Link out back.remove := by
  refine { h with early := ?_ }
  intro seq payload hlookup
  by_cases hseq : seq = back.nextIn
  · subst hseq
    rw [Incoming.remove, AList.lookup_erase] at hlookup
    cases hlookup
  · rw [Incoming.remove, AList.lookup_erase_ne hseq] at hlookup
    exact h.early seq payload hlookup

theorem handOver (h : Link out back) {payload : Bytes} (hwritable : back.writable = true)
    (hlookup : back.early.lookup back.nextIn = some payload) : Link out (back.handOver payload) := by
  have hread := h.next hlookup
  have hending : back.ending = none := by
    rw [Incoming.writable, Bool.and_eq_true, Option.isNone_iff_eq_none] at hwritable
    exact hwritable.2
  obtain ⟨hlength, hpayload⟩ := List.getElem?_eq_some_iff.mp hread
  refine { h with
    window := ?_
    nextIn := ?_
    taken := hlength
    handed := ?_
    early := ?_
    finished := fun hfinished => absurd (hending.symm.trans hfinished) (by decide) }
  · obtain ⟨base, hbase, hwindow⟩ := h.window
    exact ⟨base, Nat.le_succ_of_le hbase, hwindow⟩
  · change back.nextIn + 1 = BitVec.ofNat 32 (back.taken + 1)
    rw [h.nextIn, BitVec.ofNat_add]
    rfl
  · change back.handed ++ payload = (out.read.take (back.taken + 1)).flatten
    rw [List.take_add_one, hread, List.flatten_append, ← h.handed, Option.toList_some,
      List.flatten_singleton]
  · intro seq payload' hlookup'
    have hne : seq ≠ back.nextIn := by
      rintro rfl
      rw [Incoming.handOver, Incoming.remove, AList.lookup_erase] at hlookup'
      cases hlookup'
    obtain ⟨number, htaken, hseq, hread'⟩ := h.remove.early seq payload' hlookup'
    refine ⟨number, Nat.lt_of_le_of_ne htaken ?_, hseq, hread'⟩
    rintro rfl
    exact hne (hseq.trans h.nextIn.symm)

theorem drainUpTo (n : ℕ) : ∀ {back : Incoming}, Link out back → Link out (back.drainUpTo n) := by
  induction n with
  | zero => exact fun h => h
  | succ n ih =>
    intro back h
    unfold Incoming.drainUpTo
    cases hlookup : back.early.lookup back.nextIn with
    | none => exact h
    | some payload =>
      by_cases hwritable : back.writable = true
      · simp only [hwritable, if_true]
        exact ih (h.handOver hwritable hlookup)
      · simp only [hwritable]
        exact h.remove

theorem drain (h : Link out back) : Link out back.drain := h.drainUpTo _

theorem setPeerFin (h : Link out back) (hclosed : out.readClosed = true) :
    Link out { back with peerFin := some (BitVec.ofNat 32 out.read.length) } := by
  refine { h with peerFin := ?_ }
  intro seq hseq
  cases hseq
  exact ⟨hclosed, rfl⟩

/-- At the peer's end everything was handed over. -/
theorem of_finished (h : Link out back) (hfinished : back.finished = true) :
    out.readClosed = true ∧ back.taken = out.read.length := by
  obtain ⟨hclosed, hseq⟩ := h.peerFin _ (of_decide_eq_true hfinished)
  rw [h.nextIn] at hseq
  have hahead : out.read.length ≤ back.taken + 16 := h.ahead
  exact ⟨hclosed, SerialNumber.ofNat_inj h.taken (by omega) hseq⟩

theorem finish (h : Link out back) {ending : Ending}
    (hfinished : ending = .finished → out.readClosed = true ∧ back.taken = out.read.length)
    (hsilent : ∀ heard now, ending = .silent heard now → IDLE < now - heard) :
    Link out (back.finish ending) := by
  cases hending : back.ending with
  | none =>
    have hnew : (back.finish ending).ending = some ending := by rw [Incoming.finish, hending]; rfl
    refine { h with finished := ?_, silent := ?_ }
    · intro h'
      exact hfinished (Option.some.inj (hnew.symm.trans h'))
    · intro heard now h'
      exact hsilent heard now (Option.some.inj (hnew.symm.trans h'))
  | some earlier =>
    have hold : (back.finish ending).ending = back.ending := by rw [Incoming.finish, hending]; rfl
    exact { h with
      finished := fun h' => h.finished (hold.symm.trans h')
      silent := fun heard now h' => h.silent heard now (hold.symm.trans h') }

theorem leave (h : Link out back) : Link out { back with reading := false } := { h with }

/-! #### What the link says -/

theorem delivered (h : Link out back) : back.handed <+: out.wrote := by
  rw [h.handed, h.wrote]
  refine List.IsPrefix.trans ?_ (List.prefix_append _ _)
  conv_rhs => rw [← List.take_append_drop back.taken out.read, List.flatten_append]
  exact List.prefix_append _ _

theorem all_delivered (h : Link out back) (hfinished : back.ending = some .finished) :
    out.closed = true ∧ back.handed = out.wrote := by
  obtain ⟨hclosed, htaken⟩ := h.finished hfinished
  obtain ⟨hclosed, hunread⟩ := h.closed hclosed
  refine ⟨hclosed, ?_⟩
  rw [h.handed, h.wrote, htaken, List.take_length, hunread, List.append_nil]

end Link

/-! ### What one endpoint does -/

/-- What a datagram says is true of its sender. -/
structure Datagram.Genuine (sender : Endpoint) (datagram : Datagram) : Prop where
  data : datagram.segment.kind = DATA →
    datagram.segment.seq = BitVec.ofNat 32 datagram.number
      ∧ sender.outgoing.read[datagram.number]? = some datagram.segment.payload
  ack : datagram.segment.kind = ACK →
    datagram.segment.seq = BitVec.ofNat 32 datagram.number ∧ datagram.number ≤ sender.incoming.taken
  fin : datagram.segment.kind = FIN →
    sender.outgoing.readClosed = true
      ∧ datagram.segment.seq = BitVec.ofNat 32 sender.outgoing.read.length

namespace Datagram

variable {e : Endpoint} {seq : BitVec 32} {payload : Bytes} {number : ℕ}

theorem genuine_data (hseq : seq = BitVec.ofNat 32 number) (hread : e.outgoing.read[number]? = some payload) :
    (e.datagram DATA seq payload number).Genuine e where
  data := fun _ => ⟨hseq, hread⟩
  ack := fun hkind => absurd (show DATA = ACK from hkind) (by decide)
  fin := fun hkind => absurd (show DATA = FIN from hkind) (by decide)

theorem genuine_ack (hseq : seq = BitVec.ofNat 32 number) (htaken : number ≤ e.incoming.taken) :
    (e.datagram ACK seq payload number).Genuine e where
  data := fun hkind => absurd (show ACK = DATA from hkind) (by decide)
  ack := fun _ => ⟨hseq, htaken⟩
  fin := fun hkind => absurd (show ACK = FIN from hkind) (by decide)

theorem genuine_fin (hclosed : e.outgoing.readClosed = true)
    (hseq : seq = BitVec.ofNat 32 e.outgoing.read.length) : (e.datagram FIN seq payload number).Genuine e where
  data := fun hkind => absurd (show FIN = DATA from hkind) (by decide)
  ack := fun hkind => absurd (show FIN = ACK from hkind) (by decide)
  fin := fun _ => ⟨hclosed, hseq⟩

theorem genuine_syn : (e.datagram SYN seq payload number).Genuine e where
  data := fun hkind => absurd (show SYN = DATA from hkind) (by decide)
  ack := fun hkind => absurd (show SYN = ACK from hkind) (by decide)
  fin := fun hkind => absurd (show SYN = FIN from hkind) (by decide)

end Datagram

/-- What an endpoint never takes back. -/
structure Endpoint.Grows (e e' : Endpoint) : Prop where
  read : e.outgoing.read <+: e'.outgoing.read
  closed : e.outgoing.readClosed = true →
    e'.outgoing.readClosed = true ∧ e'.outgoing.read = e.outgoing.read
  taken : e.incoming.taken ≤ e'.incoming.taken

/-- What was true of the sender is true of it later. -/
theorem Datagram.Genuine.grows {e e' : Endpoint} {datagram : Datagram} (h : datagram.Genuine e)
    (hgrows : e.Grows e') : datagram.Genuine e' where
  data := fun hkind => ⟨(h.data hkind).1, by
    obtain ⟨rest, hrest⟩ := hgrows.read
    rw [← hrest]
    have hlength := (List.getElem?_eq_some_iff.mp (h.data hkind).2).1
    exact (List.getElem?_append_left hlength).trans (h.data hkind).2⟩
  ack := fun hkind => ⟨(h.ack hkind).1, Nat.le_trans (h.ack hkind).2 hgrows.taken⟩
  fin := fun hkind => by
    obtain ⟨hclosed, hread⟩ := hgrows.closed (h.fin hkind).1
    exact ⟨hclosed, by rw [hread]; exact (h.fin hkind).2⟩

/-- Both directions of a stream. -/
structure Endpoint.Joined (e peer : Endpoint) : Prop where
  out : Link e.outgoing peer.incoming
  back : Link peer.outgoing e.incoming

/-- A turn of an endpoint, with what it sends. -/
structure Endpoint.Turn (peer e e' : Endpoint) (messages : List Datagram) : Prop where
  joined : e'.Joined peer
  grows : e.Grows e'
  genuine : ∀ datagram ∈ messages, datagram.Genuine e'

namespace Endpoint

variable {peer e e' : Endpoint} {messages : List Datagram}

theorem Grows.refl (e : Endpoint) : e.Grows e :=
  ⟨List.prefix_rfl, fun h => ⟨h, rfl⟩, Nat.le_refl _⟩

theorem settle_outgoing (e : Endpoint) : e.settle.outgoing = e.outgoing := by
  unfold settle
  split
  · split
    · rfl
    · rfl
  · rfl

theorem settle_taken (e : Endpoint) : e.settle.incoming.taken = e.incoming.taken := by
  unfold settle
  split
  · split
    · rfl
    · rfl
  · rfl

theorem Joined.settle (h : e.Joined peer) : e.settle.Joined peer := by
  unfold Endpoint.settle
  split
  case isTrue hfinished =>
    have hback : Link peer.outgoing (e.incoming.finish .finished) := by
      refine h.back.finish (fun _ => h.back.of_finished hfinished) ?_
      intro heard now h'
      cases h'
    split
    · exact ⟨h.out, hback⟩
    · exact ⟨h.out, hback⟩
  case isFalse => exact h

/-- The turn goes on to see whether the peer is done. -/
theorem Turn.settle (h : Turn peer e e' messages) : Turn peer e e'.settle messages := by
  have hgrows : e'.Grows e'.settle := by
    refine ⟨?_, ?_, ?_⟩
    · rw [settle_outgoing]
    · rw [settle_outgoing]
      exact fun hclosed => ⟨hclosed, rfl⟩
    · rw [settle_taken]
  refine ⟨h.joined.settle, ?_, fun datagram hmem => (h.genuine datagram hmem).grows hgrows⟩
  refine ⟨h.grows.read.trans hgrows.read, ?_, Nat.le_trans h.grows.taken hgrows.taken⟩
  intro hclosed
  obtain ⟨hclosed', hread⟩ := h.grows.closed hclosed
  obtain ⟨hclosed'', hread'⟩ := hgrows.closed hclosed'
  exact ⟨hclosed'', hread'.trans hread⟩

/-- A turn in which nothing is sent, read or handed over. -/
theorem Joined.quiet (e e' : Endpoint) (h : e'.Joined peer) (hread : e'.outgoing.read = e.outgoing.read)
    (hclosed : e.outgoing.readClosed = true → e'.outgoing.readClosed = true)
    (htaken : e'.incoming.taken = e.incoming.taken) : Turn peer e e' [] where
  joined := h
  grows := ⟨by rw [hread], fun h' => ⟨hclosed h', hread⟩, by rw [htaken]⟩
  genuine := fun datagram hmem => absurd hmem List.not_mem_nil

theorem Joined.readPipe (h : e.Joined peer) (now n : ℕ) (hcan : e.outgoing.canSend = true)
    (hready : e.outgoing.unread ≠ [] ∨ e.outgoing.closed = true) :
    Turn peer e (e.readPipe now n).1 (e.readPipe now n).2 := by
  unfold Endpoint.readPipe
  split
  case isTrue hunread =>
    have hclosed : e.outgoing.closed = true := hready.resolve_left (fun hne => hne hunread)
    exact (Joined.quiet e { e with outgoing := { e.outgoing with readClosed := true } }
      ⟨h.out.readClosed hclosed hunread, h.back⟩ rfl (fun _ => rfl) rfl).settle
  case isFalse =>
    have hopen : e.outgoing.readClosed = false := by
      rw [Outgoing.canSend, Bool.and_eq_true, Bool.not_eq_true'] at hcan
      exact hcan.1
    refine Turn.settle ⟨⟨h.out.push now n hcan, h.back⟩, ⟨List.prefix_append _ _, ?_, Nat.le_refl _⟩, ?_⟩
    · intro hclosed
      exact absurd (hopen.symm.trans hclosed) (by decide)
    · intro datagram hmem
      cases List.mem_singleton.mp hmem
      exact Datagram.genuine_data h.out.nextOut List.getElem?_concat_length

/-- What it answers with names the next segment it wants. -/
theorem acknowledge_genuine (h : Link peer.outgoing e.incoming) :
    ∀ datagram ∈ [e.acknowledge], datagram.Genuine e := by
  intro datagram hmem
  cases List.mem_singleton.mp hmem
  exact Datagram.genuine_ack h.nextIn (Nat.le_refl _)

theorem drainUpTo_taken (n : ℕ) : ∀ back : Incoming, back.taken ≤ (back.drainUpTo n).taken := by
  induction n with
  | zero => exact fun back => Nat.le_refl _
  | succ n ih =>
    intro back
    unfold Incoming.drainUpTo
    cases back.early.lookup back.nextIn with
    | none => exact Nat.le_refl _
    | some payload =>
      simp only
      split
      · exact Nat.le_trans (Nat.le_succ _) (ih (back.handOver payload))
      · exact Nat.le_refl _

theorem keep_taken (back : Incoming) (seq : BitVec 32) (payload : Bytes) :
    (back.keep seq payload).taken = back.taken := by
  unfold Incoming.keep
  split
  · rfl
  · rfl

/-- A datagram that the peer sent, and that is not far behind, arrives. -/
theorem Joined.take (h : e.Joined peer) (now : ℕ) {datagram : Datagram} (hgenuine : datagram.Genuine peer)
    (hdata : datagram.segment.kind = DATA → peer.outgoing.read.length < datagram.number + 2 ^ 31)
    (hack : datagram.segment.kind = ACK → e.outgoing.read.length < datagram.number + 2 ^ 31) :
    Turn peer e (e.take now datagram.segment).1 (e.take now datagram.segment).2 := by
  unfold Endpoint.take
  split
  · exact Joined.quiet e e h rfl (fun hclosed => hclosed) rfl
  simp only
  split
  case isTrue hkind =>
    obtain ⟨hseq, htaken⟩ := hgenuine.ack hkind
    rw [hseq]
    exact (Joined.quiet e
      { e with heard := now, outgoing := e.outgoing.ack (BitVec.ofNat 32 datagram.number) }
      ⟨h.out.ack htaken (hack hkind), h.back⟩ rfl (fun hclosed => hclosed) rfl).settle
  split
  case isTrue hkind =>
    obtain ⟨hseq, hread⟩ := hgenuine.data hkind
    rw [hseq]
    have hback := (h.back.keep hread (hdata hkind)).drain
    refine Turn.settle ⟨⟨h.out, hback⟩, ⟨List.prefix_rfl, fun hclosed => ⟨hclosed, rfl⟩, ?_⟩, ?_⟩
    · have hkeep := keep_taken e.incoming (BitVec.ofNat 32 datagram.number) datagram.segment.payload
      calc e.incoming.taken = (e.incoming.keep _ _).taken := hkeep.symm
        _ ≤ _ := drainUpTo_taken _ _
    · exact acknowledge_genuine hback
  split
  case isTrue hkind =>
    obtain ⟨hclosed, hseq⟩ := hgenuine.fin hkind
    rw [hseq]
    have hback := h.back.setPeerFin hclosed
    refine Turn.settle ⟨⟨h.out, hback⟩, ⟨List.prefix_rfl, fun hclosed => ⟨hclosed, rfl⟩, Nat.le_refl _⟩, ?_⟩
    exact acknowledge_genuine hback
  split
  · refine Turn.settle ⟨⟨h.out, h.back⟩, ⟨List.prefix_rfl, fun hclosed => ⟨hclosed, rfl⟩, Nat.le_refl _⟩, ?_⟩
    intro answer hmem
    cases List.mem_singleton.mp hmem
    exact Datagram.genuine_syn
  · exact (Joined.quiet e { e with heard := now } ⟨h.out, h.back⟩ rfl (fun hclosed => hclosed) rfl).settle

theorem Joined.drop (h : e.Joined peer) {ending : Ending} (hfinished : ending ≠ .finished)
    (hsilent : ∀ heard now, ending = .silent heard now → IDLE < now - heard) :
    Turn peer e (e.drop ending) [] :=
  Joined.quiet e (e.drop ending) ⟨h.out, h.back.finish (fun h' => absurd h' hfinished) hsilent⟩ rfl (fun h' => h') rfl

/-- What is sent again was read before. -/
theorem again_genuine (h : Link e.outgoing peer.incoming) (unacked : List Unacked)
    (hsub : ∀ u ∈ unacked, u ∈ e.outgoing.unacked) :
    ∀ datagram ∈ unacked.map fun u => e.datagram DATA u.seq u.payload u.number, datagram.Genuine e := by
  intro datagram hmem
  obtain ⟨u, hu, rfl⟩ := List.mem_map.mp hmem
  exact Datagram.genuine_data (h.unacked u (hsub u hu)).1 (h.unacked u (hsub u hu)).2

theorem Joined.tick (h : e.Joined peer) (now : ℕ) : Turn peer e (e.tick now).1 (e.tick now).2 := by
  unfold Endpoint.tick
  split
  case isTrue hidle =>
    refine h.drop (by simp) ?_
    intro heard now' h'
    cases h'
    exact hidle
  case isFalse =>
    simp only
    have hagain := again_genuine h.out
      (e.outgoing.unacked.filter fun u => Outgoing.Unacked.due u now) (fun u hu => (List.mem_filter.mp hu).1)
    have hgrows : ∀ outgoing : Outgoing, outgoing.read = e.outgoing.read →
        outgoing.readClosed = e.outgoing.readClosed → e.Grows { e with outgoing := outgoing } := by
      intro outgoing hread hclosed
      exact ⟨by rw [hread], fun h' => ⟨hclosed.trans h', hread⟩, Nat.le_refl _⟩
    split
    case isTrue hdue =>
      have hclosed : (e.outgoing.resend now).readClosed = true := by
        rw [Outgoing.finDue, Bool.and_eq_true, Bool.and_eq_true] at hdue
        exact hdue.1.1
      have hout := (h.out.resend now).fin now hclosed
      refine Turn.settle ⟨⟨hout, h.back⟩, hgrows _ rfl rfl, ?_⟩
      intro datagram hmem
      rcases List.mem_append.mp hmem with hmem | hmem
      · exact (hagain datagram hmem).grows (hgrows _ rfl rfl)
      · cases List.mem_singleton.mp hmem
        exact Datagram.genuine_fin hclosed hout.nextOut
    case isFalse =>
      refine Turn.settle ⟨⟨h.out.resend now, h.back⟩, hgrows _ rfl rfl, ?_⟩
      exact fun datagram hmem => (hagain datagram hmem).grows (hgrows _ rfl rfl)

/-- Every act of an endpoint is such a turn. -/
theorem Joined.act (h : e.Joined peer) {now : ℕ} {act : Act} {turn : Endpoint × List Datagram}
    (hact : e.act now act = some turn) : Turn peer e turn.1 turn.2 := by
  cases act with
  | write bytes =>
    obtain ⟨hopen, hturn⟩ := Option.ite_none_left_eq_some.mp hact
    cases hturn
    exact Joined.quiet e (e.write bytes) ⟨h.out.write bytes hopen, h.back⟩ rfl (fun hclosed => hclosed) rfl
  | close =>
    cases hact
    exact Joined.quiet e e.close ⟨h.out.close, h.back⟩ rfl (fun hclosed => hclosed) rfl
  | leave =>
    cases hact
    exact Joined.quiet e e.leave ⟨h.out.close, h.back.leave⟩ rfl (fun hclosed => hclosed) rfl
  | read n =>
    obtain ⟨⟨hcan, -, -, hready⟩, hturn⟩ := Option.ite_none_right_eq_some.mp hact
    cases hturn
    exact h.readPipe now n hcan hready
  | tick =>
    cases hact
    exact h.tick now

end Endpoint

/-! ### What the network does -/

namespace Network

structure Inv (net : Network) : Prop where
  joined : ∀ side, (net.endpoint side).Joined (net.endpoint side.other)
  genuine : ∀ side, ∀ datagram ∈ net.sent side, datagram.Genuine (net.endpoint side)

theorem Inv.new (id : BitVec 32) : (Network.new id).Inv where
  joined := fun _ => ⟨Link.new, Link.new⟩
  genuine := fun _ _ hmem => absurd hmem List.not_mem_nil

theorem Inv.after {net : Network} (h : net.Inv) {side : Side} {turn : Endpoint × List Datagram}
    (hturn : Endpoint.Turn (net.endpoint side.other) (net.endpoint side) turn.1 turn.2) :
    (net.after side turn).Inv := by
  have hside : (net.after side turn).endpoint side = turn.1 := Function.update_self _ _ _
  have hother : (net.after side turn).endpoint side.other = net.endpoint side.other :=
    Function.update_of_ne side.other_ne _ _
  have hsent : (net.after side turn).sent side = net.sent side ++ turn.2 := Function.update_self _ _ _
  have hsent' : (net.after side turn).sent side.other = net.sent side.other :=
    Function.update_of_ne side.other_ne _ _
  constructor
  · intro there
    rcases side.eq_or_eq_other there with rfl | rfl
    · rw [hside, hother]
      exact hturn.joined
    · rw [Side.other_other, hside, hother]
      exact ⟨hturn.joined.back, hturn.joined.out⟩
  · intro there datagram hmem
    rcases side.eq_or_eq_other there with rfl | rfl
    · rw [hside]
      rw [hsent] at hmem
      rcases List.mem_append.mp hmem with hmem | hmem
      · exact (h.genuine there datagram hmem).grows hturn.grows
      · exact hturn.genuine datagram hmem
    · rw [hother]
      rw [hsent'] at hmem
      exact h.genuine _ datagram hmem

theorem Inv.step {net net' : Network} {event : Event} (h : net.Inv) (hnear : net.Near event)
    (hstep : net.step event = some net') : net'.Inv := by
  cases event with
  | wait ms =>
    cases hstep
    exact ⟨h.joined, h.genuine⟩
  | start side =>
    obtain ⟨-, hnet⟩ := Option.ite_none_right_eq_some.mp hstep
    cases hnet
    have hjoined := h.joined side
    exact h.after (Endpoint.Joined.quiet _ ((net.endpoint side).start net.now)
      ⟨hjoined.out, hjoined.back⟩ rfl (fun hclosed => hclosed) rfl)
  | act side act =>
    obtain ⟨-, hnet⟩ := Option.ite_none_right_eq_some.mp hstep
    obtain ⟨turn, hact, rfl⟩ := Option.map_eq_some_iff.mp hnet
    exact h.after ((h.joined side).act hact)
  | deliver side k =>
    obtain ⟨-, hnet⟩ := Option.ite_none_right_eq_some.mp hstep
    obtain ⟨datagram, hdatagram, rfl⟩ := Option.map_eq_some_iff.mp hnet
    obtain ⟨hdata, hack⟩ := hnear datagram hdatagram
    have hgenuine := h.genuine side.other datagram (List.mem_of_getElem? hdatagram)
    exact h.after ((h.joined side).take net.now hgenuine hdata hack)
  | replace side =>
    obtain ⟨-, hnet⟩ := Option.ite_none_right_eq_some.mp hstep
    cases hnet
    refine h.after ((h.joined side).drop (by simp) ?_)
    intro heard now h'
    cases h'

/-- What is handed to the program on one side is what the program on the other side
has written so far, or the first part of it.  When the end of the stream is read all
of it was handed over, and no more will come, unless the endpoint was dropped: it
heard nothing for too long, or its place was taken. -/
theorem reads_what_was_written {id : BitVec 32} {events : List Event} {net : Network}
    (h : Run.Guarded step Near events (.new id) net) (side : Side) :
    (net.endpoint side).incoming.handed <+: (net.endpoint side.other).outgoing.wrote
    ∧ ∀ ending, (net.endpoint side).incoming.ending = some ending →
      ((net.endpoint side.other).outgoing.closed = true
        ∧ (net.endpoint side).incoming.handed = (net.endpoint side.other).outgoing.wrote)
      ∨ (∃ heard now, ending = .silent heard now ∧ IDLE < now - heard)
      ∨ ending = .replaced := by
  have hinv : net.Inv := h.invariant (fun _ _ _ hs hA hstep => hs.step hA hstep) (Inv.new id)
  have hlink := (hinv.joined side).back
  refine ⟨hlink.delivered, ?_⟩
  intro ending hending
  cases ending with
  | finished => exact Or.inl (hlink.all_delivered hending)
  | silent heard now => exact Or.inr (Or.inl ⟨heard, now, rfl, hlink.silent heard now hending⟩)
  | replaced => exact Or.inr (Or.inr rfl)

/-- While nobody has sent half the circle, nothing is behind it. -/
theorem near_of_short {net : Network} (h : ∀ side, (net.endpoint side).outgoing.read.length < 2 ^ 31)
    (event : Event) : net.Near event := by
  cases event with
  | deliver side k =>
    intro datagram _
    exact ⟨fun _ => Nat.lt_add_left _ (h side.other), fun _ => Nat.lt_add_left _ (h side)⟩
  | _ => exact trivial

/-- Three bytes that arrive twice, and the end behind them. -/
def closing : List Event :=
  [.start .right, .start .left, .act .left (.write [1, 2, 3]),
    .act .left (.read 3), .deliver .right 0, .deliver .right 0,
    .deliver .left 0, .act .left .close, .act .left (.read 1),
    .act .left .tick, .deliver .right 1]

/-- The program on the other side reads the three bytes and the end. -/
theorem reads_what_was_written_closing :
    ∃ net, closing.foldlM step (.new 7) = some net ∧
      (net.endpoint .right).incoming.ending = some .finished ∧
      (net.endpoint .right).incoming.handed <+: (net.endpoint .left).outgoing.wrote ∧
      ∀ ending, (net.endpoint .right).incoming.ending = some ending →
        ((net.endpoint .left).outgoing.closed = true
          ∧ (net.endpoint .right).incoming.handed = (net.endpoint .left).outgoing.wrote)
        ∨ (∃ heard now, ending = .silent heard now ∧ IDLE < now - heard)
        ∨ ending = .replaced := by
  have hrun : Run.Guarded step Near closing (.new 7) _ :=
    ⟨trivial, _, rfl, trivial, _, rfl, trivial, _, rfl, trivial, _, rfl,
      near_of_short (fun side => by cases side <;> decide) _, _, rfl,
      near_of_short (fun side => by cases side <;> decide) _, _, rfl,
      near_of_short (fun side => by cases side <;> decide) _, _, rfl,
      trivial, _, rfl, trivial, _, rfl, trivial, _, rfl,
      near_of_short (fun side => by cases side <;> decide) _, _, rfl, rfl⟩
  exact ⟨_, hrun.run, by decide, reads_what_was_written hrun .right⟩

/-- One byte is lost, and so is everything behind it. -/
def silenced : List Event :=
  [.start .right, .start .left, .act .left (.write [1]),
    .act .left (.read 1), .act .left .close, .wait 30001, .act .right .tick]

/-- **An endpoint that hears nothing for too long ends the stream, whatever is
missing.** -/
theorem silenced_short :
    ¬ ∀ id events net, Run.Guarded step Near events (.new id) net → ∀ side : Side,
      (net.endpoint side).incoming.handed <+: (net.endpoint side.other).outgoing.wrote
      ∧ ((net.endpoint side).incoming.ending.isSome = true →
        (net.endpoint side).incoming.handed = (net.endpoint side.other).outgoing.wrote) := by
  intro h
  have hrun : Run.Guarded step Near silenced (.new 7) _ :=
    ⟨trivial, _, rfl, trivial, _, rfl, trivial, _, rfl, trivial, _, rfl, trivial, _, rfl,
      trivial, _, rfl, trivial, _, rfl, rfl⟩
  have hall := (h _ _ _ hrun .right).2 (by decide)
  exact absurd hall (by decide)

end Network

end WindowCast.Transport
