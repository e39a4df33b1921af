import WindowCast.Bud.Parity
import WindowCast.Lib.Descent
import WindowCast.Lib.KeyedSum
import WindowCast.Lib.SerialNumber

/-!
# Fragments and the reassembler

`bud/src/fragment.rs`: cutting a frame into packets, and putting it back
together.  `none` is a panic: an index out of range or a failed `expect`.  The
map of streams is a function, since a stream it does not hold is a default
state; the order it is walked in is an argument.

## Main definitions

* `fragment`, `fragmentWithParity` — the packets of a frame.
* `Pending`, `Pending.recover` — a frame that waits for fragments.
* `Reassembler`, `push`, `abandon`, `incomplete`.
* `Located`, `Exit` — every way through `push`.

## Main results

* `push_exit` — **what a push can do**, with the guards of each way.
-/

namespace WindowCast.Bud

open WindowCast.Fec

/-- The largest frame accepted. -/
def MAX_FRAME : ℕ := 16 * 1024 * 1024
/-- How many unfinished frames one stream may have at once. -/
def MAX_IN_FLIGHT : ℕ := 4

inductive FragmentError
  | tooLarge (len : ℕ)
  deriving DecidableEq, Repr

inductive ReassembleError
  | tooLarge
  /-- The fragments of one frame disagree about how many there are. -/
  | inconsistent
  /-- A data fragment is not the size the sender cuts them to. -/
  | badFragment
  deriving DecidableEq, Repr

/-- Cuts `data` into the headers and payloads of its data datagrams. -/
def fragment (stream : UInt16) (frame sentUs : UInt32) (data : List UInt8) :
    Except FragmentError (List Packet) :=
  if data.length > MAX_FRAME then .error (.tooLarge data.length)
  else
    let count := max (divCeil data.length FRAGMENT_SIZE) 1
    if count > 0xffff then .error (.tooLarge data.length)
    else .ok ((List.range count).map fun index =>
      let start := index * FRAGMENT_SIZE
      let stop := min (start + FRAGMENT_SIZE) data.length
      (⟨0, stream, frame, UInt16.ofNat index, UInt16.ofNat count, 0, sentUs⟩,
        (data.drop start).take (stop - start)))

/-- A frame as the datagrams to send: its data fragments, then the parity
`policy` asks for. -/
def fragmentWithParity (stream : UInt16) (frame sentUs : UInt32) (data : List UInt8)
    (policy : ParityPolicy) : Option (Except FragmentError (List Packet)) :=
  match fragment stream frame sentUs data with
  | .error e => some (.error e)
  | .ok parts =>
    match encode parts policy with
    | none => none
    | some parity => some (.ok (parts ++ parity))

/-- A frame that is still waiting for data fragments. -/
structure Incomplete where
  stream : UInt16
  frame : UInt32
  missing : List UInt16
  deriving DecidableEq, Repr

/-- A frame put back together. -/
structure Frame where
  stream : UInt16
  frame : UInt32
  sentUs : UInt32
  data : List UInt8
  deriving DecidableEq, Repr

/-- Whether frame number `a` is later than `b`. -/
def newer (a b : UInt32) : Bool := decide (a ≠ b ∧ (a - b).toNat < 1 <<< 31)

/-- The parity shards received for one block of a frame. -/
structure BlockParity where
  shards : List (Option Shard)

structure Pending where
  frame : UInt32
  sentUs : UInt32
  slots : List (Option (List UInt8))
  received : ℕ
  bytes : ℕ
  parity : AList fun _ : ℕ => BlockParity
  parityStored : ℕ
  lastLen : Option ℕ

namespace Pending

/-- A frame of which nothing arrived yet. -/
def new (header : Header) : Pending where
  frame := header.frame
  sentUs := header.sentUs
  slots := List.replicate header.fragments.toNat none
  received := 0
  bytes := 0
  parity := ∅
  parityStored := 0
  lastLen := none

/-- Puts the recovered fragment at `offset` of its block into slot `i`, if that is empty. -/
def fill (n lastLen : ℕ) (data : List Shard) (self : Pending) (target : ℕ × ℕ) : Option Pending :=
  let (i, offset) := target
  match self.slots[i]? with
  | none => none
  | some (some _) => some self
  | some none =>
    match data[offset]? with
    | none => none
    | some shard =>
      let shard := shard.take (if i = n - 1 then lastLen else FRAGMENT_SIZE)
      some { self with
        slots := self.slots.set i (some shard)
        received := self.received + 1
        bytes := self.bytes + shard.length }

/-- One turn of the loop of `recover`. -/
def recoverBlock (n lastLen : ℕ) (self : Pending) (target : Range × ℕ) : Option Pending :=
  let (range, block) := target
  match self.parity.lookup block with
  | none => some self
  | some blockParity =>
    match range.indices.mapM fun i => self.slots[i]? with
    | none => none
    | some arrived =>
      if arrived.all Option.isSome then some self
      else
        let k := range.len
        let held := arrived.countP Option.isSome + blockParity.shards.countP Option.isSome
        if held < k then some self
        else
          let padded := arrived.map (Option.map fun data => resize data FRAGMENT_SIZE)
          match Code.cauchy k blockParity.shards.length with
          | .error _ => some self
          | .ok code =>
            match code.recover (padded ++ blockParity.shards) with
            | none => some self
            | some data => range.indices.zipIdx.foldlM (fill n lastLen data) self

/-- Rebuilds the data fragments of every block that has enough shards. -/
def recover (self : Pending) : Option Pending :=
  let n := self.slots.length
  match self.lastLen with
  | none => some self
  | some lastLen => (blocks n).zipIdx.foldlM (recoverBlock n lastLen) self

/-- The fragments that are missing. -/
def missing (self : Pending) : List UInt16 :=
  ((List.range self.slots.length).filter fun i => self.slots[i]? = some none).map UInt16.ofNat

/-- What storing a packet came to. -/
inductive Put
  /-- The packet had nothing new. -/
  | ignored
  /-- The frame is given up. -/
  | refused (e : ReassembleError)
  | stored (pending : Pending)

/-- Stores a data fragment. -/
def putData (self : Pending) (header : Header) (payload : List UInt8) : Option Put :=
  match self.slots[header.fragment.toNat]? with
  | none => none
  | some (some _) => some .ignored
  | some none =>
    if self.bytes + payload.length > MAX_FRAME then some (.refused .tooLarge)
    else some (.stored { self with
      slots := self.slots.set header.fragment.toNat (some payload)
      received := self.received + 1
      bytes := self.bytes + payload.length })

/-- Stores a parity shard. -/
def putParity (self : Pending) (header : Header) (parsed : Prefix × Shard) : Option Put :=
  let (pre, shard) := parsed
  -- A frame never needs more parity than data to be covered.
  if self.parityStored ≥ max header.fragments.toNat 8 then some .ignored
  else
    let entry := (self.parity.lookup pre.block).getD ⟨List.replicate pre.count none⟩
    if entry.shards.length ≠ pre.count then some (.refused .inconsistent)
    else
      match entry.shards[pre.index]? with
      | none => none
      -- The entry is not a new one, which would be empty, so the map is as it was.
      | some (some _) => some .ignored
      | some none => some (.stored { self with
          parity := self.parity.insert pre.block ⟨entry.shards.set pre.index (some shard)⟩
          parityStored := self.parityStored + 1
          lastLen := some pre.lastLen })

/-- Stores a packet, data or parity. -/
def put (self : Pending) (header : Header) (payload : List UInt8)
    (parsed : Option (Prefix × Shard)) : Option Put :=
  match parsed with
  | none => self.putData header payload
  | some parsed => self.putParity header parsed

/-- What adding a packet to a frame came to. -/
inductive Added
  | ignored
  | refused (e : ReassembleError)
  | stored (pending : Pending) (recovered : ℕ)

/-- Stores a packet, and recovers what it makes recoverable. -/
def add (self : Pending) (header : Header) (payload : List UInt8)
    (parsed : Option (Prefix × Shard)) : Option Added :=
  match self.put header payload parsed with
  | none => none
  | some .ignored => some .ignored
  | some (.refused e) => some (.refused e)
  | some (.stored pending) =>
    -- After a data fragment, parity may already be here, waiting for exactly this piece.
    if parsed = none ∧ pending.parity.entries = [] then some (.stored pending 0)
    else
      match pending.recover with
      | none => none
      | some recovered => some (.stored recovered (recovered.received - pending.received))

end Pending

structure StreamState where
  lastDelivered : Option UInt32
  pending : List Pending

structure Reassembler where
  streams : UInt16 → StreamState
  dropped : ℕ
  recovered : ℕ

/-- What `push` returns. -/
abbrev Pushed := Except ReassembleError (Option Frame)

/-- What the checks of `push` on the packet alone came to. -/
inductive Inspected
  | ignored
  | refused (e : ReassembleError)
  | admitted (parsed : Option (Prefix × Shard))

/-- The checks of `push` on the packet alone. -/
def inspect (header : Header) (payload : List UInt8) : Inspected :=
  let fragments := header.fragments.toNat
  if header.isParity then
    match parse payload with
    | none => .ignored
    | some parsed =>
      if parsed.1.block ≥ (blocks fragments).length then .ignored else .admitted (some parsed)
  else
    let last := header.fragment.toNat + 1 = fragments
    if payload.length > FRAGMENT_SIZE ∨ (¬ last ∧ payload.length ≠ FRAGMENT_SIZE) then
      .refused .badFragment
    else .admitted none

namespace StreamState

def new : StreamState := ⟨none, []⟩

/-- The frame was already delivered, or is an older one. -/
def late (self : StreamState) (frame : UInt32) : Bool :=
  match self.lastDelivered with
  | none => false
  | some last => !newer frame last

/-- Where the oldest unfinished frame is. -/
def oldest (pending : List Pending) : Option ℕ :=
  match pending.zipIdx with
  | [] => none
  | first :: rest =>
    some (rest.foldl (fun a b => if newer a.1.frame b.1.frame then b else a) first).2

/-- Finds the entry of the packet's frame, or makes one; also how many frames
were given up for it. -/
def locate (self : StreamState) (header : Header) :
    Option (Except ReassembleError ℕ × StreamState × ℕ) :=
  let fragments := header.fragments.toNat
  match self.pending.findIdx? fun p => p.frame = header.frame with
  | some index =>
    if (self.pending[index]?.map fun p => p.slots.length) ≠ some fragments then
      some (.error .inconsistent, { self with pending := self.pending.eraseIdx index }, 1)
    else some (.ok index, self, 0)
  | none =>
    if fragments * FRAGMENT_SIZE > MAX_FRAME + FRAGMENT_SIZE then
      some (.error .tooLarge, self, 0)
    else if self.pending.length ≥ MAX_IN_FLIGHT then
      -- Make room by giving up on the oldest unfinished frame.
      match oldest self.pending with
      | none => none
      | some oldest =>
        let kept := self.pending.eraseIdx oldest
        some (.ok kept.length, { self with pending := kept ++ [Pending.new header] }, 1)
    else
      some (.ok self.pending.length,
        { self with pending := self.pending ++ [Pending.new header] }, 0)

end StreamState

namespace Reassembler

def new : Reassembler := ⟨fun _ => StreamState.new, 0, 0⟩

/-- Puts back the state of a stream, and adds to the counters. -/
def update (self : Reassembler) (stream : UInt16) (state : StreamState) (dropped recovered : ℕ) :
    Reassembler where
  streams := Function.update self.streams stream state
  dropped := self.dropped + dropped
  recovered := self.recovered + recovered

/-- The frames waiting for fragments, and which, with the streams in `order`. -/
def incomplete (self : Reassembler) (order : List UInt16) : List Incomplete :=
  order.flatMap fun stream =>
    (self.streams stream).pending.map fun p => ⟨stream, p.frame, p.missing⟩

/-- Gives up on a frame that is waiting; also whether there was such a frame. -/
def abandon (self : Reassembler) (stream : UInt16) (frame : UInt32) : Reassembler × Bool :=
  let state := self.streams stream
  match state.pending.findIdx? fun p => p.frame = frame with
  | none => (self, false)
  | some index =>
    (self.update stream { state with pending := state.pending.eraseIdx index } 1 0, true)

/-- Delivers the complete frame `done`, which was at `index`. -/
def deliver (self : Reassembler) (header : Header) (state : StreamState) (index : ℕ)
    (done : Pending) (dropped recovered : ℕ) : Pushed × Reassembler :=
  let rest := state.pending.eraseIdx index
  let data := done.slots.reduceOption.flatten
  -- Anything unfinished and older than what was just delivered is stale.
  let kept := rest.filter fun p => newer p.frame done.frame
  (.ok (some ⟨header.stream, done.frame, done.sentUs, data⟩),
    self.update header.stream ⟨some done.frame, kept⟩ (dropped + (rest.length - kept.length))
      recovered)

/-- Adds one authenticated packet, data or parity, and returns the frame if
this packet completed it. -/
def push (self : Reassembler) (header : Header) (payload : List UInt8) :
    Option (Pushed × Reassembler) :=
  match inspect header payload with
  | .ignored => some (.ok none, self)
  | .refused e => some (.error e, self)
  | .admitted parsed =>
    let state := self.streams header.stream
    if state.late header.frame then some (.ok none, self)
    else
      match state.locate header with
      | none => none
      | some (.error e, state, dropped) =>
        some (.error e, self.update header.stream state dropped 0)
      | some (.ok index, state, dropped) =>
        match state.pending[index]? with
        | none => none
        | some pending =>
          match pending.add header payload parsed with
          | none => none
          | some (.refused e) =>
            let state := { state with pending := state.pending.eraseIdx index }
            some (.error e, self.update header.stream state (dropped + 1) 0)
          | some .ignored => some (.ok none, self.update header.stream state dropped 0)
          | some (.stored pending recovered) =>
            if pending.received < pending.slots.length then
              let state := { state with pending := state.pending.set index pending }
              some (.ok none, self.update header.stream state dropped recovered)
            else some (self.deliver header state index pending dropped recovered)

/-! ### Every way through a push -/

/-- The entries kept when one more is made, and how many were given up for it. -/
inductive Room (pending : List Pending) : List Pending → ℕ → Prop
  | free (h : pending.length < MAX_IN_FLIGHT) : Room pending pending 0
  | evicted {before after : List Pending} {p : Pending} (h : MAX_IN_FLIGHT ≤ pending.length)
      (hsplit : pending = before ++ p :: after)
      (holdest : StreamState.oldest pending = some before.length) : Room pending (before ++ after) 1

/-- The entry of the packet's frame, with those before and after it, and how
many frames were given up for it. -/
inductive Located (pending : List Pending) (header : Header) :
    List Pending → Pending → List Pending → ℕ → Prop
  | found {before after : List Pending} {p : Pending} (hsplit : pending = before ++ p :: after)
      (hframe : p.frame = header.frame) (hslots : p.slots.length = header.fragments.toNat) :
      Located pending header before p after 0
  | created {kept : List Pending} {dropped : ℕ} (hnone : ∀ p ∈ pending, p.frame ≠ header.frame)
      (hsize : header.fragments.toNat * FRAGMENT_SIZE ≤ MAX_FRAME + FRAGMENT_SIZE)
      (hroom : Room pending kept dropped) :
      Located pending header kept (Pending.new header) [] dropped

/-- What a push returns, and the reassembler after it. -/
inductive Exit (self : Reassembler) (header : Header) (payload : List UInt8) :
    Pushed → Reassembler → Prop
  | ignored (h : inspect header payload = .ignored) : Exit self header payload (.ok none) self
  | refused {e : ReassembleError} (h : inspect header payload = .refused e) :
      Exit self header payload (.error e) self
  | late (h : (self.streams header.stream).late header.frame = true) :
      Exit self header payload (.ok none) self
  | tooMany {parsed : Option (Prefix × Shard)} (hparsed : inspect header payload = .admitted parsed)
      (hlate : (self.streams header.stream).late header.frame = false)
      (hnone : ∀ p ∈ (self.streams header.stream).pending, p.frame ≠ header.frame)
      (hsize : header.fragments.toNat * FRAGMENT_SIZE > MAX_FRAME + FRAGMENT_SIZE) :
      Exit self header payload (.error .tooLarge) self
  | disagreed {parsed : Option (Prefix × Shard)} {before after : List Pending} {p : Pending}
      (hparsed : inspect header payload = .admitted parsed)
      (hlate : (self.streams header.stream).late header.frame = false)
      (hsplit : (self.streams header.stream).pending = before ++ p :: after)
      (hframe : p.frame = header.frame) (hslots : p.slots.length ≠ header.fragments.toNat) :
      Exit self header payload (.error .inconsistent) (self.update header.stream
        ⟨(self.streams header.stream).lastDelivered, before ++ after⟩ 1 0)
  | gaveUp {parsed : Option (Prefix × Shard)} {before after : List Pending} {p : Pending}
      {dropped : ℕ} {e : ReassembleError} (hparsed : inspect header payload = .admitted parsed)
      (hlate : (self.streams header.stream).late header.frame = false)
      (hloc : Located (self.streams header.stream).pending header before p after dropped)
      (hadd : p.add header payload parsed = some (.refused e)) :
      Exit self header payload (.error e) (self.update header.stream
        ⟨(self.streams header.stream).lastDelivered, before ++ after⟩ (dropped + 1) 0)
  | nothingNew {parsed : Option (Prefix × Shard)} {before after : List Pending} {p : Pending}
      {dropped : ℕ} (hparsed : inspect header payload = .admitted parsed)
      (hlate : (self.streams header.stream).late header.frame = false)
      (hloc : Located (self.streams header.stream).pending header before p after dropped)
      (hadd : p.add header payload parsed = some .ignored) :
      Exit self header payload (.ok none) (self.update header.stream
        ⟨(self.streams header.stream).lastDelivered, before ++ p :: after⟩ dropped 0)
  | kept {parsed : Option (Prefix × Shard)} {before after : List Pending} {p p' : Pending}
      {dropped recovered : ℕ} (hparsed : inspect header payload = .admitted parsed)
      (hlate : (self.streams header.stream).late header.frame = false)
      (hloc : Located (self.streams header.stream).pending header before p after dropped)
      (hadd : p.add header payload parsed = some (.stored p' recovered))
      (hmissing : p'.received < p'.slots.length) :
      Exit self header payload (.ok none) (self.update header.stream
        ⟨(self.streams header.stream).lastDelivered, before ++ p' :: after⟩ dropped recovered)
  | delivered {parsed : Option (Prefix × Shard)} {before after : List Pending} {p p' : Pending}
      {dropped recovered : ℕ} (hparsed : inspect header payload = .admitted parsed)
      (hlate : (self.streams header.stream).late header.frame = false)
      (hloc : Located (self.streams header.stream).pending header before p after dropped)
      (hadd : p.add header payload parsed = some (.stored p' recovered))
      (hcomplete : ¬ p'.received < p'.slots.length) :
      Exit self header payload
        (.ok (some ⟨header.stream, p'.frame, p'.sentUs, p'.slots.reduceOption.flatten⟩))
        (self.update header.stream
          ⟨some p'.frame, (before ++ after).filter fun q => newer q.frame p'.frame⟩
          (dropped + ((before ++ after).length
            - ((before ++ after).filter fun q => newer q.frame p'.frame).length)) recovered)

/-- A position in a list, as a split of the list. -/
theorem split_of_getElem? {α : Type} {l : List α} {i : ℕ} {x : α} (h : l[i]? = some x) :
    ∃ before after, l = before ++ x :: after ∧ before.length = i := by
  obtain ⟨hlt, rfl⟩ := List.getElem?_eq_some_iff.mp h
  refine ⟨l.take i, l.drop (i + 1), ?_, ?_⟩
  · rw [← List.drop_eq_getElem_cons hlt, List.take_append_drop]
  · rw [List.length_take]
    omega

theorem eraseIdx_split {α : Type} (before after : List α) (x : α) :
    (before ++ x :: after).eraseIdx before.length = before ++ after := by
  rw [List.eraseIdx_append_of_length_le (Nat.le_refl _), Nat.sub_self, List.eraseIdx_cons_zero]

theorem set_split {α : Type} (before after : List α) (x y : α) :
    (before ++ x :: after).set before.length y = before ++ y :: after := by
  rw [List.set_append_right _ _ (Nat.le_refl _), Nat.sub_self, List.set_cons_zero]

/-- The oldest frame is one of those pending. -/
theorem oldest_eq_some {pending : List Pending} {i : ℕ} (h : StreamState.oldest pending = some i) :
    ∃ p, pending[i]? = some p := by
  unfold StreamState.oldest at h
  split at h
  · cases h
  rename_i first rest hzip
  have hmem := Descent.last_mem (fun a b => newer a.1.frame b.1.frame) first rest
  rw [← hzip, List.mem_zipIdx_iff_getElem?] at hmem
  rw [← Option.some.inj h]
  exact ⟨_, hmem⟩

theorem oldest_isSome {pending : List Pending} (h : pending ≠ []) :
    ∃ i, StreamState.oldest pending = some i := by
  cases pending with
  | nil => exact absurd rfl h
  | cons p rest => exact ⟨_, rfl⟩

/-- What `locate` found or made. -/
theorem locate_ok {st st' : StreamState} {header : Header} {index dropped : ℕ}
    (h : st.locate header = some (.ok index, st', dropped)) :
    ∃ before p after, st' = ⟨st.lastDelivered, before ++ p :: after⟩ ∧ before.length = index ∧
      Located st.pending header before p after dropped := by
  unfold StreamState.locate at h
  simp only at h
  split at h
  · rename_i i hfind
    split at h
    · cases h
    rename_i hslots
    obtain ⟨p, hp, hlen⟩ := Option.map_eq_some_iff.mp (not_not.mp hslots)
    obtain ⟨before, after, hsplit, hi⟩ := split_of_getElem? hp
    obtain ⟨hlt, hframe, -⟩ := List.findIdx?_eq_some_iff_getElem.mp hfind
    rw [(List.getElem?_eq_some_iff.mp hp).2, decide_eq_true_eq] at hframe
    cases h
    exact ⟨before, p, after, by rw [← hsplit], hi, .found hsplit hframe hlen⟩
  · rename_i hfind
    have hnone : ∀ p ∈ st.pending, p.frame ≠ header.frame := by
      simpa [List.findIdx?_eq_none_iff] using hfind
    split at h
    · cases h
    rename_i hsize
    have hsize := Nat.le_of_not_lt hsize
    split at h
    · rename_i hfull
      split at h
      · cases h
      rename_i oldest holdest
      cases h
      obtain ⟨p, hp⟩ := oldest_eq_some holdest
      obtain ⟨before, after, hsplit, hi⟩ := split_of_getElem? hp
      have herase : st.pending.eraseIdx oldest = before ++ after := by
        rw [hsplit, ← hi, eraseIdx_split]
      rw [herase]
      exact ⟨before ++ after, _, [], rfl, rfl,
        .created hnone hsize (.evicted hfull hsplit (by rw [holdest, hi]))⟩
    · rename_i hroom
      cases h
      exact ⟨st.pending, _, [], rfl, rfl, .created hnone hsize (.free (Nat.lt_of_not_le hroom))⟩

/-- Why `locate` refused. -/
theorem locate_error {st st' : StreamState} {header : Header} {e : ReassembleError} {dropped : ℕ}
    (h : st.locate header = some (.error e, st', dropped)) :
    (e = .inconsistent ∧ dropped = 1 ∧ ∃ before p after, st.pending = before ++ p :: after ∧
      p.frame = header.frame ∧ p.slots.length ≠ header.fragments.toNat ∧
      st' = ⟨st.lastDelivered, before ++ after⟩) ∨
    (e = .tooLarge ∧ dropped = 0 ∧ st' = st ∧ (∀ p ∈ st.pending, p.frame ≠ header.frame) ∧
      header.fragments.toNat * FRAGMENT_SIZE > MAX_FRAME + FRAGMENT_SIZE) := by
  unfold StreamState.locate at h
  simp only at h
  split at h
  · rename_i i hfind
    obtain ⟨hlt, hframe, -⟩ := List.findIdx?_eq_some_iff_getElem.mp hfind
    obtain ⟨before, after, hsplit, hi⟩ := split_of_getElem? (List.getElem?_eq_getElem hlt)
    split at h
    · rename_i hslots
      cases h
      rw [decide_eq_true_eq] at hframe
      rw [List.getElem?_eq_getElem hlt, Option.map_some, Ne, Option.some.injEq] at hslots
      refine .inl ⟨rfl, rfl, before, _, after, hsplit, hframe, hslots, ?_⟩
      have herase := eraseIdx_split before after st.pending[i]
      rw [← hsplit, hi] at herase
      rw [herase]
    · cases h
  · rename_i hfind
    split at h
    · rename_i hsize
      cases h
      exact .inr ⟨rfl, rfl, rfl, by simpa [List.findIdx?_eq_none_iff] using hfind, hsize⟩
    split at h
    · split at h <;> cases h
    · cases h

theorem update_self (self : Reassembler) (stream : UInt16) :
    self.update stream (self.streams stream) 0 0 = self := by
  rw [update, Function.update_eq_self, Nat.add_zero, Nat.add_zero]

/-- **What a push can do.** -/
theorem push_exit {self self' : Reassembler} {header : Header} {payload : List UInt8} {out : Pushed}
    (h : self.push header payload = some (out, self')) : Exit self header payload out self' := by
  unfold push at h
  split at h
  · rename_i hinspect
    cases h
    exact .ignored hinspect
  · rename_i e hinspect
    cases h
    exact .refused hinspect
  rename_i parsed hparsed
  simp only at h
  split at h
  · rename_i hlate
    cases h
    exact .late hlate
  rename_i hlate
  rw [Bool.not_eq_true] at hlate
  split at h
  · cases h
  · rename_i e st dropped hlocate
    cases h
    rcases locate_error hlocate with ⟨rfl, rfl, before, p, after, hsplit, hframe, hslots, rfl⟩ |
      ⟨rfl, rfl, rfl, hnone, hsize⟩
    · exact .disagreed hparsed hlate hsplit hframe hslots
    · rw [update_self]
      exact .tooMany hparsed hlate hnone hsize
  rename_i index st dropped hlocate
  obtain ⟨before, p, after, rfl, rfl, hloc⟩ := locate_ok hlocate
  simp only [List.getElem?_append_right (Nat.le_refl _), Nat.sub_self, List.getElem?_cons_zero] at h
  split at h
  · cases h
  · rename_i e hadd
    cases h
    rw [eraseIdx_split]
    exact .gaveUp hparsed hlate hloc hadd
  · rename_i hadd
    cases h
    exact .nothingNew hparsed hlate hloc hadd
  · rename_i p' recovered hadd
    split at h
    · rename_i hmissing
      cases h
      rw [set_split]
      exact .kept hparsed hlate hloc hadd hmissing
    · rename_i hcomplete
      cases h
      rw [eraseIdx_split]
      exact .delivered hparsed hlate hloc hadd hcomplete

end Reassembler

end WindowCast.Bud
