import WindowCast.Bud.Sent
import WindowCast.Lib.Run

/-!
# The memory of what was sent

The retransmitter of `bud/src/recovery.rs`: it keeps the data fragments of the last frames
within a bound on their bytes, and answers a NACK with those that are asked for and were not
sent again too often.  `none` is a count of bytes that would go below zero.

## Main definitions

* `Retransmitter`, `remember`, `respond` — the memory, and what is done with it.
* `History` — a memory, how many frames it has forgotten, and what it has answered.
* `History.given` — how often a frame that was stored answered with a fragment.

## Main results

* `evict_eq` — making room drops the oldest frames, and the count of bytes stays the sum.
* `foldl_answer` — what an answer is made of, and what is counted.
* `answers_bounded` — **over every run the bytes are counted and bounded, and every answer is what
  was asked for and no more often than allowed.**
-/

namespace WindowCast.Bud

/-- How many times a fragment is resent. -/
def MAX_RESENDS : ℕ := 2

/-- The most the retransmitter holds on to. -/
def MAX_STORED_BYTES : ℕ := 8 * 1024 * 1024

/-! ### The memory -/

structure Stored where
  stream : UInt16
  frame : UInt32
  parts : List Packet
  resends : List ℕ

def payloadBytes (parts : List Packet) : ℕ := (parts.map fun p => p.2.length).sum

/-- The sender's memory of recent frames, the oldest first. -/
structure Retransmitter where
  frames : List Stored
  bytes : ℕ

namespace Retransmitter

def new : Retransmitter := ⟨[], 0⟩

/-- The oldest frames go first when the memory is full. -/
def evict : List Stored → ℕ → Option Retransmitter
  | [], bytes => some ⟨[], bytes⟩
  | old :: frames, bytes =>
    if bytes > MAX_STORED_BYTES then
      if payloadBytes old.parts ≤ bytes then evict frames (bytes - payloadBytes old.parts) else none
    else some ⟨old :: frames, bytes⟩

/-- Remembers a frame's data fragments. -/
def remember (self : Retransmitter) (stream : UInt16) (frame : UInt32) (packets : List Packet) :
    Option Retransmitter :=
  let parts := packets.filter fun p => !p.1.isParity
  let size := payloadBytes parts
  if size > MAX_STORED_BYTES then some self
  else evict (self.frames ++ [⟨stream, frame, parts, List.replicate parts.length 0⟩]) (self.bytes + size)

/-- The frame that answers. -/
def find (self : Retransmitter) (stream : UInt16) (frame : UInt32) : Option ℕ :=
  self.frames.findIdx? fun s => s.stream = stream ∧ s.frame = frame

/-- One fragment that is asked for. -/
def answer (parts : List Packet) (s : List ℕ × List Packet) (index : UInt16) : List ℕ × List Packet :=
  match parts[index.toNat]?, s.1[index.toNat]? with
  | some part, some count =>
    if count < MAX_RESENDS then (s.1.set index.toNat (count + 1), s.2 ++ [part]) else s
  -- no such fragment
  | _, _ => s

/-- The fragments to send again for a NACK. -/
def respond (self : Retransmitter) (stream : UInt16) (frame : UInt32) (fragments : List UInt16) :
    Retransmitter × List Packet :=
  match self.find stream frame with
  | none => (self, [])
  | some j =>
    match self.frames[j]? with
    | none => (self, [])
    | some stored =>
      let (resends, out) := fragments.foldl (answer stored.parts) (stored.resends, [])
      ({ self with frames := self.frames.set j { stored with resends := resends } }, out)

/-! ### Its history -/

inductive Call where
  /-- A frame was sent. -/
  | remember (stream : UInt16) (frame sentUs : UInt32) (data : List UInt8) (policy : ParityPolicy) : Call
  /-- A NACK came. -/
  | respond (stream : UInt16) (frame : UInt32) (fragments : List UInt16) : Call

/-- A memory and its past.  The frames that were ever stored are numbered; `gone` of them are
forgotten, and the others are in the memory, in this order. -/
structure History where
  memory : Retransmitter
  gone : ℕ
  /-- Which frame answered, and with what. -/
  sent : List (ℕ × Packet)

namespace History

def new : History := ⟨Retransmitter.new, 0, []⟩

/-- How many frames a memory has lost, after one more was stored. -/
def lost (before after : Retransmitter) (packets : List Packet) : ℕ :=
  if payloadBytes (packets.filter fun p => !p.1.isParity) > MAX_STORED_BYTES then 0
  else before.frames.length + 1 - after.frames.length

def step (h : History) : Call → Option History
  | .remember stream frame sentUs data policy =>
    match fragmentWithParity stream frame sentUs data policy with
    | none => none
    | some (.error _) => some h
    | some (.ok packets) =>
      (h.memory.remember stream frame packets).map fun memory =>
        { h with memory := memory, gone := h.gone + lost h.memory memory packets }
  | .respond stream frame fragments =>
    let (memory, out) := h.memory.respond stream frame fragments
    match h.memory.find stream frame with
    | none => some { h with memory := memory }
    | some j => some { h with memory := memory, sent := h.sent ++ out.map (Prod.mk (h.gone + j)) }

/-- How often the frame of a number answered with fragment `i`. -/
def given (h : History) (number i : ℕ) : ℕ :=
  h.sent.countP fun x => x.1 = number ∧ x.2.1.fragment.toNat = i

end History

/-! ### Making room -/

/-- The bytes of the frames. -/
def total (frames : List Stored) : ℕ := (frames.map fun s => payloadBytes s.parts).sum

/-- **Making room drops the oldest frames**, and the count of bytes stays the sum. -/
theorem evict_eq (frames : List Stored) : ∃ n ≤ frames.length,
    evict frames (total frames) = some ⟨frames.drop n, total (frames.drop n)⟩ ∧
      total (frames.drop n) ≤ MAX_STORED_BYTES := by
  induction frames with
  | nil => exact ⟨0, Nat.le_refl 0, rfl, Nat.zero_le _⟩
  | cons old frames ih =>
    have htotal : total (old :: frames) = payloadBytes old.parts + total frames := by
      rw [total, List.map_cons, List.sum_cons, ← total]
    rw [evict]
    by_cases hfull : total (old :: frames) > MAX_STORED_BYTES
    · obtain ⟨n, hn, hevict, hroom⟩ := ih
      -- the oldest is part of the sum, so taking it off does not go below zero
      refine ⟨n + 1, Nat.succ_le_succ hn, ?_, hroom⟩
      rw [if_pos hfull, if_pos (by omega), htotal, Nat.add_sub_cancel_left]
      exact hevict
    · exact ⟨0, Nat.zero_le _, if_neg hfull, Nat.le_of_not_lt hfull⟩

/-- What is kept of the packets of a frame are its data packets. -/
theorem cut_of_sent {stream : UInt16} {frame sentUs : UInt32} {data : List UInt8} {policy : ParityPolicy}
    {packets : List Packet} (h : fragmentWithParity stream frame sentUs data policy = some (.ok packets)) :
    Cut stream frame sentUs data (packets.filter fun p => !p.1.isParity) := by
  obtain ⟨parts, hparts, hcut⟩ := fragment_eq stream frame sentUs (length_le_of_sent h)
  obtain ⟨rest, hrest⟩ := hcut.exists_head
  obtain ⟨parity, hparity, hmem⟩ := exists_encode policy _ rest
  rw [← hrest] at hparity hmem
  unfold fragmentWithParity at h
  rw [hparts] at h
  simp only [hparity] at h
  cases h
  have hdata : parts.filter (fun p => !p.1.isParity) = parts := by
    rw [List.filter_eq_self]
    intro p hp
    rw [hcut.parts_eq] at hp
    obtain ⟨i, -, rfl⟩ := List.mem_map.mp hp
    show (!decide ((0 : UInt8) &&& FLAG_PARITY ≠ 0)) = true
    decide
  have hnone : parity.filter (fun p => !p.1.isParity) = [] := by
    rw [List.filter_eq_nil_iff]
    intro p hp
    obtain ⟨block, index, hpacket⟩ := hmem p hp
    obtain ⟨fragment, hheader⟩ := hpacket.header
    rw [hheader]
    show ¬(!decide (FLAG_PARITY &&& FLAG_PARITY ≠ 0)) = true
    decide
  rw [List.filter_append, hdata, hnone, List.append_nil]
  exact hcut

theorem exists_sent (stream : UInt16) (frame sentUs : UInt32) (data : List UInt8) (policy : ParityPolicy) :
    ∃ sent, fragmentWithParity stream frame sentUs data policy = some sent := by
  by_cases hlength : data.length ≤ MAX_FRAME
  · obtain ⟨parts, out, -, hout, -⟩ := fragmentWithParity_spec stream frame sentUs policy hlength
    exact ⟨_, hout⟩
  · refine ⟨.error (.tooLarge data.length), ?_⟩
    unfold fragmentWithParity fragment
    rw [if_pos (Nat.lt_of_not_le hlength)]

/-! ### Answering -/

/-- How often fragment `i` is among the packets. -/
def count (i : ℕ) (packets : List Packet) : ℕ := packets.countP fun p => p.1.fragment.toNat = i

theorem count_cons (i : ℕ) (p : Packet) (packets : List Packet) :
    count i (p :: packets) = count i [p] + count i packets := by
  rw [count, count, count, List.countP_singleton, List.countP_cons, Nat.add_comm]

variable {parts : List Packet} {resends : List ℕ}

/-- The fragments of a frame are where their numbers say. -/
def Numbered (parts : List Packet) : Prop := ∀ (i : ℕ) (p : Packet), parts[i]? = some p → p.1.fragment.toNat = i

theorem numbered_of_cut {stream : UInt16} {frame sentUs : UInt32} {data : List UInt8}
    (h : Cut stream frame sentUs data parts) : Numbered parts := by
  intro i p hp
  have hi : i < fragmentCount data := by
    rw [← h.length_parts]
    exact (List.getElem?_eq_some_iff.mp hp).1
  rw [h.getElem?_parts hi] at hp
  cases hp
  exact Nat.mod_eq_of_lt (hi.trans h.count_lt)

/-- What an answer does to the counts: it gives fragments that are asked for, in this order, and
counts each where it is kept, none more often than allowed. -/
structure Answered (parts : List Packet) (resends resends' : List ℕ) (asked : List UInt16) (new : List Packet) :
    Prop where
  asked_sub : (new.map fun p => p.1.fragment).Sublist asked
  mem : ∀ p ∈ new, p ∈ parts
  length : resends'.length = parts.length
  counted : ∀ i < parts.length, resends'.getD i 0 = resends.getD i 0 + count i new
  bound : ∀ i, resends.getD i 0 ≤ MAX_RESENDS → resends'.getD i 0 ≤ MAX_RESENDS

section

variable {resends' : List ℕ} {asked : List UInt16} {new : List Packet} {index : UInt16} {part : Packet}
  {counted i : ℕ}

theorem answered_nil (hlength : resends.length = parts.length) : Answered parts resends resends [] [] where
  asked_sub := List.Sublist.slnil
  mem := fun p hp => absurd hp List.not_mem_nil
  length := hlength
  counted := fun _ _ => rfl
  bound := fun _ hi => hi

/-- A fragment that is not given leaves the counts as they were. -/
theorem Answered.pass (h : Answered parts resends resends' asked new) :
    Answered parts resends resends' (index :: asked) new :=
  { h with asked_sub := h.asked_sub.cons index }

theorem getD_set_self (hcounted : resends[index.toNat]? = some counted) :
    (resends.set index.toNat (counted + 1)).getD index.toNat 0 = counted + 1 := by
  have hplace : index.toNat < resends.length := (List.getElem?_eq_some_iff.mp hcounted).1
  rw [List.getD_eq_getElem?_getD, List.getElem?_set, if_pos rfl, if_pos hplace]
  rfl

theorem getD_set_ne (hi : index.toNat ≠ i) : (resends.set index.toNat (counted + 1)).getD i 0 = resends.getD i 0 := by
  rw [List.getD_eq_getElem?_getD, List.getElem?_set, if_neg hi, ← List.getD_eq_getElem?_getD]

/-- A fragment that is given is counted where it is kept. -/
theorem getD_set_count (hfragment : part.1.fragment.toNat = index.toNat)
    (hcounted : resends[index.toNat]? = some counted) :
    (resends.set index.toNat (counted + 1)).getD i 0 = resends.getD i 0 + count i [part] := by
  rw [count, List.countP_singleton, hfragment]
  by_cases hi : index.toNat = i
  · subst hi
    rw [getD_set_self hcounted, if_pos (by simp), List.getD_eq_getElem?_getD, hcounted]
    rfl
  · rw [getD_set_ne hi, if_neg (by simpa using hi), Nat.add_zero]

theorem Answered.give (hfragment : part.1.fragment = index) (hpart : part ∈ parts)
    (hcounted : resends[index.toNat]? = some counted) (hlt : counted < MAX_RESENDS)
    (h : Answered parts (resends.set index.toNat (counted + 1)) resends' asked new) :
    Answered parts resends resends' (index :: asked) (part :: new) where
  asked_sub := by
    rw [List.map_cons, hfragment]
    exact h.asked_sub.cons_cons index
  mem := List.forall_mem_cons.mpr ⟨hpart, h.mem⟩
  length := h.length
  counted := fun i hi => by
    rw [h.counted i hi, getD_set_count (congrArg UInt16.toNat hfragment) hcounted, Nat.add_assoc, ← count_cons]
  bound := fun i hi => by
    refine h.bound i ?_
    by_cases hi' : index.toNat = i
    · subst hi'
      rw [getD_set_self hcounted]
      exact hlt
    · rw [getD_set_ne hi']
      exact hi

end

/-- **What an answer is made of**: fragments that are asked for, in this order, each counted where
it is kept and none more often than allowed. -/
theorem foldl_answer (hnumbered : Numbered parts) (hlength : resends.length = parts.length)
    (fragments : List UInt16) (out : List Packet) :
    ∃ new resends', fragments.foldl (answer parts) (resends, out) = (resends', out ++ new) ∧
      Answered parts resends resends' fragments new := by
  induction fragments generalizing resends out with
  | nil =>
    refine ⟨[], resends, ?_, answered_nil hlength⟩
    rw [List.append_nil]
    rfl
  | cons index fragments ih =>
    by_cases hgiven : ∃ part counted, parts[index.toNat]? = some part ∧ resends[index.toNat]? = some counted ∧
        counted < MAX_RESENDS
    · obtain ⟨part, counted, hpart, hcounted, hlt⟩ := hgiven
      have hstep : answer parts (resends, out) index =
          (resends.set index.toNat (counted + 1), out ++ [part]) := by
        unfold answer
        rw [hpart, hcounted]
        exact if_pos hlt
      have hfragment := UInt16.toNat_inj.mp (hnumbered _ _ hpart)
      have hset_length : (resends.set index.toNat (counted + 1)).length = parts.length :=
        List.length_set.trans hlength
      obtain ⟨new, resends', hfold, hanswered⟩ := ih hset_length (out ++ [part])
      refine ⟨part :: new, resends', ?_, hanswered.give hfragment (List.mem_of_getElem? hpart) hcounted hlt⟩
      rw [List.foldl_cons, hstep, hfold, List.append_assoc]
      rfl
    -- no such fragment, or given often enough
    · have hstep : answer parts (resends, out) index = (resends, out) := by
        unfold answer
        split
        · rename_i part counted hpart hcounted
          exact if_neg fun hlt => hgiven ⟨part, counted, hpart, hcounted, hlt⟩
        · rfl
      obtain ⟨new, resends', hfold, hanswered⟩ := ih hlength out
      refine ⟨new, resends', ?_, hanswered.pass⟩
      rw [List.foldl_cons, hstep, hfold]

/-! ### Its invariant -/

/-- What is kept of a frame, with how often each of its fragments was given. -/
structure Kept (calls : List Call) (s : Stored) (given : ℕ → ℕ) : Prop where
  cut : ∃ sentUs data policy, Call.remember s.stream s.frame sentUs data policy ∈ calls ∧
    Cut s.stream s.frame sentUs data s.parts
  length : s.resends.length = s.parts.length
  counted : ∀ i < s.parts.length, s.resends.getD i 0 = given i
  others : ∀ i, s.parts.length ≤ i → given i = 0

/-- The bytes are counted, and so is what every frame ever stored has given. -/
structure Sound (calls : List Call) (h : History) : Prop where
  bytes_eq : h.memory.bytes = total h.memory.frames
  bytes_le : h.memory.bytes ≤ MAX_STORED_BYTES
  kept : ∀ (j : ℕ) (s : Stored), h.memory.frames[j]? = some s → Kept calls s (h.given (h.gone + j))
  given_le : ∀ number i, h.given number i ≤ MAX_RESENDS
  later : ∀ number, h.gone + h.memory.frames.length ≤ number → ∀ i, h.given number i = 0

variable {calls : List Call} {h h' : History} {stream : UInt16} {frame sentUs : UInt32}

theorem sound_new (calls : List Call) : Sound calls History.new where
  bytes_eq := rfl
  bytes_le := Nat.zero_le _
  kept := fun j s hs => by cases hs
  given_le := fun _ _ => Nat.zero_le _
  later := fun _ _ _ => rfl

/-- A frame that is stored has given nothing yet; those before it keep their numbers. -/
theorem kept_push {data : List UInt8} {policy : ParityPolicy} {parts : List Packet} (hsound : Sound calls h)
    (hcall : Call.remember stream frame sentUs data policy ∈ calls) (hcut : Cut stream frame sentUs data parts)
    {n j : ℕ} {s : Stored}
    (hs : ((h.memory.frames ++ [(⟨stream, frame, parts, List.replicate parts.length 0⟩ : Stored)]).drop n)[j]? = some s) :
    Kept calls s (h.given (h.gone + n + j)) := by
  rw [List.getElem?_drop, List.getElem?_append] at hs
  rw [Nat.add_assoc]
  split at hs
  · exact hsound.kept (n + j) s hs
  · rename_i hge
    rw [List.getElem?_singleton] at hs
    split at hs
    · cases hs
      have hzero := hsound.later (h.gone + (n + j)) (by omega)
      refine ⟨⟨sentUs, data, policy, hcall, hcut⟩, List.length_replicate, fun i hi => ?_, fun i _ => hzero i⟩
      rw [List.getD_replicate _ hi, hzero i]
    · cases hs

/-- Storing a frame, whether it fits or not. -/
theorem sound_remember {data : List UInt8} {policy : ParityPolicy} (hsound : Sound calls h)
    (hcall : Call.remember stream frame sentUs data policy ∈ calls) :
    ∃ h', h.step (.remember stream frame sentUs data policy) = some h' ∧ Sound calls h' := by
  obtain ⟨sent, hsent⟩ := exists_sent stream frame sentUs data policy
  rw [History.step, hsent]
  cases sent with
  | error e => exact ⟨h, rfl, hsound⟩
  | ok packets =>
    have hcut := cut_of_sent hsent
    dsimp only
    rw [remember]
    by_cases hlarge : payloadBytes (packets.filter fun p => !p.1.isParity) > MAX_STORED_BYTES
    · simp only [if_pos hlarge]
      refine ⟨_, rfl, ?_⟩
      -- a frame that does not fit is not stored, and has no number
      have hlost : History.lost h.memory h.memory packets = 0 := if_pos hlarge
      show Sound calls ⟨h.memory, h.gone + History.lost h.memory h.memory packets, h.sent⟩
      rw [hlost]
      exact hsound
    · simp only [if_neg hlarge]
      generalize hparts : packets.filter (fun p => !p.1.isParity) = parts at hcut hlarge
      have htotal : h.memory.bytes + payloadBytes parts =
          total (h.memory.frames ++ [⟨stream, frame, parts, List.replicate parts.length 0⟩]) := by
        rw [total, List.map_append, List.sum_append, ← total, hsound.bytes_eq, List.map_singleton, List.sum_singleton]
      obtain ⟨n, hn, hevict, hroom⟩ :=
        evict_eq (h.memory.frames ++ [⟨stream, frame, parts, List.replicate parts.length 0⟩])
      rw [List.length_append, List.length_singleton] at hn
      rw [htotal, hevict]
      refine ⟨_, rfl, ?_⟩
      dsimp only
      -- those dropped are gone, so the others keep their numbers
      have hlost : h.memory.frames.length + 1 - (h.memory.frames.length + 1 - n) = n := by omega
      rw [History.lost, hparts, if_neg hlarge, List.length_drop, List.length_append, List.length_singleton, hlost]
      refine ⟨rfl, hroom, fun j s hs => ?_, hsound.given_le, fun number hnumber i => hsound.later number ?_ i⟩
      · exact kept_push hsound hcall hcut hs
      · change h.gone + n + (List.drop n _).length ≤ number at hnumber
        rw [List.length_drop, List.length_append, List.length_singleton] at hnumber
        omega

/-- What the answers of one frame add to what was given. -/
theorem given_append (h : History) (memory : Retransmitter) (gone k : ℕ) (new : List Packet) (number i : ℕ) :
    (⟨memory, gone, h.sent ++ new.map (Prod.mk k)⟩ : History).given number i =
      h.given number i + if number = k then count i new else 0 := by
  rw [History.given, List.countP_append, List.countP_map, ← History.given]
  congr 1
  by_cases hk : number = k
  · subst hk
    rw [if_pos rfl, count]
    refine List.countP_congr fun p _ => ?_
    simp
  · rw [if_neg hk, List.countP_eq_zero]
    intro p _
    simp only [Function.comp_apply, decide_eq_true_eq, not_and]
    exact fun heq => absurd heq.symm hk

theorem find_eq_some {j : ℕ} {self : Retransmitter} (hfind : self.find stream frame = some j) :
    ∃ s, self.frames[j]? = some s ∧ s.stream = stream ∧ s.frame = frame := by
  obtain ⟨hlt, hkey, -⟩ := List.findIdx?_eq_some_iff_getElem.mp hfind
  rw [decide_eq_true_eq] at hkey
  exact ⟨self.frames[j], List.getElem?_eq_getElem hlt, hkey⟩

/-- The frame that answers, and what it answers with. -/
theorem respond_eq {self : Retransmitter} {j : ℕ} {s : Stored} {given : ℕ → ℕ} (hfind : self.find stream frame = some j)
    (hs : self.frames[j]? = some s) (hkept : Kept calls s given) (fragments : List UInt16) :
    ∃ new resends, self.respond stream frame fragments =
        ({ self with frames := self.frames.set j { s with resends := resends } }, new) ∧
      Answered s.parts s.resends resends fragments new := by
  obtain ⟨sentUs, data, policy, -, hcut⟩ := hkept.cut
  obtain ⟨new, resends, hfold, hanswered⟩ := foldl_answer (numbered_of_cut hcut) hkept.length fragments []
  refine ⟨new, resends, ?_, hanswered⟩
  rw [respond, hfind]
  simp only [hs, hfold]
  rfl

/-- Counting resends leaves the bytes as they were. -/
theorem total_set {frames : List Stored} {j : ℕ} {s : Stored} (hs : frames[j]? = some s) (resends : List ℕ) :
    total (frames.set j { s with resends := resends }) = total frames := by
  obtain ⟨hlt, hget⟩ := List.getElem?_eq_some_iff.mp hs
  have hlt' : j < (frames.map fun s => payloadBytes s.parts).length := by rwa [List.length_map]
  have hmap : (frames.map fun s => payloadBytes s.parts)[j] = payloadBytes s.parts := by
    rw [List.getElem_map, hget]
  rw [total, total, List.map_set]
  refine congrArg List.sum ?_
  rw [← hmap]
  exact List.set_getElem_self hlt'

section

variable {j : ℕ} {s : Stored} {given : ℕ → ℕ} {resends : List ℕ} {fragments : List UInt16} {new : List Packet}

/-- No fragment is given but those the frame has. -/
theorem Answered.count_eq_zero (h : Answered s.parts s.resends resends fragments new) (hkept : Kept calls s given)
    {i : ℕ} (hi : s.parts.length ≤ i) : count i new = 0 := by
  obtain ⟨sentUs, data, policy, -, hcut⟩ := hkept.cut
  rw [count, List.countP_eq_zero]
  intro p hp hi'
  obtain ⟨k, hk⟩ := List.getElem?_of_mem (h.mem p hp)
  have hnumber := numbered_of_cut hcut k p hk
  have hk' := (List.getElem?_eq_some_iff.mp hk).1
  rw [decide_eq_true_eq] at hi'
  omega

/-- What was given, and what is given now, is what the frame counts. -/
theorem Answered.kept (h : Answered s.parts s.resends resends fragments new) (hkept : Kept calls s given) :
    Kept calls { s with resends := resends } fun i => given i + count i new where
  cut := hkept.cut
  length := h.length
  counted := fun i hi => by
    rw [← hkept.counted i hi]
    exact h.counted i hi
  others := fun i hi => by rw [hkept.others i hi, h.count_eq_zero hkept hi]

theorem Answered.given_le (h : Answered s.parts s.resends resends fragments new) (hkept : Kept calls s given)
    {i : ℕ} (hle : given i ≤ MAX_RESENDS) : given i + count i new ≤ MAX_RESENDS := by
  rcases Nat.lt_or_ge i s.parts.length with hi | hi
  · rw [← hkept.counted i hi] at hle ⊢
    rw [← h.counted i hi]
    exact h.bound i hle
  · rw [h.count_eq_zero hkept hi, Nat.add_zero]
    exact hle

end

/-- A NACK is answered by one frame, and what it gives is counted for it. -/
theorem sound_respond (hsound : Sound calls h) (fragments : List UInt16) :
    ∃ h', h.step (.respond stream frame fragments) = some h' ∧ Sound calls h' := by
  cases hfind : h.memory.find stream frame with
  | none =>
    refine ⟨h, ?_, hsound⟩
    rw [History.step, respond, hfind]
  | some j =>
    obtain ⟨s, hs, -, -⟩ := find_eq_some hfind
    have hkept := hsound.kept j s hs
    obtain ⟨new, resends, hrespond, hanswered⟩ := respond_eq hfind hs hkept fragments
    refine ⟨_, by rw [History.step, hrespond, hfind], ?_⟩
    have hlt := (List.getElem?_eq_some_iff.mp hs).1
    constructor
    · show h.memory.bytes = total (h.memory.frames.set j { s with resends := resends })
      rw [total_set hs, hsound.bytes_eq]
    · exact hsound.bytes_le
    · intro k t ht
      change (h.memory.frames.set j _)[k]? = some t at ht
      show Kept calls t fun i => (⟨_, _, h.sent ++ new.map (Prod.mk (h.gone + j))⟩ : History).given (h.gone + k) i
      simp only [given_append]
      rw [List.getElem?_set] at ht
      split at ht
      · rename_i hk
        subst hk
        cases ht
        simp only [if_true]
        exact hanswered.kept hkept
      · rename_i hk
        have hother : h.gone + k ≠ h.gone + j := by omega
        simp only [if_neg hother, Nat.add_zero]
        exact hsound.kept k t ht
    · intro number i
      rw [given_append]
      split
      · rename_i hnumber
        subst hnumber
        exact hanswered.given_le hkept (hsound.given_le _ i)
      · exact hsound.given_le number i
    · intro number hnumber i
      change h.gone + (h.memory.frames.set j _).length ≤ number at hnumber
      rw [List.length_set] at hnumber
      rw [given_append, if_neg (by omega), Nat.add_zero]
      exact hsound.later number hnumber i

/-- What is asked for, and no more: the packets of an answer are data packets of a frame that was sent
under the numbers that are asked for, and each of them answers one of the fragments asked for. -/
structure Asked (calls : List Call) (stream : UInt16) (frame : UInt32) (fragments : List UInt16)
    (out : List Packet) : Prop where
  fragments_sub : (out.map fun p => p.1.fragment).Sublist fragments
  sent : ∀ p ∈ out, ∃ sentUs data policy i, Call.remember stream frame sentUs data policy ∈ calls ∧
    IsDataPacket stream frame sentUs data i p

theorem asked_of_sound (hsound : Sound calls h) (stream : UInt16) (frame : UInt32) (fragments : List UInt16) :
    Asked calls stream frame fragments (h.memory.respond stream frame fragments).2 := by
  cases hfind : h.memory.find stream frame with
  | none =>
    rw [respond, hfind]
    exact ⟨List.nil_sublist _, fun p hp => absurd hp List.not_mem_nil⟩
  | some j =>
    obtain ⟨s, hs, rfl, rfl⟩ := find_eq_some hfind
    have hkept := hsound.kept j s hs
    obtain ⟨new, resends, hrespond, hanswered⟩ := respond_eq hfind hs hkept fragments
    rw [hrespond]
    refine ⟨hanswered.asked_sub, fun p hp => ?_⟩
    obtain ⟨sentUs, data, policy, hcall, hcut⟩ := hkept.cut
    have hpart := hanswered.mem p hp
    rw [hcut.parts_eq] at hpart
    obtain ⟨i, hi, rfl⟩ := List.mem_map.mp hpart
    exact ⟨sentUs, data, policy, i, hcall, List.mem_range.mp hi, rfl⟩

/-- **Over every run the bytes are counted and bounded, and every answer is what was asked for and no
more often than allowed**: no count goes below zero, whatever is remembered and asked for, and
no frame that is stored gives a fragment more than `MAX_RESENDS` times. -/
theorem answers_bounded (calls : List Call) : ∃ h, calls.foldlM History.step History.new = some h ∧
    h.memory.bytes = total h.memory.frames ∧ h.memory.bytes ≤ MAX_STORED_BYTES ∧
    (∀ stream frame fragments,
      Asked calls stream frame fragments (h.memory.respond stream frame fragments).2) ∧
    ∀ number i, h.given number i ≤ MAX_RESENDS := by
  have hstep : ∀ h call, Sound calls h → call ∈ calls → ∃ h', History.step h call = some h' ∧ Sound calls h' :=
    fun h call hsound hcall => by
      cases call with
      | remember stream frame sentUs data policy => exact sound_remember hsound hcall
      | respond stream frame fragments => exact sound_respond hsound fragments
  obtain ⟨h, hrun, hsound⟩ := Run.total hstep calls History.new (sound_new calls) fun call hcall => hcall
  exact ⟨h, hrun, hsound.bytes_eq, hsound.bytes_le, asked_of_sound hsound, hsound.given_le⟩

end Retransmitter

end WindowCast.Bud
