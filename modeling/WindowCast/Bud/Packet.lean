import WindowCast.Bud.Header
import WindowCast.Bud.Replay

/-!
# Sealing and opening datagrams

`bud/src/packet.rs`: each datagram is a clear header and a payload encrypted
with the packet number as the nonce and the header as associated data.  The
cipher itself is not part of the repository and is a parameter here.

## Main definitions

* `Aead` — the cipher; `Aead.Lawful`, `Link.Ideal` — what is assumed of it.
* `Sealer.seal`, `Opener.openDatagram` — the two halves.
* `Link` — a sealer, an opener, and the history of what they did; `Link.step`
  interleaves sealing with datagrams presented by the network.

## Main results

* `Link.Inv.send`, `Link.Inv.present`, `Link.inv_run` — what every interleaving
  preserves.
* `Link.run_correct` — **numbers are used once, datagrams open once and as they
  were sealed, and failures change nothing.**
-/

namespace WindowCast.Bud

/-- An AEAD cipher: both functions take the key, the nonce, the message and the
associated data. -/
structure Aead (Key : Type) where
  encrypt : Key → List UInt8 → List UInt8 → List UInt8 → Option (List UInt8)
  decrypt : Key → List UInt8 → List UInt8 → List UInt8 → Option (List UInt8)

/-- What was encrypted decrypts again, and is longer by the tag. -/
structure Aead.Lawful {Key : Type} (aead : Aead Key) : Prop where
  decrypt_encrypt : ∀ key nonce msg aad c, aead.encrypt key nonce msg aad = some c →
    aead.decrypt key nonce c aad = some msg
  length_encrypt : ∀ key nonce msg aad c, aead.encrypt key nonce msg aad = some c →
    c.length = msg.length + TAG_LEN

inductive SealError
  /-- A datagram carries at most `MAX_PAYLOAD` bytes. -/
  | tooLarge (len : ℕ)
  /-- The packet numbers of this key are used up. -/
  | exhausted
  deriving DecidableEq, Repr

inductive OpenError
  | header (e : HeaderError)
  /-- The datagram is too short to hold an authentication tag. -/
  | short
  /-- A packet with this number was already received, or is too old. -/
  | replay
  /-- The datagram did not authenticate. -/
  | authentication
  deriving DecidableEq, Repr

/-- Four zero bytes, then the number little-endian. -/
def nonce (packet : UInt64) : List UInt8 :=
  List.replicate 4 0 ++ (BigEndian.toBytes 8 packet.toNat).reverse

/-- The sending half: numbers and encrypts packets. -/
structure Sealer (Key : Type) where
  key : Key
  next : UInt64

/-- The receiving half: checks, decrypts and de-duplicates packets. -/
structure Opener (Key : Type) where
  key : Key
  replay : ReplayWindow

variable {Key : Type}

/-- Encrypts `payload` under `header`, whose `packet` is replaced with the next
number. -/
def Sealer.seal (aead : Aead Key) (self : Sealer Key) (header : Header) (payload : List UInt8) :
    Except SealError (List UInt8) × Sealer Key :=
  if payload.length > MAX_PAYLOAD then (.error (.tooLarge payload.length), self)
  -- `u64::MAX` is never used
  else if self.next = 0xffffffffffffffff then (.error .exhausted, self)
  else
    let header := { header with packet := self.next }
    let aad := header.encode
    match aead.encrypt self.key (nonce header.packet) payload aad with
    | none => (.error (.tooLarge payload.length), self)
    | some sealed => (.ok (aad ++ sealed), { self with next := self.next + 1 })

/-- Opens one datagram.  The replay window only moves for a datagram that
authenticated. -/
def Opener.openDatagram (aead : Aead Key) (self : Opener Key) (datagram : List UInt8) :
    Except OpenError (Header × List UInt8) × Opener Key :=
  match Header.decode datagram with
  | .error e => (.error (.header e), self)
  | .ok header =>
    if datagram.length < HEADER_LEN + TAG_LEN then (.error .short, self)
    else if self.replay.check header.packet = false then (.error .replay, self)
    else
      match aead.decrypt self.key (nonce header.packet) (datagram.drop HEADER_LEN)
          (datagram.take HEADER_LEN) with
      | none => (.error .authentication, self)
      | some plain => (.ok (header, plain), { self with replay := self.replay.accept header.packet })

/-! ### What one call does -/

/-- What a successful seal did. -/
theorem Sealer.seal_eq_ok {aead : Aead Key} {s s' : Sealer Key} {header : Header}
    {payload datagram : List UInt8} (h : s.seal aead header payload = (.ok datagram, s')) :
    s.next.toNat + 1 < 2 ^ 64 ∧ s' = { s with next := s.next + 1 } ∧
    ∃ c, aead.encrypt s.key (nonce s.next) payload { header with packet := s.next }.encode = some c ∧
      datagram = { header with packet := s.next }.encode ++ c := by
  unfold Sealer.seal at h
  split at h
  · cases h
  split at h
  · cases h
  rename_i hmax
  simp only at h
  split at h
  · cases h
  rename_i c hc
  obtain ⟨h1, h2⟩ := Prod.mk.inj h
  refine ⟨?_, h2.symm, c, hc, (Except.ok.inj h1).symm⟩
  have hlt := s.next.toNat_lt
  have hne : s.next.toNat ≠ 2 ^ 64 - 1 := fun e => hmax (UInt64.toNat_inj.mp e)
  omega

/-- A failed seal consumes no number. -/
theorem Sealer.seal_error {aead : Aead Key} {s : Sealer Key} {header : Header}
    {payload : List UInt8} {e : SealError} (h : (s.seal aead header payload).1 = .error e) :
    (s.seal aead header payload).2 = s := by
  unfold Sealer.seal at h ⊢
  split
  · rfl
  split
  · rfl
  · rename_i h1 h2
    rw [if_neg h1, if_neg h2] at h
    simp only at h ⊢
    split
    · rfl
    · rename_i c hc
      rw [hc] at h
      cases h

/-- What a successful open did. -/
theorem Opener.open_eq_ok {aead : Aead Key} {s s' : Opener Key} {datagram payload : List UInt8}
    {header : Header} (h : s.openDatagram aead datagram = (.ok (header, payload), s')) :
    Header.decode datagram = .ok header ∧ s.replay.check header.packet = true ∧
    aead.decrypt s.key (nonce header.packet) (datagram.drop HEADER_LEN)
      (datagram.take HEADER_LEN) = some payload ∧
    s' = { s with replay := s.replay.accept header.packet } := by
  unfold Opener.openDatagram at h
  split at h
  · cases h
  rename_i hd hdec
  split at h
  · cases h
  split at h
  · cases h
  rename_i hcheck
  split at h
  · cases h
  rename_i plain hplain
  obtain ⟨h1, h2⟩ := Prod.mk.inj h
  obtain ⟨rfl, rfl⟩ := Prod.mk.inj (Except.ok.inj h1)
  exact ⟨hdec, by simpa using hcheck, hplain, h2.symm⟩

/-- A failed open changes neither the window nor the counts. -/
theorem Opener.open_error {aead : Aead Key} {s : Opener Key} {datagram : List UInt8}
    {e : OpenError} (h : (s.openDatagram aead datagram).1 = .error e) :
    (s.openDatagram aead datagram).2 = s := by
  unfold Opener.openDatagram at h ⊢
  split
  · rfl
  rename_i hd hdec
  rw [hdec] at h
  simp only at h
  split
  · rfl
  rename_i h1
  rw [if_neg h1] at h
  split
  · rfl
  rename_i h2
  rw [if_neg h2] at h
  split
  · rfl
  · rename_i plain hplain
    rw [hplain] at h
    cases h

/-! ### A sealer and an opener over a network -/

/-- A datagram that was sealed or opened, with the header and payload it stands for. -/
structure Record where
  header : Header
  payload : List UInt8
  datagram : List UInt8
  deriving DecidableEq, Repr

/-- A sealer, an opener, and the history of what they did. -/
structure Link (Key : Type) where
  sealer : Sealer Key
  opener : Opener Key
  sealed : List Record
  opened : List Record

inductive LinkEvent
  /-- The sender seals a payload. -/
  | send (header : Header) (payload : List UInt8)
  /-- The network presents some bytes to the receiver. -/
  | present (datagram : List UInt8)

namespace Link

def new (key : Key) : Link Key := ⟨⟨key, 0⟩, ⟨key, ReplayWindow.new⟩, [], []⟩

def step (aead : Aead Key) (s : Link Key) : LinkEvent → Link Key
  | .send header payload =>
    match s.sealer.seal aead header payload with
    | (.ok datagram, sealer) =>
      let record := ⟨{ header with packet := s.sealer.next }, payload, datagram⟩
      { s with sealer := sealer, sealed := s.sealed ++ [record] }
    | (.error _, sealer) => { s with sealer := sealer }
  | .present datagram =>
    match s.opener.openDatagram aead datagram with
    | (.ok (header, payload), opener) =>
      { s with opener := opener, opened := s.opened ++ [⟨header, payload, datagram⟩] }
    | (.error _, opener) => { s with opener := opener }

def run (aead : Aead Key) (s : Link Key) (events : List LinkEvent) : Link Key :=
  events.foldl (step aead) s

/-- An ideal cipher, at one datagram: bytes open only under the nonce and the
associated data they were sealed with. -/
def Ideal (aead : Aead Key) (s : Link Key) (datagram : List UInt8) : Prop :=
  ∀ n, aead.decrypt s.opener.key n (datagram.drop HEADER_LEN) (datagram.take HEADER_LEN) ≠ none →
    ∃ r ∈ s.sealed, nonce r.header.packet = n ∧ r.datagram = datagram

/-- The cipher is ideal at every datagram presented in a run. -/
def IdealRun (aead : Aead Key) : Link Key → List LinkEvent → Prop
  | _, [] => True
  | s, .send header payload :: events => IdealRun aead (step aead s (.send header payload)) events
  | s, .present datagram :: events =>
    Ideal aead s datagram ∧ IdealRun aead (step aead s (.present datagram)) events

/-- The packet numbers opened so far. -/
def openedNumbers (s : Link Key) : Set ℕ := {n | ∃ o ∈ s.opened, o.header.packet.toNat = n}

/-- What every interleaving preserves. -/
structure Inv (aead : Aead Key) (key : Key) (s : Link Key) : Prop where
  sealer_key : s.sealer.key = key
  opener_key : s.opener.key = key
  /-- The numbers used are those below the next one, in order. -/
  numbers : s.sealed.map (fun r => r.header.packet.toNat) = List.range s.sealer.next.toNat
  /-- A sealed datagram is its header and the encryption of its payload. -/
  sealed_eq : ∀ r ∈ s.sealed, ∃ c,
    aead.encrypt key (nonce r.header.packet) r.payload r.header.encode = some c ∧
      r.datagram = r.header.encode ++ c
  opened_sealed : ∀ o ∈ s.opened, o ∈ s.sealed
  opened_once : (s.opened.map fun o => o.header.packet).Nodup
  tracks : s.opener.replay.Tracks s.openedNumbers

theorem inv_new (aead : Aead Key) (key : Key) : Inv aead key (new key) where
  sealer_key := rfl
  opener_key := rfl
  numbers := rfl
  sealed_eq := by simp [new]
  opened_sealed := by simp [new]
  opened_once := by simp [new]
  tracks := by
    have hnone : openedNumbers (new key) = ∅ := by ext n; simp [openedNumbers, new]
    rw [hnone]
    exact ReplayWindow.tracks_new

/-- The header of a sealed datagram is what `decode` reads, if it reads anything. -/
theorem Inv.decode_sealed {aead : Aead Key} {key : Key} {s : Link Key} (h : Inv aead key s)
    {r : Record} (hr : r ∈ s.sealed) :
    Header.decode r.datagram = if r.header.IsPosition then .ok r.header
      else .error (.fragment r.header.fragment r.header.fragments) := by
  obtain ⟨c, -, hd⟩ := h.sealed_eq r hr
  rw [hd, Header.decode_encode_append]

/-- A sealed datagram decrypts to its payload. -/
theorem Inv.decrypt_sealed {aead : Aead Key} (hlawful : aead.Lawful) {key : Key} {s : Link Key}
    (h : Inv aead key s) {r : Record} (hr : r ∈ s.sealed) :
    aead.decrypt s.opener.key (nonce r.header.packet) (r.datagram.drop HEADER_LEN)
      (r.datagram.take HEADER_LEN) = some r.payload := by
  obtain ⟨c, hc, hd⟩ := h.sealed_eq r hr
  rw [hd, List.drop_left' (Header.length_encode _), List.take_left' (Header.length_encode _),
    h.opener_key]
  exact hlawful.decrypt_encrypt _ _ _ _ _ hc

/-- The number of a sealed datagram is in its clear header. -/
theorem Inv.packet_sealed {aead : Aead Key} {key : Key} {s : Link Key} (h : Inv aead key s)
    {r : Record} (hr : r ∈ s.sealed) :
    r.header.packet = UInt64.ofNat (Header.field r.datagram 12 8) := by
  obtain ⟨c, -, hd⟩ := h.sealed_eq r hr
  rw [hd]
  exact (congrArg Header.packet (Header.fields_encode_append r.header c)).symm

theorem Inv.send {aead : Aead Key} {key : Key} {s : Link Key} (h : Inv aead key s)
    (header : Header) (payload : List UInt8) : Inv aead key (step aead s (.send header payload)) := by
  simp only [step]
  split
  rotate_left
  · -- a failed seal
    rename_i e sealer hseal
    have := Sealer.seal_error (by rw [hseal])
    rw [hseal] at this
    simp only at this
    subst this
    exact h
  rename_i datagram sealer hseal
  obtain ⟨hlt, rfl, c, hc, rfl⟩ := Sealer.seal_eq_ok hseal
  have hnext : (s.sealer.next + 1).toNat = s.sealer.next.toNat + 1 := by
    rw [UInt64.toNat_add, UInt64.toNat_one, Nat.mod_eq_of_lt hlt]
  refine ⟨h.sealer_key, h.opener_key, ?_, ?_, ?_, h.opened_once, h.tracks⟩
  · simp only [List.map_append, h.numbers, hnext, List.range_succ, List.map_cons, List.map_nil]
  · intro r hr
    rcases List.mem_append.mp hr with hr | hr
    · exact h.sealed_eq r hr
    · rw [List.mem_singleton.mp hr]
      exact ⟨c, by rw [← h.sealer_key]; exact hc, rfl⟩
  · exact fun o ho => List.mem_append_left _ (h.opened_sealed o ho)

theorem Inv.present {aead : Aead Key} (hlawful : aead.Lawful) {key : Key} {s : Link Key}
    (h : Inv aead key s) {datagram : List UInt8} (hideal : Ideal aead s datagram) :
    Inv aead key (step aead s (.present datagram)) := by
  simp only [step]
  split
  rotate_left
  · -- a failed open
    rename_i e opener hopen
    have := Opener.open_error (by rw [hopen])
    rw [hopen] at this
    simp only at this
    subst this
    exact h
  rename_i header payload opener hopen
  obtain ⟨hdec, hcheck, hplain, rfl⟩ := Opener.open_eq_ok hopen
  -- the ideal cipher opened a datagram that was sealed, and the header is its own
  obtain ⟨r, hr, hnonce, rfl⟩ := hideal _ (by rw [hplain]; exact Option.some_ne_none _)
  have hdec' := h.decode_sealed hr
  rw [hdec] at hdec'
  split at hdec'
  rotate_left
  · cases hdec'
  obtain rfl := Except.ok.inj hdec'
  obtain rfl : r.payload = payload := Option.some.inj ((Inv.decrypt_sealed hlawful h hr).symm.trans hplain)
  have hfresh := (h.tracks.check_iff _).mp hcheck
  have hnew : r.header.packet ∉ s.opened.map fun o => o.header.packet := by
    intro hmem
    obtain ⟨o, ho, heq⟩ := List.mem_map.mp hmem
    exact SlidingWindow.not_mem_of_fresh hfresh ⟨o, ho, by rw [heq]⟩
  refine ⟨h.sealer_key, h.opener_key, h.numbers, h.sealed_eq, ?_, ?_, ?_⟩
  · intro o ho
    rcases List.mem_append.mp ho with ho | ho
    · exact h.opened_sealed o ho
    · rw [List.mem_singleton.mp ho]
      exact hr
  · rw [List.map_append]
    refine List.Nodup.append h.opened_once (by simp) ?_
    intro p hp hp'
    rw [List.map_cons, List.map_nil, List.mem_singleton] at hp'
    exact hnew (hp' ▸ hp)
  · have hset : openedNumbers { s with
        opener := { s.opener with replay := s.opener.replay.accept r.header.packet }
        opened := s.opened ++ [⟨r.header, r.payload, r.datagram⟩] }
        = insert r.header.packet.toNat s.openedNumbers := by
      ext n
      simp only [openedNumbers, List.mem_append, List.mem_singleton, Set.mem_ofPred_eq,
        Set.mem_insert_iff, or_and_right, exists_or, exists_eq_left]
      rw [or_comm, eq_comm]
    rw [hset]
    exact h.tracks.accept _

/-- **Every interleaving keeps the invariant.** -/
theorem inv_run {aead : Aead Key} (hlawful : aead.Lawful) {key : Key} : ∀ (events : List LinkEvent) (s : Link Key),
    Inv aead key s → IdealRun aead s events → Inv aead key (run aead s events) := by
  intro events
  induction events with
  | nil => exact fun s h _ => h
  | cons e events ih =>
    intro s h hideal
    cases e with
    | send header payload => exact ih _ (h.send header payload) hideal
    | present datagram => exact ih _ (Inv.present hlawful h hideal.1) hideal.2

/-- A genuine datagram opens if its position is valid, it was not opened, and
its number is not a window behind one that was. -/
theorem Inv.open_genuine {aead : Aead Key} {key : Key} {s : Link Key} (h : Inv aead key s)
    (hlawful : aead.Lawful) {r : Record} (hr : r ∈ s.sealed) (hpos : r.header.IsPosition)
    (hnew : r ∉ s.opened)
    (hwin : ∀ o ∈ s.opened, o.header.packet.toNat < r.header.packet.toNat + WINDOW) :
    (s.opener.openDatagram aead r.datagram).1 = .ok (r.header, r.payload) := by
  obtain ⟨c, hc, hd⟩ := h.sealed_eq r hr
  have hlen := hlawful.length_encrypt _ _ _ _ _ hc
  have hdec := h.decode_sealed hr
  rw [if_pos hpos] at hdec
  -- two sealed records with one number are the same record
  have hinj : ∀ o ∈ s.sealed, o.header.packet.toNat = r.header.packet.toNat → o = r := by
    intro o ho heq
    have hnodup : (s.sealed.map fun r => r.header.packet.toNat).Nodup := by
      rw [h.numbers]
      exact List.nodup_range
    exact List.inj_on_of_nodup_map hnodup ho hr heq
  have hcheck : s.opener.replay.check r.header.packet = true := by
    rw [h.tracks.check_iff]
    by_cases hempty : s.openedNumbers = ∅
    · exact .inl hempty
    cases hhigh : s.opener.replay.highest with
    | none => exact absurd (h.tracks.highest_eq_none.mp hhigh) hempty
    | some g =>
      have hg := SlidingWindow.Represents.greatest h.tracks g.toNat (by rw [hhigh]; rfl)
      refine .inr ⟨g.toNat, hg, ?_⟩
      obtain ⟨o, ho, hog⟩ := hg.1
      have hlt := hwin o ho
      rw [hog] at hlt
      refine .inr ⟨by have : 0 < WINDOW := by decide
                      omega, ?_⟩
      rintro ⟨o', ho', heq⟩
      exact hnew (hinj o' (h.opened_sealed o' ho') heq ▸ ho')
  have hlong : ¬ r.datagram.length < HEADER_LEN + TAG_LEN := by
    rw [hd, List.length_append, Header.length_encode, hlen]
    omega
  simp only [Opener.openDatagram, hdec, hlong, hcheck, Inv.decrypt_sealed hlawful h hr, if_false,
    Bool.true_eq_false]

/-- **Sealing and opening over any network.**  For every interleaving, with an
ideal cipher: no packet number is used twice and a failed seal consumes none;
what opens was sealed, with that header and payload, and no datagram opens
twice; a failed open changes nothing; and every genuine datagram with a valid
position that was not opened and is within the window of every opened number
opens. -/
theorem run_correct (aead : Aead Key) (hlawful : aead.Lawful) (key : Key)
    (events : List LinkEvent) (hideal : IdealRun aead (new key) events) :
    let s := run aead (new key) events
    (s.sealed.map fun r => r.header.packet).Nodup ∧
    (∀ header payload e, (s.sealer.seal aead header payload).1 = .error e →
      (s.sealer.seal aead header payload).2 = s.sealer) ∧
    (∀ o ∈ s.opened, o ∈ s.sealed) ∧
    (s.opened.map fun o => o.datagram).Nodup ∧
    (∀ datagram e, (s.opener.openDatagram aead datagram).1 = .error e →
      (s.opener.openDatagram aead datagram).2 = s.opener) ∧
    (∀ r ∈ s.sealed, r.header.IsPosition → r ∉ s.opened →
      (∀ o ∈ s.opened, o.header.packet.toNat < r.header.packet.toNat + WINDOW) →
      (s.opener.openDatagram aead r.datagram).1 = .ok (r.header, r.payload)) := by
  intro s
  have h : Inv aead key s := inv_run hlawful events _ (inv_new aead key) hideal
  refine ⟨?_, fun _ _ _ => Sealer.seal_error, h.opened_sealed, ?_, fun _ _ => Opener.open_error,
    fun r hr hpos hnew hwin => Inv.open_genuine h hlawful hr hpos hnew hwin⟩
  · have hnodup : (s.sealed.map fun r => r.header.packet.toNat).Nodup := by
      rw [h.numbers]
      exact List.nodup_range
    rw [show (fun r : Record => r.header.packet.toNat) = UInt64.toNat ∘ fun r => r.header.packet
      from rfl, ← List.map_map] at hnodup
    exact hnodup.of_map _
  · have hpackets : s.opened.map (fun o => o.header.packet)
        = (s.opened.map fun o => o.datagram).map fun d => UInt64.ofNat (Header.field d 12 8) := by
      rw [List.map_map]
      exact List.map_congr_left fun o ho => h.packet_sealed (h.opened_sealed o ho)
    have honce := h.opened_once
    rw [hpackets] at honce
    exact honce.of_map _

/-- What opens or seals leaves the history of sealed datagrams to `send`. -/
@[simp] theorem step_present_sealed (aead : Aead Key) (s : Link Key) (datagram : List UInt8) :
    (step aead s (.present datagram)).sealed = s.sealed := by
  simp only [step]
  split <;> rfl

/-- A stand-in cipher without secrecy: the tag is the nonce and a checksum. -/
def checksumAead : Aead Unit where
  encrypt _ nonce msg aad :=
    if nonce.length = 12 then some (msg ++ tag nonce msg aad) else none
  decrypt _ nonce c aad :=
    let msg := c.take (c.length - TAG_LEN)
    if nonce.length = 12 ∧ c.drop (c.length - TAG_LEN) = tag nonce msg aad then some msg else none
where
  tag (nonce msg aad : List UInt8) : List UInt8 :=
    nonce ++ BigEndian.toBytes 4 ((msg ++ aad).map UInt8.toNat).sum

theorem length_tag {nonce msg aad : List UInt8} (h : nonce.length = 12) :
    (checksumAead.tag nonce msg aad).length = TAG_LEN := by
  rw [checksumAead.tag, List.length_append, BigEndian.length_toBytes, h]
  rfl

theorem checksumAead_lawful : checksumAead.Lawful := by
  constructor
  · intro key nonce msg aad c hc
    simp only [checksumAead] at hc ⊢
    split at hc
    · rename_i hn
      obtain rfl := Option.some.inj hc
      have hlen : (msg ++ checksumAead.tag nonce msg aad).length - TAG_LEN = msg.length := by
        rw [List.length_append, length_tag hn]
        omega
      rw [hlen, List.take_left, List.drop_left, if_pos ⟨hn, rfl⟩]
    · cases hc
  · intro key nonce msg aad c hc
    simp only [checksumAead] at hc
    split at hc
    · rename_i hn
      obtain rfl := Option.some.inj hc
      rw [List.length_append, length_tag hn]
    · cases hc

/-- The bytes say under which nonce they may open. -/
theorem decrypt_checksumAead {n c aad : List UInt8} (h : checksumAead.decrypt () n c aad ≠ none) :
    n = (c.drop (c.length - TAG_LEN)).take 12 ∧
    c.drop (c.length - TAG_LEN) = checksumAead.tag n (c.take (c.length - TAG_LEN)) aad := by
  simp only [checksumAead] at h
  split at h
  · rename_i hn
    refine ⟨?_, hn.2⟩
    rw [hn.2, checksumAead.tag, List.take_left' hn.1]
  · exact absurd rfl h

/-- The first packet of a key, sealed by the stand-in cipher. -/
def firstRecord : Record where
  header := ⟨0, 1, 0, 0, 1, 0, 500⟩
  payload := [7]
  datagram := Header.encode ⟨0, 1, 0, 0, 1, 0, 500⟩ ++ [7]
    ++ checksumAead.tag (nonce 0) [7] (Header.encode ⟨0, 1, 0, 0, 1, 0, 500⟩)

/-- A packet that is sealed, and arrives twice after a forgery. -/
def forgedThenTwice : List LinkEvent :=
  [.send firstRecord.header firstRecord.payload,
    .present (firstRecord.header.encode ++ List.replicate 17 0),
    .present firstRecord.datagram, .present firstRecord.datagram]

theorem ideal_forgedThenTwice : IdealRun checksumAead (new ()) forgedThenTwice := by
  have hsealed : (step checksumAead (new ())
      (.send firstRecord.header firstRecord.payload)).sealed = [firstRecord] := by decide
  have hgenuine : ∀ n, checksumAead.decrypt () n (firstRecord.datagram.drop HEADER_LEN)
      (firstRecord.datagram.take HEADER_LEN) ≠ none → nonce 0 = n := by
    intro n hn
    rw [(decrypt_checksumAead hn).1]
    decide
  refine ⟨?_, ?_, ?_, trivial⟩
  · intro n hn
    obtain ⟨rfl, htag⟩ := decrypt_checksumAead hn
    exact absurd htag (by decide)
  · intro n hn
    rw [step_present_sealed, hsealed]
    exact ⟨_, List.mem_singleton_self _, hgenuine n hn, rfl⟩
  · intro n hn
    rw [step_present_sealed, step_present_sealed, hsealed]
    exact ⟨_, List.mem_singleton_self _, hgenuine n hn, rfl⟩

/-- The forgery and the duplicate leave one opened packet, the sealed one. -/
theorem run_correct_forgedThenTwice :
    (run checksumAead (new ()) forgedThenTwice).opened.length = 1 ∧
    (∀ o ∈ (run checksumAead (new ()) forgedThenTwice).opened,
      o ∈ (run checksumAead (new ()) forgedThenTwice).sealed) ∧
    ((run checksumAead (new ()) forgedThenTwice).opened.map fun o => o.datagram).Nodup :=
  have h := run_correct checksumAead checksumAead_lawful () forgedThenTwice ideal_forgedThenTwice
  ⟨by decide +kernel, h.2.2.1, h.2.2.2.1⟩

/-- A header without fragments is sealed, but what is sealed never opens. -/
theorem not_all_genuine_open :
    ¬ ∀ events, IdealRun checksumAead (new ()) events →
      ∀ r ∈ (run checksumAead (new ()) events).sealed,
        r ∉ (run checksumAead (new ()) events).opened →
        (∀ o ∈ (run checksumAead (new ()) events).opened,
          o.header.packet.toNat < r.header.packet.toNat + WINDOW) →
        ((run checksumAead (new ()) events).opener.openDatagram checksumAead r.datagram).1
          = .ok (r.header, r.payload) := by
  intro h
  let header : Header := ⟨0, 1, 0, 0, 0, 0, 500⟩
  let datagram := header.encode ++ [7] ++ checksumAead.tag (nonce 0) [7] header.encode
  have hopen := h [.send header [7]] trivial ⟨header, [7], datagram⟩ (by decide) (by decide)
    (by decide)
  revert hopen
  decide

end Link

end WindowCast.Bud
