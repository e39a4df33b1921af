import WindowCast.Accounts.Local
import WindowCast.Lib.Framing

/-!
# The pairing transcript

`pairing/src/exchange.rs`: what the two sides of a pairing sign and tag, and how the
proof over it is checked; and from `transport/src/signaling.rs` the transcripts of
windowcast's own exchange.  Every field has a fixed width but the label in front and
the description at the end, and what keeps labels apart is left to the callers.

## Main definitions

* `transcript`, `prove`, `check` — the exchange.
* `Signatures`, `Signatures.Sound` — what signs, and what is assumed of it.
* `Covered` — what a transcript says.
* `Signaling.transcript` — the caller in this repository.

## Main results

* `transcript_inj` — with labels that are apart, a transcript says what it covers.
* `exists_transcript` — everything long enough after the label is a transcript.
* `proofs_bound` — **transcripts and proofs of labels that are apart are not mixed up.**
-/

namespace WindowCast.Pairing

open WindowCast.Accounts (PeerId)
open Framing

/-- One side's hello. -/
structure Hello where
  peer : PeerId
  nonce : Vector UInt8 32
  /-- What the client asks for; the host echoes it. -/
  mode : UInt8
  deriving DecidableEq

/-- What a description's proof covers.  Of the host's hello, the mode is not part of it. -/
def transcript (label : List UInt8) (kind : UInt8) (client host : Hello) (binding : Vector UInt8 32)
    (description : List UInt8) : List UInt8 :=
  label ++ [kind] ++ [client.mode] ++ client.nonce.toList ++ host.nonce.toList
    ++ client.peer.bytes.toList ++ host.peer.bytes.toList ++ binding.toList ++ description

/-- The code outside the repository that signs, verifies and tags. -/
structure Signatures (Identity SessionKey : Type) where
  peerId : Identity → PeerId
  sign : Identity → List UInt8 → List UInt8
  verifyBytes : PeerId → List UInt8 → List UInt8 → Bool
  authenticateFingerprint : SessionKey → List UInt8 → Vector UInt8 32

variable {Identity SessionKey : Type}

/-- A signature verifies under the key and for the message it was made with, and
under and for no other. -/
structure Signatures.Sound (signatures : Signatures Identity SessionKey) : Prop where
  verify_sign : ∀ identity message,
    signatures.verifyBytes (signatures.peerId identity) message (signatures.sign identity message) = true
  bound : ∀ identity peer message message',
    signatures.verifyBytes peer message' (signatures.sign identity message) = true →
      peer = signatures.peerId identity ∧ message' = message

/-- The sender's proof over a transcript. -/
structure Proof where
  signature : List UInt8
  /-- While pairing: the tag of the key that the PIN gave. -/
  pinTag : Option (Vector UInt8 32)
  deriving DecidableEq

inductive PairingError
  | fingerprintAuthFailed
  | signatureFailed
  deriving DecidableEq, Repr

/-- Signs the transcript and, while pairing, tags it. -/
def prove (signatures : Signatures Identity SessionKey) (identity : Identity) (key : Option SessionKey)
    (transcript : List UInt8) : Proof where
  signature := signatures.sign identity transcript
  pinTag := key.map fun key => signatures.authenticateFingerprint key transcript

def verifyFingerprint (signatures : Signatures Identity SessionKey) (key : SessionKey)
    (fingerprint : List UInt8) (tag : Vector UInt8 32) : Except PairingError Unit :=
  if signatures.authenticateFingerprint key fingerprint = tag then .ok () else .error .fingerprintAuthFailed

/-- Checks a proof from `signer`: its signature always, and while pairing its tag. -/
def check (signatures : Signatures Identity SessionKey) (signer : PeerId) (key : Option SessionKey)
    (transcript : List UInt8) (proof : Proof) : Except PairingError Unit := do
  if let some key := key then
    match proof.pinTag with
    | none => .error .fingerprintAuthFailed
    | some tag => verifyFingerprint signatures key transcript tag
  if signatures.verifyBytes signer transcript proof.signature then .ok ()
  else .error .signatureFailed

/-- What a transcript covers. -/
structure Covered where
  label : List UInt8
  kind : UInt8
  mode : UInt8
  clientNonce : Vector UInt8 32
  hostNonce : Vector UInt8 32
  clientPeer : PeerId
  hostPeer : PeerId
  binding : Vector UInt8 32
  description : List UInt8
  deriving DecidableEq

/-- What the transcript of these inputs covers. -/
def covered (label : List UInt8) (kind : UInt8) (client host : Hello) (binding : Vector UInt8 32)
    (description : List UInt8) : Covered :=
  ⟨label, kind, client.mode, client.nonce, host.nonce, client.peer, host.peer, binding, description⟩

/-! ### Reading a transcript back -/

section

variable {label label' description description' : List UInt8} {kind kind' : UInt8}
  {client client' host host' : Hello} {binding binding' : Vector UInt8 32}

/-- A field of fixed width in front is read back. -/
theorem bytes_inj {n : ℕ} {v v' : Vector UInt8 n} {rest rest' : List UInt8}
    (h : v.toList ++ rest = v'.toList ++ rest') : v = v' ∧ rest = rest' := by
  obtain ⟨hv, hrest⟩ := List.append_inj h (by rw [Vector.length_toList, Vector.length_toList])
  exact ⟨Vector.toList_inj.mp hv, hrest⟩

/-- **With labels that are apart, a transcript says what it covers.** -/
theorem transcript_inj (hlabel : Apart label label')
    (h : transcript label kind client host binding description
      = transcript label' kind' client' host' binding' description') :
    covered label kind client host binding description
      = covered label' kind' client' host' binding' description' := by
  simp only [transcript, List.append_assoc, List.cons_append, List.nil_append] at h
  obtain ⟨heq, hfields⟩ := hlabel.append_inj h
  obtain ⟨hkind, hfields⟩ := List.cons.inj hfields
  obtain ⟨hmode, hfields⟩ := List.cons.inj hfields
  obtain ⟨hclientNonce, hfields⟩ := bytes_inj hfields
  obtain ⟨hhostNonce, hfields⟩ := bytes_inj hfields
  obtain ⟨hclientPeer, hfields⟩ := bytes_inj hfields
  obtain ⟨hhostPeer, hfields⟩ := bytes_inj hfields
  obtain ⟨hbinding, hdescription⟩ := bytes_inj hfields
  have hpeer : client.peer = client'.peer := by
    cases hc : client.peer
    cases hc' : client'.peer
    rw [hc, hc'] at hclientPeer
    exact congrArg PeerId.mk hclientPeer
  have hpeer' : host.peer = host'.peer := by
    cases hc : host.peer
    cases hc' : host'.peer
    rw [hc, hc'] at hhostPeer
    exact congrArg PeerId.mk hhostPeer
  simp only [covered, heq, hkind, hmode, hclientNonce, hhostNonce, hpeer, hpeer', hbinding, hdescription]

/-- The first bytes of a word that is long enough, as a field. -/
theorem exists_bytes (n : ℕ) (rest : List UInt8) (h : n ≤ rest.length) :
    ∃ v : Vector UInt8 n, rest = v.toList ++ rest.drop n := by
  refine ⟨⟨(rest.take n).toArray, by simp [h]⟩, ?_⟩
  simp

/-- Everything long enough after the label is a transcript. -/
theorem exists_transcript (label rest : List UInt8) (h : 162 ≤ rest.length) :
    ∃ kind client host binding description,
      transcript label kind client host binding description = label ++ rest := by
  obtain ⟨kind, rest, rfl⟩ := List.exists_cons_of_length_pos (by omega : 0 < rest.length)
  obtain ⟨mode, rest, rfl⟩ := List.exists_cons_of_length_pos (by simp at h; omega : 0 < rest.length)
  simp only [List.length_cons] at h
  obtain ⟨clientNonce, h1⟩ := exists_bytes 32 rest (by omega)
  obtain ⟨hostNonce, h2⟩ := exists_bytes 32 (rest.drop 32) (by rw [List.length_drop]; omega)
  obtain ⟨clientPeer, h3⟩ := exists_bytes 32 ((rest.drop 32).drop 32)
    (by simp only [List.length_drop]; omega)
  obtain ⟨hostPeer, h4⟩ := exists_bytes 32 (((rest.drop 32).drop 32).drop 32)
    (by simp only [List.length_drop]; omega)
  obtain ⟨binding, h5⟩ := exists_bytes 32 ((((rest.drop 32).drop 32).drop 32).drop 32)
    (by simp only [List.length_drop]; omega)
  refine ⟨kind, ⟨⟨clientPeer⟩, clientNonce, mode⟩, ⟨⟨hostPeer⟩, hostNonce, mode⟩, binding,
    ((((rest.drop 32).drop 32).drop 32).drop 32).drop 32, ?_⟩
  simp only [transcript, List.append_assoc, List.cons_append, List.nil_append]
  rw [← h5, ← h4, ← h3, ← h2, ← h1]

/-- A label that is a proper beginning of another lets two transcripts be mixed up. -/
theorem exists_mixed_up (hbegins : label <+: label') (hne : label ≠ label') :
    ∃ kind client host binding description kind' client' host' binding' description',
      transcript label kind client host binding description
        = transcript label' kind' client' host' binding' description' := by
  obtain ⟨extra, rfl⟩ := hbegins
  obtain ⟨kind', client', host', binding', description', h'⟩ :=
    exists_transcript (label ++ extra) (List.replicate 162 0) (by rw [List.length_replicate])
  obtain ⟨kind, client, host, binding, description, h⟩ :=
    exists_transcript label (extra ++ List.replicate 162 0)
      (by rw [List.length_append, List.length_replicate]; omega)
  refine ⟨kind, client, host, binding, description, kind', client', host', binding', description', ?_⟩
  rw [h, h', List.append_assoc]

end

/-! ### Checking a proof -/

/-- A proof that checks has a signature that verifies. -/
theorem verified_of_check {signatures : Signatures Identity SessionKey} {signer : PeerId}
    {key : Option SessionKey} {presented : List UInt8} {proof : Proof}
    (h : check signatures signer key presented proof = .ok ()) :
    signatures.verifyBytes signer presented proof.signature = true := by
  unfold check at h
  cases key with
  | none =>
    simp only at h
    split at h
    · assumption
    · cases h
  | some key =>
    -- the tag is checked first
    simp only at h
    cases htag : proof.pinTag with
    | none =>
      rw [htag] at h
      cases h
    | some tag =>
      rw [htag] at h
      simp only [verifyFingerprint] at h
      split at h
      · simp only [bind, Except.bind] at h
        split at h
        · assumption
        · cases h
      · cases h

/-- A signature checks only for the one who made it, over the transcript it was made for. -/
theorem signed_of_check {signatures : Signatures Identity SessionKey} (hsound : signatures.Sound)
    {identity : Identity} {signer : PeerId} {key : Option SessionKey} {signed presented : List UInt8}
    {proof : Proof} (hsignature : proof.signature = signatures.sign identity signed)
    (h : check signatures signer key presented proof = .ok ()) :
    signer = signatures.peerId identity ∧ presented = signed := by
  have hverified := verified_of_check h
  rw [hsignature] at hverified
  exact hsound.bound identity signer signed presented hverified

/-! ### windowcast's own exchange -/

namespace Signaling

/-- The bytes of an ASCII text. -/
def bytes (text : String) : List UInt8 := text.toList.map fun c => UInt8.ofNat c.toNat

def TRANSCRIPT_LABEL : List UInt8 := bytes "windowcast-signaling-v2" ++ [0]

/-- What the host's account offer is signed with in front. -/
def ACCOUNT_LABEL : List UInt8 := bytes "windowcast-account-v1" ++ [0]

inductive SdpKind
  | offer
  | answer
  deriving DecidableEq, Repr

inductive ConnectMode
  | pair
  | resume
  | account
  deriving DecidableEq, Repr

structure Hello where
  peer : PeerId
  nonce : Vector UInt8 32
  mode : ConnectMode
  deriving DecidableEq

/-- The hello as the exchange signs it. -/
def Hello.shared (self : Hello) : Pairing.Hello where
  peer := self.peer
  nonce := self.nonce
  mode := match self.mode with
    | .pair => 0
    | .resume => 1
    | .account => 2

/-- The transcript of a description, whose text is given by its bytes. -/
def transcript (kind : SdpKind) (client host : Hello) (binding : Vector UInt8 32) (sdp : List UInt8) :
    List UInt8 :=
  let kind := match kind with
    | .offer => 0
    | .answer => 1
  Pairing.transcript TRANSCRIPT_LABEL kind client.shared host.shared binding sdp

/-- What the host's account offer is signed over; the offer is given by its bytes. -/
def accountContext (client host : Hello) (offer : List UInt8) : List UInt8 :=
  ACCOUNT_LABEL ++ client.nonce.toList ++ host.nonce.toList ++ client.peer.bytes.toList
    ++ host.peer.bytes.toList ++ offer

/-- A description as it is sent. -/
structure Description where
  kind : SdpKind
  sdp : List UInt8
  signature : List UInt8
  pinTag : Option (Vector UInt8 32)
  deriving DecidableEq

inductive TransportError
  | unexpected (what : String)
  | authenticationFailed
  deriving DecidableEq, Repr

def sendDescription (signatures : Signatures Identity SessionKey) (identity : Identity)
    (key : Option SessionKey) (kind : SdpKind) (sdp : List UInt8) (client host : Hello)
    (binding : Vector UInt8 32) : Description :=
  let proof := prove signatures identity key (transcript kind client host binding sdp)
  { kind := kind, sdp := sdp, signature := proof.signature, pinTag := proof.pinTag }

/-- Checks a description that arrived; the signer is the client for an offer, the host
for an answer. -/
def receiveDescription (signatures : Signatures Identity SessionKey) (key : Option SessionKey)
    (kind : SdpKind) (client host : Hello) (binding : Vector UInt8 32) (received : Description) :
    Except TransportError (List UInt8) :=
  if received.kind ≠ kind then .error (.unexpected "the other kind of description")
  else
    let signer := match kind with
      | .offer => client.peer
      | .answer => host.peer
    let t := transcript kind client host binding received.sdp
    match check signatures signer key t ⟨received.signature, received.pinTag⟩ with
    | .ok () => .ok received.sdp
    | .error _ => .error .authenticationFailed

theorem stopsAt_transcriptLabel : StopsAt 0 TRANSCRIPT_LABEL :=
  ⟨bytes "windowcast-signaling-v2", by decide, rfl⟩

theorem stopsAt_accountLabel : StopsAt 0 ACCOUNT_LABEL :=
  ⟨bytes "windowcast-account-v1", by decide, rfl⟩

theorem Hello.shared_inj {hello hello' : Hello} (hpeer : hello.peer = hello'.peer)
    (hnonce : hello.nonce = hello'.nonce) (hmode : hello.shared.mode = hello'.shared.mode) :
    hello = hello' := by
  obtain ⟨peer, nonce, mode⟩ := hello
  obtain ⟨peer', nonce', mode'⟩ := hello'
  obtain rfl : peer = peer' := hpeer
  obtain rfl : nonce = nonce' := hnonce
  cases mode <;> cases mode' <;> first | rfl | (revert hmode; simp [Hello.shared])

/-- windowcast's own transcripts say everything but what the host echoed as the mode. -/
theorem eq_of_transcript {kind kind' : SdpKind} {client client' host host' : Hello}
    {binding binding' : Vector UInt8 32} {sdp sdp' : List UInt8}
    (h : transcript kind client host binding sdp = transcript kind' client' host' binding' sdp') :
    kind = kind' ∧ client = client' ∧ host.peer = host'.peer ∧ host.nonce = host'.nonce
      ∧ binding = binding' ∧ sdp = sdp' := by
  have hcovered := transcript_inj (Apart.refl TRANSCRIPT_LABEL) h
  simp only [covered, Covered.mk.injEq, true_and] at hcovered
  obtain ⟨hkind, hmode, hclientNonce, hhostNonce, hclientPeer, hhostPeer, hbinding, hsdp⟩ := hcovered
  refine ⟨?_, Hello.shared_inj hclientPeer hclientNonce hmode, hhostPeer, hhostNonce, hbinding, hsdp⟩
  cases kind <;> cases kind' <;> first | rfl | simp at hkind

/-- No account offer is signed over what a description is. -/
theorem accountContext_ne (kind : SdpKind) (client host client' host' : Hello)
    (binding : Vector UInt8 32) (sdp offer : List UInt8) :
    transcript kind client host binding sdp ≠ accountContext client' host' offer := by
  intro h
  simp only [transcript, Pairing.transcript, accountContext, List.append_assoc] at h
  have hlabels := (stopsAt_transcriptLabel.apart stopsAt_accountLabel).append_inj h
  exact absurd hlabels.1 (by decide)

/-- The side that signs a description of this kind. -/
def signer (kind : SdpKind) (client host : Hello) : PeerId :=
  match kind with
  | .offer => client.peer
  | .answer => host.peer

/-- A signature is taken only with the description and in the exchange it was made for. -/
theorem sent_of_receive {signatures : Signatures Identity SessionKey} (hsound : signatures.Sound)
    {identity : Identity} {key key' : Option SessionKey} {kind kind' : SdpKind}
    {client client' host host' : Hello} {binding binding' : Vector UInt8 32}
    {sdp result : List UInt8} {received : Description}
    (hsigned : received.signature
      = (sendDescription signatures identity key kind sdp client host binding).signature)
    (h : receiveDescription signatures key' kind' client' host' binding' received = .ok result) :
    signatures.peerId identity = signer kind' client' host'
      ∧ transcript kind client host binding sdp = transcript kind' client' host' binding' result := by
  unfold receiveDescription at h
  split at h
  · cases h
  simp only at h
  split at h
  rotate_left
  · cases h
  rename_i hcheck
  obtain rfl := Except.ok.inj h
  obtain ⟨hsigner, heq⟩ := signed_of_check hsound hsigned hcheck
  exact ⟨hsigner.symm, heq.symm⟩

end Signaling

/-- **Transcripts that are not mixed up.**  Of two labels, transcripts say all that they
cover exactly when neither is a proper beginning of the other, as of labels whose last
byte is their only zero; then no proof is taken for another transcript than its own.
windowcast's transcripts say all of their exchange, no account offer is signed as one,
and a description is taken only as what it was sent as. -/
theorem proofs_bound (signatures : Signatures Identity SessionKey) (hsound : signatures.Sound) :
    (∀ label label', (∀ kind kind' client client' host host' binding binding' description description',
      transcript label kind client host binding description
        = transcript label' kind' client' host' binding' description' →
      covered label kind client host binding description
        = covered label' kind' client' host' binding' description') ↔ Apart label label') ∧
    (∀ label label', StopsAt 0 label → StopsAt 0 label' → Apart label label') ∧
    (∀ label label', Apart label label' → ∀ kind kind' client client' host host' binding binding'
      description description' identity key signer key',
      check signatures signer key' (transcript label' kind' client' host' binding' description')
        (prove signatures identity key (transcript label kind client host binding description)) = .ok () →
      signer = signatures.peerId identity ∧ covered label kind client host binding description
        = covered label' kind' client' host' binding' description') ∧
    (∀ kind kind' client client' host host' binding binding' sdp sdp',
      Signaling.transcript kind client host binding sdp
        = Signaling.transcript kind' client' host' binding' sdp' →
      kind = kind' ∧ client = client' ∧ host.peer = host'.peer ∧ host.nonce = host'.nonce
        ∧ binding = binding' ∧ sdp = sdp') ∧
    (∀ kind client host client' host' binding sdp offer,
      Signaling.transcript kind client host binding sdp ≠ Signaling.accountContext client' host' offer) ∧
    ∀ identity key key' kind kind' client client' host host' binding binding' sdp result received,
      received.signature
        = (Signaling.sendDescription signatures identity key kind sdp client host binding).signature →
      Signaling.receiveDescription signatures key' kind' client' host' binding' received = .ok result →
      signatures.peerId identity = Signaling.signer kind' client' host' ∧ kind = kind' ∧ client = client'
        ∧ host.peer = host'.peer ∧ host.nonce = host'.nonce ∧ binding = binding' ∧ sdp = result := by
  refine ⟨?_, fun _ _ h h' => h.apart h', ?_, ?_, ?_, ?_⟩
  · intro label label'
    constructor
    · intro h
      have hapart {a b : List UInt8} (hmixed : a <+: b → a ≠ b → False) (hp : a <+: b) : a = b :=
        Classical.byContradiction fun hne => hmixed hp hne
      refine ⟨hapart fun hp hne => ?_, fun hp => (hapart (fun hp hne => ?_) hp).symm⟩
      · obtain ⟨kind, client, host, binding, description, kind', client', host', binding', description', heq⟩ :=
          exists_mixed_up hp hne
        exact hne (congrArg Covered.label (h _ _ _ _ _ _ _ _ _ _ heq))
      · obtain ⟨kind, client, host, binding, description, kind', client', host', binding', description', heq⟩ :=
          exists_mixed_up hp hne
        exact hne (congrArg Covered.label (h _ _ _ _ _ _ _ _ _ _ heq.symm)).symm
    · intro h kind kind' client client' host host' binding binding' description description' heq
      exact transcript_inj h heq
  · intro label label' h kind kind' client client' host host' binding binding' description description'
      identity key signer key' hcheck
    have hsigned : (prove signatures identity key
        (transcript label kind client host binding description)).signature
        = signatures.sign identity (transcript label kind client host binding description) := rfl
    obtain ⟨hsigner, heq⟩ := signed_of_check hsound hsigned hcheck
    exact ⟨hsigner, transcript_inj h heq.symm⟩
  · intro kind kind' client client' host host' binding binding' sdp sdp' h
    exact Signaling.eq_of_transcript h
  · intro kind client host client' host' binding sdp offer
    exact Signaling.accountContext_ne kind client host client' host' binding sdp offer
  · intro identity key key' kind kind' client client' host host' binding binding' sdp result received
      hsigned h
    obtain ⟨hsigner, heq⟩ := Signaling.sent_of_receive hsound hsigned h
    exact ⟨hsigner, Signaling.eq_of_transcript heq⟩

/-- Stand-in signatures without secrets: a signature names its key and its message. -/
def namedSignatures : Signatures PeerId Unit where
  peerId := id
  sign peer message := peer.bytes.toList ++ message
  verifyBytes peer message signature := signature == peer.bytes.toList ++ message
  authenticateFingerprint _ _ := Vector.replicate 32 0

theorem namedSignatures_sound : namedSignatures.Sound := by
  constructor
  · intro identity message
    exact beq_self_eq_true _
  · intro identity peer message message' h
    have heq : identity.bytes.toList ++ message = peer.bytes.toList ++ message' := beq_iff_eq.mp h
    obtain ⟨hbytes, hmessage⟩ := bytes_inj heq
    refine ⟨?_, hmessage.symm⟩
    cases identity
    cases peer
    exact congrArg PeerId.mk hbytes.symm

/-- A client that pairs and a host. -/
def someClient : Signaling.Hello := ⟨⟨Vector.replicate 32 1⟩, Vector.replicate 32 2, .pair⟩
def someHost : Signaling.Hello := ⟨⟨Vector.replicate 32 3⟩, Vector.replicate 32 4, .pair⟩

/-- The client's offer to the host. -/
def someOffer : Signaling.Description :=
  Signaling.sendDescription namedSignatures someClient.peer (some ()) .offer [7] someClient someHost
    (Vector.replicate 32 0)

/-- What the client signed as its offer is taken as its offer. -/
theorem proofs_bound_offer :
    Signaling.receiveDescription namedSignatures (some ()) .offer someClient someHost
      (Vector.replicate 32 0) someOffer = .ok [7] ∧
    namedSignatures.peerId someClient.peer = Signaling.signer .offer someClient someHost := by
  have hreceived : Signaling.receiveDescription namedSignatures (some ()) .offer someClient someHost
      (Vector.replicate 32 0) someOffer = .ok [7] := by rfl
  obtain ⟨-, -, -, -, -, h⟩ := proofs_bound namedSignatures namedSignatures_sound
  exact ⟨hreceived, (h _ _ _ _ _ _ _ _ _ _ _ _ _ _ rfl hreceived).1⟩

/-- With a label that is a proper beginning of another, two exchanges have one transcript. -/
theorem transcript_mixed_up :
    ¬ ∀ label label' kind kind' client client' host host' binding binding' description description',
      transcript label kind client host binding description
        = transcript label' kind' client' host' binding' description' →
      covered label kind client host binding description
        = covered label' kind' client' host' binding' description' := by
  intro h
  let zeros : Vector UInt8 32 := Vector.replicate 32 0
  let hello : Hello := ⟨⟨zeros⟩, zeros, 0⟩
  have hcovered := h [1, 0] [1, 0, 0] 0 0 hello hello hello hello zeros zeros [0] [] rfl
  exact absurd (congrArg Covered.label hcovered) (by decide)

end WindowCast.Pairing
