import WindowCast.GameStream.Crypto
import WindowCast.GameStream.Xml
import WindowCast.Lib.Utf8

/-!
# A host's pairing with a client

What a host does with the requests of a client that pairs with it (`pairing.rs`), phase
by phase.  Their values come in hex, and where reading one panics there is no answer.

## Main definitions

* `HostPairing` — where a pairing stands.
* `HostPairing.start`, `HostPairing.pin`, `HostPairing.step` — its requests; none, where one panics.
* `Answerable` — no value that is read ends a slice inside a character.

## Main results

* `start_isSome_iff`, `step_isSome_iff` — when there is an answer.
* `pairing_answers_iff` — **what is read of a query, and when a query is answered**.
-/

namespace WindowCast.GameStream

open Xml (Sliced Read decodeHex encodeHex)

/-- What a pairing asks of the cryptography. -/
structure Cryptography where
  aes : Aes128
  sha256 : List UInt8 → Vector UInt8 32
  pemToDer : List UInt8 → Option (List UInt8)
  certificateSignature : List UInt8 → Option (List UInt8)
  verify : List UInt8 → List UInt8 → List UInt8 → Bool

namespace Cryptography

variable (crypto : Cryptography)

/-- The key a PIN and salt make. -/
def pinKey (salt : Vector UInt8 16) (pin : Text) : Vector UInt8 16 :=
  let digest := crypto.sha256 (salt.toList ++ Utf8.encode pin)
  Vector.ofFn fun i => digest[i]

def ecbEncrypt (key : Vector UInt8 16) (data : List UInt8) : List UInt8 :=
  Crypto.bytes ((Crypto.asChunks data).map (crypto.aes.encrypt key))

def ecbDecrypt (key : Vector UInt8 16) (data : List UInt8) : List UInt8 :=
  Crypto.bytes ((Crypto.asChunks data).map (crypto.aes.decrypt key))

end Cryptography

/-- A host's key and certificate; its own certificate parses. -/
structure Credentials where
  certPem : List UInt8
  signature : List UInt8
  sign : List UInt8 → List UInt8

inductive PairingPhase
  | waitingForPin
  | serverCert
  | clientChallenge
  | serverChallengeResponse
  deriving DecidableEq

structure HostPairing where
  phase : PairingPhase
  salt : Vector UInt8 16
  clientCert : List UInt8
  deviceName : Text
  key : Option (Vector UInt8 16)
  serverSecret : Vector UInt8 16
  serverChallenge : Vector UInt8 16
  clientHash : List UInt8

/-- What a step answers: the document, and the client's certificate once it is paired. -/
structure Step where
  xml : Text
  paired : Option (List UInt8)
  done : Bool

def fail (message : String) : Step where
  xml := Xml.response 400 (some message.toList) [("paired".toList, "0".toList)]
  paired := none
  done := true

abbrev Query := List (Text × Text)

namespace HostPairing

variable (crypto : Cryptography) (server : Credentials)

def start (saltHex clientCertHex deviceName : Text) : Option (Except String HostPairing) :=
  match decodeHex saltHex with
  | none => none
  | some salt =>
    match salt.filter fun salt => 16 ≤ salt.length with
    | none => some (.error "Salt too short")
    | some salt =>
      match decodeHex clientCertHex with
      | none => none
      | some none => some (.error "Invalid client certificate")
      | some (some pem) =>
        match crypto.pemToDer pem with
        | none => some (.error "Invalid client certificate")
        | some clientCert => some (.ok {
            phase := .waitingForPin
            salt := Vector.ofFn fun i => salt.getD i 0
            clientCert, deviceName
            key := none
            serverSecret := Vector.replicate 16 0
            serverChallenge := Vector.replicate 16 0
            clientHash := [] })

/-- The person typed the PIN. -/
def pin (self : HostPairing) (pin : Text) : Text × HostPairing :=
  (Xml.response 200 none [("paired".toList, "1".toList), ("plaincert".toList, encodeHex server.certPem)],
    { self with key := some (crypto.pinKey self.salt pin), phase := .serverCert })

/-- The first value of this name. -/
def value (query : Query) (name : String) : Option Text := (query.find? fun e => e.1 = name.toList).map Prod.snd

/-- The bytes of the first value of this name; none, where reading it panics. -/
def arg (query : Query) (name : String) : Option (Option (List UInt8)) :=
  match value query name with
  | none => some none
  | some v => decodeHex v

/-- `clientchallenge`, with the secret and the challenge that are drawn for it. -/
def onClientChallenge (self : HostPairing) (key : Vector UInt8 16) (challenge : List UInt8)
    (secret drawn : Vector UInt8 16) : Step × HostPairing :=
  if self.phase ≠ .serverCert then (fail "Out of order call to clientchallenge", self)
  else
    let decrypted := crypto.ecbDecrypt key challenge ++ server.signature ++ secret.toList
    let plain := (crypto.sha256 decrypted).toList ++ drawn.toList
    ({ xml := Xml.response 200 none
        [("paired".toList, "1".toList), ("challengeresponse".toList, encodeHex (crypto.ecbEncrypt key plain))]
       paired := none
       done := false },
      { self with phase := .clientChallenge, serverSecret := secret, serverChallenge := drawn })

def onServerChallengeResp (self : HostPairing) (key : Vector UInt8 16) (response : List UInt8) : Step × HostPairing :=
  if self.phase ≠ .clientChallenge then (fail "Out of order call to serverchallengeresp", self)
  else
    let secret := self.serverSecret.toList ++ server.sign self.serverSecret.toList
    ({ xml := Xml.response 200 none [("pairingsecret".toList, encodeHex secret), ("paired".toList, "1".toList)]
       paired := none
       done := false },
      { self with phase := .serverChallengeResponse, clientHash := crypto.ecbDecrypt key response })

def onClientPairingSecret (self : HostPairing) (secret : List UInt8) : Step × HostPairing :=
  if self.phase ≠ .serverChallengeResponse then (fail "Out of order call to clientpairingsecret", self)
  else if secret.length ≤ 16 then (fail "Client pairing secret too short", self)
  else
    match crypto.certificateSignature self.clientCert with
    | none => (fail "Invalid client certificate", self)
    | some clientSignature =>
      let data := self.serverChallenge.toList ++ clientSignature ++ secret.take 16
      -- the client pads its hash to 32 bytes
      let same := (crypto.sha256 data).toList = self.clientHash.take 32
      let signed := crypto.verify self.clientCert (secret.take 16) (secret.drop 16)
      let paired := same && signed
      ({ xml := Xml.response 200 none [("paired".toList, if paired then "1".toList else "0".toList)]
         paired := if paired then some self.clientCert else none
         done := true }, self)

/-- The next request of this client's pairing, with what is drawn for it. -/
def step (self : HostPairing) (query : Query) (secret drawn : Vector UInt8 16) : Option (Step × HostPairing) :=
  match self.key with
  | none => some (fail "Pairing not started", self)
  | some key =>
    match arg query "clientchallenge" with
    | none => none
    | some (some challenge) => some (self.onClientChallenge crypto server key challenge secret drawn)
    | some none =>
      match arg query "serverchallengeresp" with
      | none => none
      | some (some response) => some (self.onServerChallengeResp crypto server key response)
      | some none =>
        match arg query "clientpairingsecret" with
        | none => none
        | some (some secret) => some (self.onClientPairingSecret crypto secret)
        | some none => some (fail "Invalid pairing request", self)

end HostPairing

/-- Of the values of these names, read in order up to the first of bytes, none ends a
slice inside a character. -/
def Answerable (query : Query) : List String → Prop
  | [] => True
  | name :: names =>
    match HostPairing.value query name with
    | none => Answerable query names
    | some v => Sliced v ∧ (Read v ∨ Answerable query names)

namespace HostPairing

section

variable {crypto : Cryptography} {server : Credentials} {query : Query} {name : String} {names : List String}

theorem answerable_cons : Answerable query (name :: names) ↔
    (arg query name).isSome ∧ (arg query name = some none → Answerable query names) := by
  rw [Answerable, arg]
  cases value query name with
  | none => exact ⟨fun h => ⟨rfl, fun _ => h⟩, fun h => h.2 rfl⟩
  | some v =>
    dsimp only
    rw [Xml.decodeHex_isSome_iff]
    refine and_congr_right fun hsliced => ?_
    obtain ⟨answer, hanswer⟩ := Option.isSome_iff_exists.mp (Xml.decodeHex_isSome_iff.mpr hsliced)
    rw [← Xml.decodeHex_bytes_iff, hanswer]
    cases answer with
    | none => exact ⟨fun h _ => h.resolve_left nofun, fun h => .inr (h rfl)⟩
    | some bytes => exact iff_of_true (.inl ⟨bytes, rfl⟩) nofun

/-- **When a request has an answer.** -/
theorem step_isSome_iff (self : HostPairing) (secret drawn : Vector UInt8 16) :
    (self.step crypto server query secret drawn).isSome ↔
      self.key = none ∨ Answerable query ["clientchallenge", "serverchallengeresp", "clientpairingsecret"] := by
  rw [step, answerable_cons, answerable_cons, answerable_cons]
  generalize arg query "clientchallenge" = challenge
  generalize arg query "serverchallengeresp" = response
  generalize arg query "clientpairingsecret" = pairingSecret
  cases self.key with
  | none => exact iff_of_true rfl (.inl rfl)
  | some key =>
    rw [or_iff_right nofun]
    match challenge, response, pairingSecret with
    | none, _, _ => exact iff_of_false nofun fun h => nomatch h.1
    | some (some _), _, _ => exact iff_of_true rfl ⟨rfl, nofun⟩
    | some none, none, _ => exact iff_of_false nofun fun h => nomatch (h.2 rfl).1
    | some none, some (some _), _ => exact iff_of_true rfl ⟨rfl, fun _ => ⟨rfl, nofun⟩⟩
    | some none, some none, none => exact iff_of_false nofun fun h => nomatch ((h.2 rfl).2 rfl).1
    | some none, some none, some (some _) => exact iff_of_true rfl ⟨rfl, fun _ => ⟨rfl, fun _ => ⟨rfl, nofun⟩⟩⟩
    | some none, some none, some none =>
      exact iff_of_true rfl ⟨rfl, fun _ => ⟨rfl, fun _ => ⟨rfl, fun _ => trivial⟩⟩⟩

/-- **When the first request has an answer.** -/
theorem start_isSome_iff (saltHex clientCertHex deviceName : Text) :
    (start crypto saltHex clientCertHex deviceName).isSome ↔
      Sliced saltHex ∧ (Read saltHex → 32 ≤ saltHex.trim.utf8Size → Sliced clientCertHex) := by
  rw [← Xml.decodeHex_isSome_iff, ← Xml.decodeHex_isSome_iff, ← Xml.decodeHex_bytes_iff, start]
  cases hsalt : decodeHex saltHex with
  | none => exact iff_of_false nofun fun h => nomatch h.1
  | some salt =>
    rw [Option.isSome_some, and_iff_right rfl]
    cases salt with
    | none => exact iff_of_true rfl fun ⟨bytes, h⟩ => nomatch h
    | some salt =>
      rw [forall_prop_of_true ⟨salt, rfl⟩, Xml.utf8Size_of_decodeHex hsalt]
      by_cases hlong : 16 ≤ salt.length
      · have hlong' : 32 ≤ 2 * salt.length := by omega
        have hkept : (some salt).filter (fun salt => 16 ≤ salt.length) = some salt :=
          Option.filter_some_pos (decide_eq_true hlong)
        dsimp only
        rw [forall_prop_of_true hlong', hkept]
        cases decodeHex clientCertHex with
        | none => exact Iff.rfl
        | some pem =>
          refine iff_of_true ?_ rfl
          cases pem with
          | none => rfl
          | some pem =>
            dsimp only
            cases crypto.pemToDer pem with
            | none => rfl
            | some clientCert => rfl
      · have hshort : ¬ 32 ≤ 2 * salt.length := by omega
        have hdropped : (some salt).filter (fun salt => 16 ≤ salt.length) = none :=
          Option.filter_some_neg (decide_eq_false hlong)
        dsimp only
        rw [hdropped]
        exact iff_of_true rfl fun h => absurd h hshort

end

end HostPairing

/-- **What is read of a query, and when a query is answered.** -/
theorem pairing_answers_iff (crypto : Cryptography) (server : Credentials) :
    (∀ text, Xml.Right text ↔ Sliced text ∧ (Read text → '+' ∉ text.trim)) ∧
      (∀ bytes, decodeHex (encodeHex bytes) = some (some bytes)) ∧
      (∀ salt clientCert deviceName, (HostPairing.start crypto salt clientCert deviceName).isSome ↔
        Sliced salt ∧ (Read salt → 32 ≤ salt.trim.utf8Size → Sliced clientCert)) ∧
      ∀ (self : HostPairing) query secret drawn, (self.step crypto server query secret drawn).isSome ↔
        self.key = none ∨ Answerable query ["clientchallenge", "serverchallengeresp", "clientpairingsecret"] :=
  ⟨fun _ => Xml.reads_right_iff, Xml.decodeHex_encodeHex, HostPairing.start_isSome_iff, fun self _ =>
    HostPairing.step_isSome_iff self⟩

/-- A slice inside a character ends the reading, and a sign is read as a digit. -/
theorem reads_wrongly : ¬ Xml.Right ['0', '€'] ∧ ¬ Xml.Right ['+', 'f'] := by
  rw [Xml.reads_right_iff, Xml.reads_right_iff]
  decide

end WindowCast.GameStream
