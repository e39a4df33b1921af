import WindowCast.GameStream.Document
import WindowCast.GameStream.Pairings

/-!
# A client's pairing with a host

`pair_client` of `gamestream/src/pairing.rs`, against the host's end of it: the five requests,
and what the client checks of the answers.  Random bytes are given to it.  A result is none
where the client panics.

## Main definitions

* `pairClient` — the client's end.
* `Identity` — a certificate with its key.
* `against` — requests that reach a host, at which a PIN is typed.

## Main results

* `start_fresh`, `against_first`, `against_next`, `against_https` — what a request makes of the host.
* `step_challenge`, `step_response`, `step_secret`, `step_unpair` — what its pairing does at each step.
-/

namespace WindowCast.GameStream

open Xml (encodeHex decodeHex)

inductive GameStreamError where
  | http
  | certificate
  | status (code : ℤ) (message : Text) : GameStreamError
  | pairing (reason : String) : GameStreamError
  | wrongPin
  deriving DecidableEq

/-! ### The hash -/

/-- The hash a server generation uses: SHA-256 from generation 7, SHA-1 before. -/
inductive Hash where
  | sha1
  | sha256
  deriving DecidableEq

/-- What a client's pairing asks of the cryptography. -/
structure ClientCryptography extends Cryptography where
  sha1 : List UInt8 → Vector UInt8 20

namespace Hash

def forAppVersion (version : Text) : Hash :=
  let major := ((Text.split '.' version).head?.bind fun m => Xml.parseI64 m.trim).getD 7
  if major ≥ 7 then .sha256 else .sha1

def outputLen : Hash → ℕ
  | .sha1 => 20
  | .sha256 => 32

def digest (crypto : ClientCryptography) (data : List UInt8) : Hash → List UInt8
  | .sha1 => (crypto.sha1 data).toList
  | .sha256 => (crypto.sha256 data).toList

def pinKey (crypto : ClientCryptography) (salt : Vector UInt8 16) (pin : Text) : Hash → Vector UInt8 16
  | .sha1 =>
    let digest := crypto.sha1 (salt.toList ++ Utf8.encode pin)
    Vector.ofFn fun i => digest[i]
  | .sha256 => crypto.pinKey salt pin

end Hash

/-! ### The client -/

/-- What a client does with the other end, whose state is `σ`. -/
abbrev Client (σ : Type) := ExceptT GameStreamError (StateT σ Option)

/-- What is drawn in a pairing. -/
structure Draws where
  salt : Vector UInt8 16
  challenge : Vector UInt8 16
  clientSecret : Vector UInt8 16

namespace Client

variable {σ α : Type}

/-- The panic of a slice. -/
def panicked : Client σ α := ExceptT.mk fun _ => none

/-- Whatever comes of it, and nothing is done about errors. -/
def attempt (x : Client σ α) : Client σ Unit := ExceptT.mk do
  let _ ← x.run
  return .ok ()

/-- The bytes of an element. -/
def hex (answer : Text) (name : String) : Client σ (Option (List UInt8)) :=
  match Xml.text answer name.toList with
  | none => pure none
  | some text =>
    match decodeHex text with
    | none => panicked
    | some bytes => pure bytes

def ok (answer : Text) : Client σ Unit :=
  match Xml.status answer with
  | (some 200, _) => pure ()
  | (code, message) => throw (.status (code.getD 0) (message.getD []))

def isPaired (answer : Text) : Bool := Xml.text answer "paired".toList = some "1".toList

end Client

section

open Client

variable {σ : Type} (crypto : ClientCryptography) (requests : Bool → Query → Client σ Text)

def unpair : Client σ Unit := attempt (requests false [("phrase".toList, "unpair".toList)])

/-- Gives the pairing up, unless the condition holds. -/
def demand (condition : Bool) (error : GameStreamError) : Client σ Unit :=
  if condition then pure ()
  else do
    unpair requests
    throw error

/-- What every request of a pairing begins with. -/
def base (deviceName : Text) (name : String) (value : Text) : Query :=
  [("devicename".toList, deviceName), ("updateState".toList, "1".toList), (name.toList, value)]

/-- 1. The host's certificate, once the PIN is typed there. -/
def requestServerCert (credentials : Credentials) (deviceName : Text) (salt : Vector UInt8 16) :
    Client σ (List UInt8) := do
  let answer ← requests false (base deviceName "phrase" "getservercert".toList ++
    [("salt".toList, encodeHex salt.toList), ("clientcert".toList, encodeHex credentials.certPem)])
  ok answer
  if ¬ isPaired answer then throw (.pairing "the host refused to pair")
  let some serverPem := (← hex answer "plaincert").filter (¬ ·.isEmpty)
    | throw (.pairing "the host is already pairing with someone")
  let some serverDer := crypto.pemToDer serverPem | throw .certificate
  return serverDer

/-- 2. Our challenge: the host's response, and its own challenge. -/
def requestResponse (hash : Hash) (key : Vector UInt8 16) (deviceName : Text) (challenge : Vector UInt8 16) :
    Client σ (List UInt8 × List UInt8) := do
  let answer ← requests false
    (base deviceName "clientchallenge" (encodeHex (crypto.ecbEncrypt key challenge.toList)))
  demand requests (isPaired answer) (.pairing "the host refused our challenge")
  let response := crypto.ecbDecrypt key ((← hex answer "challengeresponse").getD [])
  demand requests (hash.outputLen + 16 ≤ response.length) (.pairing "the host's challenge response is short")
  return (response.take hash.outputLen, (response.drop hash.outputLen).take 16)

/-- What our answer to the host's challenge hashes, padded to 32 bytes. -/
def paddedAnswer (hash : Hash) (credentials : Credentials) (serverChallenge : List UInt8)
    (clientSecret : Vector UInt8 16) : List UInt8 :=
  let digest := hash.digest crypto (serverChallenge ++ credentials.signature ++ clientSecret.toList)
  digest.take 32 ++ List.replicate (32 - digest.length) 0

/-- 3. Our answer to the host's challenge: the host's secret, and its signature of it. -/
def requestSecret (key : Vector UInt8 16) (deviceName : Text) (padded : List UInt8) :
    Client σ (List UInt8 × List UInt8) := do
  let answer ← requests false
    (base deviceName "serverchallengeresp" (encodeHex (crypto.ecbEncrypt key padded)))
  demand requests (isPaired answer) (.pairing "the host refused our answer")
  let pairingSecret := (← hex answer "pairingsecret").getD []
  demand requests (16 < pairingSecret.length) (.pairing "the host's pairing secret is short")
  return (pairingSecret.take 16, pairingSecret.drop 16)

/-- What is checked of the secret: the signature, and the hash of step 2. -/
def checkSecret (hash : Hash) (serverDer : List UInt8) (challenge : Vector UInt8 16)
    (serverResponse serverSecret serverSignature : List UInt8) : Client σ Unit := do
  demand requests (crypto.verify serverDer serverSecret serverSignature)
    (.pairing "the host's secret is not signed by its certificate: someone in the middle")
  let some signature := crypto.certificateSignature serverDer | throw .certificate
  demand requests (hash.digest crypto (challenge.toList ++ signature ++ serverSecret) = serverResponse) .wrongPin

/-- 4. Our secret, signed. -/
def sendSecret (credentials : Credentials) (deviceName : Text) (clientSecret : Vector UInt8 16) : Client σ Unit := do
  let answer ← requests false (base deviceName "clientpairingsecret"
    (encodeHex (clientSecret.toList ++ credentials.sign clientSecret.toList)))
  demand requests (isPaired answer) (.pairing "the host did not accept our secret")

/-- 5. Over HTTPS with our certificate. -/
def checkHttps (deviceName : Text) : Client σ Unit := do
  let answer ← requests true (base deviceName "phrase" "pairchallenge".toList)
  demand requests (isPaired answer) (.pairing "the host's HTTPS pairing check failed")

/-- Client side: the host's certificate, to pin for HTTPS. -/
def pairClient (credentials : Credentials) (appVersion pin deviceName : Text) (draws : Draws) :
    Client σ (List UInt8) := do
  let hash := Hash.forAppVersion appVersion
  let key := hash.pinKey crypto draws.salt pin
  let serverDer ← requestServerCert crypto requests credentials deviceName draws.salt
  let (serverResponse, serverChallenge) ← requestResponse crypto requests hash key deviceName draws.challenge
  let padded := paddedAnswer crypto hash credentials serverChallenge draws.clientSecret
  let (serverSecret, serverSignature) ← requestSecret crypto requests key deviceName padded
  checkSecret crypto requests hash serverDer draws.challenge serverResponse serverSecret serverSignature
  sendSecret requests credentials deviceName draws.clientSecret
  checkHttps requests deviceName
  return serverDer

end

/-! ### Against a host -/

/-- A key and its certificate, of which these are the PEM text and the signature. -/
structure Identity (crypto : Cryptography) extends Credentials where
  certDer : List UInt8
  certPem_ne_nil : certPem ≠ []
  pemToDer_certPem : crypto.pemToDer certPem = some certDer
  certificateSignature_certDer : crypto.certificateSignature certDer = some signature
  sign_ne_nil : ∀ data, sign data ≠ []
  verify_sign : ∀ data, crypto.verify certDer data (sign data) = true

/-- What hosts of GameStream generation 7 say they are. -/
def APP_VERSION : Text := "7.1.431.-1".toList

/-- What a host has to do with the requests of one client: the names in its requests, the PIN that is
typed for them, and what is drawn. -/
structure Meeting where
  uniqueId : Text
  uuid : Text
  typed : Text
  secret : Vector UInt8 16
  drawn : Vector UInt8 16

/-- A query, with the names in front. -/
def Meeting.sent (m : Meeting) (query : Query) : Query :=
  ("uniqueid".toList, m.uniqueId) :: ("uuid".toList, m.uuid) :: query

/-- The requests reach a host, over HTTPS with the client's certificate.  Where the first one is held, the
PIN is typed. -/
def against (crypto : Cryptography) (server : Credentials) (clientDer : List UInt8) (m : Meeting) (https : Bool)
    (query : Query) : Client GameStreamServer Text := ExceptT.mk fun host =>
  match host.pair crypto server (m.sent query) https
    (if https then some clientDer else none) m.secret m.drawn with
  | none => some (.error .http, host)
  | some (.nothing, host) => some (.error .http, host)
  | some (.answered xml _, host) => some (.ok xml, host)
  | some (.held, host) =>
    match host.enterPin crypto server m.typed none m.uniqueId with
    | (.answered xml _, host) => some (.ok xml, host)
    | (_, host) => some (.error .http, host)

/-! ### Values of a query -/

namespace HostPairing

theorem value_nil (name : String) : value [] name = none := rfl

theorem value_cons (n name : String) (v : Text) (query : Query) :
    value ((n.toList, v) :: query) name = if n = name then some v else value query name := by
  rw [value, List.find?_cons, value]
  by_cases h : n = name
  · subst h
    simp
  · have hne : ¬ n.toList = name.toList := fun heq => h (String.toList_inj.mp heq)
    simp [hne, h]

theorem arg_of_value {query : Query} {name : String} {bytes : List UInt8}
    (h : value query name = some (encodeHex bytes)) : arg query name = some (some bytes) := by
  rw [arg, h]
  exact Xml.decodeHex_encodeHex bytes

theorem arg_of_none {query : Query} {name : String} (h : value query name = none) : arg query name = some none := by
  rw [arg, h]

end HostPairing

/-! ### The two ends of a request -/

section

variable {crypto : Cryptography} {server : Credentials} {m : Meeting} {host : GameStreamServer} {der : List UInt8}
  {deviceName : Text}

/-- The pairing that a client's first request starts. -/
def freshPairing (clientDer : List UInt8) (deviceName : Text) (salt : Vector UInt8 16) : HostPairing where
  phase := .waitingForPin
  salt
  clientCert := clientDer
  deviceName
  key := none
  serverSecret := Vector.replicate 16 0
  serverChallenge := Vector.replicate 16 0
  clientHash := []

theorem start_fresh (client : Identity crypto) (deviceName : Text) (salt : Vector UInt8 16) :
    HostPairing.start crypto (encodeHex salt.toList) (encodeHex client.certPem) deviceName =
      some (.ok (freshPairing client.certDer deviceName salt)) := by
  have hsalt : (Vector.ofFn fun i : Fin 16 => salt.toList.getD i 0) = salt := by
    refine Vector.ext fun i hi => ?_
    rw [Vector.getElem_ofFn, List.getD_eq_getElem _ _ (by rw [Vector.length_toList]; exact hi)]
    exact Vector.getElem_toList _
  have hlong : (some salt.toList).filter (fun salt => 16 ≤ salt.length) = some salt.toList :=
    Option.filter_some_pos (by rw [Vector.length_toList]; rfl)
  rw [HostPairing.start, Xml.decodeHex_encodeHex]
  dsimp only
  rw [hlong, Xml.decodeHex_encodeHex]
  dsimp only
  rw [client.pemToDer_certPem]
  dsimp only
  rw [hsalt]
  rfl

theorem against_of_answered {https : Bool} {query : Query} {xml : Text} {p : Option (List UInt8)}
    {host' : GameStreamServer} (h : host.pair crypto server (m.sent query) https
      (if https then some der else none) m.secret m.drawn = some (.answered xml p, host')) :
    against crypto server der m https query host = some (.ok xml, host') := by
  unfold against ExceptT.mk
  dsimp only
  rw [h]

theorem against_of_held {query : Query} {xml : Text} {p : Option (List UInt8)} {host' host'' : GameStreamServer}
    (h : host.pair crypto server (m.sent query) false none m.secret m.drawn = some (.held, host'))
    (henter : host'.enterPin crypto server m.typed none m.uniqueId = (.answered xml p, host'')) :
    against crypto server der m false query host = some (.ok xml, host'') := by
  unfold against ExceptT.mk
  dsimp only
  rw [if_neg Bool.false_ne_true, h]
  dsimp only
  rw [henter]

/-- The first request is held, and answered when the PIN is typed. -/
theorem against_first (client : Identity crypto) (salt : Vector UInt8 16)
    (hwaiting : (host.pending m.uniqueId).any Pending.waiting = false) :
    against crypto server client.certDer m false (base deviceName "phrase" "getservercert".toList ++
        [("salt".toList, encodeHex salt.toList), ("clientcert".toList, encodeHex client.certPem)]) host =
      some (.ok ((freshPairing client.certDer deviceName salt).pin crypto server m.typed).1,
        host.setPending m.uniqueId
          (some ⟨((freshPairing client.certDer deviceName salt).pin crypto server m.typed).2, false⟩)) := by
  have hpair : host.pair crypto server (m.sent (base deviceName "phrase" "getservercert".toList ++
      [("salt".toList, encodeHex salt.toList), ("clientcert".toList, encodeHex client.certPem)])) false none
      m.secret m.drawn =
        some (.held, host.setPending m.uniqueId (some ⟨freshPairing client.certDer deviceName salt, true⟩)) := by
    simp only [Meeting.sent, base, List.cons_append, List.nil_append]
    rw [GameStreamServer.pair]
    simp only [HostPairing.value_cons, HostPairing.value_nil, String.reduceEq, if_true, if_false]
    unfold GameStreamServer.getServerCert GameStreamServer.given
    simp only [HostPairing.value_cons, HostPairing.value_nil, String.reduceEq, if_true, if_false, Option.getD_some,
      start_fresh, hwaiting, Bool.false_eq_true]
  have henter : (host.setPending m.uniqueId (some ⟨freshPairing client.certDer deviceName salt, true⟩)).enterPin crypto
      server m.typed none m.uniqueId =
      (.answered ((freshPairing client.certDer deviceName salt).pin crypto server m.typed).1 none,
        host.setPending m.uniqueId
          (some ⟨((freshPairing client.certDer deviceName salt).pin crypto server m.typed).2, false⟩)) := by
    have hpending : (host.setPending m.uniqueId (some ⟨freshPairing client.certDer deviceName salt, true⟩)).pending
        m.uniqueId = some ⟨freshPairing client.certDer deviceName salt, true⟩ := Function.update_self _ _ _
    have htwice (p q : Option Pending) :
        (host.setPending m.uniqueId p).setPending m.uniqueId q = host.setPending m.uniqueId q := by
      unfold GameStreamServer.setPending
      rw [Function.update_idem]
    rw [GameStreamServer.enterPin, hpending]
    dsimp only [Option.all_none]
    rw [if_pos rfl, htwice]
  exact against_of_held hpair henter

/-- A request for the next step of the pairing. -/
theorem against_next {query : Query} {waiting : Pending} {answer : Step} {next : HostPairing}
    (hphrase : ∀ phrase, HostPairing.value query "phrase" = some phrase →
      phrase ≠ "getservercert".toList ∧ phrase ≠ "pairchallenge".toList)
    (hpending : host.pending m.uniqueId = some waiting)
    (hstep : waiting.pairing.step crypto server (m.sent query) m.secret m.drawn = some (answer, next)) :
    against crypto server der m false query host = some (.ok answer.xml,
      (answer.paired.elim host host.pinClient).setPending m.uniqueId
        (if answer.done then none else some { waiting with pairing := next })) := by
  have hvalue : HostPairing.value (m.sent query) "phrase" = HostPairing.value query "phrase" := by
    simp only [Meeting.sent, HostPairing.value_cons, String.reduceEq, if_false]
  have hname : HostPairing.value (m.sent query) "uniqueid" = some m.uniqueId := by
    simp only [Meeting.sent, HostPairing.value_cons, if_true]
  refine against_of_answered (p := answer.paired) ?_
  rw [GameStreamServer.pair, hname, hvalue]
  dsimp only
  rw [if_neg fun h => (hphrase _ h).1 rfl, if_neg fun h => (hphrase _ h).2 rfl, GameStreamServer.nextStep, hpending]
  dsimp only
  rw [hstep]

/-- The client's look at whether it is pinned. -/
theorem against_https (hpinned : der ∈ host.paired) :
    against crypto server der m true (base deviceName "phrase" "pairchallenge".toList) host =
      some (.ok (Xml.response 200 none [("paired".toList, "1".toList)]), host) := by
  have hne : ¬ some "pairchallenge".toList = some "getservercert".toList := by decide
  refine against_of_answered (p := none) ?_
  rw [GameStreamServer.pair]
  simp only [Meeting.sent, base, HostPairing.value_cons, HostPairing.value_nil, String.reduceEq, if_true, if_false,
    if_neg hne, Option.any_some, hpinned, decide_true, Bool.and_true]

/-! ### The steps of the host -/

/-- The names of what every request of a pairing has. -/
def common : List String := ["uniqueid", "uuid", "devicename", "updateState"]

theorem value_sent {name other : String} (v : Text) (hother : other ∉ common) :
    HostPairing.value (m.sent (base deviceName name v)) other = if name = other then some v else none := by
  simp only [common, List.mem_cons, List.not_mem_nil, or_false, not_or] at hother
  obtain ⟨h₁, h₂, h₃, h₄⟩ := hother
  simp only [Meeting.sent, base, HostPairing.value_cons, HostPairing.value_nil, if_neg (Ne.symm h₁),
    if_neg (Ne.symm h₂), if_neg (Ne.symm h₃), if_neg (Ne.symm h₄)]

theorem arg_sent {name : String} (bytes : List UInt8) (hname : name ∉ common) :
    HostPairing.arg (m.sent (base deviceName name (encodeHex bytes))) name = some (some bytes) :=
  HostPairing.arg_of_value ((value_sent _ hname).trans (if_pos rfl))

theorem arg_sent_of_ne {name other : String} (v : Text) (hother : other ∉ common) (hne : name ≠ other) :
    HostPairing.arg (m.sent (base deviceName name v)) other = some none :=
  HostPairing.arg_of_none ((value_sent v hother).trans (if_neg hne))

variable {pairing : HostPairing} {key : Vector UInt8 16} {bytes : List UInt8}

theorem step_challenge (hkey : pairing.key = some key) (hphase : pairing.phase = .serverCert) :
    pairing.step crypto server (m.sent (base deviceName "clientchallenge" (encodeHex bytes))) m.secret m.drawn =
      some (⟨challengeAnswer crypto server key bytes m.secret m.drawn, none, false⟩,
        { pairing with phase := .clientChallenge, serverSecret := m.secret, serverChallenge := m.drawn }) := by
  obtain ⟨phase, salt, clientCert, name, held, secret, challenge, hash⟩ := pairing
  obtain rfl : phase = .serverCert := hphase
  obtain rfl : held = some key := hkey
  rw [HostPairing.step]
  dsimp only
  rw [arg_sent bytes (by decide)]
  rfl

theorem step_response (hkey : pairing.key = some key) (hphase : pairing.phase = .clientChallenge) :
    pairing.step crypto server (m.sent (base deviceName "serverchallengeresp" (encodeHex bytes))) m.secret m.drawn =
      some (⟨secretAnswer server pairing.serverSecret, none, false⟩,
        { pairing with phase := .serverChallengeResponse, clientHash := crypto.ecbDecrypt key bytes }) := by
  obtain ⟨phase, salt, clientCert, name, held, secret, challenge, hash⟩ := pairing
  obtain rfl : phase = .clientChallenge := hphase
  obtain rfl : held = some key := hkey
  rw [HostPairing.step]
  dsimp only
  rw [arg_sent_of_ne _ (by decide) (by decide)]
  dsimp only
  rw [arg_sent bytes (by decide)]
  rfl

/-- A secret that comes to the hash, and is signed, pairs the client. -/
theorem step_secret {signature : List UInt8} (hkey : pairing.key = some key)
    (hphase : pairing.phase = .serverChallengeResponse) (hlong : 16 < bytes.length)
    (hsignature : crypto.certificateSignature pairing.clientCert = some signature)
    (hdigest : (crypto.sha256 (pairing.serverChallenge.toList ++ signature ++ bytes.take 16)).toList =
      pairing.clientHash.take 32)
    (hverify : crypto.verify pairing.clientCert (bytes.take 16) (bytes.drop 16) = true) :
    pairing.step crypto server (m.sent (base deviceName "clientpairingsecret" (encodeHex bytes))) m.secret m.drawn =
      some (⟨Xml.response 200 none [("paired".toList, "1".toList)], some pairing.clientCert, true⟩, pairing) := by
  rw [HostPairing.step, hkey]
  dsimp only
  rw [arg_sent_of_ne _ (by decide) (by decide)]
  dsimp only
  rw [arg_sent_of_ne _ (by decide) (by decide)]
  dsimp only
  rw [arg_sent bytes (by decide)]
  dsimp only
  rw [HostPairing.onClientPairingSecret, if_neg (not_not_intro hphase), if_neg (Nat.not_le.mpr hlong), hsignature]
  simp only [hdigest, hverify, decide_true, Bool.and_true, if_true]

/-- A request that is none of them ends the pairing. -/
theorem step_unpair (hkey : pairing.key = some key) :
    pairing.step crypto server (m.sent [("phrase".toList, "unpair".toList)]) m.secret m.drawn =
      some (fail "Invalid pairing request", pairing) := by
  have harg (name : String) (hname : name ∉ ["uniqueid", "uuid", "phrase"]) :
      HostPairing.arg (m.sent [("phrase".toList, "unpair".toList)]) name = some none := by
    simp only [List.mem_cons, List.not_mem_nil, or_false, not_or] at hname
    obtain ⟨h₁, h₂, h₃⟩ := hname
    refine HostPairing.arg_of_none ?_
    simp only [Meeting.sent, HostPairing.value_cons, HostPairing.value_nil, if_neg (Ne.symm h₁),
      if_neg (Ne.symm h₂), if_neg (Ne.symm h₃)]
  rw [HostPairing.step, hkey]
  dsimp only
  rw [harg "clientchallenge" (by decide)]
  dsimp only
  rw [harg "serverchallengeresp" (by decide)]
  dsimp only
  rw [harg "clientpairingsecret" (by decide)]

end

end WindowCast.GameStream
