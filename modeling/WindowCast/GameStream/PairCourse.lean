import WindowCast.GameStream.PairClient

/-!
# The course of a pairing

A client against a host, step by step of both, with the PIN that is typed and with another one.
The cryptography is symbolic in what it takes apart: what was enciphered under another key comes
to no hash.

## Main definitions

* `told` — what the client is told of the host's hash, and of its challenge.
* `Symbolic` — what keeps the keys of two PINs apart.

## Main results

* `pairClient_eq` — up to the check of the host's hash, a pairing goes its way with every PIN.
* `pairClient_same` — with the PIN that is typed both ends are paired.
* `pairClient_other` — with another one the client says so, and nobody is paired.
* `pairing_course` — **who is paired has done all the steps of one run, and the two ends agree**.
-/

namespace WindowCast.GameStream
open Xml (encodeHex decodeHex)

namespace Client

variable {σ α β : Type} {x : Client σ α} {f : α → Client σ β} {s s' : σ} {a : α} {e : GameStreamError}

theorem bind_ok (h : x s = some (.ok a, s')) : (x >>= f) s = f a s' := by
  show (StateT.bind x (ExceptT.bindCont f)) s = _
  rw [StateT.bind, h]
  rfl

theorem bind_error (h : x s = some (.error e, s')) : (x >>= f) s = some (.error e, s') := by
  show (StateT.bind x (ExceptT.bindCont f)) s = _
  rw [StateT.bind, h]
  rfl

theorem bind_congr {y : Client σ α} (h : x s = y s) : (x >>= f) s = (y >>= f) s := by
  show (StateT.bind x (ExceptT.bindCont f)) s = (StateT.bind y (ExceptT.bindCont f)) s
  rw [StateT.bind, StateT.bind, h]

theorem hex_eq {answer : Text} {name : String} {bytes : List UInt8}
    (h : Xml.text answer name.toList = some (encodeHex bytes)) (s : σ) :
    (hex answer name : Client σ (Option (List UInt8))) s = some (.ok (some bytes), s) := by
  rw [hex, h]
  dsimp only
  rw [Xml.decodeHex_encodeHex]
  rfl

theorem ok_eq (elements : List (Text × Text)) (s : σ) :
    (ok (Xml.response 200 none elements) : Client σ Unit) s = some (.ok (), s) := by
  rw [ok, Xml.status_response (by decide)]
  rfl

theorem attempt_eq {r : Except GameStreamError α} (h : x s = some (r, s')) : attempt x s = some (.ok (), s') := by
  show (StateT.bind (ExceptT.run x) fun _ => pure (Except.ok ())) s = some (Except.ok (), s')
  rw [StateT.bind, ExceptT.run, h]
  rfl

theorem isPaired_eq {answer : Text} (h : Xml.text answer "paired".toList = some (Text.trim "1".toList)) :
    isPaired answer = true := by
  rw [isPaired, h]
  decide

end Client

theorem trim_encodeHex (bytes : List UInt8) : (encodeHex bytes).trim = encodeHex bytes := Xml.trim_encode bytes

theorem text_pair {a b : String} (ha : Xml.IsName a.toList) (hb : Xml.IsName b.toList) (hne : a ≠ b) (v w : Text) :
    Xml.text (Xml.response 200 none [(a.toList, v), (b.toList, w)]) a.toList = some v.trim ∧
      Xml.text (Xml.response 200 none [(a.toList, v), (b.toList, w)]) b.toList = some w.trim := by
  have hnames : ∀ e ∈ [(a.toList, v), (b.toList, w)], Xml.IsName e.1 :=
    List.forall_mem_cons.mpr ⟨ha, List.forall_mem_singleton.mpr hb⟩
  have hdistinct : ([(a.toList, v), (b.toList, w)].map Prod.fst).Nodup := by
    simp [String.toList_inj, hne]
  exact ⟨Xml.text_response hnames hdistinct List.mem_cons_self,
    Xml.text_response hnames hdistinct (List.mem_cons_of_mem _ (List.mem_singleton_self _))⟩

theorem text_paired : Xml.text (Xml.response 200 none [("paired".toList, "1".toList)]) "paired".toList =
    some (Text.trim "1".toList) :=
  Xml.text_response (List.forall_mem_singleton.mpr (by decide)) (List.nodup_singleton _) (List.mem_singleton_self _)

/-! ### Whole blocks -/

theorem asChunks_append {data more : List UInt8} (h : data.length % 16 = 0) (hmore : more.length % 16 = 0) :
    Crypto.asChunks (data ++ more) = Crypto.asChunks data ++ Crypto.asChunks more := by
  have hbytes : data ++ more = Crypto.bytes (Crypto.asChunks data ++ Crypto.asChunks more) := by
    rw [Crypto.bytes, List.flatMap_append, ← Crypto.bytes, ← Crypto.bytes, Crypto.bytes_asChunks h,
      Crypto.bytes_asChunks hmore]
  rw [hbytes, Crypto.asChunks_bytes]

theorem eachBlock_append (f : Block → Block) {data more : List UInt8} (h : data.length % 16 = 0)
    (hmore : more.length % 16 = 0) : Crypto.bytes ((Crypto.asChunks (data ++ more)).map f) =
      Crypto.bytes ((Crypto.asChunks data).map f) ++ Crypto.bytes ((Crypto.asChunks more).map f) := by
  rw [asChunks_append h hmore, List.map_append, Crypto.bytes, List.flatMap_append]
  rfl

theorem length_eachBlock (f : Block → Block) {data : List UInt8} (h : data.length % 16 = 0) :
    (Crypto.bytes ((Crypto.asChunks data).map f)).length = data.length := by
  rw [Crypto.length_bytes, List.length_map, Crypto.length_asChunks]
  omega

theorem ecbEncrypt_append (crypto : Cryptography) (key : Vector UInt8 16) {data more : List UInt8}
    (h : data.length % 16 = 0) (hmore : more.length % 16 = 0) :
    crypto.ecbEncrypt key (data ++ more) = crypto.ecbEncrypt key data ++ crypto.ecbEncrypt key more :=
  eachBlock_append _ h hmore

theorem ecbDecrypt_append (crypto : Cryptography) (key : Vector UInt8 16) {data more : List UInt8}
    (h : data.length % 16 = 0) (hmore : more.length % 16 = 0) :
    crypto.ecbDecrypt key (data ++ more) = crypto.ecbDecrypt key data ++ crypto.ecbDecrypt key more :=
  eachBlock_append _ h hmore

theorem length_ecbEncrypt (crypto : Cryptography) (key : Vector UInt8 16) {data : List UInt8}
    (h : data.length % 16 = 0) : (crypto.ecbEncrypt key data).length = data.length := length_eachBlock _ h

theorem length_ecbDecrypt (crypto : Cryptography) (key : Vector UInt8 16) {data : List UInt8}
    (h : data.length % 16 = 0) : (crypto.ecbDecrypt key data).length = data.length := length_eachBlock _ h

theorem ecbDecrypt_ecbEncrypt (crypto : Cryptography) (key : Vector UInt8 16) {data : List UInt8}
    (h : data.length % 16 = 0) : crypto.ecbDecrypt key (crypto.ecbEncrypt key data) = data := by
  have hboth : crypto.aes.decrypt key ∘ crypto.aes.encrypt key = id := funext (crypto.aes.decrypt_encrypt key)
  rw [Cryptography.ecbDecrypt, Cryptography.ecbEncrypt, Crypto.asChunks_bytes, List.map_map, hboth, List.map_id,
    Crypto.bytes_asChunks h]

section

open Client

variable {crypto : ClientCryptography} {server client : Identity crypto.toCryptography} {m : Meeting}
  {host : GameStreamServer} {deviceName : Text}

/-! ### What the client demands -/

theorem demand_true (requests : Bool → Query → Client GameStreamServer Text) {condition : Bool} (h : condition = true)
    (error : GameStreamError) (s : GameStreamServer) : demand requests condition error s = some (.ok (), s) := by
  rw [demand, if_pos h]
  rfl

theorem demand_false {requests : Bool → Query → Client GameStreamServer Text} {condition : Bool}
    {s s' : GameStreamServer} {answer : Except GameStreamError Text} (h : condition = false)
    (hunpair : requests false [("phrase".toList, "unpair".toList)] s = some (answer, s')) (error : GameStreamError) :
    demand requests condition error s = some (.error error, s') := by
  rw [demand, if_neg (Bool.eq_false_iff.mp h), unpair, bind_ok (attempt_eq hunpair)]
  rfl

/-- The names of a request for a step are not those of a phrase. -/
theorem no_phrase {name : String} (v : Text) (hname : name ≠ "phrase") (phrase : Text)
    (h : HostPairing.value (base deviceName name v) "phrase" = some phrase) :
    phrase ≠ "getservercert".toList ∧ phrase ≠ "pairchallenge".toList := by
  simp only [base, HostPairing.value_cons, HostPairing.value_nil, String.reduceEq, if_false, if_neg hname] at h
  cases h

variable {pairing : HostPairing} {key ours : Vector UInt8 16}

section

variable {crypto : Cryptography} {server : Credentials} {der : List UInt8} {bytes : List UInt8}

theorem against_challenge (hpending : host.pending m.uniqueId = some ⟨pairing, false⟩) (hkey : pairing.key = some key)
    (hphase : pairing.phase = .serverCert) :
    against crypto server der m false (base deviceName "clientchallenge" (encodeHex bytes)) host =
      some (.ok (challengeAnswer crypto server key bytes m.secret m.drawn),
        host.setPending m.uniqueId (some ⟨{ pairing with
          phase := .clientChallenge, serverSecret := m.secret, serverChallenge := m.drawn }, false⟩)) :=
  against_next (no_phrase _ (by decide)) hpending (step_challenge hkey hphase)

theorem against_response (hpending : host.pending m.uniqueId = some ⟨pairing, false⟩) (hkey : pairing.key = some key)
    (hphase : pairing.phase = .clientChallenge) :
    against crypto server der m false (base deviceName "serverchallengeresp" (encodeHex bytes)) host =
      some (.ok (secretAnswer server pairing.serverSecret), host.setPending m.uniqueId (some ⟨{ pairing with
        phase := .serverChallengeResponse, clientHash := crypto.ecbDecrypt key bytes }, false⟩)) :=
  against_next (no_phrase _ (by decide)) hpending (step_response hkey hphase)

theorem against_secret {signature : List UInt8} (hpending : host.pending m.uniqueId = some ⟨pairing, false⟩)
    (hkey : pairing.key = some key) (hphase : pairing.phase = .serverChallengeResponse) (hlong : 16 < bytes.length)
    (hsignature : crypto.certificateSignature pairing.clientCert = some signature)
    (hdigest : (crypto.sha256 (pairing.serverChallenge.toList ++ signature ++ bytes.take 16)).toList =
      pairing.clientHash.take 32)
    (hverify : crypto.verify pairing.clientCert (bytes.take 16) (bytes.drop 16) = true) :
    against crypto server der m false (base deviceName "clientpairingsecret" (encodeHex bytes)) host =
      some (.ok (Xml.response 200 none [("paired".toList, "1".toList)]),
        (host.pinClient pairing.clientCert).setPending m.uniqueId none) :=
  against_next (no_phrase _ (by decide)) hpending (step_secret hkey hphase hlong hsignature hdigest hverify)

theorem against_unpair (hpending : host.pending m.uniqueId = some ⟨pairing, false⟩) (hkey : pairing.key = some key) :
    against crypto server der m false [("phrase".toList, "unpair".toList)] host =
      some (.ok (fail "Invalid pairing request").xml, host.setPending m.uniqueId none) := by
  refine against_next (fun phrase h => ?_) hpending (step_unpair hkey)
  rw [HostPairing.value_cons, if_pos rfl] at h
  cases h
  decide

end

/-- What the client is told of the host's hash, and of its challenge. -/
def told (crypto : Cryptography) (server : Credentials) (m : Meeting) (ours key : Vector UInt8 16)
    (challenge : Vector UInt8 16) : List UInt8 :=
  crypto.ecbDecrypt ours (crypto.ecbEncrypt key
    ((crypto.sha256 (crypto.ecbDecrypt key (crypto.ecbEncrypt ours challenge.toList) ++ server.signature ++
      m.secret.toList)).toList ++ m.drawn.toList))

variable (server client deviceName)

theorem requestServerCert_eq (salt : Vector UInt8 16)
    (hwaiting : (host.pending m.uniqueId).any Pending.waiting = false) :
    requestServerCert crypto (against crypto.toCryptography server.toCredentials client.certDer m) client.toCredentials
        deviceName salt host =
      some (.ok server.certDer, host.setPending m.uniqueId (some ⟨((freshPairing client.certDer deviceName salt).pin
        crypto.toCryptography server.toCredentials m.typed).2, false⟩)) := by
  obtain ⟨hpaired, hcert⟩ := text_pair (a := "paired") (b := "plaincert") (by decide) (by decide) (by decide)
    "1".toList (encodeHex server.certPem)
  unfold requestServerCert
  rw [bind_ok (against_first client salt hwaiting)]
  generalize host.setPending m.uniqueId _ = next
  rw [show ((freshPairing client.certDer deviceName salt).pin crypto.toCryptography server.toCredentials m.typed).1 =
    Xml.response 200 none [("paired".toList, "1".toList), ("plaincert".toList, encodeHex server.certPem)] from rfl,
    bind_ok (ok_eq _ next)]
  rw [trim_encodeHex] at hcert
  dsimp only
  rw [if_neg (not_not_intro (isPaired_eq hpaired)), bind_ok (hex_eq hcert next)]
  have hfilter : (some server.certPem).filter (¬ ·.isEmpty) = some server.certPem := by
    rw [Option.filter_some_pos]
    simpa using server.certPem_ne_nil
  rw [hfilter]
  dsimp only
  rw [server.pemToDer_certPem]
  rfl

/-- What comes of the host's hash does not depend on its challenge. -/
theorem take_told (challenge : Vector UInt8 16) :
    (told crypto.toCryptography server.toCredentials m ours key challenge).take 32 =
      crypto.ecbDecrypt ours (crypto.ecbEncrypt key (crypto.sha256 (crypto.ecbDecrypt key
        (crypto.ecbEncrypt ours challenge.toList) ++ server.signature ++ m.secret.toList)).toList) := by
  generalize hdigest : crypto.sha256 (crypto.ecbDecrypt key (crypto.ecbEncrypt ours challenge.toList) ++
    server.signature ++ m.secret.toList) = digest
  have hwhole : digest.toList.length % 16 = 0 := by rw [Vector.length_toList]
  have hdrawn : m.drawn.toList.length % 16 = 0 := by rw [Vector.length_toList]
  have hsealed : (crypto.ecbEncrypt key digest.toList).length = digest.toList.length := length_ecbEncrypt _ _ hwhole
  have hmore : (crypto.ecbEncrypt key m.drawn.toList).length = m.drawn.toList.length := length_ecbEncrypt _ _ hdrawn
  have hlength : (crypto.ecbDecrypt ours (crypto.ecbEncrypt key digest.toList)).length = 32 := by
    rw [length_ecbDecrypt _ _ (hsealed ▸ hwhole), hsealed, Vector.length_toList]
  rw [told, hdigest, ecbEncrypt_append _ _ hwhole hdrawn, ecbDecrypt_append _ _ (hsealed ▸ hwhole) (hmore ▸ hdrawn),
    List.take_left' hlength]

theorem requestResponse_eq (ours : Vector UInt8 16) (hpending : host.pending m.uniqueId = some ⟨pairing, false⟩)
    (hkey : pairing.key = some key) (hphase : pairing.phase = .serverCert) (challenge : Vector UInt8 16) :
    requestResponse crypto (against crypto.toCryptography server.toCredentials client.certDer m) .sha256 ours deviceName
        challenge host =
      some (.ok ((told crypto.toCryptography server.toCredentials m ours key challenge).take 32,
          ((told crypto.toCryptography server.toCredentials m ours key challenge).drop 32).take 16),
        host.setPending m.uniqueId (some ⟨{ pairing with
          phase := .clientChallenge, serverSecret := m.secret, serverChallenge := m.drawn }, false⟩)) := by
  generalize hdigest : (crypto.sha256 (crypto.ecbDecrypt key (crypto.ecbEncrypt ours challenge.toList) ++
    server.signature ++ m.secret.toList)).toList = digest
  have hanswer : challengeAnswer crypto.toCryptography server.toCredentials key
      (crypto.ecbEncrypt ours challenge.toList) m.secret m.drawn = Xml.response 200 none [("paired".toList, "1".toList),
        ("challengeresponse".toList, encodeHex (crypto.ecbEncrypt key (digest ++ m.drawn.toList)))] := by
    rw [← hdigest]
    rfl
  obtain ⟨hpaired, hresponse⟩ := text_pair (a := "paired") (b := "challengeresponse") (by decide) (by decide)
    (by decide) "1".toList (encodeHex (crypto.ecbEncrypt key (digest ++ m.drawn.toList)))
  rw [trim_encodeHex] at hresponse
  have htold : told crypto.toCryptography server.toCredentials m ours key challenge =
      crypto.ecbDecrypt ours (crypto.ecbEncrypt key (digest ++ m.drawn.toList)) := by rw [told, hdigest]
  have hlength : (digest ++ m.drawn.toList).length = 48 := by
    rw [← hdigest, List.length_append, Vector.length_toList, Vector.length_toList]
  have hwhole : (digest ++ m.drawn.toList).length % 16 = 0 := by rw [hlength]
  have hlong : Hash.outputLen .sha256 + 16 ≤
      (told crypto.toCryptography server.toCredentials m ours key challenge).length := by
    have hsealed := length_ecbEncrypt crypto.toCryptography key hwhole
    rw [htold, length_ecbDecrypt _ _ (hsealed ▸ hwhole), hsealed, hlength]
    rfl
  unfold requestResponse
  rw [bind_ok (against_challenge hpending hkey hphase), hanswer,
    bind_ok (demand_true _ (isPaired_eq hpaired) _ _), bind_ok (hex_eq hresponse _)]
  dsimp only [Option.getD_some]
  simp only [← htold]
  rw [bind_ok (demand_true _ (decide_eq_true hlong) _ _)]
  rfl

theorem requestSecret_eq (ours : Vector UInt8 16) (hpending : host.pending m.uniqueId = some ⟨pairing, false⟩)
    (hkey : pairing.key = some key) (hphase : pairing.phase = .clientChallenge) (padded : List UInt8) :
    requestSecret crypto (against crypto.toCryptography server.toCredentials client.certDer m) ours deviceName padded
        host =
      some (.ok (pairing.serverSecret.toList, server.sign pairing.serverSecret.toList),
        host.setPending m.uniqueId (some ⟨{ pairing with
          phase := .serverChallengeResponse
          clientHash := crypto.ecbDecrypt key (crypto.ecbEncrypt ours padded) }, false⟩)) := by
  obtain ⟨hsecret, hpaired⟩ := text_pair (a := "pairingsecret") (b := "paired") (by decide) (by decide) (by decide)
    (encodeHex (pairing.serverSecret.toList ++ server.sign pairing.serverSecret.toList)) "1".toList
  rw [trim_encodeHex] at hsecret
  have hlength : pairing.serverSecret.toList.length = 16 := Vector.length_toList
  have hlong : 16 < (pairing.serverSecret.toList ++ server.sign pairing.serverSecret.toList).length := by
    have hpos := List.length_pos_of_ne_nil (server.sign_ne_nil pairing.serverSecret.toList)
    rw [List.length_append, hlength]
    omega
  unfold requestSecret
  rw [bind_ok (against_response hpending hkey hphase), show secretAnswer server.toCredentials pairing.serverSecret =
    Xml.response 200 none [("pairingsecret".toList, encodeHex (pairing.serverSecret.toList ++
      server.sign pairing.serverSecret.toList)), ("paired".toList, "1".toList)] from rfl,
    bind_ok (demand_true _ (isPaired_eq hpaired) _ _), bind_ok (hex_eq hsecret _)]
  dsimp only [Option.getD_some]
  rw [bind_ok (demand_true _ (decide_eq_true hlong) _ _), List.take_left' hlength, List.drop_left' hlength]
  rfl

/-- The signature verifies; then the hash is compared. -/
theorem checkSecret_eq {requests : Bool → Query → Client GameStreamServer Text} (challenge : Vector UInt8 16)
    (serverResponse serverSecret : List UInt8) :
    checkSecret crypto requests .sha256 server.certDer challenge serverResponse serverSecret
        (server.sign serverSecret) host =
      demand requests ((crypto.sha256 (challenge.toList ++ server.signature ++ serverSecret)).toList = serverResponse)
        .wrongPin host := by
  unfold checkSecret
  rw [bind_ok (demand_true _ (server.verify_sign serverSecret) _ _), server.certificateSignature_certDer]
  rfl

theorem sendSecret_eq (hpending : host.pending m.uniqueId = some ⟨pairing, false⟩) (hkey : pairing.key = some key)
    (hphase : pairing.phase = .serverChallengeResponse) (hcert : pairing.clientCert = client.certDer)
    (clientSecret : Vector UInt8 16)
    (hdigest : (crypto.sha256 (pairing.serverChallenge.toList ++ client.signature ++ clientSecret.toList)).toList =
      pairing.clientHash.take 32) :
    sendSecret (against crypto.toCryptography server.toCredentials client.certDer m) client.toCredentials deviceName
        clientSecret host =
      some (.ok (), (host.pinClient client.certDer).setPending m.uniqueId none) := by
  have hlength : clientSecret.toList.length = 16 := Vector.length_toList
  have htake : (clientSecret.toList ++ client.sign clientSecret.toList).take 16 = clientSecret.toList :=
    List.take_left' hlength
  have hdrop : (clientSecret.toList ++ client.sign clientSecret.toList).drop 16 = client.sign clientSecret.toList :=
    List.drop_left' hlength
  have hlong : 16 < (clientSecret.toList ++ client.sign clientSecret.toList).length := by
    have hpos := List.length_pos_of_ne_nil (client.sign_ne_nil clientSecret.toList)
    rw [List.length_append, hlength]
    omega
  have hsignature : crypto.certificateSignature pairing.clientCert = some client.signature := by
    rw [hcert]
    exact client.certificateSignature_certDer
  have hverify : crypto.verify pairing.clientCert clientSecret.toList (client.sign clientSecret.toList) = true := by
    rw [hcert]
    exact client.verify_sign _
  rw [← htake] at hdigest
  unfold sendSecret
  rw [bind_ok (against_secret hpending hkey hphase hlong hsignature hdigest (by rw [htake, hdrop]; exact hverify)),
    hcert]
  exact demand_true _ (isPaired_eq text_paired) _ _

theorem checkHttps_eq (hpinned : client.certDer ∈ host.paired) :
    checkHttps (against crypto.toCryptography server.toCredentials client.certDer m) deviceName host =
      some (.ok (), host) := by
  unfold checkHttps
  rw [bind_ok (against_https hpinned)]
  exact demand_true _ (isPaired_eq text_paired) _ _

theorem pending_setPending (host : GameStreamServer) (uniqueId : Text) (p : Option Pending) :
    (host.setPending uniqueId p).pending uniqueId = p := Function.update_self _ _ _

/-- Up to the check of the host's hash, a pairing goes its way with every PIN. -/
theorem pairClient_eq {pin : Text} {draws : Draws} {response padded : List UInt8}
    (hwaiting : (host.pending m.uniqueId).any Pending.waiting = false) (hours : crypto.pinKey draws.salt pin = ours)
    (hkey : crypto.pinKey draws.salt m.typed = key)
    (htold : told crypto.toCryptography server.toCredentials m ours key draws.challenge = response)
    (hpadded : paddedAnswer crypto .sha256 client.toCredentials ((response.drop 32).take 16) draws.clientSecret =
      padded) :
    ∃ reached pairing, reached.pending m.uniqueId = some ⟨pairing, false⟩ ∧ reached.paired = host.paired ∧
      pairing.key = some key ∧ pairing.phase = .serverChallengeResponse ∧ pairing.clientCert = client.certDer ∧
      pairing.serverChallenge = m.drawn ∧
      pairing.clientHash = crypto.ecbDecrypt key (crypto.ecbEncrypt ours padded) ∧
      pairClient crypto (against crypto.toCryptography server.toCredentials client.certDer m) client.toCredentials
          APP_VERSION pin deviceName draws host =
        (do
          demand (against crypto.toCryptography server.toCredentials client.certDer m)
            ((crypto.sha256 (draws.challenge.toList ++ server.signature ++ m.secret.toList)).toList = response.take 32)
            .wrongPin
          sendSecret (against crypto.toCryptography server.toCredentials client.certDer m) client.toCredentials
            deviceName draws.clientSecret
          checkHttps (against crypto.toCryptography server.toCredentials client.certDer m) deviceName
          return server.certDer : Client GameStreamServer (List UInt8)) reached := by
  have hversion : Hash.forAppVersion APP_VERSION = .sha256 := by decide +kernel
  let first : HostPairing := ((freshPairing client.certDer deviceName draws.salt).pin crypto.toCryptography
    server.toCredentials m.typed).2
  let second : HostPairing :=
    { first with phase := .clientChallenge, serverSecret := m.secret, serverChallenge := m.drawn }
  let third : HostPairing :=
    { second with
      phase := .serverChallengeResponse, clientHash := crypto.ecbDecrypt key (crypto.ecbEncrypt ours padded) }
  have hfirst : first.key = some key := congrArg some hkey
  let at₁ := host.setPending m.uniqueId (some ⟨first, false⟩)
  let at₂ := at₁.setPending m.uniqueId (some ⟨second, false⟩)
  refine ⟨at₂.setPending m.uniqueId (some ⟨third, false⟩), third, pending_setPending _ _ _, rfl, hfirst, rfl, rfl, rfl,
    rfl, ?_⟩
  have hcert := requestServerCert_eq server client deviceName draws.salt hwaiting
  have hresponse := requestResponse_eq server client deviceName ours
    (pending_setPending host m.uniqueId (some ⟨first, false⟩)) hfirst rfl draws.challenge
  have hsecret := requestSecret_eq server client deviceName ours
    (pending_setPending at₁ m.uniqueId (some ⟨second, false⟩)) hfirst rfl padded
  unfold pairClient
  rw [hversion]
  dsimp only [Hash.pinKey]
  rw [hours, bind_ok hcert, bind_ok hresponse]
  dsimp only
  rw [htold, hpadded, bind_ok hsecret]
  exact bind_congr (checkSecret_eq server _ _ _)

/-- **With the PIN that is typed, both ends are paired**, and nobody else is. -/
theorem pairClient_same (draws : Draws) (hwaiting : (host.pending m.uniqueId).any Pending.waiting = false) :
    ∃ host', pairClient crypto (against crypto.toCryptography server.toCredentials client.certDer m)
          client.toCredentials APP_VERSION m.typed deviceName draws host = some (.ok server.certDer, host') ∧
      client.certDer ∈ host'.paired ∧ ∀ cert ∈ host'.paired, cert = client.certDer ∨ cert ∈ host.paired := by
  generalize hkey : crypto.pinKey draws.salt m.typed = key
  generalize hdigest : crypto.sha256 (draws.challenge.toList ++ server.signature ++ m.secret.toList) = digest
  generalize hours : crypto.sha256 (m.drawn.toList ++ client.signature ++ draws.clientSecret.toList) = ours
  have htold : told crypto.toCryptography server.toCredentials m key key draws.challenge =
      digest.toList ++ m.drawn.toList := by
    have hlength : (digest.toList ++ m.drawn.toList).length % 16 = 0 := by
      rw [List.length_append, Vector.length_toList, Vector.length_toList]
    have hchallenge : draws.challenge.toList.length % 16 = 0 := by rw [Vector.length_toList]
    rw [told, ecbDecrypt_ecbEncrypt _ _ hchallenge, hdigest, ecbDecrypt_ecbEncrypt _ _ hlength]
  have hdrop : (digest.toList ++ m.drawn.toList).drop 32 = m.drawn.toList := List.drop_left' Vector.length_toList
  have htake : (digest.toList ++ m.drawn.toList).take 32 = digest.toList := List.take_left' Vector.length_toList
  have hpadded : paddedAnswer crypto .sha256 client.toCredentials
      (((digest.toList ++ m.drawn.toList).drop 32).take 16) draws.clientSecret = ours.toList := by
    have hdrawn : m.drawn.toList.take 16 = m.drawn.toList := List.take_of_length_le (by rw [Vector.length_toList])
    rw [hdrop, hdrawn, paddedAnswer]
    dsimp only [Hash.digest]
    rw [hours, Vector.length_toList, List.take_of_length_le (by rw [Vector.length_toList])]
    exact List.append_nil _
  obtain ⟨reached, pairing, hpending, hbefore, hheld, hphase, hcert, hdrawn, hhash, hrun⟩ :=
    pairClient_eq server client deviceName hwaiting hkey hkey htold hpadded
  have hsent : (crypto.sha256 (pairing.serverChallenge.toList ++ client.signature ++
      draws.clientSecret.toList)).toList = pairing.clientHash.take 32 := by
    have hlength : ours.toList.length = 32 := Vector.length_toList
    rw [hdrawn, hours, hhash, ecbDecrypt_ecbEncrypt _ _ (by rw [hlength]), List.take_of_length_le hlength.le]
  have hsecret := sendSecret_eq server client deviceName hpending hheld hphase hcert draws.clientSecret hsent
  have hpinned : client.certDer ∈ ((reached.pinClient client.certDer).setPending m.uniqueId none).paired :=
    GameStreamServer.mem_pinClient.mpr (.inl rfl)
  refine ⟨(reached.pinClient client.certDer).setPending m.uniqueId none, ?_, hpinned, fun cert hmem => ?_⟩
  · rw [hrun, bind_ok (demand_true _ (decide_eq_true (by rw [hdigest, htake])) _ _), bind_ok hsecret,
      bind_ok (checkHttps_eq server client deviceName hpinned)]
    rfl
  · exact (GameStreamServer.mem_pinClient.mp hmem).imp_right fun hold => hbefore ▸ hold

/-! ### Another PIN -/

/-- What was enciphered under another key comes to no hash, and of these PINs no two make the same key. -/
structure Symbolic (crypto : Cryptography) (pins : Set Text) : Prop where
  other_key : ∀ key key' data data', key ≠ key' →
    crypto.ecbDecrypt key (crypto.ecbEncrypt key' (crypto.sha256 data).toList) ≠ (crypto.sha256 data').toList
  other_pin : ∀ salt, ∀ pin ∈ pins, ∀ pin' ∈ pins, crypto.pinKey salt pin = crypto.pinKey salt pin' → pin = pin'

/-- **With another PIN the client says so, and nobody is paired.** -/
theorem pairClient_other {pins : Set Text} {pin : Text} (hsymbolic : Symbolic crypto.toCryptography pins)
    (hpin : pin ∈ pins) (htyped : m.typed ∈ pins) (hne : pin ≠ m.typed) (draws : Draws)
    (hwaiting : (host.pending m.uniqueId).any Pending.waiting = false) :
    ∃ host', pairClient crypto (against crypto.toCryptography server.toCredentials client.certDer m)
          client.toCredentials APP_VERSION pin deviceName draws host = some (.error .wrongPin, host') ∧
      host'.paired = host.paired := by
  have hkeys : crypto.pinKey draws.salt pin ≠ crypto.pinKey draws.salt m.typed := fun heq =>
    hne (hsymbolic.other_pin _ _ hpin _ htyped heq)
  generalize hours : crypto.pinKey draws.salt pin = ours at hkeys
  generalize hkey : crypto.pinKey draws.salt m.typed = key at hkeys
  obtain ⟨reached, pairing, hpending, hbefore, hheld, -, -, -, -, hrun⟩ :=
    pairClient_eq server client deviceName hwaiting hours hkey rfl rfl
  refine ⟨reached.setPending m.uniqueId none, ?_, hbefore⟩
  have hwrong : (crypto.sha256 (draws.challenge.toList ++ server.signature ++ m.secret.toList)).toList ≠
      (told crypto.toCryptography server.toCredentials m ours key draws.challenge).take 32 := by
    rw [take_told]
    exact (hsymbolic.other_key _ _ _ _ hkeys).symm
  rw [hrun, bind_error (demand_false (decide_eq_false hwrong) (against_unpair hpending hheld) _)]

end

/-- **Who is paired has done all the steps of one run, and the two ends agree**: with the PIN that is typed
both are paired, and with another one the client says so and nobody is. -/
theorem pairing_course (crypto : ClientCryptography) :
    (∀ (server : Credentials) (known : List (List UInt8)) (events : List Event) (h : History),
      events.foldlM (History.step crypto.toCryptography server) (.opened known) = some h →
        Sound crypto.toCryptography server known h) ∧
    ∀ (server client : Identity crypto.toCryptography) (m : Meeting) (host : GameStreamServer) (deviceName : Text)
      (draws : Draws), (host.pending m.uniqueId).any Pending.waiting = false →
      (∃ host', pairClient crypto (against crypto.toCryptography server.toCredentials client.certDer m)
          client.toCredentials APP_VERSION m.typed deviceName draws host = some (.ok server.certDer, host') ∧
        client.certDer ∈ host'.paired ∧ ∀ cert ∈ host'.paired, cert = client.certDer ∨ cert ∈ host.paired) ∧
      ∀ pins pin, Symbolic crypto.toCryptography pins → pin ∈ pins → m.typed ∈ pins → pin ≠ m.typed →
        ∃ host', pairClient crypto (against crypto.toCryptography server.toCredentials client.certDer m)
            client.toCredentials APP_VERSION pin deviceName draws host = some (.error .wrongPin, host') ∧
          host'.paired = host.paired := by
  refine ⟨fun server known events h hrun => sound_of_run hrun, ?_⟩
  intro server client m host deviceName draws hwaiting
  refine ⟨pairClient_same server client deviceName draws hwaiting, ?_⟩
  intro pins pin hsymbolic hpin htyped hne
  exact pairClient_other server client deviceName hsymbolic hpin htyped hne draws hwaiting

/-! ### A cryptography of its own -/

/-- A cryptography that keeps apart what ought to be: the hash of bytes is their last one, a key is
added to a block, and what is signed shows who signed it. -/
def plainCryptography : ClientCryptography where
  aes := ⟨fun key block => Crypto.xor block key, fun key block => Crypto.xor block key,
    fun key block => Crypto.xor_xor block key⟩
  sha256 data := ⟨(data.getLast?.getD 0 :: List.replicate 31 0).toArray, rfl⟩
  pemToDer := some
  certificateSignature := some
  verify cert data signature := signature = cert ++ data
  sha1 data := ⟨(data.getLast?.getD 0 :: List.replicate 19 0).toArray, rfl⟩

/-- A name for a certificate. -/
def plainIdentity (name : UInt8) : Identity plainCryptography.toCryptography where
  certPem := [name]
  signature := [name]
  sign data := name :: data
  certDer := [name]
  certPem_ne_nil := List.cons_ne_nil _ _
  pemToDer_certPem := rfl
  certificateSignature_certDer := rfl
  sign_ne_nil _ := List.cons_ne_nil _ _
  verify_sign _ := decide_eq_true rfl

/-- The first block of a hash, where the second one is empty. -/
theorem sha256_plain (data : List UInt8) : ∃ block : Block,
    (plainCryptography.sha256 data).toList = Crypto.bytes [block, Vector.replicate 16 0] := by
  exact ⟨⟨(data.getLast?.getD 0 :: List.replicate 15 0).toArray, rfl⟩, rfl⟩

theorem symbolic_plain : Symbolic plainCryptography.toCryptography {"1234".toList, "0000".toList} where
  other_key key key' data data' hne heq := by
    obtain ⟨block, hblock⟩ := sha256_plain data
    obtain ⟨block', hblock'⟩ := sha256_plain data'
    rw [hblock, hblock', Cryptography.ecbDecrypt, Cryptography.ecbEncrypt, Crypto.asChunks_bytes, Crypto.asChunks_bytes]
      at heq
    have hblocks := congrArg Crypto.asChunks heq
    rw [Crypto.asChunks_bytes, Crypto.asChunks_bytes] at hblocks
    -- the empty block of the one hash comes to that of the other only under the same key
    have hsecond : Crypto.xor (Crypto.xor (Vector.replicate 16 0) key') key = Vector.replicate 16 0 :=
      (List.cons.inj (List.cons.inj hblocks).2).1
    have hkey (k : Block) : Crypto.xor (Vector.replicate 16 0) k = k := by
      refine Vector.ext fun i hi => ?_
      rw [Crypto.xor, Vector.getElem_zipWith, Vector.getElem_replicate, UInt8.zero_xor]
    rw [hkey] at hsecond
    refine hne ?_
    calc key = Crypto.xor (Vector.replicate 16 0) key := (hkey key).symm
      _ = Crypto.xor (Crypto.xor key' key) key := by rw [hsecond]
      _ = key' := Crypto.xor_xor key' key
  other_pin salt pin hpin pin' hpin' heq := by
    have hlast (pin : Text) (c : UInt8) (h : (Utf8.encode pin).getLast? = some c) :
        (plainCryptography.pinKey salt pin)[0] = c := by
      rw [Cryptography.pinKey, Vector.getElem_ofFn]
      show (salt.toList ++ Utf8.encode pin).getLast?.getD 0 = c
      rw [List.getLast?_append, h]
      rfl
    have hfirst := hlast "1234".toList 0x34 (by decide)
    have hother := hlast "0000".toList 0x30 (by decide)
    rcases hpin with rfl | rfl <;> rcases hpin' with rfl | rfl
    · rfl
    · rw [heq, hother] at hfirst
      cases hfirst
    · rw [heq, hfirst] at hother
      cases hother
    · rfl

/-- A pairing of two such, where `1234` is typed. -/
def plainCourse (pin : Text) : Option (Except GameStreamError (List UInt8) × GameStreamServer) :=
  let meeting : Meeting :=
    ⟨"tv".toList, "1".toList, "1234".toList, Vector.replicate 16 3, Vector.replicate 16 4⟩
  let draws : Draws := ⟨Vector.replicate 16 5, Vector.replicate 16 6, Vector.replicate 16 7⟩
  pairClient plainCryptography
    (against plainCryptography.toCryptography (plainIdentity 1).toCredentials (plainIdentity 2).certDer meeting)
    (plainIdentity 2).toCredentials APP_VERSION pin "TV".toList draws (.opened [])

theorem pairing_course_plain :
    Sound plainCryptography.toCryptography (plainIdentity 1).toCredentials []
      ⟨(GameStreamServer.opened []).giveUp [], [(.giveUp [], .nothing)]⟩ ∧
    (∃ host, plainCourse "1234".toList = some (.ok [1], host) ∧ [2] ∈ host.paired ∧
      ∀ cert ∈ host.paired, cert = [2] ∨ cert ∈ []) ∧
    ∃ host, plainCourse "0000".toList = some (.error .wrongPin, host) ∧ host.paired = [] := by
  have hboth := (pairing_course plainCryptography).2 (plainIdentity 1) (plainIdentity 2)
    ⟨"tv".toList, "1".toList, "1234".toList, Vector.replicate 16 3, Vector.replicate 16 4⟩ (.opened []) "TV".toList
    ⟨Vector.replicate 16 5, Vector.replicate 16 6, Vector.replicate 16 7⟩ rfl
  exact ⟨(pairing_course plainCryptography).1 _ [] [.giveUp []] _ rfl, hboth.1,
    hboth.2 _ "0000".toList symbolic_plain (.inr rfl) (.inl rfl) (by decide)⟩

end WindowCast.GameStream
