import WindowCast.GameStream.HostPairing
import WindowCast.Lib.Run

/-!
# The pairings of a host

`pair` and `enter_pin` of `gamestream/src/server.rs`: the pairings that are under way, each
under the name its client goes by, the person who types their PINs, and the certificates
that are pinned.  A request whose first values cannot be read is dropped; where reading one
panics with the pairings locked, there is no next state, since nothing gets at them any more.

## Main definitions

* `GameStreamServer` — the pairings under way, and the certificates pinned.
* `pair`, `enterPin`, `giveUp` — what happens to them.
* `History` — a host and what came of everything so far.
* `Spares` — what leaves the pairing of a client as it was.
* `Started`, `Typed`, `Challenged`, `Responded` — how far a pairing has come.

## Main results

* `stands_step` — one step of the invariant: a pairing is where its last steps left it.
* `sound_of_run` — **a certificate is answered for only after all the steps of one run**.
-/

namespace WindowCast.GameStream

open Xml (encodeHex)

/-- A pairing under way, and whether its first request is held until the PIN is typed. -/
structure Pending where
  pairing : HostPairing
  waiting : Bool

/-- The pairings, by the names of their clients, and the certificates pinned. -/
structure GameStreamServer where
  pending : Text → Option Pending
  paired : List (List UInt8)

/-- What comes of a request, or of a PIN for one that is held. -/
inductive Reply where
  | nothing
  | held
  /-- A document, and the certificate that is paired with it, if there is one. -/
  | answered (xml : Text) (paired : Option (List UInt8)) : Reply

namespace GameStreamServer

variable (crypto : Cryptography) (server : Credentials)

/-- Only the certificates that were read from the disk are pinned. -/
def opened (paired : List (List UInt8)) : GameStreamServer := ⟨fun _ => none, paired⟩

def pinClient (self : GameStreamServer) (cert : List UInt8) : GameStreamServer :=
  if cert ∈ self.paired then self else { self with paired := self.paired ++ [cert] }

theorem mem_pinClient {self : GameStreamServer} {cert known : List UInt8} :
    known ∈ (self.pinClient cert).paired ↔ known = cert ∨ known ∈ self.paired := by
  rw [pinClient]
  split
  · rename_i hmem
    exact ⟨.inr, fun h => h.elim (fun heq => heq ▸ hmem) id⟩
  · rw [List.mem_append, List.mem_singleton, or_comm]

def setPending (self : GameStreamServer) (uniqueId : Text) (pending : Option Pending) : GameStreamServer :=
  { self with pending := Function.update self.pending uniqueId pending }

/-- The first value of this name, or an empty one. -/
def given (query : Query) (name : String) : Text := (HostPairing.value query name).getD []

/-- `getservercert`: the request is held, unless one of this client is already. -/
def getServerCert (self : GameStreamServer) (uniqueId : Text) (query : Query) : Reply × GameStreamServer :=
  match HostPairing.start crypto (given query "salt") (given query "clientcert") (given query "devicename") with
  | none => (.nothing, self)
  | some (.error message) =>
    (.answered (Xml.response 400 (some message.toList) [("paired".toList, "0".toList)]) none, self)
  | some (.ok pairing) =>
    if (self.pending uniqueId).any Pending.waiting then
      (.answered (Xml.response 409 (some "A pairing session with this uniqueid already exists".toList)
        [("paired".toList, "0".toList)]) none, self)
    else (.held, self.setPending uniqueId (some ⟨pairing, true⟩))

/-- A step of the pairing of this client. -/
def nextStep (self : GameStreamServer) (uniqueId : Text) (query : Query) (secret drawn : Vector UInt8 16) :
    Option (Reply × GameStreamServer) :=
  match self.pending uniqueId with
  | none => some (.answered (Xml.response 400 (some "Invalid uniqueid".toList) []) none, self)
  | some waiting =>
    match waiting.pairing.step crypto server query secret drawn with
    | none => none
    | some (step, pairing) =>
      let self := step.paired.elim self self.pinClient
      some (.answered step.xml step.paired,
        self.setPending uniqueId (if step.done then none else some { waiting with pairing }))

/-- One `/pair` request, with what is drawn for it. -/
def pair (self : GameStreamServer) (query : Query) (https : Bool) (cert : Option (List UInt8))
    (secret drawn : Vector UInt8 16) : Option (Reply × GameStreamServer) :=
  match HostPairing.value query "uniqueid" with
  | none => some (.answered (Xml.response 400 (some "Missing uniqueid parameter".toList) []) none, self)
  | some uniqueId =>
    if HostPairing.value query "phrase" = some "getservercert".toList then
      some (self.getServerCert crypto uniqueId query)
    else if HostPairing.value query "phrase" = some "pairchallenge".toList then
      let known := https && cert.any fun cert => cert ∈ self.paired
      some (.answered (Xml.response 200 none [("paired".toList, if known then "1".toList else "0".toList)]) none, self)
    else self.nextStep crypto server uniqueId query secret drawn

/-- The person typed the PIN that a waiting client shows, and the one under this name was found. -/
def enterPin (self : GameStreamServer) (pin : Text) (deviceName : Option Text) (uniqueId : Text) :
    Reply × GameStreamServer :=
  match self.pending uniqueId with
  | some ⟨pairing, true⟩ =>
    if deviceName.all fun name => name = pairing.deviceName then
      let (answer, pairing) := pairing.pin crypto server pin
      (.answered answer none, self.setPending uniqueId (some ⟨pairing, false⟩))
    else (.nothing, self)
  | _ => (.nothing, self)

/-- No PIN was typed in time, or nobody waits for the answer any more. -/
def giveUp (self : GameStreamServer) (uniqueId : Text) : GameStreamServer := self.setPending uniqueId none

end GameStreamServer

/-! ### Runs -/

inductive Event where
  | request (query : Query) (https : Bool) (cert : Option (List UInt8)) (secret drawn : Vector UInt8 16) : Event
  | enterPin (pin : Text) (deviceName : Option Text) (uniqueId : Text) : Event
  | giveUp (uniqueId : Text) : Event

abbrev Log := List (Event × Reply)

/-- A host, and what came of everything so far. -/
structure History where
  host : GameStreamServer
  log : Log

namespace History

variable (crypto : Cryptography) (server : Credentials)

def opened (paired : List (List UInt8)) : History := ⟨.opened paired, []⟩

def step (h : History) (event : Event) : Option History :=
  let next : Option (Reply × GameStreamServer) :=
    match event with
    | .request query https cert secret drawn => h.host.pair crypto server query https cert secret drawn
    | .enterPin pin deviceName uniqueId => some (h.host.enterPin crypto server pin deviceName uniqueId)
    | .giveUp uniqueId => some (.nothing, h.host.giveUp uniqueId)
  next.map fun p => ⟨p.2, h.log ++ [(event, p.1)]⟩

end History

/-! ### How far a pairing has come -/

/-- What leaves the pairing under a name as it was: what is about others, a first request that is
refused, a look at what is pinned, and a PIN that nobody waits for. -/
def Spares (uniqueId : Text) : Event × Reply → Prop
  | (.request query _ _ _ _, reply) =>
    HostPairing.value query "uniqueid" ≠ some uniqueId ∨
      HostPairing.value query "phrase" = some "getservercert".toList ∧ reply ≠ .held ∨
        HostPairing.value query "phrase" = some "pairchallenge".toList
  | (.enterPin _ _ name, reply) => name ≠ uniqueId ∨ reply = .nothing
  | (.giveUp name, _) => name ≠ uniqueId

/-- `x` came, where `before` held of what came before it, and nothing behind it but what spares
the pairing. -/
def Since (uniqueId : Text) (x : Event × Reply) (before : Log → Prop) (log : Log) : Prop :=
  ∃ past behind, log = past ++ x :: behind ∧ before past ∧ ∀ y ∈ behind, Spares uniqueId y

section

variable (crypto : Cryptography) (server : Credentials)

/-- The first request came, and is held. -/
def Started (uniqueId : Text) (fresh : HostPairing) (log : Log) : Prop :=
  ∃ query https cert secret drawn, HostPairing.value query "uniqueid" = some uniqueId ∧
    HostPairing.value query "phrase" = some "getservercert".toList ∧
    HostPairing.start crypto (GameStreamServer.given query "salt") (GameStreamServer.given query "clientcert")
      (GameStreamServer.given query "devicename") = some (.ok fresh) ∧
    Since uniqueId (.request query https cert secret drawn, .held) (fun _ => True) log

/-- Then the PIN was typed. -/
def Typed (uniqueId : Text) (fresh : HostPairing) (pin : Text) (log : Log) : Prop :=
  ∃ deviceName, Since uniqueId (.enterPin pin deviceName uniqueId, .answered (fresh.pin crypto server pin).1 none)
    (Started crypto uniqueId fresh) log

/-- A request for the next step of a pairing. -/
def NextStep (uniqueId : Text) (query : Query) : Prop :=
  HostPairing.value query "uniqueid" = some uniqueId ∧
    HostPairing.value query "phrase" ≠ some "getservercert".toList ∧
    HostPairing.value query "phrase" ≠ some "pairchallenge".toList

/-- The values of a run, up to what is drawn for its challenge. -/
structure Values where
  pin : Text
  challenge : List UInt8
  secret : Vector UInt8 16
  drawn : Vector UInt8 16

def Values.key (v : Values) (fresh : HostPairing) : Vector UInt8 16 := crypto.pinKey fresh.salt v.pin

/-- The answer to a challenge has the secret only under a hash. -/
def challengeAnswer (key : Vector UInt8 16) (challenge : List UInt8) (secret drawn : Vector UInt8 16) : Text :=
  Xml.response 200 none [("paired".toList, "1".toList), ("challengeresponse".toList,
    encodeHex (crypto.ecbEncrypt key ((crypto.sha256 (crypto.ecbDecrypt key challenge ++ server.signature ++
      secret.toList)).toList ++ drawn.toList)))]

/-- The answer that reveals the secret. -/
def secretAnswer (secret : Vector UInt8 16) : Text :=
  Xml.response 200 none [("pairingsecret".toList, encodeHex (secret.toList ++ server.sign secret.toList)),
    ("paired".toList, "1".toList)]

/-- Then the challenge came. -/
def Challenged (uniqueId : Text) (fresh : HostPairing) (v : Values) (log : Log) : Prop :=
  ∃ query https cert, NextStep uniqueId query ∧ HostPairing.arg query "clientchallenge" = some (some v.challenge) ∧
    Since uniqueId (.request query https cert v.secret v.drawn, .answered
        (challengeAnswer crypto server (v.key crypto fresh) v.challenge v.secret v.drawn) none)
      (Typed crypto server uniqueId fresh v.pin) log

/-- Then the client's hash came, and only its answer has the secret. -/
def Responded (uniqueId : Text) (fresh : HostPairing) (v : Values) (response : List UInt8) (log : Log) : Prop :=
  ∃ query https cert secret drawn, NextStep uniqueId query ∧
    HostPairing.arg query "clientchallenge" = some none ∧
    HostPairing.arg query "serverchallengeresp" = some (some response) ∧
    Since uniqueId (.request query https cert secret drawn, .answered (secretAnswer server v.secret) none)
      (Challenged crypto server uniqueId fresh v) log

/-- A pairing after its challenge. -/
def Values.afterChallenge (v : Values) (fresh : HostPairing) : HostPairing :=
  { (fresh.pin crypto server v.pin).2 with
    phase := .clientChallenge, serverSecret := v.secret, serverChallenge := v.drawn }

/-- A pairing after the client's hash. -/
def Values.afterResponse (v : Values) (fresh : HostPairing) (response : List UInt8) : HostPairing :=
  { v.afterChallenge crypto server fresh with
    phase := .serverChallengeResponse, clientHash := crypto.ecbDecrypt (v.key crypto fresh) response }

/-- Where a pairing stands after its last step, whatever spared it since. -/
inductive Stands (uniqueId : Text) (log : Log) : Pending → Prop
  | started {fresh : HostPairing} (h : Started crypto uniqueId fresh log) : Stands uniqueId log ⟨fresh, true⟩
  | typed {fresh : HostPairing} {pin : Text} (h : Typed crypto server uniqueId fresh pin log) :
    Stands uniqueId log ⟨(fresh.pin crypto server pin).2, false⟩
  | challenged {fresh : HostPairing} {v : Values} (h : Challenged crypto server uniqueId fresh v log) :
    Stands uniqueId log ⟨v.afterChallenge crypto server fresh, false⟩
  | responded {fresh : HostPairing} {v : Values} {response : List UInt8}
      (h : Responded crypto server uniqueId fresh v response log) :
    Stands uniqueId log ⟨v.afterResponse crypto server fresh response, false⟩

/-- A request that is answered with a certificate, and what was before it: all the steps of one run,
started with this certificate, whose client had sent its hash before it could know the secret. -/
structure Paired (cert : List UInt8) (event : Event) (log : Log) : Prop where
  course : ∃ uniqueId fresh v response query https peer secret drawn bytes signature,
    event = .request query https peer secret drawn ∧ NextStep uniqueId query ∧
    HostPairing.arg query "clientchallenge" = some none ∧ HostPairing.arg query "serverchallengeresp" = some none ∧
    HostPairing.arg query "clientpairingsecret" = some (some bytes) ∧ 16 < bytes.length ∧
    Responded crypto server uniqueId fresh v response log ∧ fresh.clientCert = cert ∧
    crypto.certificateSignature cert = some signature ∧
    (crypto.sha256 (v.drawn.toList ++ signature ++ bytes.take 16)).toList =
      (crypto.ecbDecrypt (v.key crypto fresh) response).take 32 ∧
    crypto.verify cert (bytes.take 16) (bytes.drop 16) = true

end

/-! ### What a step can do -/

section

variable {crypto : Cryptography} {server : Credentials} {self next : HostPairing} {query : Query}
  {secret drawn : Vector UInt8 16} {answer : Step}

/-- A step ends the pairing without a certificate, or it is the next one of its phase. -/
theorem HostPairing.step_cases (h : self.step crypto server query secret drawn = some (answer, next)) :
    (answer.done = true ∧ answer.paired = none) ∨
    (∃ key challenge, self.key = some key ∧ self.phase = .serverCert ∧
      arg query "clientchallenge" = some (some challenge) ∧
      answer = ⟨challengeAnswer crypto server key challenge secret drawn, none, false⟩ ∧
      next = { self with phase := .clientChallenge, serverSecret := secret, serverChallenge := drawn }) ∨
    (∃ key response, self.key = some key ∧ self.phase = .clientChallenge ∧
      arg query "clientchallenge" = some none ∧ arg query "serverchallengeresp" = some (some response) ∧
      answer = ⟨secretAnswer server self.serverSecret, none, false⟩ ∧
      next = { self with phase := .serverChallengeResponse, clientHash := crypto.ecbDecrypt key response }) ∨
    ∃ bytes signature, self.phase = .serverChallengeResponse ∧
      arg query "clientchallenge" = some none ∧ arg query "serverchallengeresp" = some none ∧
      arg query "clientpairingsecret" = some (some bytes) ∧ 16 < bytes.length ∧
      crypto.certificateSignature self.clientCert = some signature ∧
      (crypto.sha256 (self.serverChallenge.toList ++ signature ++ bytes.take 16)).toList = self.clientHash.take 32 ∧
      crypto.verify self.clientCert (bytes.take 16) (bytes.drop 16) = true ∧
      answer.done = true ∧ answer.paired = some self.clientCert := by
  rw [step] at h
  split at h
  · cases h
    exact .inl ⟨rfl, rfl⟩
  rename_i key hkey
  split at h
  · cases h
  · -- `clientchallenge`
    rename_i challenge harg
    rw [onClientChallenge] at h
    split at h
    · cases h
      exact .inl ⟨rfl, rfl⟩
    rename_i hphase
    cases h
    exact .inr (.inl ⟨key, challenge, hkey, not_not.mp hphase, harg, rfl, rfl⟩)
  rename_i hchallenge
  split at h
  · cases h
  · -- `serverchallengeresp`
    rename_i response harg
    rw [onServerChallengeResp] at h
    split at h
    · cases h
      exact .inl ⟨rfl, rfl⟩
    rename_i hphase
    cases h
    exact .inr (.inr (.inl ⟨key, response, hkey, not_not.mp hphase, hchallenge, harg, rfl, rfl⟩))
  rename_i hresponse
  split at h
  · cases h
  · -- `clientpairingsecret`
    rename_i bytes harg
    rw [onClientPairingSecret] at h
    split at h
    · cases h
      exact .inl ⟨rfl, rfl⟩
    rename_i hphase
    split at h
    · cases h
      exact .inl ⟨rfl, rfl⟩
    rename_i hlength
    split at h
    · cases h
      exact .inl ⟨rfl, rfl⟩
    rename_i signature hsignature
    by_cases hpaired : (crypto.sha256 (self.serverChallenge.toList ++ signature ++ bytes.take 16)).toList =
        self.clientHash.take 32 ∧ crypto.verify self.clientCert (bytes.take 16) (bytes.drop 16) = true
    · simp only [hpaired.1, hpaired.2, decide_true, Bool.and_true, if_true] at h
      cases h
      exact .inr (.inr (.inr ⟨bytes, signature, not_not.mp hphase, hchallenge, hresponse, harg,
        Nat.lt_of_not_le hlength,
        hsignature, hpaired.1, hpaired.2, rfl, rfl⟩))
    · have hnot : (decide ((crypto.sha256 (self.serverChallenge.toList ++ signature ++ bytes.take 16)).toList =
          self.clientHash.take 32) && crypto.verify self.clientCert (bytes.take 16) (bytes.drop 16)) = false := by
        rw [← Bool.not_eq_true, Bool.and_eq_true, decide_eq_true_eq]
        exact hpaired
      simp only [hnot] at h
      cases h
      exact .inl ⟨rfl, rfl⟩
  · cases h
    exact .inl ⟨rfl, rfl⟩

theorem HostPairing.start_ok {saltHex clientCertHex deviceName : Text} {fresh : HostPairing}
    (h : start crypto saltHex clientCertHex deviceName = some (.ok fresh)) :
    fresh.phase = .waitingForPin ∧ fresh.key = none := by
  rw [start] at h
  split at h
  · cases h
  split at h
  · cases h
  split at h
  · cases h
  · cases h
  split at h
  · cases h
  cases h
  exact ⟨rfl, rfl⟩

end

/-! ### The invariant -/

section

variable {crypto : Cryptography} {server : Credentials} {uniqueId : Text} {x y : Event × Reply} {log : Log}
  {before : Log → Prop} {p : Pending}

theorem Since.here (h : before log) : Since uniqueId x before (log ++ [x]) :=
  ⟨log, [], rfl, h, fun y hy => absurd hy List.not_mem_nil⟩

theorem Since.spare (h : Since uniqueId x before log) (hy : Spares uniqueId y) :
    Since uniqueId x before (log ++ [y]) := by
  obtain ⟨past, behind, rfl, hpast, hspares⟩ := h
  refine ⟨past, behind ++ [y], by rw [List.append_assoc, List.cons_append], hpast, fun z hz => ?_⟩
  rcases List.mem_append.mp hz with hz | hz
  · exact hspares z hz
  · exact List.mem_singleton.mp hz ▸ hy

theorem Stands.spare (h : Stands crypto server uniqueId log p) (hy : Spares uniqueId y) :
    Stands crypto server uniqueId (log ++ [y]) p := by
  cases h with
  | started h =>
    obtain ⟨query, https, cert, secret, drawn, hname, hphrase, hstart, hsince⟩ := h
    exact .started ⟨query, https, cert, secret, drawn, hname, hphrase, hstart, hsince.spare hy⟩
  | typed h =>
    obtain ⟨deviceName, hsince⟩ := h
    exact .typed ⟨deviceName, hsince.spare hy⟩
  | challenged h =>
    obtain ⟨query, https, cert, hnext, harg, hsince⟩ := h
    exact .challenged ⟨query, https, cert, hnext, harg, hsince.spare hy⟩
  | responded h =>
    obtain ⟨query, https, cert, secret, drawn, hnext, hchallenge, harg, hsince⟩ := h
    exact .responded ⟨query, https, cert, secret, drawn, hnext, hchallenge, harg, hsince.spare hy⟩

theorem Started.key_eq {fresh : HostPairing} (h : Started crypto uniqueId fresh log) : fresh.key = none := by
  obtain ⟨query, https, cert, secret, drawn, -, -, hstart, -⟩ := h
  exact (HostPairing.start_ok hstart).2

/-- A pairing that is at its last phase has been through all of them. -/
theorem Stands.responded_of_phase (h : Stands crypto server uniqueId log p)
    (hphase : p.pairing.phase = .serverChallengeResponse) :
    ∃ fresh v response, Responded crypto server uniqueId fresh v response log ∧
      p.pairing = v.afterResponse crypto server fresh response := by
  cases h with
  | @started fresh h =>
    obtain ⟨query, https, cert, secret, drawn, -, -, hstart, -⟩ := h
    rw [show fresh.phase = _ from (HostPairing.start_ok hstart).1] at hphase
    cases hphase
  | typed h => cases hphase
  | challenged h => cases hphase
  | @responded fresh v response h => exact ⟨fresh, v, response, h, rfl⟩

/-- One step of a pairing that does not end it. -/
theorem Stands.next {query : Query} {https : Bool} {cert : Option (List UInt8)} {secret drawn : Vector UInt8 16}
    {answer : Step} {next : HostPairing} (h : Stands crypto server uniqueId log p) (hnext : NextStep uniqueId query)
    (hstep : p.pairing.step crypto server query secret drawn = some (answer, next)) (hdone : answer.done = false) :
    Stands crypto server uniqueId
      (log ++ [(.request query https cert secret drawn, .answered answer.xml answer.paired)])
      { p with pairing := next } := by
  rcases HostPairing.step_cases hstep with ⟨hend, -⟩ | ⟨key, challenge, hkey, hphase, harg, rfl, rfl⟩ |
    ⟨key, response, hkey, hphase, hchallenge, harg, rfl, rfl⟩ | ⟨_, _, -, -, -, -, -, -, -, -, hend, -⟩
  · rw [hend] at hdone
    cases hdone
  · -- only a pairing whose PIN was typed, and which has had no challenge, takes one
    cases h with
    | started h =>
      rw [h.key_eq] at hkey
      cases hkey
    | @typed fresh pin h =>
      cases hkey
      show Stands crypto server uniqueId _
        ⟨(⟨pin, challenge, secret, drawn⟩ : Values).afterChallenge crypto server fresh, false⟩
      exact .challenged ⟨query, https, cert, hnext, harg, Since.here h⟩
    | challenged h => cases hphase
    | responded h => cases hphase
  · cases h with
    | started h =>
      rw [h.key_eq] at hkey
      cases hkey
    | typed h => cases hphase
    | @challenged fresh v h =>
      cases hkey
      show Stands crypto server uniqueId _ ⟨v.afterResponse crypto server fresh response, false⟩
      exact .responded ⟨query, https, cert, secret, drawn, hnext, hchallenge, harg, Since.here h⟩
    | responded h => cases hphase
  · rw [hend] at hdone
    cases hdone

/-- Every pairing under way is where its last step left it. -/
def History.Inv (crypto : Cryptography) (server : Credentials) (h : History) : Prop :=
  ∀ uniqueId p, h.host.pending uniqueId = some p → Stands crypto server uniqueId h.log p

/-- What a request does to the pairings: those that change are where this step left them. -/
theorem stands_pair {h : History} {host : GameStreamServer} {query : Query} {https : Bool}
    {cert : Option (List UInt8)} {secret drawn : Vector UInt8 16} {reply : Reply} (hinv : h.Inv crypto server)
    (hpair : h.host.pair crypto server query https cert secret drawn = some (reply, host)) :
    History.Inv crypto server ⟨host, h.log ++ [(.request query https cert secret drawn, reply)]⟩ := by
  have hothers {name : Text} (hname : HostPairing.value query "uniqueid" ≠ some name) (p : Pending)
      (hp : h.host.pending name = some p) :
      Stands crypto server name (h.log ++ [(.request query https cert secret drawn, reply)]) p :=
    (hinv name p hp).spare (.inl hname)
  rw [GameStreamServer.pair] at hpair
  split at hpair
  · rename_i hnone
    cases hpair
    exact fun name p hp => hothers (by rw [hnone]; exact nofun) p hp
  rename_i uniqueId hname
  have hname_ne {name : Text} (hne : name ≠ uniqueId) : HostPairing.value query "uniqueid" ≠ some name := by
    rw [hname]
    exact fun heq => hne (Option.some.inj heq).symm
  split at hpair
  · -- a first request: held, or it spares the pairing that there is
    rename_i hphrase
    have hspares (hreply : reply ≠ .held) (name : Text) (p : Pending) (hp : h.host.pending name = some p) :
        Stands crypto server name (h.log ++ [(.request query https cert secret drawn, reply)]) p :=
      (hinv name p hp).spare (.inr (.inl ⟨hphrase, hreply⟩))
    rw [GameStreamServer.getServerCert] at hpair
    split at hpair
    · cases hpair
      exact hspares nofun
    · cases hpair
      exact hspares nofun
    rename_i fresh hstart
    split at hpair
    · cases hpair
      exact hspares nofun
    cases hpair
    intro name p hp
    by_cases hne : name = uniqueId
    · subst hne
      rw [show (h.host.setPending name (some ⟨fresh, true⟩)).pending name = some ⟨fresh, true⟩ from
        Function.update_self _ _ _] at hp
      cases hp
      exact .started ⟨query, https, cert, secret, drawn, hname, hphrase, hstart, Since.here trivial⟩
    · rw [show (h.host.setPending uniqueId (some ⟨fresh, true⟩)).pending name = h.host.pending name from
        Function.update_of_ne hne _ _] at hp
      exact hothers (hname_ne hne) p hp
  rename_i hfirst
  split at hpair
  · rename_i hphrase
    cases hpair
    exact fun name p hp => (hinv name p hp).spare (.inr (.inr hphrase))
  rename_i hsecond
  have hnext : NextStep uniqueId query := ⟨hname, hfirst, hsecond⟩
  rw [GameStreamServer.nextStep] at hpair
  split at hpair
  · -- there is none under this name
    rename_i hnone
    cases hpair
    intro name p hp
    refine hothers (hname_ne ?_) p hp
    rintro rfl
    rw [hnone] at hp
    cases hp
  rename_i waiting hwaiting
  split at hpair
  · cases hpair
  rename_i answer next hstep
  cases hpair
  intro name p hp
  have hpaired (name : Text) : (answer.paired.elim h.host h.host.pinClient).pending name = h.host.pending name := by
    cases answer.paired with
    | none => rfl
    | some cert =>
      rw [Option.elim_some, GameStreamServer.pinClient]
      split <;> rfl
  by_cases hne : name = uniqueId
  · subst hne
    rw [show ((answer.paired.elim h.host h.host.pinClient).setPending name _).pending name = _ from
      Function.update_self _ _ _] at hp
    cases hdone : answer.done with
    | true =>
      rw [hdone] at hp
      cases hp
    | false =>
      rw [hdone] at hp
      cases hp
      exact (hinv name waiting hwaiting).next hnext hstep hdone
  · rw [show ((answer.paired.elim h.host h.host.pinClient).setPending uniqueId _).pending name = _ from
      Function.update_of_ne hne _ _, hpaired] at hp
    exact hothers (hname_ne hne) p hp

/-- A PIN is typed for a pairing that waits for it, and for no other. -/
theorem stands_enterPin {h : History} (hinv : h.Inv crypto server) (pin : Text) (deviceName : Option Text)
    (uniqueId : Text) : History.Inv crypto server ⟨(h.host.enterPin crypto server pin deviceName uniqueId).2,
      h.log ++ [(.enterPin pin deviceName uniqueId, (h.host.enterPin crypto server pin deviceName uniqueId).1)]⟩ := by
  have hspares (name : Text) (p : Pending) (hp : h.host.pending name = some p) :
      Stands crypto server name (h.log ++ [(.enterPin pin deviceName uniqueId, .nothing)]) p :=
    (hinv name p hp).spare (.inr rfl)
  rw [GameStreamServer.enterPin]
  split
  · rename_i pairing hpending
    split
    · intro name p hp
      by_cases hne : name = uniqueId
      · subst hne
        rw [show (h.host.setPending name (some ⟨(pairing.pin crypto server pin).2, false⟩)).pending name = _ from
          Function.update_self _ _ _] at hp
        cases hp
        have hstands := hinv name _ hpending
        cases hstands with
        | started h => exact .typed ⟨deviceName, Since.here h⟩
      · rw [show (h.host.setPending uniqueId (some ⟨(pairing.pin crypto server pin).2, false⟩)).pending name = _ from
          Function.update_of_ne hne _ _] at hp
        exact (hinv name p hp).spare (.inl fun heq => hne heq.symm)
    · exact hspares
  · exact hspares

theorem stands_giveUp {h : History} (hinv : h.Inv crypto server) (uniqueId : Text) :
    History.Inv crypto server ⟨h.host.giveUp uniqueId, h.log ++ [(.giveUp uniqueId, .nothing)]⟩ := by
  intro name p hp
  by_cases hne : name = uniqueId
  · subst hne
    rw [show (h.host.giveUp name).pending name = none from Function.update_self _ _ _] at hp
    cases hp
  · rw [show (h.host.giveUp uniqueId).pending name = h.host.pending name from Function.update_of_ne hne _ _] at hp
    exact (hinv name p hp).spare fun heq => hne heq.symm

/-- The invariant is kept by every step. -/
theorem stands_step {h h' : History} {event : Event} (hinv : h.Inv crypto server)
    (hstep : h.step crypto server event = some h') : h'.Inv crypto server := by
  unfold History.step at hstep
  obtain ⟨⟨reply, host⟩, hnext, rfl⟩ := Option.map_eq_some_iff.mp hstep
  cases event with
  | request query https cert secret drawn => exact stands_pair hinv hnext
  | enterPin pin deviceName uniqueId =>
    have hboth := Option.some.inj hnext
    have hpin := stands_enterPin hinv pin deviceName uniqueId
    rw [hboth] at hpin
    exact hpin
  | giveUp uniqueId =>
    cases hnext
    exact stands_giveUp hinv uniqueId

/-! ### What is answered with a certificate -/

theorem answered_none_ne {xml xml' : Text} {cert : List UInt8} : Reply.answered xml none ≠ .answered xml' (some cert) :=
  fun h => nomatch (Reply.answered.inj h).2

/-- A reply with a certificate is the last of the steps that made the pairing, and only with such a
reply is a certificate pinned. -/
theorem paired_of_pair {h : History} {host : GameStreamServer} {query : Query} {https : Bool}
    {cert : Option (List UInt8)} {secret drawn : Vector UInt8 16} {reply : Reply} (hinv : h.Inv crypto server)
    (hpair : h.host.pair crypto server query https cert secret drawn = some (reply, host)) :
    (∀ xml known, reply = .answered xml (some known) →
      Paired crypto server known (.request query https cert secret drawn) h.log) ∧
    ∀ known ∈ host.paired, known ∈ h.host.paired ∨ ∃ xml, reply = .answered xml (some known) := by
  have hsame {answer : Reply} (hanswer : ∀ xml known, answer ≠ .answered xml (some known))
      {host : GameStreamServer} (hhost : host.paired = h.host.paired) :
      (∀ xml known, answer = .answered xml (some known) →
        Paired crypto server known (.request query https cert secret drawn) h.log) ∧
      ∀ known ∈ host.paired, known ∈ h.host.paired ∨ ∃ xml, answer = .answered xml (some known) :=
    ⟨fun xml known heq => absurd heq (hanswer xml known), fun known hknown => .inl (hhost ▸ hknown)⟩
  rw [GameStreamServer.pair] at hpair
  split at hpair
  · cases hpair
    exact hsame (fun _ _ => answered_none_ne) rfl
  rename_i uniqueId hname
  split at hpair
  · rw [GameStreamServer.getServerCert] at hpair
    split at hpair
    · cases hpair
      exact hsame (fun _ _ h => by cases h) rfl
    · cases hpair
      exact hsame (fun _ _ => answered_none_ne) rfl
    split at hpair
    · cases hpair
      exact hsame (fun _ _ => answered_none_ne) rfl
    · cases hpair
      exact hsame (fun _ _ h => by cases h) rfl
  rename_i hfirst
  split at hpair
  · cases hpair
    exact hsame (fun _ _ => answered_none_ne) rfl
  rename_i hsecond
  have hnext : NextStep uniqueId query := ⟨hname, hfirst, hsecond⟩
  rw [GameStreamServer.nextStep] at hpair
  split at hpair
  · cases hpair
    exact hsame (fun _ _ => answered_none_ne) rfl
  rename_i waiting hwaiting
  split at hpair
  · cases hpair
  rename_i answer next hstep
  cases hpair
  have hpinned : ∀ known ∈ (answer.paired.elim h.host h.host.pinClient).paired, known ∈ h.host.paired ∨
      answer.paired = some known := by
    cases answer.paired with
    | none => exact fun known hknown => .inl hknown
    | some new =>
      intro known hknown
      rcases GameStreamServer.mem_pinClient.mp hknown with rfl | hold
      · exact .inr rfl
      · exact .inl hold
  refine ⟨fun xml known hreply => ?_, fun known hknown => (hpinned known hknown).imp_right fun heq => ⟨_, by rw [heq]⟩⟩
  have hknown : answer.paired = some known := (Reply.answered.inj hreply).2
  rcases HostPairing.step_cases hstep with ⟨-, hnot⟩ | ⟨_, _, -, -, -, rfl, -⟩ | ⟨_, _, -, -, -, -, rfl, -⟩ |
    ⟨bytes, signature, hphase, hchallenge, hresponse, harg, hlong, hsignature, hdigest, hverify, -, hcert⟩
  · rw [hnot] at hknown
    cases hknown
  · cases hknown
  · cases hknown
  · obtain ⟨fresh, v, response, hresponded, hpairing⟩ := (hinv uniqueId waiting hwaiting).responded_of_phase hphase
    rw [hpairing] at hsignature hdigest hverify hcert
    obtain rfl := Option.some.inj (hcert.symm.trans hknown)
    exact ⟨uniqueId, fresh, v, response, query, https, cert, secret, drawn, bytes, signature, rfl, hnext, hchallenge,
      hresponse, harg, hlong, hresponded, rfl, hsignature, hdigest, hverify⟩

/-- What holds of every point of a log: who is answered with a certificate has done all its steps, and the
certificates pinned are those, and those of before. -/
structure Sound (crypto : Cryptography) (server : Credentials) (known : List (List UInt8)) (h : History) : Prop where
  stands : h.Inv crypto server
  answered : Run.Always (fun past (x : Event × Reply) => ∀ xml cert, x.2 = .answered xml (some cert) →
    Paired crypto server cert x.1 past) h.log
  pinned : ∀ cert ∈ h.host.paired, cert ∈ known ∨ ∃ event xml, (event, .answered xml (some cert)) ∈ h.log

theorem sound_step {h h' : History} {event : Event} {known : List (List UInt8)} (hsound : Sound crypto server known h)
    (hstep : h.step crypto server event = some h') : Sound crypto server known h' := by
  have hstands := stands_step hsound.stands hstep
  unfold History.step at hstep
  obtain ⟨⟨reply, host⟩, hnext, rfl⟩ := Option.map_eq_some_iff.mp hstep
  have hboth : (∀ xml cert, reply = .answered xml (some cert) → Paired crypto server cert event h.log) ∧
      ∀ cert ∈ host.paired, cert ∈ h.host.paired ∨ ∃ xml, reply = .answered xml (some cert) := by
    cases event with
    | request query https cert secret drawn => exact paired_of_pair hsound.stands hnext
    | enterPin pin deviceName uniqueId =>
      have hpin := Option.some.inj hnext
      rw [GameStreamServer.enterPin] at hpin
      split at hpin
      · split at hpin
        · cases hpin
          exact ⟨fun _ _ => nofun, fun _ => .inl⟩
        · cases hpin
          exact ⟨fun _ _ => nofun, fun _ => .inl⟩
      · cases hpin
        exact ⟨fun _ _ => nofun, fun _ => .inl⟩
    | giveUp uniqueId =>
      cases hnext
      exact ⟨fun _ _ => nofun, fun _ => .inl⟩
  refine ⟨hstands, Run.always_concat.mpr ⟨hsound.answered, hboth.1⟩, fun cert hcert => ?_⟩
  rcases hboth.2 cert hcert with hold | ⟨xml, rfl⟩
  · refine (hsound.pinned cert hold).imp_right fun ⟨event, xml, hmem⟩ => ?_
    exact ⟨event, xml, List.mem_append_left _ hmem⟩
  · exact .inr ⟨event, xml, List.mem_append_right _ (List.mem_singleton_self _)⟩

/-- **A certificate is answered for only after all the steps of one run, and only then is one pinned.** -/
theorem sound_of_run {events : List Event} {h : History} {known : List (List UInt8)}
    (hrun : events.foldlM (History.step crypto server) (.opened known) = some h) : Sound crypto server known h := by
  have hopened : Sound crypto server known (.opened known) :=
    ⟨fun _ _ hp => (by cases hp), Run.always_nil, fun _ => .inl⟩
  have hstep (h : History) (event : Event) (h' : History) (hsound : Sound crypto server known h) (_ : True)
      (hnext : h.step crypto server event = some h') := sound_step hsound hnext
  exact Run.invariant hstep events _ h hopened (fun _ _ => trivial) hrun

end

end WindowCast.GameStream
