import WindowCast.Accounts.Check
import WindowCast.Host.SignIn

/-!
# Admitting a client

How a host lets a client in: a device it trusts resumes, a client that knows the
PIN is paired, and one with an account signs in.  What the session may do then is
the decision it is opened with.

## Main definitions

* `HostControl` — what the host knows: the devices it trusts, the PIN, the
  accounts, the registered devices, the devices' limits.
* `HostControl.decision`, `HostControl.admitted`, `HostControl.sshCertificate`.
* `Gate.check`, `accept` — the host's side of the handshake.
* `HostControl.sessionAuthorizer` — what decides about command channels.
* `HostControl.openServing` — the whole way to an open session.

## Main results

* `accept_cases` — **the three ways in.**
* `HostControl.open_ok` — what opens a session, and the host after it.
-/

namespace WindowCast.Host

open WindowCast.Accounts

/-! ### What the host knows -/

/-- The kinds of command channel. -/
inductive ChannelKind
  | shell
  | exec
  | launch
  | files
  | watch
  | chat
  deriving DecidableEq, Repr

/-- Who is asking: the device, and the account it acts for. -/
structure Principal where
  peer : PeerId
  account : Option Account
  deriving DecidableEq

/-- The check of command channels; an error is the reason shown to the user. -/
abbrev CommandAuthorizer := Principal → ChannelKind → Except Text Unit

/-- The host's own default: a paired device may open any kind of channel. -/
def pairedDevices : CommandAuthorizer := fun _ _ => .ok ()

/-- The globs of a limit; a limit has some. -/
abbrev Globs := { globs : List Text // globs ≠ [] }

/-- A running host. -/
structure HostControl where
  trusted : List PeerId
  /-- The PIN a new client pairs with; `none` while pairing is closed. -/
  pin : Option Text
  /-- Account sign-in; `none` while it is off. -/
  accounts : Option Accounts
  registrations : Registrations
  /-- The application's window limits per device. -/
  deviceLimits : PeerId → Option Globs
  commandAuthorizer : CommandAuthorizer
  signIns : SignInThrottle

namespace HostControl

variable [Casing] (outside : Outside) (now : ℕ)

/-- The account a device acts for: its registration, while sign-in is on and the
account still exists. -/
def accountOf (self : HostControl) (peer : PeerId) : Option Account :=
  match self.accounts with
  | none => none
  | some accounts =>
    match self.registrations.get now peer with
    | none => none
    | some registration =>
      let account := registration.account
      if account.provider ≠ "local".toList ∨ accounts.localAccounts.active account.name then
        some account
      else none

/-- What policy makes of an account; without sign-in, what no policy makes of a
paired device. -/
def policyFor (self : HostControl) (account : Option Account) : Decision :=
  match self.accounts with
  | some accounts => accounts.decide outside account
  | none => Policy.decide ⟨[]⟩ none []

/-- What policy lets the device `peer` do on this host, with the application's
own limit for that device. -/
def decision (self : HostControl) (peer : PeerId) : Decision :=
  let decided := self.policyFor outside (self.accountOf now peer)
  match self.deviceLimits peer with
  | some globs => decided.limitedTo globs
  | none => decided

/-- Limits the device `peer` to the windows `globs` match, on top of the policy;
empty takes the limit away. -/
def limitDevice (self : HostControl) (peer : PeerId) (globs : List Text) : HostControl :=
  let limit : Option Globs := if h : globs ≠ [] then some ⟨globs, h⟩ else none
  { self with deviceLimits := Function.update self.deviceLimits peer limit }

/-- The devices that may resume: pinned by PIN pairing, or registered to an
account that still exists while sign-in is on; either way admitted by the host's
policy. -/
def admitted (self : HostControl) (peer : PeerId) : Bool :=
  let pinned := decide (peer ∈ self.trusted)
  let registered := self.accounts.isSome && (self.registrations.get now peer).isSome
  (pinned && (self.decision outside now peer).allow)
    || (registered && (self.accountOf now peer).isSome && (self.decision outside now peer).allow)

/-- Signs an SSH user certificate for the account `peer` acts for. -/
def sshCertificate (self : HostControl) (peer : PeerId) (publicKey : Text) : Except Text Text :=
  match self.accounts with
  | none => .error "sign-in is off on this host".toList
  | some accounts =>
    match accounts.config.sshCa with
    | none => .error "this host signs no SSH certificates".toList
    | some ca =>
      match self.accountOf now peer with
      | none => .error "only a device signed in with an account gets an SSH certificate".toList
      | some account =>
        if (self.decision outside now peer).commands = some false then
          .error "policy does not allow commands".toList
        else outside.issue ca publicKey account (accounts.config.sshCertificateMinutes * 60)

/-- The check while account sign-in is on. -/
def accountPolicy (accounts : Accounts) (next : CommandAuthorizer) : CommandAuthorizer :=
  fun who kind =>
    let decision := accounts.decide outside who.account
    if !decision.allow then .error "policy does not admit this account".toList
    else
      match decision.commands with
      | some false => .error "policy does not allow commands for this account".toList
      | some true => .ok ()
      | none => next who kind

/-- What decides about the channels of a session that starts now. -/
def sessionAuthorizer (self : HostControl) : CommandAuthorizer :=
  match self.accounts with
  | some accounts => accountPolicy outside accounts self.commandAuthorizer
  | none => self.commandAuthorizer

end HostControl

/-! ### The handshake -/

inductive ConnectMode
  | pair
  | resume
  | account
  deriving DecidableEq, Repr

/-- A client at the other end of the handshake: the device it says it is and
whether it signs with that device's key, the PIN it has typed, the credential it
has sealed, if it sealed one, and whether it stays to the end. -/
structure Client where
  peer : PeerId
  mode : ConnectMode
  signs : Bool
  guess : Text
  credential : Option AccountCredential
  stays : Bool
  deriving DecidableEq

inductive TransportError
  | signInNotOpen
  | pairingNotOpen
  | unknownPeer
  | signInFailed
  | authenticationFailed
  | closed
  deriving DecidableEq, Repr

/-- An authenticated client: how it got in. -/
structure Established where
  peer : PeerId
  paired : Bool
  account : Option Account
  deriving DecidableEq

/-- The host's account checks as signaling asks for them. -/
structure Gate where
  accounts : Accounts
  throttle : SignInThrottle

section

variable [Casing] (outside : Outside)

/-- Checks a credential, with the account it signs in, which policy admits, and
counts a failure; `instant` is the throttle's clock. -/
def Gate.check (self : Gate) (instant : ℕ) (client : PeerId) (credential : AccountCredential) :
    Option Account × SignInThrottle :=
  if self.throttle.locked instant then (none, self.throttle)
  else
    match self.accounts.check outside client credential with
    | .ok account =>
      if self.accounts.admits outside (some account) then (some account, self.throttle)
      else (none, self.throttle.failed instant)
    | .error _ => (none, self.throttle.failed instant)

/-- What the host lets a client in with. -/
structure HostCredential where
  pin : Option Text
  trusted : PeerId → Bool
  accounts : Option Gate

/-- What the descriptions come to: the client's is signed by the device it said
it is and, while pairing, tagged with the PIN; the session opens. -/
def exchange (client : Client) (pin : Option Text) (account : Option Account) :
    Except TransportError Established :=
  if pin.any fun pin => client.guess ≠ pin then .error .authenticationFailed
  else if !client.signs then .error .authenticationFailed
  else if !client.stays then .error .closed
  else .ok ⟨client.peer, pin.isSome, account⟩

/-- The host's side of the handshake, with the throttle after it. -/
def accept (credential : HostCredential) (throttle : SignInThrottle) (instant : ℕ) (client : Client) :
    Except TransportError Established × SignInThrottle :=
  match client.mode with
  | .account =>
    match credential.accounts with
    | none => (.error .signInNotOpen, throttle)
    | some gate =>
      match client.credential with
      | none => (.error .signInFailed, throttle)
      | some presented =>
        match gate.check outside instant client.peer presented with
        | (none, throttle) => (.error .signInFailed, throttle)
        | (some account, throttle) => (exchange client none (some account), throttle)
  | .pair =>
    match credential.pin with
    | none => (.error .pairingNotOpen, throttle)
    | some pin => (exchange client (some pin) none, throttle)
  | .resume =>
    if credential.trusted client.peer then (exchange client none none, throttle)
    else (.error .unknownPeer, throttle)

end

/-! ### Opening a session -/

/-- An admitted client's session: who it is, and what it may do. -/
structure Serving where
  peer : PeerId
  account : Option Account
  decision : Decision
  authorizer : CommandAuthorizer

namespace HostControl

variable [Casing] (outside : Outside) (now instant : ℕ)

/-- The credential a host lets clients in with; pairing and sign-in only where
`pairing` allows. -/
def credential (self : HostControl) (pairing : Bool) : HostCredential where
  pin := if pairing then self.pin else none
  trusted := self.admitted outside now
  accounts := if pairing then self.accounts.map fun accounts => ⟨accounts, self.signIns⟩ else none

/-- What the host keeps of a client that got in: a paired device is pinned, a
signed-in one registered. -/
def establish (self : HostControl) (established : Established) : HostControl :=
  if established.paired then
    { self with pin := none, trusted := established.peer :: self.trusted }
  else
    match established.account with
    | none => self
    | some account =>
      let days := match self.accounts with
        | some accounts => accounts.config.registrationDays
        | none => 0
      { self with
        registrations := self.registrations.register now established.peer account days }

/-- The session of a client that got in. -/
def serving (self : HostControl) (established : Established) : Serving :=
  let account := established.account.or (self.accountOf now established.peer)
  let decision := match self.accounts with
    | some accounts => accounts.decide outside account
    | none => self.decision outside now established.peer
  ⟨established.peer, account, decision, self.sessionAuthorizer outside⟩

/-- Admits the client (pairing, sign-in or trust), and the host after that. -/
def openServing (self : HostControl) (client : Client) (pairing : Bool) :
    Except TransportError Serving × HostControl :=
  match accept outside (self.credential outside now pairing) self.signIns instant client with
  | (.error e, throttle) => (.error e, { self with signIns := throttle })
  | (.ok established, throttle) =>
    let self := { self with signIns := throttle }.establish now established
    (.ok (self.serving outside now established), self)

end HostControl

/-! ### The ways in -/

/-- Who gets through the exchange of descriptions. -/
theorem exchange_ok {client : Client} {pin : Option Text} {account : Option Account}
    {established : Established} (h : exchange client pin account = .ok established) :
    (∀ p, pin = some p → client.guess = p) ∧ client.signs = true ∧ client.stays = true ∧
      established = ⟨client.peer, pin.isSome, account⟩ := by
  unfold exchange at h
  split at h
  · cases h
  rename_i hguess
  split at h
  · cases h
  rename_i hsigns
  split at h
  · cases h
  rename_i hstays
  cases h
  refine ⟨?_, by simpa using hsigns, by simpa using hstays, rfl⟩
  rintro p rfl
  simpa using hguess

namespace HostControl

/-- Letting a client in leaves the accounts and the limits as they are. -/
theorem establish_fields (self : HostControl) (now : ℕ) (established : Established) :
    (self.establish now established).accounts = self.accounts ∧
      (self.establish now established).deviceLimits = self.deviceLimits ∧
      (self.establish now established).commandAuthorizer = self.commandAuthorizer := by
  unfold establish
  split
  · exact ⟨rfl, rfl, rfl⟩
  · split <;> exact ⟨rfl, rfl, rfl⟩

theorem accountOf_congr {self other : HostControl} {now : ℕ} (haccounts : self.accounts = other.accounts)
    {peer : PeerId} (hget : self.registrations.get now peer = other.registrations.get now peer) :
    self.accountOf now peer = other.accountOf now peer := by
  unfold accountOf
  rw [haccounts, hget]

end HostControl

section

variable [Casing] {outside : Outside} {now instant : ℕ}

/-- The three ways in: a trusted device resumes, one with the PIN pairs, and one
whose account checks out and is admitted signs in. -/
inductive Way (credential : HostCredential) (client : Client) : Established → Prop
  | resumed (hmode : client.mode = .resume) (htrusted : credential.trusted client.peer = true) :
      Way credential client ⟨client.peer, false, none⟩
  | paired (hmode : client.mode = .pair) (hpin : credential.pin = some client.guess) :
      Way credential client ⟨client.peer, true, none⟩
  | signedIn {gate : Gate} {presented : AccountCredential} {account : Account}
      (hmode : client.mode = .account) (hgate : credential.accounts = some gate)
      (hpresented : client.credential = some presented)
      (hcheck : gate.accounts.check outside client.peer presented = .ok account)
      (hadmits : gate.accounts.admits outside (some account) = true) :
      Way credential client ⟨client.peer, false, some account⟩

theorem Gate.check_some {gate : Gate} {client : PeerId} {presented : AccountCredential}
    {account : Account} {throttle : SignInThrottle}
    (h : gate.check outside instant client presented = (some account, throttle)) :
    gate.accounts.check outside client presented = .ok account ∧
      gate.accounts.admits outside (some account) = true := by
  unfold Gate.check at h
  split at h
  · cases h
  split at h
  · rename_i found hfound
    split at h
    · rename_i hadmits
      cases h
      exact ⟨hfound, hadmits⟩
    · cases h
  · cases h

/-- **Every client that is let in came one of the three ways.** -/
theorem accept_cases {credential : HostCredential} {throttle throttle' : SignInThrottle}
    {client : Client} {established : Established}
    (h : accept outside credential throttle instant client = (.ok established, throttle')) :
    client.signs = true ∧ client.stays = true ∧ @Way _ outside credential client established := by
  unfold accept at h
  split at h
  · rename_i hmode
    split at h
    · cases h
    rename_i gate hgate
    split at h
    · cases h
    rename_i presented hpresented
    split at h
    · cases h
    rename_i account throttle₁ hcheck
    obtain ⟨hok, hadmits⟩ := Gate.check_some hcheck
    obtain ⟨-, hsigns, hstays, rfl⟩ := exchange_ok (Prod.mk.inj h).1
    exact ⟨hsigns, hstays, .signedIn hmode hgate hpresented hok hadmits⟩
  · rename_i hmode
    split at h
    · cases h
    rename_i pin hpin
    obtain ⟨hguess, hsigns, hstays, rfl⟩ := exchange_ok (Prod.mk.inj h).1
    exact ⟨hsigns, hstays, .paired hmode (by rw [hpin, hguess pin rfl])⟩
  · rename_i hmode
    split at h
    · rename_i htrusted
      obtain ⟨-, hsigns, hstays, rfl⟩ := exchange_ok (Prod.mk.inj h).1
      exact ⟨hsigns, hstays, .resumed hmode htrusted⟩
    · cases h

namespace HostControl

/-- What opens a session, and the host after it. -/
theorem open_ok {self after : HostControl} {client : Client} {pairing : Bool} {serving : Serving}
    (h : self.openServing outside now instant client pairing = (.ok serving, after)) :
    ∃ established throttle, client.signs = true ∧ client.stays = true ∧
      @Way _ outside (self.credential outside now pairing) client established ∧
      after = { self with signIns := throttle }.establish now established ∧
      serving = after.serving outside now established := by
  unfold openServing at h
  split at h
  · cases h
  · rename_i established throttle haccept
    obtain ⟨hsigns, hstays, hway⟩ := accept_cases haccept
    cases h
    exact ⟨established, throttle, hsigns, hstays, hway, rfl, rfl⟩

/-- Opening a session leaves the accounts and the limits as they are. -/
theorem open_fields {self after : HostControl} {client : Client} {pairing : Bool} {serving : Serving}
    (h : self.openServing outside now instant client pairing = (.ok serving, after)) :
    after.accounts = self.accounts ∧ after.deviceLimits = self.deviceLimits := by
  obtain ⟨established, throttle, -, -, -, rfl, -⟩ := open_ok h
  obtain ⟨haccounts, hlimits, -⟩ := establish_fields { self with signIns := throttle } now established
  exact ⟨haccounts, hlimits⟩

theorem policyFor_congr {self other : HostControl} (haccounts : self.accounts = other.accounts)
    (account : Option Account) : self.policyFor outside account = other.policyFor outside account := by
  unfold policyFor
  rw [haccounts]

/-- The account of a session whose client did not sign in. -/
theorem serving_account (self : HostControl) (throttle : SignInThrottle) (peer : PeerId)
    (paired : Bool) :
    (({ self with signIns := throttle }.establish now ⟨peer, paired, none⟩).serving outside now
      ⟨peer, paired, none⟩).account = self.accountOf now peer := by
  unfold serving
  simp only [Option.none_or]
  apply accountOf_congr
  · exact (establish_fields _ _ _).1
  · unfold establish
    cases paired <;> rfl

/-- Sign-in is open to a client with the host's own accounts. -/
theorem credential_accounts {self : HostControl} {pairing : Bool} {gate : Gate}
    (h : (self.credential outside now pairing).accounts = some gate) :
    self.accounts = some gate.accounts := by
  unfold credential at h
  simp only at h
  split at h
  · obtain ⟨accounts, haccounts, rfl⟩ := Option.map_eq_some_iff.mp h
    exact haccounts
  · cases h

/-- A session's decision is what policy makes of its account, and with sign-in
off also what limits its device. -/
theorem serving_decision (self : HostControl) (established : Established) :
    (self.serving outside now established).decision =
      match self.accounts with
      | some _ => self.policyFor outside (self.serving outside now established).account
      | none => self.decision outside now established.peer := by
  unfold serving policyFor
  cases self.accounts <;> rfl

/-- While sign-in is on, a session is decided by policy alone. -/
theorem open_policy {self after : HostControl} {client : Client} {pairing : Bool} {serving : Serving}
    (h : self.openServing outside now instant client pairing = (.ok serving, after))
    (hsignIn : self.accounts.isSome = true) :
    serving.decision = self.policyFor outside serving.account := by
  have hafter := (open_fields h).1
  obtain ⟨established, throttle, -, -, -, -, rfl⟩ := open_ok h
  obtain ⟨accounts, haccounts⟩ := Option.isSome_iff_exists.mp hsignIn
  rw [serving_decision, hafter, haccounts]
  exact policyFor_congr hafter _

/-- A limit changes nothing but the windows. -/
theorem decision_allow (self : HostControl) (peer : PeerId) :
    (self.decision outside now peer).allow
      = (self.policyFor outside (self.accountOf now peer)).allow := by
  unfold decision
  simp only
  split <;> rfl

end HostControl

end

/-! ### A host for the examples -/

/-- Nobody outside knows anybody. -/
def nobodyOutside : Outside where
  hostName := "host".toList
  argon2 _ _ := some true
  os _ _ _ := .error none
  ldap _ _ := .error none
  oidc _ _ _ := .error (.refused [])
  kerberos _ _ := .error (.refused [])
  issue _ _ _ _ := .ok "certificate".toList

/-- Sign-in with local accounts, under a policy. -/
def localConfig (policy : Policy) : Config :=
  ⟨[.«local»], "login".toList, [], none, 30, none, 10, [], policy⟩

/-- A host that shows a PIN, and knows no device yet. -/
def freshHost (accounts : Option Accounts) : HostControl where
  trusted := []
  pin := some "123456".toList
  accounts := accounts
  registrations := .new
  deviceLimits _ := none
  commandAuthorizer := pairedDevices
  signIns := .new

/-- A client that has typed the PIN. -/
def pinClient : Client := ⟨⟨.replicate 32 1⟩, .pair, true, "123456".toList, none, true⟩

end WindowCast.Host
