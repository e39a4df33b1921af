import WindowCast.Accounts.Local

/-!
# Checking accounts

A host's sign-in configuration with its local accounts: which credentials it
takes, who they sign in, and what policy makes of the account.  What the
operating system, a directory, an OpenID Connect provider or Kerberos says to a
credential is outside.

## Main definitions

* `Outside` — what is asked outside this program.
* `Config`, `Accounts` — the configuration, and the local accounts.
* `Accounts.check` — the account a credential signs in.
* `Accounts.decide`, `Accounts.admits` — the host's policy for an account.

## Main results

* `Accounts.check_local` — an account called local that was signed in by
  password is an active local account.
-/

namespace WindowCast.Accounts

set_option linter.dupNamespace false

/-- Why a credential is not taken. -/
inductive CheckError
  /-- A local account's error. -/
  | refusedLocal (error : LocalError)
  /-- The credential is wrong, as someone else says. -/
  | refused (why : Text)
  /-- No source knows the user. -/
  | noSource (username : Text)
  /-- This host does not take that kind of credential. -/
  | notOffered (what : Text)
  | unavailable (why : Text)
  deriving DecidableEq, Repr

/-- A source of passwords: `none` for a user it does not know. -/
abbrev SourceResult (α : Type) := Except (Option CheckError) α

/-- What is asked outside this program: the groups of a user that an operating
system or a directory knows, the name and the groups in an ID token, the name,
the groups and the realm of a ticket's principal, and the certificate authority
behind a key file. -/
structure Outside where
  hostName : Text
  argon2 : Text → Text → Option Bool
  os : (pamService username password : Text) → SourceResult (List Text)
  ldap : (username password : Text) → SourceResult (List Text)
  oidc : (provider idToken : Text) → PeerId → Except CheckError (Text × List Text)
  kerberos : (service : Text) → List UInt8 → Except CheckError (Text × List Text × Text)
  /-- The certificate that the authority in the file signs, or why it does not. -/
  issue : (ca publicKey : Text) → Account → (seconds : ℕ) → Except Text Text

/-- Where a host checks passwords. -/
inductive PasswordSource
  | «local»
  | os
  | ldap
  deriving DecidableEq, Repr

/-- A host's sign-in configuration. -/
structure Config where
  /-- Password sources, in order; empty takes no passwords. -/
  password : List PasswordSource
  pamService : Text
  /-- The names of the OpenID Connect providers. -/
  oidc : List Text
  /-- The Kerberos service principal; `none` takes no tickets. -/
  kerberos : Option Text
  /-- How long a sign-in registers a device for, in days. -/
  registrationDays : ℕ
  /-- The key file of the SSH certificate authority; `none` signs none. -/
  sshCa : Option Text
  sshCertificateMinutes : ℕ
  /-- The name rules match; empty is the machine's own. -/
  hostName : Text
  policy : Policy
  deriving DecidableEq, Repr

/-- What a device presents to sign in. -/
inductive AccountCredential
  | password (username password : Text)
  | oidc (provider idToken : Text)
  | kerberos (token : List UInt8)
  deriving DecidableEq, Repr

/-- A host's account checking. -/
structure Accounts where
  config : Config
  localAccounts : LocalAccounts

namespace Accounts

variable (outside : Outside)

/-- The name policy rules match hosts by. -/
def hostName (self : Accounts) : Text :=
  if self.config.hostName.isEmpty then outside.hostName else self.config.hostName

/-- One source's answer. -/
def askSource (self : Accounts) (username password : Text) : PasswordSource → SourceResult Account
  | .«local» =>
    match self.localAccounts.verifyPassword outside.argon2 username password with
    | .ok a => .ok ⟨a.username, a.groups, .password, "local".toList⟩
    | .error (.notFound _) => .error none
    | .error e => .error (some (.refusedLocal e))
  | .os =>
    (outside.os self.config.pamService username password).map fun groups =>
      ⟨username, groups, .password, "os".toList⟩
  | .ldap =>
    (outside.ldap username password).map fun groups =>
      ⟨username, groups, .password, "ldap".toList⟩

/-- The sources in order; the first that knows the user decides. -/
def askSources (self : Accounts) (username password : Text) :
    List PasswordSource → Except CheckError Account
  | [] => .error (.noSource username)
  | source :: sources =>
    match self.askSource outside username password source with
    | .ok account => .ok account
    | .error (some e) => .error e
    | .error none => askSources self username password sources

/-- Checks a user name and password against the host's password sources. -/
def checkPassword (self : Accounts) (username password : Text) : Except CheckError Account :=
  if self.config.password.isEmpty then .error (.notOffered "password".toList)
  else self.askSources outside username password self.config.password

/-- Checks a credential presented by the device `client`. -/
def check (self : Accounts) (client : PeerId) : AccountCredential → Except CheckError Account
  | .password username password => self.checkPassword outside username password
  | .oidc provider idToken =>
    if provider ∈ self.config.oidc then
      (outside.oidc provider idToken client).map fun (name, groups) =>
        ⟨name, groups, .oidc, provider⟩
    else .error (.notOffered "this provider's".toList)
  | .kerberos token =>
    match self.config.kerberos with
    | none => .error (.notOffered "Kerberos".toList)
    | some service =>
      (outside.kerberos service token).map fun (name, groups, realm) =>
        ⟨name, groups, .kerberos, realm⟩

/-- The host's policy for `account` (`none`: a PIN-paired device). -/
def decide [Casing] (self : Accounts) (account : Option Account) : Decision :=
  self.config.policy.decide account (self.hostName outside)

/-- Whether the host's policy lets `account` connect at all. -/
def admits [Casing] (self : Accounts) (account : Option Account) : Bool :=
  (self.decide outside account).allow

variable {outside}

/-- What a source answers is a password account of its own. -/
theorem askSource_ok {self : Accounts} {username password : Text} {source : PasswordSource}
    {account : Account} (h : self.askSource outside username password source = .ok account) :
    account.method = .password ∧ (account.provider = "local".toList →
      ∃ a, self.localAccounts.accounts username = some a ∧ a.revoked = false ∧
        account.name = a.username ∧ account.groups = a.groups) := by
  cases source with
  | «local» =>
    unfold askSource at h
    simp only at h
    split at h
    · rename_i a ha
      cases h
      obtain ⟨hfound, hrevoked⟩ := LocalAccounts.verifyPassword_ok ha
      exact ⟨rfl, fun _ => ⟨a, hfound, hrevoked, rfl, rfl⟩⟩
    · cases h
    · cases h
  | os =>
    unfold askSource at h
    simp only at h
    cases hos : outside.os self.config.pamService username password with
    | error e =>
      rw [hos] at h
      cases h
    | ok groups =>
      rw [hos] at h
      cases h
      refine ⟨rfl, fun hprovider => ?_⟩
      cases hprovider
  | ldap =>
    unfold askSource at h
    simp only at h
    cases hldap : outside.ldap username password with
    | error e =>
      rw [hldap] at h
      cases h
    | ok groups =>
      rw [hldap] at h
      cases h
      refine ⟨rfl, fun hprovider => ?_⟩
      cases hprovider

/-- So is what the sources answer together. -/
theorem askSources_ok {self : Accounts} {username password : Text} {sources : List PasswordSource}
    {account : Account} (h : self.askSources outside username password sources = .ok account) :
    account.method = .password ∧ (account.provider = "local".toList →
      ∃ a, self.localAccounts.accounts username = some a ∧ a.revoked = false ∧
        account.name = a.username ∧ account.groups = a.groups) := by
  induction sources with
  | nil => cases h
  | cons source sources ih =>
    unfold askSources at h
    split at h
    · rename_i account' haccount
      cases h
      exact askSource_ok haccount
    · cases h
    · exact ih h

/-- **An account called local that was signed in by password is an active local
account.** -/
theorem check_local {self : Accounts} {client : PeerId} {credential : AccountCredential}
    {account : Account} (h : self.check outside client credential = .ok account)
    (hmethod : account.method = .password) (hprovider : account.provider = "local".toList) :
    ∃ username a, self.localAccounts.accounts username = some a ∧ a.revoked = false ∧
      account.name = a.username ∧ account.groups = a.groups := by
  cases credential with
  | password username password =>
    unfold check checkPassword at h
    simp only at h
    split at h
    · cases h
    · obtain ⟨-, hlocal⟩ := askSources_ok h
      obtain ⟨a, ha⟩ := hlocal hprovider
      exact ⟨username, a, ha⟩
  | oidc provider idToken =>
    unfold check at h
    simp only at h
    split at h
    · cases hoidc : outside.oidc provider idToken client with
      | error e =>
        rw [hoidc] at h
        cases h
      | ok answer =>
        rw [hoidc] at h
        cases h
        cases hmethod
    · cases h
  | kerberos token =>
    unfold check at h
    simp only at h
    split at h
    · cases h
    · rename_i service hservice
      cases hkerberos : outside.kerberos service token with
      | error e =>
        rw [hkerberos] at h
        cases h
      | ok answer =>
        rw [hkerberos] at h
        cases h
        cases hmethod

end Accounts

end WindowCast.Accounts
