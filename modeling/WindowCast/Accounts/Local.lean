import WindowCast.Accounts.Policy

/-!
# Local accounts and registered devices

A host's own accounts, by user name, and the devices that sign-ins have
registered.  A registration keeps a copy of the account as it was at the
sign-in.

## Main definitions

* `LocalAccounts` — the accounts; `create`, `setGroups`, `revoke`, `remove`,
  `active`, `verifyPassword`.
* `Registrations` — the devices; `register`, `get`, `remove`, `removeAccount`.

## Main results

* `LocalAccounts.update_ok`, `LocalAccounts.create_ok`, `LocalAccounts.remove_ok` —
  what each change makes of the accounts.
* `Registrations.get_register` — what is registered after a sign-in.
* `Registrations.get_mono` — time only makes registrations expire.
-/

namespace WindowCast.Accounts

/-- A device's public key. -/
structure PeerId where
  bytes : Vector UInt8 32
  deriving DecidableEq

/-! ### Local accounts -/

inductive LocalError
  | notFound (username : Text)
  | alreadyExists (username : Text)
  | wrongPassword
  | hash
  deriving DecidableEq, Repr

structure LocalAccount where
  username : Text
  passwordHash : Text
  groups : List Text
  revoked : Bool
  deriving DecidableEq, Repr

/-- The accounts, by user name. -/
structure LocalAccounts where
  accounts : Text → Option LocalAccount

namespace LocalAccounts

def new : LocalAccounts := ⟨fun _ => none⟩

def insert (self : LocalAccounts) (username : Text) (account : LocalAccount) : LocalAccounts :=
  ⟨Function.update self.accounts username (some account)⟩

/-- Makes an account; `hash` is what `hash_password` makes of its password. -/
def create (self : LocalAccounts) (username hash : Text) (groups : List Text) :
    Except LocalError LocalAccounts :=
  if (self.accounts username).isSome then .error (.alreadyExists username)
  else .ok (self.insert username ⟨username, hash, groups, false⟩)

/-- Changes an account there is. -/
def update (self : LocalAccounts) (username : Text) (change : LocalAccount → LocalAccount) :
    Except LocalError LocalAccounts :=
  match self.accounts username with
  | none => .error (.notFound username)
  | some account => .ok (self.insert username (change account))

def setPassword (self : LocalAccounts) (username hash : Text) : Except LocalError LocalAccounts :=
  self.update username fun account => { account with passwordHash := hash }

def setGroups (self : LocalAccounts) (username : Text) (groups : List Text) :
    Except LocalError LocalAccounts :=
  self.update username fun account => { account with groups := groups }

/-- Stops the account signing in. -/
def revoke (self : LocalAccounts) (username : Text) : Except LocalError LocalAccounts :=
  self.update username fun account => { account with revoked := true }

def remove (self : LocalAccounts) (username : Text) : Except LocalError LocalAccounts :=
  match self.accounts username with
  | none => .error (.notFound username)
  | some _ => .ok ⟨Function.update self.accounts username none⟩

/-- Whether `username` exists and is not revoked. -/
def active (self : LocalAccounts) (username : Text) : Bool :=
  (self.accounts username).any fun account => !account.revoked

/-- Verifies a sign-in; `argon2` says whether a password fits a hash, and
nothing where the hash cannot be read. -/
def verifyPassword (argon2 : Text → Text → Option Bool) (self : LocalAccounts)
    (username password : Text) : Except LocalError LocalAccount :=
  match self.accounts username with
  | none => .error (.notFound username)
  | some account =>
    if account.revoked then .error .wrongPassword
    else
      match argon2 account.passwordHash password with
      | none => .error .hash
      | some false => .error .wrongPassword
      | some true => .ok account

theorem insert_accounts (self : LocalAccounts) (username name : Text) (account : LocalAccount) :
    (self.insert username account).accounts name =
      if name = username then some account else self.accounts name :=
  Function.update_apply _ _ _ _

/-- What a change makes of the accounts. -/
theorem update_ok {self store : LocalAccounts} {username : Text} {change : LocalAccount → LocalAccount}
    (h : self.update username change = .ok store) :
    ∃ account, self.accounts username = some account ∧
      store = self.insert username (change account) := by
  unfold update at h
  split at h
  · cases h
  · rename_i account haccount
    cases h
    exact ⟨account, haccount, rfl⟩

theorem create_ok {self store : LocalAccounts} {username hash : Text} {groups : List Text}
    (h : self.create username hash groups = .ok store) :
    self.accounts username = none ∧ store = self.insert username ⟨username, hash, groups, false⟩ := by
  unfold create at h
  split at h
  · cases h
  · rename_i hnone
    cases h
    exact ⟨Option.not_isSome_iff_eq_none.mp hnone, rfl⟩

theorem remove_ok {self store : LocalAccounts} {username : Text} (h : self.remove username = .ok store) :
    store.accounts = Function.update self.accounts username none := by
  unfold remove at h
  split at h
  · cases h
  · cases h
    rfl

/-- A sign-in is to an account that is there and not revoked. -/
theorem verifyPassword_ok {argon2 : Text → Text → Option Bool} {self : LocalAccounts}
    {username password : Text} {account : LocalAccount}
    (h : self.verifyPassword argon2 username password = .ok account) :
    self.accounts username = some account ∧ account.revoked = false := by
  unfold verifyPassword at h
  split at h
  · cases h
  rename_i found hfound
  split at h
  · cases h
  rename_i hrevoked
  split at h
  · cases h
  · cases h
  · cases h
    rw [Bool.not_eq_true] at hrevoked
    exact ⟨hfound, hrevoked⟩

theorem active_iff {self : LocalAccounts} {username : Text} :
    self.active username = true ↔
      ∃ account, self.accounts username = some account ∧ account.revoked = false := by
  unfold active
  rw [Option.any_eq_true]
  simp only [Bool.not_eq_true']

end LocalAccounts

/-! ### Registered devices -/

/-- What a sign-in leaves behind; times are in seconds since the Unix epoch. -/
structure Registration where
  account : Account
  registered : ℕ
  expires : ℕ
  deriving DecidableEq, Repr

/-- The registered devices, by device key. -/
structure Registrations where
  devices : PeerId → Option Registration

namespace Registrations

def new : Registrations := ⟨fun _ => none⟩

/-- Registers `device` to `account` for `days` days (0: nothing is kept). -/
def register (self : Registrations) (now : ℕ) (device : PeerId) (account : Account) (days : ℕ) :
    Registrations :=
  if days = 0 then self
  else ⟨Function.update self.devices device (some ⟨account, now, now + days * 24 * 60 * 60⟩)⟩

/-- The account `device` is registered to, unless it has expired. -/
def get (self : Registrations) (now : ℕ) (device : PeerId) : Option Registration :=
  (self.devices device).filter fun r => r.expires > now

/-- Forgets `device`: it has to sign in again. -/
def remove (self : Registrations) (device : PeerId) : Registrations :=
  ⟨Function.update self.devices device none⟩

/-- Forgets every device of the account named `name` from `provider`. -/
def removeAccount (self : Registrations) (name provider : Text) : Registrations :=
  ⟨fun device => (self.devices device).filter fun r =>
    !(r.account.name = name && r.account.provider = provider)⟩

/-- What is registered after a sign-in. -/
theorem get_register {self : Registrations} {now : ℕ} {device peer : PeerId} {account : Account}
    {days : ℕ} {r : Registration} (h : (self.register now device account days).get now peer = some r) :
    self.get now peer = some r ∧ (days = 0 ∨ peer ≠ device) ∨
      days ≠ 0 ∧ peer = device ∧ r.account = account := by
  unfold register at h
  split at h
  · rename_i hdays
    exact .inl ⟨h, .inl hdays⟩
  rename_i hdays
  unfold get at h
  simp only at h
  rw [Function.update_apply] at h
  split at h
  · rename_i hpeer
    obtain ⟨hr, -⟩ := Option.filter_eq_some_iff.mp h
    cases hr
    exact .inr ⟨hdays, hpeer, rfl⟩
  · rename_i hpeer
    exact .inl ⟨h, .inr hpeer⟩

theorem get_remove {self : Registrations} {now : ℕ} {device peer : PeerId} {r : Registration}
    (h : (self.remove device).get now peer = some r) :
    self.get now peer = some r ∧ peer ≠ device := by
  unfold get remove at h
  simp only at h
  rw [Function.update_apply] at h
  split at h
  · cases h
  · rename_i hpeer
    exact ⟨h, hpeer⟩

/-- Time only makes registrations expire. -/
theorem get_mono {self : Registrations} {now later : ℕ} (hle : now ≤ later) {peer : PeerId}
    {r : Registration} (h : self.get later peer = some r) : self.get now peer = some r := by
  obtain ⟨hr, hexpires⟩ := Option.filter_eq_some_iff.mp h
  refine Option.filter_eq_some_iff.mpr ⟨hr, ?_⟩
  rw [decide_eq_true_eq] at hexpires ⊢
  exact lt_of_le_of_lt hle hexpires

end Registrations

end WindowCast.Accounts
