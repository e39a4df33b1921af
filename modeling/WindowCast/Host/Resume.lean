import WindowCast.Host.Control
import WindowCast.Lib.Run

/-!
# Resuming for a local account

A host's local accounts change while the devices that signed in to them resume.
A registration keeps the account as it was at the sign-in, its groups included,
and a resumed device acts for that account while one of its name is there.  The
history beside the host notes which account each sign-in was to: an account made
again under a name is another one.

## Main definitions

* `Change` — the changes of the local accounts.
* `History`, `History.step`, `History.run` — a host, and what was signed in to.
* `History.Registered`, `History.held`, `History.Resumes`.

## Main results

* `History.Recorded.step` — a registration keeps what its sign-in recorded.
* `History.resumed_as_recorded` — **a resumed device is decided as its sign-in
  recorded it, and one whose account is gone resumes no more.**
-/

namespace WindowCast.Host

open WindowCast.Accounts

/-! ### Changes of the local accounts -/

inductive Change
  | create (username hash : Text) (groups : List Text)
  | setPassword (username hash : Text)
  | setGroups (username : Text) (groups : List Text)
  | revoke (username : Text)
  | remove (username : Text)

def Change.apply (store : LocalAccounts) : Change → Except LocalError LocalAccounts
  | create username hash groups => store.create username hash groups
  | setPassword username hash => store.setPassword username hash
  | setGroups username groups => store.setGroups username groups
  | revoke username => store.revoke username
  | remove username => store.remove username

/-- Every account is held under its own user name. -/
def Keyed (store : LocalAccounts) : Prop :=
  ∀ name account, store.accounts name = some account → account.username = name

theorem keyed_insert {store : LocalAccounts} (h : Keyed store) (account : LocalAccount) :
    Keyed (store.insert account.username account) := by
  intro name found hfound
  rw [LocalAccounts.insert_accounts] at hfound
  split at hfound
  · rename_i hname
    cases hfound
    exact hname.symm
  · exact h name found hfound

theorem keyed_update {store store' : LocalAccounts} (h : Keyed store) {username : Text}
    {change : LocalAccount → LocalAccount} (hupdate : store.update username change = .ok store')
    (hchange : ∀ a, (change a).username = a.username) : Keyed store' := by
  obtain ⟨account, haccount, rfl⟩ := LocalAccounts.update_ok hupdate
  have husername : username = (change account).username := by
    rw [hchange, h username account haccount]
  rw [husername]
  exact keyed_insert h (change account)

/-- Changes leave every account under its own user name. -/
theorem keyed_apply {store store' : LocalAccounts} (h : Keyed store) {change : Change}
    (happly : change.apply store = .ok store') : Keyed store' := by
  cases change with
  | create username hash groups =>
    obtain ⟨-, rfl⟩ := LocalAccounts.create_ok happly
    exact keyed_insert h ⟨username, hash, groups, false⟩
  | setPassword username hash => exact keyed_update h happly fun _ => rfl
  | setGroups username groups => exact keyed_update h happly fun _ => rfl
  | revoke username => exact keyed_update h happly fun _ => rfl
  | remove username =>
    intro name found hfound
    rw [LocalAccounts.remove_ok happly, Function.update_apply] at hfound
    split at hfound
    · cases hfound
    · exact h name found hfound

/-! ### Histories -/

/-- A host over time: how often an account has been made under each name, and
the local account each registered device signed in to, as it was then, with its
number among those of its name. -/
structure History where
  host : HostControl
  now : ℕ
  made : Text → ℕ
  signedIn : PeerId → Option (LocalAccount × ℕ)

inductive Event
  | change (change : Change)
  | connect (outside : Outside) (instant : ℕ) (client : Client) (pairing : Bool)
  /-- Pairing is opened with a PIN, or closed. -/
  | pairing (pin : Option Text)
  | unregister (peer : PeerId)
  | later (seconds : ℕ)

/-- A local account as a host knows it after a sign-in by password. -/
def localAccount (account : LocalAccount) : Account :=
  ⟨account.username, account.groups, .password, "local".toList⟩

namespace History

/-- How often accounts have been made under each name, after a change. -/
def remade (made : Text → ℕ) : Change → Text → ℕ
  | .create username _ _ => Function.update made username (made username + 1)
  | _ => made

/-- The local account a sign-in as `account` was to, if it was to one. -/
def signedInTo (self : History) (accounts : Accounts) (account : Account) :
    Option (LocalAccount × ℕ) :=
  if account.method = .password ∧ account.provider = "local".toList then
    (accounts.localAccounts.accounts account.name).map fun a => (a, self.made account.name)
  else none

/-- Which accounts devices have signed in to, after a session was opened. -/
def afterOpen (self : History) (client : Client) (serving : Serving) :
    PeerId → Option (LocalAccount × ℕ) :=
  match client.mode, self.host.accounts, serving.account with
  | .account, some accounts, some account =>
    if accounts.config.registrationDays = 0 then self.signedIn
    else Function.update self.signedIn client.peer (self.signedInTo accounts account)
  | _, _, _ => self.signedIn

/-- A host with sign-in on, before any account is made and any device registered. -/
def start (host : HostControl) (config : Config) (now : ℕ) : History where
  host := { host with accounts := some ⟨config, .new⟩, registrations := .new }
  now := now
  made _ := 0
  signedIn _ := none

/-- The device has signed in to a local account, and its registration has not expired. -/
def Registered (self : History) (peer : PeerId) (account : LocalAccount) (number : ℕ) : Prop :=
  self.signedIn peer = some (account, number) ∧
    (self.host.registrations.get self.now peer).isSome = true

/-- The account that was the `number`th of its name, as the store holds it now. -/
def held (self : History) (name : Text) (number : ℕ) : Option LocalAccount :=
  match self.host.accounts with
  | none => none
  | some accounts => if self.made name = number then accounts.localAccounts.accounts name else none

/-! ### What a registration records -/

/-- Only a sign-in that registers its device changes what it has signed in to. -/
theorem afterOpen_of_kept {self : History} {client : Client} {serving : Serving} {peer : PeerId}
    (h : client.mode = .account → peer ≠ client.peer ∨
      ∀ accounts, self.host.accounts = some accounts → accounts.config.registrationDays = 0) :
    self.afterOpen client serving peer = self.signedIn peer := by
  unfold afterOpen
  cases hmode : client.mode with
  | pair => rfl
  | resume => rfl
  | account =>
    cases haccounts : self.host.accounts with
    | none => rfl
    | some accounts =>
      cases serving.account with
      | none => rfl
      | some account =>
        simp only
        split
        · rfl
        · rename_i hdays
          rcases h hmode with hpeer | hzero
          · exact Function.update_of_ne hpeer _ _
          · exact absurd (hzero accounts haccounts) hdays

/-- What a sign-in registers its device to is what the local account was. -/
theorem signedInTo_account {outside : Outside} {self : History} {accounts : Accounts}
    (hkeyed : Keyed accounts.localAccounts) {client : PeerId} {presented : AccountCredential}
    {signed : Account} {account : LocalAccount} {number : ℕ}
    (hcheck : accounts.check outside client presented = .ok signed)
    (h : self.signedInTo accounts signed = some (account, number)) : signed = localAccount account := by
  unfold signedInTo at h
  split at h
  · rename_i hlocal
    obtain ⟨found, hfound, heq⟩ := Option.map_eq_some_iff.mp h
    cases heq
    obtain ⟨username, a, ha, -, hname, hgroups⟩ := Accounts.check_local hcheck hlocal.1 hlocal.2
    have husername : a.username = username := hkeyed username a ha
    rw [hname, husername, ha] at hfound
    cases hfound
    cases signed
    simp only at hname hgroups hlocal
    rw [localAccount, ← hname, ← hgroups, ← hlocal.1, ← hlocal.2]
  · cases h

/-- What a history keeps: accounts under their names, and in each registration the
account its sign-in was to, as it was then. -/
structure Recorded (s : History) : Prop where
  keyed : ∀ accounts, s.host.accounts = some accounts → Keyed accounts.localAccounts
  registered : ∀ peer account number r, s.signedIn peer = some (account, number) →
    s.host.registrations.get s.now peer = some r → r.account = localAccount account

theorem recorded_start (host : HostControl) (config : Config) (now : ℕ) :
    (start host config now).Recorded where
  keyed accounts h := by
    cases h
    intro name account haccount
    cases haccount
  registered peer account number r h := by
    cases h

/-- What is held of an account is what the store has under its name. -/
theorem held_some {s : History} {accounts : Accounts} (haccounts : s.host.accounts = some accounts)
    {name : Text} {number : ℕ} {current : LocalAccount} (h : s.held name number = some current) :
    accounts.localAccounts.accounts name = some current := by
  unfold held at h
  rw [haccounts] at h
  simp only at h
  split at h
  · exact h
  · cases h

/-- The account of a registered device: the one its registration recorded, while
the store has an active one of its name. -/
theorem Recorded.accountOf {s : History} (h : s.Recorded) {accounts : Accounts}
    (haccounts : s.host.accounts = some accounts) {peer : PeerId} {account : LocalAccount} {number : ℕ}
    (hregistered : s.Registered peer account number) :
    s.host.accountOf s.now peer =
      if accounts.localAccounts.active account.username = true then some (localAccount account)
      else none := by
  obtain ⟨hsigned, hget⟩ := hregistered
  obtain ⟨r, hr⟩ := Option.isSome_iff_exists.mp hget
  have haccount := h.registered peer account number r hsigned hr
  unfold HostControl.accountOf
  simp only [haccounts, hr, haccount, localAccount, ne_eq, not_true_eq_false, false_or]

/-! ### Runs -/

variable [Casing]

/-- One event; a change that fails is none. -/
def step (self : History) : Event → Option History
  | .change change =>
    match self.host.accounts with
    | none => none
    | some accounts =>
      match change.apply accounts.localAccounts with
      | .error _ => none
      | .ok store =>
        some { self with
          host := { self.host with accounts := some { accounts with localAccounts := store } }
          made := remade self.made change }
  | .connect outside instant client pairing =>
    match self.host.openServing outside self.now instant client pairing with
    | (.error _, host) => some { self with host := host }
    | (.ok serving, host) =>
      some { self with host := host, signedIn := self.afterOpen client serving }
  | .pairing pin => some { self with host := { self.host with pin := pin } }
  | .unregister peer =>
    some { self with
      host := { self.host with registrations := self.host.registrations.remove peer }
      signedIn := Function.update self.signedIn peer none }
  | .later seconds => some { self with now := self.now + seconds }

def run (events : List Event) (self : History) : Option History := events.foldlM step self

/-- The account that was the `number`th of its name is there, and not revoked. -/
def Alive (self : History) (account : LocalAccount) (number : ℕ) : Prop :=
  ∃ current, self.held account.username number = some current ∧ current.revoked = false

/-- The device resumes, with this session. -/
def Resumes (self : History) (outside : Outside) (peer : PeerId) (serving : Serving) : Prop :=
  ∃ instant client pairing after, client.mode = .resume ∧ client.peer = peer ∧
    self.host.openServing outside self.now instant client pairing = (.ok serving, after)

/-- A device that is registered after a session was opened was registered
before, or has just signed in. -/
theorem open_get {outside : Outside} {now instant : ℕ} {self after : HostControl} {client : Client}
    {pairing : Bool} {serving : Serving} {peer : PeerId} {r : Registration}
    (h : self.openServing outside now instant client pairing = (.ok serving, after))
    (hget : after.registrations.get now peer = some r) :
    self.registrations.get now peer = some r ∧
        (client.mode = .account → peer ≠ client.peer ∨
          ∀ accounts, self.accounts = some accounts → accounts.config.registrationDays = 0) ∨
      client.mode = .account ∧ peer = client.peer ∧
        ∃ accounts presented, self.accounts = some accounts ∧
          accounts.config.registrationDays ≠ 0 ∧ serving.account = some r.account ∧
          accounts.check outside client.peer presented = .ok r.account := by
  obtain ⟨established, throttle, -, -, hway, rfl, rfl⟩ := HostControl.open_ok h
  cases hway with
  | resumed hmode htrusted | paired hmode htrusted =>
    refine .inl ⟨hget, ?_⟩
    rw [hmode]
    nofun
  | @signedIn gate presented account hmode hgate hpresented hcheck hadmits =>
    have haccounts := HostControl.credential_accounts hgate
    unfold HostControl.establish at hget
    simp only [haccounts, Bool.false_eq_true, if_false] at hget
    rcases Registrations.get_register hget with ⟨hold, hkept⟩ | ⟨hdays, hpeer, haccount⟩
    · refine .inl ⟨hold, ?_⟩
      rintro -
      rcases hkept with hdays | hpeer
      · refine .inr ?_
        intro accounts hsome
        rw [haccounts] at hsome
        cases hsome
        exact hdays
      · exact .inl hpeer
    · refine .inr ⟨hmode, hpeer, gate.accounts, presented, haccounts, hdays, ?_, ?_⟩
      · rw [haccount]
        rfl
      · rw [haccount]
        exact hcheck

/-- A client that is not let in changes neither the accounts nor the registrations. -/
theorem open_error {outside : Outside} {now instant : ℕ} {self after : HostControl} {client : Client}
    {pairing : Bool} {error : TransportError}
    (h : self.openServing outside now instant client pairing = (.error error, after)) :
    after.accounts = self.accounts ∧ after.registrations = self.registrations := by
  unfold HostControl.openServing at h
  split at h
  · cases h
    exact ⟨rfl, rfl⟩
  · cases h

/-- A session that is opened keeps it so. -/
theorem Recorded.open {self : History} (h : self.Recorded) {outside : Outside} {instant : ℕ}
    {client : Client} {pairing : Bool} {serving : Serving} {after : HostControl}
    (hopen : self.host.openServing outside self.now instant client pairing = (.ok serving, after)) :
    ({ self with host := after, signedIn := self.afterOpen client serving } : History).Recorded where
  keyed accounts haccounts := by
    exact h.keyed accounts ((HostControl.open_fields hopen).1 ▸ haccounts)
  registered peer account number r hsigned hget := by
    rcases open_get hopen hget with ⟨hold, hkept⟩ |
        ⟨hmode, rfl, accounts, presented, haccounts, hdays, haccount, hcheck⟩
    · simp only [afterOpen_of_kept hkept] at hsigned
      exact h.registered peer account number r hsigned hold
    · unfold afterOpen at hsigned
      simp only [hmode, haccounts, haccount] at hsigned
      simp only [if_neg hdays, Function.update_self] at hsigned
      exact signedInTo_account (h.keyed accounts haccounts) hcheck hsigned

/-- Every event keeps it so. -/
theorem Recorded.step {self after : History} {event : Event} (h : self.Recorded)
    (hstep : self.step event = some after) : after.Recorded := by
  unfold History.step at hstep
  cases event with
  | change change =>
    simp only at hstep
    split at hstep
    · cases hstep
    rename_i accounts haccounts
    split at hstep
    · cases hstep
    · rename_i store hstore
      cases hstep
      refine ⟨?_, h.registered⟩
      intro accounts' hsome
      cases hsome
      exact keyed_apply (h.keyed accounts haccounts) hstore
  | connect outside instant client pairing =>
    simp only at hstep
    split at hstep
    · rename_i error after hopen
      cases hstep
      obtain ⟨haccounts, hregistrations⟩ := open_error hopen
      constructor
      · intro accounts hsome
        exact h.keyed accounts (haccounts ▸ hsome)
      · intro peer account number r hsigned hget
        exact h.registered peer account number r hsigned (hregistrations ▸ hget)
    · rename_i serving after hopen
      cases hstep
      exact h.open hopen
  | pairing pin =>
    cases hstep
    exact ⟨h.keyed, h.registered⟩
  | unregister peer =>
    cases hstep
    refine ⟨h.keyed, ?_⟩
    intro device account number r hsigned hget
    obtain ⟨hold, hne⟩ := Registrations.get_remove hget
    simp only [Function.update_of_ne hne] at hsigned
    exact h.registered device account number r hsigned hold
  | later seconds =>
    cases hstep
    refine ⟨h.keyed, ?_⟩
    intro peer account number r hsigned hget
    exact h.registered peer account number r hsigned
      (Registrations.get_mono (Nat.le_add_right _ _) hget)

/-- Along a run, every registration keeps what its sign-in recorded. -/
theorem recorded_run {host : HostControl} {config : Config} {now : ℕ} {events : List Event}
    {s : History} (h : run events (start host config now) = some s) : s.Recorded := by
  apply Run.invariant (I := Recorded) (A := fun _ => True) ?_ events _ s (recorded_start host config now)
    (fun _ _ => trivial) h
  intro s₁ event s₂ hs₁ _ hstep
  exact hs₁.step hstep

/-! ### Resuming -/

/-- A resumed session acts for its device's account; its device is admitted. -/
theorem resumes_account {s : History} {outside : Outside} {peer : PeerId} {serving : Serving}
    (h : s.Resumes outside peer serving) :
    serving.account = s.host.accountOf s.now peer ∧ s.host.admitted outside s.now peer = true := by
  obtain ⟨instant, client, pairing, after, hmode, rfl, hopen⟩ := h
  obtain ⟨established, throttle, -, -, hway, rfl, rfl⟩ := HostControl.open_ok hopen
  cases hway with
  | resumed _ htrusted => exact ⟨HostControl.serving_account .., htrusted⟩
  | paired hmode' => cases hmode.symm.trans hmode'
  | signedIn hmode' => cases hmode.symm.trans hmode'

/-- A device that acts for no account is admitted as a paired one only. -/
theorem trusted_of_admitted {outside : Outside} {now : ℕ} {self : HostControl} {peer : PeerId}
    (h : self.admitted outside now peer = true) (hnone : self.accountOf now peer = none) :
    peer ∈ self.trusted := by
  unfold HostControl.admitted at h
  simp only [hnone, Option.isSome_none, Bool.and_false, Bool.false_and, Bool.or_false,
    Bool.and_eq_true, decide_eq_true_eq] at h
  exact h.1

/-- **A resumed device is decided as its sign-in recorded it, and one whose account
is gone resumes no more.**  Gone is an account that is not held or revoked, with no
other made under its name; a device that is paired as well still resumes as that,
for no account. -/
theorem resumed_as_recorded {host : HostControl} {config : Config} {now : ℕ} {events : List Event}
    {s : History} (h : run events (start host config now) = some s) (outside : Outside)
    (peer : PeerId) (account : LocalAccount) (number : ℕ)
    (hregistered : s.Registered peer account number) (serving : Serving)
    (hresumes : s.Resumes outside peer serving) :
    (s.Alive account number → serving.account = some (localAccount account) ∧
        serving.decision = s.host.policyFor outside (some (localAccount account))) ∧
      (¬ s.Alive account number → s.made account.username = number →
        serving.account = none ∧ peer ∈ s.host.trusted) := by
  obtain ⟨haccount, hadmitted⟩ := resumes_account hresumes
  have hrecorded := recorded_run h
  cases haccounts : s.host.accounts with
  | none =>
    have hnone : s.host.accountOf s.now peer = none := by
      unfold HostControl.accountOf
      rw [haccounts]
    constructor
    · rintro ⟨current, hheld, -⟩
      simp only [held, haccounts, reduceCtorEq] at hheld
    · rintro - -
      exact ⟨haccount.trans hnone, trusted_of_admitted hadmitted hnone⟩
  | some accounts =>
    have hof := hrecorded.accountOf haccounts hregistered
    constructor
    · rintro ⟨current, hheld, hrevoked⟩
      have hactive : accounts.localAccounts.active account.username = true := by
        rw [LocalAccounts.active_iff]
        exact ⟨current, held_some haccounts hheld, hrevoked⟩
      rw [if_pos hactive] at hof
      have hserving := haccount.trans hof
      refine ⟨hserving, ?_⟩
      obtain ⟨instant, client, pairing, after, -, -, hopen⟩ := hresumes
      rw [HostControl.open_policy hopen (haccounts ▸ rfl), hserving]
    · intro hgone hmade
      have hactive : ¬ accounts.localAccounts.active account.username = true := by
        rw [LocalAccounts.active_iff]
        rintro ⟨current, hcurrent, hrevoked⟩
        have hheld : s.held account.username number = some current := by
          unfold held
          rw [haccounts]
          exact (if_pos hmade).trans hcurrent
        exact hgone ⟨current, hheld, hrevoked⟩
      rw [if_neg hactive] at hof
      exact ⟨haccount.trans hof, trusted_of_admitted hadmitted hof⟩

end History

/-! ### Groups that change, and names that are used again -/

/-- A device that signs in as alice. -/
def aliceSignsIn : Client :=
  ⟨⟨.replicate 32 1⟩, .account, true, [], some (.password "alice".toList "hunter2000".toList), true⟩

/-- The same device when it resumes. -/
def aliceResumes : Client := { aliceSignsIn with mode := .resume, credential := none }

/-- A configuration that admits administrators only. -/
def adminsOnly : Config := localConfig ⟨[⟨["group:admins".toList], [], true, [], none, none⟩]⟩

/-- Alice, who administrates, is made an account, and her device signs in. -/
def aliceRegistered : List Event :=
  [.change (.create "alice".toList "hash".toList ["admins".toList]),
    .connect nobodyOutside 0 aliceSignsIn true]

/-- Alice's account as it was made. -/
def aliceAccount : LocalAccount := ⟨"alice".toList, "hash".toList, ["admins".toList], false⟩

namespace History

/-- The host after her sign-in and some changes of the accounts. -/
def aliceAfter (changes : List Change) : History :=
  (@run Text.asciiCasing (aliceRegistered ++ changes.map .change) (start (freshHost none) adminsOnly 0)).getD
    (start (freshHost none) adminsOnly 0)

/-- Her device's session when it resumes. -/
def aliceSession (s : History) : Serving :=
  @HostControl.serving Text.asciiCasing nobodyOutside s.now s.host ⟨aliceResumes.peer, false, none⟩

/-- Alice's device resumes as an administrator's. -/
theorem resumed_as_recorded_alice :
    @Resumes Text.asciiCasing (aliceAfter []) nobodyOutside aliceResumes.peer
        (aliceSession (aliceAfter [])) ∧
      (aliceSession (aliceAfter [])).account = some (localAccount aliceAccount) := by
  have hresumes : @Resumes Text.asciiCasing (aliceAfter []) nobodyOutside aliceResumes.peer
      (aliceSession (aliceAfter [])) := ⟨0, aliceResumes, true, _, rfl, rfl, rfl⟩
  refine ⟨hresumes, ?_⟩
  have halive : (aliceAfter []).Alive aliceAccount 1 := ⟨aliceAccount, rfl, rfl⟩
  exact ((@resumed_as_recorded Text.asciiCasing (freshHost none) adminsOnly 0 aliceRegistered _ rfl
    nobodyOutside aliceResumes.peer aliceAccount 1 ⟨rfl, rfl⟩ _ hresumes).1 halive).1

/-- **A device keeps the groups its account has lost, and resumes for another
account of the same name.** -/
theorem changed_account_resumes :
    (¬ ∀ (_ : Casing) (host : HostControl) (config : Config) (now : ℕ) (events : List Event)
        (s : History), run events (start host config now) = some s →
      ∀ outside peer account number, s.Registered peer account number →
        ∀ serving, s.Resumes outside peer serving →
          ∀ current, s.held account.username number = some current → current.revoked = false →
            serving.decision = s.host.policyFor outside (some (localAccount current))) ∧
    ¬ ∀ (_ : Casing) (host : HostControl) (config : Config) (now : ℕ) (events : List Event)
        (s : History), run events (start host config now) = some s →
      ∀ outside peer account number, s.Registered peer account number →
        ∀ serving, s.Resumes outside peer serving → ¬ s.Alive account number →
          peer ∈ s.host.trusted := by
  constructor
  · intro h
    have hresumes : @Resumes Text.asciiCasing (aliceAfter [.setGroups "alice".toList []]) nobodyOutside
        aliceResumes.peer (aliceSession (aliceAfter [.setGroups "alice".toList []])) :=
      ⟨0, aliceResumes, true, _, rfl, rfl, rfl⟩
    have hallow := congrArg Decision.allow (h Text.asciiCasing (freshHost none) adminsOnly 0
      (aliceRegistered ++ [.change (.setGroups "alice".toList [])]) _ rfl nobodyOutside
      aliceResumes.peer aliceAccount 1 ⟨rfl, rfl⟩ _ hresumes
      ⟨"alice".toList, "hash".toList, [], false⟩ rfl rfl)
    revert hallow
    decide +kernel
  · intro h
    have hresumes : @Resumes Text.asciiCasing (aliceAfter [.remove "alice".toList,
        .create "alice".toList "another hash".toList []]) nobodyOutside aliceResumes.peer
        (aliceSession (aliceAfter [.remove "alice".toList,
          .create "alice".toList "another hash".toList []])) :=
      ⟨0, aliceResumes, true, _, rfl, rfl, rfl⟩
    have htrusted := h Text.asciiCasing (freshHost none) adminsOnly 0
      (aliceRegistered ++ [.change (.remove "alice".toList),
        .change (.create "alice".toList "another hash".toList [])]) _ rfl nobodyOutside
      aliceResumes.peer aliceAccount 1 ⟨rfl, rfl⟩ _ hresumes ?_
    · cases htrusted
    · rintro ⟨current, hheld, -⟩
      cases hheld

end History

end WindowCast.Host
