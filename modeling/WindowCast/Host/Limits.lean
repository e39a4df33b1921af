import WindowCast.Host.Control

/-!
# The windows a session sees

A host application may limit a device to the windows some globs match, on top of
the policy.  A session lists and streams the windows its decision lets through;
with sign-in on that decision is the policy's alone.

## Main definitions

* `WindowInfo` — a window of the host.
* `allowedWindows`, `streamAllowed` — what a session lists, and what it may stream.
* `Keeps` — a decision shows and streams the windows some globs match only.

## Main results

* `keeps_limitedTo` — a limited decision keeps to its limit.
* `keeps_iff_of_no_limit` — a decision without a limit keeps to globs by chance.
* `HostControl.limit_binds_iff` — **a device's limit binds a session exactly with
  sign-in off, or where policy shows it no other window.**
-/

namespace WindowCast.Host

open WindowCast.Accounts

/-! ### Windows -/

/-- A window's number at the window system. -/
abbrev WindowId := UInt64

/-- What identifies a window to a user and to the globs. -/
structure WindowInfo where
  id : WindowId
  title : Text
  appId : Text
  deriving DecidableEq, Repr

section

variable [Casing]

/-- A window that one of the globs matches. -/
def WindowInfo.Matches (self : WindowInfo) (globs : List Text) : Prop :=
  ∃ pattern ∈ globs, glob pattern self.appId = true ∨ glob pattern self.title = true

instance (w : WindowInfo) (globs : List Text) : Decidable (w.Matches globs) :=
  inferInstanceAs (Decidable (∃ pattern ∈ globs, _))

/-- The host's windows this session's policy lets it see. -/
def allowedWindows (windows : List WindowInfo) (decision : Decision) : List WindowInfo :=
  windows.filter fun w => decision.windowAllowed w.appId w.title

/-- Whether policy lets this session stream `window`, with the windows there are. -/
def streamAllowed (windows : List WindowInfo) (decision : Decision) (window : WindowId) : Bool :=
  -- No limit at all, neither the policy's nor the application's for this device.
  if decision.windows.isEmpty && decision.deviceWindows.isEmpty then true
  else windows.any fun w => decide (w.id = window) && decision.windowAllowed w.appId w.title

/-- A decision keeps to the globs: every window it shows, and every one it lets a
session stream, is one they match. -/
def Keeps (windows : List WindowInfo) (decision : Decision) (globs : List Text) : Prop :=
  (∀ w ∈ allowedWindows windows decision, w.Matches globs) ∧
    ∀ window, streamAllowed windows decision window = true →
      ∃ w ∈ windows, w.id = window ∧ w.Matches globs

/-- Policy's own globs show no window but those the limit matches, and refuse
a window that is not there. -/
def Within (windows : List WindowInfo) (policy globs : List Text) : Prop :=
  (policy = [] → ∀ window : WindowId, ∃ w ∈ windows, w.id = window) ∧
    ∀ w ∈ windows, passes policy w.appId w.title = true → w.Matches globs

theorem mem_allowedWindows {windows : List WindowInfo} {decision : Decision} {w : WindowInfo} :
    w ∈ allowedWindows windows decision ↔
      w ∈ windows ∧ decision.windowAllowed w.appId w.title = true :=
  List.mem_filter

/-- A window a session with some limit may stream is a window it is shown. -/
theorem streamAllowed_iff {windows : List WindowInfo} {decision : Decision}
    (h : decision.windows ≠ [] ∨ decision.deviceWindows ≠ []) (window : WindowId) :
    streamAllowed windows decision window = true ↔
      ∃ w ∈ allowedWindows windows decision, w.id = window := by
  unfold streamAllowed
  rw [if_neg]
  · simp only [List.any_eq_true, mem_allowedWindows, Bool.and_eq_true, decide_eq_true_eq]
    constructor
    · rintro ⟨w, hw, hid, hallowed⟩
      exact ⟨w, ⟨hw, hallowed⟩, hid⟩
    · rintro ⟨w, ⟨hw, hallowed⟩, hid⟩
      exact ⟨w, hw, hid, hallowed⟩
  · rw [Bool.and_eq_true, List.isEmpty_iff, List.isEmpty_iff]
    rintro ⟨hwindows, hdevice⟩
    rcases h with h | h
    · exact h hwindows
    · exact h hdevice

/-- Keeping to globs, for a decision with some limit: only the list has to. -/
theorem keeps_of_shown {windows : List WindowInfo} {decision : Decision} {globs : List Text}
    (h : decision.windows ≠ [] ∨ decision.deviceWindows ≠ [])
    (hshown : ∀ w ∈ allowedWindows windows decision, w.Matches globs) :
    Keeps windows decision globs := by
  refine ⟨hshown, ?_⟩
  intro window hallowed
  obtain ⟨w, hw, hid⟩ := (streamAllowed_iff h window).mp hallowed
  exact ⟨w, (mem_allowedWindows.mp hw).1, hid, hshown w hw⟩

/-- A limited decision keeps to its limit. -/
theorem keeps_limitedTo (windows : List WindowInfo) (decision : Decision) (globs : Globs) :
    Keeps windows (decision.limitedTo globs) globs := by
  apply keeps_of_shown (.inr globs.property)
  intro w hw
  have hallowed := (mem_allowedWindows.mp hw).2
  rw [Decision.windowAllowed_limitedTo, Bool.and_eq_true] at hallowed
  exact (passes_iff globs.property _ _).mp hallowed.2

/-- A decision without a limit keeps to globs only where its own globs do. -/
theorem keeps_iff_of_no_limit {decision : Decision} (h : decision.deviceWindows = [])
    (windows : List WindowInfo) (globs : List Text) :
    Keeps windows decision globs ↔ Within windows decision.windows globs := by
  constructor
  · rintro ⟨hshown, hstream⟩
    constructor
    · intro hwindows window
      have hallowed : streamAllowed windows decision window = true := by
        unfold streamAllowed
        rw [hwindows, h]
        rfl
      obtain ⟨w, hw, hid, -⟩ := hstream window hallowed
      exact ⟨w, hw, hid⟩
    · intro w hw hpasses
      apply hshown
      rw [mem_allowedWindows, Decision.windowAllowed_of_no_limit h]
      exact ⟨hw, hpasses⟩
  · rintro ⟨hthere, hwithin⟩
    have hshown : ∀ w ∈ allowedWindows windows decision, w.Matches globs := by
      intro w hw
      rw [mem_allowedWindows, Decision.windowAllowed_of_no_limit h] at hw
      exact hwithin w hw.1 hw.2
    by_cases hwindows : decision.windows = []
    · refine ⟨hshown, ?_⟩
      rintro window -
      obtain ⟨w, hw, hid⟩ := hthere hwindows window
      have hpasses : passes decision.windows w.appId w.title = true := by
        rw [hwindows]
        rfl
      exact ⟨w, hw, hid, hwithin w hw hpasses⟩
    · exact keeps_of_shown (.inl hwindows) hshown

end

/-! ### Sessions -/

namespace HostControl

variable [Casing] {outside : Outside} {now instant : ℕ}

variable (outside now) in
/-- The account a client's session acts for: the one it signs in with, else the
one its device is registered to. -/
def actsFor (self : HostControl) (client : Client) : Option Account :=
  match client.mode, self.accounts, client.credential with
  | .account, some accounts, some presented =>
    (accounts.check outside client.peer presented).toOption
  | _, _, _ => self.accountOf now client.peer

/-- A session is the client's device's, for the account it acts for; with sign-in
off, a device acts for none. -/
theorem open_account {self after : HostControl} {client : Client} {pairing : Bool} {serving : Serving}
    (h : self.openServing outside now instant client pairing = (.ok serving, after)) :
    serving.peer = client.peer ∧ serving.account = self.actsFor outside now client := by
  obtain ⟨established, throttle, hsigns, hstays, hway, rfl, rfl⟩ := open_ok h
  cases hway with
  | resumed hmode htrusted | paired hmode htrusted =>
    refine ⟨rfl, ?_⟩
    unfold actsFor
    rw [hmode]
    exact serving_account ..
  | signedIn hmode hgate hpresented hcheck hadmits =>
    refine ⟨rfl, ?_⟩
    unfold actsFor
    rw [hmode, hpresented, credential_accounts hgate]
    simp only [hcheck]
    rfl

/-- With sign-in on, a session's decision is the policy's; with sign-in off, its
device's limit is on it. -/
theorem open_decision {self after : HostControl} {client : Client} {pairing : Bool} {serving : Serving}
    (h : self.openServing outside now instant client pairing = (.ok serving, after)) :
    serving.decision = match self.accounts with
      | some _ => self.policyFor outside (self.actsFor outside now client)
      | none => after.decision outside now client.peer := by
  cases hsome : self.accounts with
  | some accounts =>
    rw [← (open_account h).2]
    exact open_policy h (hsome ▸ rfl)
  | none =>
    have hafter := (open_fields h).1
    obtain ⟨established, throttle, -, -, hway, -, rfl⟩ := open_ok h
    rw [serving_decision, hafter, hsome]
    cases hway <;> rfl

/-- **A device's limit binds a session exactly with sign-in off, or where policy
shows it no other window.** -/
theorem limit_binds_iff {self after : HostControl} {client : Client} {pairing : Bool}
    {serving : Serving}
    (hopen : self.openServing outside now instant client pairing = (.ok serving, after))
    (windows : List WindowInfo) :
    (∀ globs, self.deviceLimits serving.peer = some globs →
        Keeps windows serving.decision globs) ↔
      (self.accounts.isSome = true → ∀ globs, self.deviceLimits client.peer = some globs →
        Within windows (self.policyFor outside (self.actsFor outside now client)).windows globs) := by
  have hdecision := open_decision hopen
  rw [(open_account hopen).1]
  cases haccounts : self.accounts with
  | none =>
    rw [haccounts] at hdecision
    refine iff_of_true ?_ nofun
    intro globs hlimit
    rw [hdecision]
    unfold decision
    rw [(open_fields hopen).2, hlimit]
    exact keeps_limitedTo windows _ globs
  | some accounts =>
    rw [haccounts] at hdecision
    simp only [Option.isSome_some, forall_const]
    rw [hdecision]
    have hnone : (self.policyFor outside (self.actsFor outside now client)).deviceWindows = [] := by
      unfold policyFor
      rw [haccounts]
      exact Policy.decide_deviceWindows _ _ _
    simp only [keeps_iff_of_no_limit hnone]

end HostControl

/-- A window of the host for the examples. -/
def notepad : WindowInfo := ⟨5, "Untitled".toList, "notepad.exe".toList⟩

/-- A host that shows a PIN and limits the device that will pair with it, with
sign-in on or off. -/
def limitingHost (accounts : Option Accounts) : HostControl :=
  (freshHost accounts).limitDevice pinClient.peer ["Sandustry*".toList]

/-- With sign-in off, the limited device is not shown another window. -/
theorem HostControl.limit_binds_signInOff :
    ∃ serving after,
      @HostControl.openServing Text.asciiCasing nobodyOutside 0 0 (limitingHost none) pinClient true
          = (.ok serving, after) ∧
        ∀ globs, (limitingHost none).deviceLimits serving.peer = some globs →
          @Keeps Text.asciiCasing [notepad] serving.decision globs := by
  refine ⟨_, _, rfl, ?_⟩
  exact (@limit_binds_iff Text.asciiCasing nobodyOutside 0 0 (limitingHost none) _ pinClient true _ rfl
    [notepad]).mpr nofun

/-- **With sign-in on, a limited device is shown a window its limit leaves out.** -/
theorem HostControl.limited_device_shown :
    ¬ ∀ (_ : Casing) (outside : Outside) (now instant : ℕ) (self after : HostControl)
        (client : Client) (pairing : Bool) (serving : Serving) (windows : List WindowInfo),
      self.openServing outside now instant client pairing = (.ok serving, after) →
        ∀ globs, self.deviceLimits serving.peer = some globs →
          Keeps windows serving.decision globs := by
  intro h
  have := (h Text.asciiCasing nobodyOutside 0 0 (limitingHost (some ⟨localConfig ⟨[]⟩, .new⟩)) _
    pinClient true _ [notepad] rfl _ rfl).1 notepad (by decide)
  revert this
  decide +kernel

end WindowCast.Host
