import WindowCast.Accounts.Policy
import WindowCast.Lib.Run

/-!
# ID tokens are used once

A host takes an ID token of an OpenID Connect provider for a sign-in, and keeps
the tokens it has taken, by hash, until they have expired.  What the library
that decodes tokens does is in the parameters: whether a token's signature,
issuer and audience hold up, and how it reads a fractional expiry in whole
seconds.

## Main definitions

* `Json`, `Claims` — what a token says.
* `Live` — the library's check of the expiry.
* `Verifier`, `Verifier.useOnce`, `Verifier.verify` — the host's check.
* `Verifications` — a verifier, and which tokens it has accepted.
* `Verifications.Prompt` — a token with a whole expiry, before its last second.

## Main results

* `Verifications.prompt_accepts_once` — **a token is accepted at most once,
  while every token used is a prompt one.**
-/

namespace WindowCast.Accounts.Oidc

/-- A number as the JSON library keeps it. -/
inductive Number
  | int (n : ℤ)
  | float (q : ℚ)
  deriving DecidableEq

/-- A claim's value, as far as it is read. -/
inductive Json
  | number (n : Number)
  | string (s : Text)
  | array (items : List Json)
  | other

/-- A token's claims, by name. -/
abbrev Claims := Text → Option Json

def Json.asStr : Json → Option Text
  | .string s => some s
  | _ => none

/-- A whole number that fits in 64 bits; none for a fraction, however whole. -/
def Json.asU64 : Json → Option UInt64
  | .number (.int n) => if 0 ≤ n ∧ n < 2 ^ 64 then some (UInt64.ofNat n.toNat) else none
  | _ => none

/-- Clock readings are in seconds since the Unix epoch. -/
abbrev LEEWAY : ℕ := 60

/-- The library's check of the expiry: `exp` is a number, and with the leeway it
has not passed.  `round` is how the library reads a fraction in whole seconds. -/
def Live (round : ℚ → ℤ) (claims : Claims) (now : UInt64) : Bool :=
  match claims "exp".toList with
  | some (.number (.int n)) => decide ((now.toNat : ℤ) ≤ n + LEEWAY)
  | some (.number (.float q)) => decide ((now.toNat : ℤ) ≤ round q + LEEWAY)
  | _ => false

/-- Why a token is refused. -/
inductive Refusal
  | decode
  | nonce
  | used
  | noName
  deriving DecidableEq

/-- The text of the error, as far as it is this program's own. -/
def Refusal.why : Refusal → Option Text
  | .decode => none
  | .nonce => some "the nonce is not this device's".toList
  | .used => some "this token was used before".toList
  | .noName => some "the token names no user".toList

/-- What of a provider's configuration the check reads. -/
structure ProviderConfig where
  name : Text
  usernameClaims : List Text
  groupsClaim : Text

/-- A host's check of one provider's ID tokens; the tokens already used, by
hash, with their expiry. -/
structure Verifier (Hash : Type) where
  config : ProviderConfig
  used : Hash → Option UInt64

variable {Token Device Hash : Type} [DecidableEq Hash]

namespace Verifier

def new (config : ProviderConfig) : Verifier Hash := ⟨config, fun _ => none⟩

/-- Forgets the tokens that have expired; the addition wraps around. -/
def purge (self : Verifier Hash) (now : UInt64) : Verifier Hash :=
  { self with used := fun hash => (self.used hash).filter fun expires => expires + 60 > now }

/-- Whether the token had not been used, and the verifier that has it. -/
def useOnce (self : Verifier Hash) (hash : Hash) (expires now : UInt64) : Bool × Verifier Hash :=
  let self := self.purge now
  if (self.used hash).isSome then (false, self)
  else (true, { self with used := Function.update self.used hash (some expires) })

/-- The groups a token names. -/
def groups (self : Verifier Hash) (claims : Claims) : List Text :=
  match claims self.config.groupsClaim with
  | some (.array groups) => groups.filterMap Json.asStr
  | some (.string group) => [group]
  | _ => []

end Verifier

/-- A presented token: whether its signature, issuer and audience hold up, and
what the clock says when it is decoded and when it is marked as used. -/
structure Presented (Token Device : Type) where
  token : Token
  device : Device
  genuine : Bool
  decoded : UInt64
  marked : UInt64

section Verify

variable (round : ℚ → ℤ) (payload : Token → Claims) (nonceMatches : Text → Device → Bool)
  (sha256 : Token → Hash)

/-- Checks a presented token and gives the account. -/
def Verifier.verify (self : Verifier Hash) (p : Presented Token Device) :
    Except Refusal Account × Verifier Hash :=
  let claims := payload p.token
  if p.genuine && Live round claims p.decoded then
    if ((claims "nonce".toList).bind Json.asStr).any fun nonce => !nonceMatches nonce p.device then
      (.error .nonce, self)
    else
      let expires := ((claims "exp".toList).bind Json.asU64).getD 0
      match self.useOnce (sha256 p.token) expires p.marked with
      | (false, self) => (.error .used, self)
      | (true, self) =>
        match self.config.usernameClaims.findSome? fun claim => (claims claim).bind Json.asStr with
        | none => (.error .noName, self)
        | some name => (.ok ⟨name, self.groups claims, .oidc, self.config.name⟩, self)
  else (.error .decode, self)

/-- A verifier, the clock, and the tokens it has accepted. -/
structure Verifications (Token Hash : Type) where
  verifier : Verifier Hash
  now : UInt64
  accepted : List Token

namespace Verifications

def new (config : ProviderConfig) : Verifications Token Hash := ⟨Verifier.new config, 0, []⟩

/-- One call of `verify`; the clock does not go back. -/
def step (self : Verifications Token Hash) (p : Presented Token Device) :
    Option (Verifications Token Hash) :=
  if p.decoded < self.now ∨ p.marked < p.decoded then none
  else
    match self.verifier.verify round payload nonceMatches sha256 p with
    | (.error _, verifier) => some ⟨verifier, p.marked, self.accepted⟩
    | (.ok _, verifier) => some ⟨verifier, p.marked, self.accepted ++ [p.token]⟩

/-- The token's expiry is a whole number, and with the leeway it is still to
come when the token is marked as used, and no number too large for the clock. -/
def Prompt (_ : Verifications Token Hash) (p : Presented Token Device) : Prop :=
  ∀ q, payload p.token "exp".toList = some (.number q) →
    ∃ n : ℕ, q = .int n ∧ p.marked.toNat < n + 60 ∧ n + 60 < 2 ^ 64

end Verifications

/-! ### What one check does -/

variable {round payload nonceMatches sha256}

/-- The expiry a token is kept with. -/
theorem asU64_int {n : ℕ} (h : n < 2 ^ 64) : (Json.number (.int n)).asU64 = some (UInt64.ofNat n) := by
  have hfits : (0 : ℤ) ≤ n ∧ (n : ℤ) < 2 ^ 64 := ⟨Int.natCast_nonneg n, by exact_mod_cast h⟩
  unfold Json.asU64
  simp only [hfits, and_self, if_true, Int.toNat_natCast]

namespace Verifier

omit [DecidableEq Hash] in
/-- A record outlives a purge before its time, and not one after. -/
theorem purge_used {self : Verifier Hash} {hash : Hash} {n : ℕ} (hn : n + 60 < 2 ^ 64)
    (h : self.used hash = some (UInt64.ofNat n)) (now : UInt64) :
    (self.purge now).used hash = some (UInt64.ofNat n) ∨ n + 60 ≤ now.toNat := by
  have hsum : (UInt64.ofNat n + 60).toNat = n + 60 := by
    rw [UInt64.toNat_add, UInt64.toNat_ofNat', Nat.mod_eq_of_lt (Nat.lt_of_le_of_lt (Nat.le_add_right n 60) hn)]
    exact Nat.mod_eq_of_lt hn
  by_cases hlive : UInt64.ofNat n + 60 > now
  · left
    unfold purge
    simp only
    rw [h, Option.filter_some, decide_eq_true hlive]
    rfl
  · right
    rw [gt_iff_lt, UInt64.lt_iff_toNat_lt, hsum] at hlive
    exact Nat.le_of_not_lt hlive

/-- A token that is taken had no record, and its record is added to those kept. -/
theorem useOnce_true {self verifier : Verifier Hash} {hash : Hash} {expires now : UInt64}
    (h : self.useOnce hash expires now = (true, verifier)) :
    (self.purge now).used hash = none ∧
      verifier.used = Function.update (self.purge now).used hash (some expires) := by
  unfold useOnce at h
  simp only at h
  split at h
  · cases h
  · rename_i hnone
    cases h
    exact ⟨Option.not_isSome_iff_eq_none.mp hnone, rfl⟩

theorem useOnce_false {self verifier : Verifier Hash} {hash : Hash} {expires now : UInt64}
    (h : self.useOnce hash expires now = (false, verifier)) : verifier = self.purge now := by
  unfold useOnce at h
  simp only at h
  split at h
  · cases h
    rfl
  · cases h

variable (round payload sha256) in
/-- The ways through a check: it stops before the token is marked, it finds the
token used, or it marks it; and only a token it marks is accepted. -/
inductive Outcome (self : Verifier Hash) (p : Presented Token Device) :
    Except Refusal Account → Verifier Hash → Prop
  | early {e : Refusal} : Outcome self p (.error e) self
  | used {verifier : Verifier Hash} (h : verifier = self.purge p.marked) :
      Outcome self p (.error .used) verifier
  | marked {result : Except Refusal Account} {verifier : Verifier Hash}
      (hlive : Live round (payload p.token) p.decoded = true)
      (h : self.useOnce (sha256 p.token)
        (((payload p.token "exp".toList).bind Json.asU64).getD 0) p.marked = (true, verifier)) :
      Outcome self p result verifier

theorem verify_outcome {self verifier : Verifier Hash} {p : Presented Token Device}
    {result : Except Refusal Account}
    (h : self.verify round payload nonceMatches sha256 p = (result, verifier)) :
    Outcome round payload sha256 self p result verifier := by
  unfold verify at h
  simp only at h
  split at h
  · rename_i hdecode
    rw [Bool.and_eq_true] at hdecode
    split at h
    · cases h
      exact .early
    split at h
    · rename_i hused
      cases h
      exact .used (useOnce_false hused)
    · rename_i hmarked
      split at h
      · cases h
        exact .marked hdecode.2 hmarked
      · cases h
        exact .marked hdecode.2 hmarked
  · cases h
    exact .early

end Verifier

/-! ### Runs -/

namespace Verifications

variable (payload sha256) in
/-- No token was accepted twice, and each accepted one is still recorded or has
expired. -/
structure Once (s : Verifications Token Hash) : Prop where
  nodup : s.accepted.Nodup
  recorded : ∀ token ∈ s.accepted, ∃ n : ℕ,
    payload token "exp".toList = some (.number (.int n)) ∧ n + 60 < 2 ^ 64 ∧
      (s.verifier.used (sha256 token) = some (UInt64.ofNat n) ∨ n + 60 ≤ s.now.toNat)

omit [DecidableEq Hash] in
theorem once_new (config : ProviderConfig) : Once payload sha256 (new config) := by
  refine ⟨List.nodup_nil, ?_⟩
  intro token htoken
  cases htoken

/-- A live token has a number for its expiry. -/
theorem number_of_live {claims : Claims} {now : UInt64} (h : Live round claims now = true) :
    ∃ q, claims "exp".toList = some (.number q) := by
  unfold Live at h
  split at h
  · rename_i n hn
    exact ⟨_, hn⟩
  · rename_i q hq
    exact ⟨_, hq⟩
  · cases h

omit [DecidableEq Hash] in
/-- The records of accepted tokens, after the purge of one more check. -/
theorem Once.purge {s : Verifications Token Hash} (h : Once payload sha256 s) {now : UInt64}
    (hnow : s.now ≤ now) {token : Token} (htoken : token ∈ s.accepted) :
    ∃ n : ℕ, payload token "exp".toList = some (.number (.int n)) ∧ n + 60 < 2 ^ 64 ∧
      ((s.verifier.purge now).used (sha256 token) = some (UInt64.ofNat n) ∨ n + 60 ≤ now.toNat) := by
  obtain ⟨n, hexp, hn, hused | hpast⟩ := h.recorded token htoken
  · exact ⟨n, hexp, hn, Verifier.purge_used hn hused now⟩
  · exact ⟨n, hexp, hn, .inr (hpast.trans (UInt64.le_iff_toNat_le.mp hnow))⟩

/-- **A check of a prompt token accepts none twice.** -/
theorem Once.step {s s' : Verifications Token Hash} {p : Presented Token Device}
    (h : Once payload sha256 s) (hprompt : s.Prompt payload p)
    (hstep : s.step round payload nonceMatches sha256 p = some s') : Once payload sha256 s' := by
  unfold Verifications.step at hstep
  split at hstep
  · cases hstep
  rename_i htime
  obtain ⟨hdecoded, hmarked⟩ := not_or.mp htime
  have hnow : s.now ≤ p.marked := UInt64.le_trans (UInt64.not_lt.mp hdecoded) (UInt64.not_lt.mp hmarked)
  -- a check that accepts nothing and marks nothing
  have hkept : ∀ verifier : Verifier Hash, (verifier = s.verifier ∨ verifier = s.verifier.purge p.marked) →
      Once payload sha256 ⟨verifier, p.marked, s.accepted⟩ := by
    rintro verifier (rfl | rfl)
    · refine ⟨h.nodup, fun token htoken => ?_⟩
      obtain ⟨n, hexp, hn, hrecorded⟩ := h.recorded token htoken
      exact ⟨n, hexp, hn, hrecorded.imp_right fun hpast => hpast.trans (UInt64.le_iff_toNat_le.mp hnow)⟩
    · exact ⟨h.nodup, fun token htoken => h.purge hnow htoken⟩
  -- a check that marks the token, and may accept it
  have hmarks : ∀ verifier : Verifier Hash, Live round (payload p.token) p.decoded = true →
      s.verifier.useOnce (sha256 p.token)
        (((payload p.token "exp".toList).bind Json.asU64).getD 0) p.marked = (true, verifier) →
      Once payload sha256 ⟨verifier, p.marked, s.accepted⟩ ∧
        Once payload sha256 ⟨verifier, p.marked, s.accepted ++ [p.token]⟩ := by
    intro verifier hlive huse
    obtain ⟨q, hq⟩ := number_of_live hlive
    obtain ⟨n, rfl, hbefore, hn⟩ := hprompt q hq
    obtain ⟨hnone, hupdate⟩ := Verifier.useOnce_true huse
    rw [hq, Option.bind_some, asU64_int (Nat.lt_of_le_of_lt (Nat.le_add_right n 60) hn),
      Option.getD_some] at hupdate
    have hold : ∀ token ∈ s.accepted, ∃ m : ℕ,
        payload token "exp".toList = some (.number (.int m)) ∧ m + 60 < 2 ^ 64 ∧
          (verifier.used (sha256 token) = some (UInt64.ofNat m) ∨ m + 60 ≤ p.marked.toNat) := by
      intro token htoken
      obtain ⟨m, hexp, hm, hused | hpast⟩ := h.purge hnow htoken
      · refine ⟨m, hexp, hm, .inl ?_⟩
        rw [hupdate, Function.update_of_ne, hused]
        intro heq
        rw [heq, hnone] at hused
        cases hused
      · exact ⟨m, hexp, hm, .inr hpast⟩
    refine ⟨⟨h.nodup, hold⟩, ⟨List.nodup_append.mpr ⟨h.nodup, List.nodup_singleton _, ?_⟩, ?_⟩⟩
    · -- the token was not accepted before: its record would still be there
      intro token htoken token' htoken' heq
      rw [List.mem_singleton.mp htoken'] at heq
      subst heq
      obtain ⟨m, hexp, -, hused | hpast⟩ := h.purge hnow htoken
      · rw [hnone] at hused
        cases hused
      · rw [hexp] at hq
        cases hq
        omega
    · intro token htoken
      rcases List.mem_append.mp htoken with htoken | htoken
      · exact hold token htoken
      · rw [List.mem_singleton.mp htoken]
        refine ⟨n, hq, hn, .inl ?_⟩
        rw [hupdate, Function.update_self]
  split at hstep
  · rename_i e verifier hverify
    cases hstep
    cases Verifier.verify_outcome hverify with
    | early => exact hkept _ (.inl rfl)
    | used hpurge => exact hkept _ (.inr hpurge)
    | marked hlive huse => exact (hmarks _ hlive huse).1
  · rename_i account verifier hverify
    cases hstep
    cases Verifier.verify_outcome hverify with
    | marked hlive huse => exact (hmarks _ hlive huse).2

/-- **A token is accepted at most once, while every token used is a prompt one.** -/
theorem prompt_accepts_once {config : ProviderConfig} {ps : List (Presented Token Device)}
    {s : Verifications Token Hash}
    (h : Run.Guarded (step round payload nonceMatches sha256) (Prompt payload) ps (new config) s) :
    s.accepted.Nodup :=
  (h.invariant (fun _ _ _ hs hprompt hstep => hs.step hprompt hstep) (once_new config)).nodup

end Verifications

end Verify

namespace Verifications

/-- A provider whose tokens name their user in `sub`. -/
def provider : ProviderConfig := ⟨"corp".toList, ["sub".toList], "groups".toList⟩

/-- What a token of `alice` says that expires at second 1000. -/
def aliceClaims (_ : Text) : Claims := fun claim =>
  if claim = "exp".toList then some (.number (.int 1000))
  else if claim = "sub".toList then some (.string "alice".toList)
  else none

/-- The token, presented at `now`. -/
def presented (now : UInt64) : Presented Text Unit := ⟨"token".toList, (), true, now, now⟩

/-- A token presented twice in time is accepted once. -/
theorem prompt_accepts_once_alice :
    ∃ s, [presented 999, presented 1059].foldlM
        (step Int.floor aliceClaims (fun _ _ => true) (@id Text)) (new provider) = some s ∧
      s.accepted = ["token".toList] ∧ s.accepted.Nodup := by
  have hprompt : ∀ (s : Verifications Text Text) (now : UInt64), now.toNat < 1060 →
      s.Prompt aliceClaims (presented now) := by
    intro s now hnow q hq
    cases hq
    exact ⟨1000, rfl, hnow, by decide⟩
  have hrun : Run.Guarded (step Int.floor aliceClaims (fun _ _ => true) (@id Text))
      (Prompt aliceClaims) [presented 999, presented 1059] (new provider) _ :=
    ⟨hprompt _ _ (by decide), _, rfl, hprompt _ _ (by decide), _, rfl, rfl⟩
  exact ⟨_, hrun.run, rfl, prompt_accepts_once hrun⟩

/-- **In its last second a token is accepted again and again**: its record is
purged one second before the library lets it expire. -/
theorem accepted_twice :
    ¬ ∀ (ps : List (Presented Text Unit)) (s : Verifications Text Text),
      ps.foldlM (step Int.floor aliceClaims (fun _ _ => true) id) (new provider) = some s →
        s.accepted.Nodup := by
  intro h
  have := h [presented 1060, presented 1060] _ rfl
  revert this
  decide

end Verifications

end WindowCast.Accounts.Oidc
