import WindowCast.Lib.Text

/-!
# The account policy

Who may connect to a host and what they may do there: an ordered list of rules,
the first that matches deciding.

## Main definitions

* `Account`, `Method` — an account a device acts for.
* `glob` — `*` and `?` patterns, matched with one place to go back to.
* `Policy.decide` — the decision for an account, or for a PIN-paired device.
* `Decision.windowAllowed`, `Decision.limitedTo` — which windows a session may see.

## Main results

* `Policy.decide_deviceWindows` — policy alone never sets a device's limit.
* `Decision.windowAllowed_limitedTo` — a limited decision lets through what both
  the policy's globs and the limit's let through.
-/

namespace WindowCast.Accounts

/-- How an account signed in. -/
inductive Method
  | password
  | oidc
  | kerberos
  deriving DecidableEq, Repr

def Method.name : Method → Text
  | .password => "password".toList
  | .oidc => "oidc".toList
  | .kerberos => "kerberos".toList

/-- An account a device acts for, as a host knows it after a sign-in. -/
structure Account where
  name : Text
  groups : List Text
  method : Method
  provider : Text
  deriving DecidableEq, Repr

variable [Casing]

/-! ### Patterns -/

/-- The loop of `glob`: the pattern and the text that are left, and where the
last `*` started, as the pattern after it and the text it was reached with. -/
def globLoop : ℕ → Text → Text → Option (Text × Text) → Bool
  | 0, _, _, _ => false
  | _ + 1, p, [], _ => p.all fun c => c = '*'
  | fuel + 1, p, c :: t, star =>
    -- Back to the last `*`, which takes one character more.
    let back := match star with
      | some (sp, st) => globLoop fuel sp st.tail (some (sp, st.tail))
      | none => false
    match p with
    | x :: p' =>
      if x = '?' ∨ x = c then globLoop fuel p' t star
      else if x = '*' then globLoop fuel p' (c :: t) (some (p', c :: t))
      else back
    | [] => back

/-- `*` matches any run of characters, `?` any one; case-insensitive. -/
def glob (pattern text : Text) : Bool :=
  let p := Casing.toLowercase pattern
  let t := Casing.toLowercase text
  globLoop ((p.length + 1) * (t.length + 1) + 1) p t none

/-! ### Rules and decisions -/

structure Rule where
  who : List Text
  /-- Globs on the host's name; empty matches every host. -/
  hosts : List Text
  /-- `false` refuses the connection. -/
  allow : Bool
  /-- Globs on a window's app id or title; empty allows every window. -/
  windows : List Text
  input : Option Bool
  commands : Option Bool
  deriving DecidableEq, Repr

structure Policy where
  rules : List Rule
  deriving DecidableEq, Repr

/-- What policy lets one session do. -/
structure Decision where
  allow : Bool
  windows : List Text
  input : Option Bool
  commands : Option Bool
  /-- The host application's own limit for this one device, on top of the policy's. -/
  deviceWindows : List Text
  deriving DecidableEq, Repr

/-- Whether a window with this app id and title passes these globs. -/
def passes (globs : List Text) (appId title : Text) : Bool :=
  globs.isEmpty || globs.any fun pattern => glob pattern appId || glob pattern title

namespace Decision

/-- Whether a window with this app id and title may be listed, streamed and
given input. -/
def windowAllowed (self : Decision) (appId title : Text) : Bool :=
  passes self.windows appId title && passes self.deviceWindows appId title

/-- This decision, with the device further limited to the windows `globs` match. -/
def limitedTo (self : Decision) (globs : List Text) : Decision :=
  { self with deviceWindows := globs }

end Decision

/-- Whether an entry of a rule's `who` names the account. -/
def whoMatches (who : Text) (account : Option Account) : Bool :=
  if who = "*".toList then true
  else
    match Text.splitOnce ':' who with
    | none => false
    | some (kind, value) =>
      match account with
      | none => if kind = "method".toList then value = "pin".toList else false
      | some a =>
        if kind = "method".toList then value = a.method.name
        else if kind = "user".toList then value = a.name
        else if kind = "group".toList then a.groups.any fun g => g = value
        else if kind = "provider".toList then value = a.provider
        else false

/-- Whether a rule is about the account on the host. -/
def Rule.applies (self : Rule) (account : Option Account) (host : Text) : Bool :=
  (self.hosts.isEmpty || self.hosts.any fun h => glob h host)
    && self.who.any fun who => whoMatches who account

/-- The decision for `account` (`none`: a device paired by PIN) on the host named `host`. -/
def Policy.decide (self : Policy) (account : Option Account) (host : Text) : Decision :=
  if self.rules.isEmpty then ⟨true, [], none, none, []⟩
  else
    match self.rules.find? fun rule => rule.applies account host with
    | some rule => ⟨rule.allow, rule.windows, rule.input, rule.commands, []⟩
    | none => ⟨false, [], some false, some false, []⟩

/-- Policy alone never limits a device. -/
theorem Policy.decide_deviceWindows (self : Policy) (account : Option Account) (host : Text) :
    (self.decide account host).deviceWindows = [] := by
  unfold Policy.decide
  split
  · rfl
  · split <;> rfl

theorem Decision.windowAllowed_limitedTo (self : Decision) (globs : List Text) (appId title : Text) :
    (self.limitedTo globs).windowAllowed appId title
      = (passes self.windows appId title && passes globs appId title) := rfl

/-- Without a limit, the policy's globs alone decide. -/
theorem Decision.windowAllowed_of_no_limit {self : Decision} (h : self.deviceWindows = [])
    (appId title : Text) : self.windowAllowed appId title = passes self.windows appId title := by
  rw [windowAllowed, h]
  exact Bool.and_true _

theorem passes_iff {globs : List Text} (h : globs ≠ []) (appId title : Text) :
    passes globs appId title = true ↔
      ∃ pattern ∈ globs, glob pattern appId = true ∨ glob pattern title = true := by
  unfold passes
  rw [List.isEmpty_eq_false_iff.mpr h, Bool.false_or, List.any_eq_true]
  simp only [Bool.or_eq_true]

end WindowCast.Accounts
