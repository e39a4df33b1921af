import WindowCast.Lib.Text

/-!
# Whom the secure helper serves

The grant is kept in the registry, where only an administrator can write it: whether it
is on, and the SID of the account that turned it on.  What is not well formed is no
grant.  A client of the helper's pipe is one of two programs in the install folder, run
by that account in the session that is asked for.

## Main definitions

* `validSidText` — the texts that are taken for a SID.
* `Permission.fromValues` — a grant, from what the registry holds.
* `verifyClientWith` — whether a process may be served.

## Main results

* `valid_of_fromValues` — a grant has a SID.
* `verifyClientWith_iff` — what was checked of a client that is served.
-/

namespace WindowCast.SecureHelper

/-! ### Text -/

/-- Texts that are the same but for the case of the letters a to z. -/
def eqIgnoreAsciiCase (left right : Text) : Bool := left.map Char.toLower = right.map Char.toLower

/-- A number below `bound`, in decimal digits, a plus before them or not. -/
def parseUnsigned (bound : ℕ) (text : Text) : Option ℕ :=
  let digits := if text.head? = some '+' then text.tail else text
  if digits ≠ [] ∧ digits.all Char.isDigit then
    let value := digits.foldl (fun value c => 10 * value + (c.toNat - '0'.toNat)) 0
    if value < bound then some value else none
  else none

/-- What comes before the last separator, and what comes after it. -/
def rsplitOnce (separator : Char) (text : Text) : Option (Text × Text) :=
  (Text.splitOnce separator text.reverse).map fun (name, parent) => (parent.reverse, name.reverse)

/-! ### The grant -/

/-- Whether a text is that of a SID. -/
def validSidText (value : Text) : Bool :=
  if Text.utf8Size value > 184 then false
  else
    match Text.split '-' value with
    | ['S'] :: ['1'] :: authority :: subauthorities =>
      !authority.isEmpty && (parseUnsigned (2 ^ 64) authority).isSome
        && !subauthorities.isEmpty && subauthorities.length ≤ 15
        && subauthorities.all fun part => !part.isEmpty && (parseUnsigned (2 ^ 32) part).isSome
    | _ => false

structure Permission where
  enabled : Bool
  grantSid : Option Text
  deriving DecidableEq

/-- A grant, from the values in the registry; a malformed or partial one is denial. -/
def Permission.fromValues (enabled : Option UInt32) (sid : Option Text) : Option Permission :=
  match enabled with
  | none => none
  | some value =>
    let sid := sid.filter validSidText
    if ¬ (value = 1) ∨ sid.isNone then none else some ⟨true, sid⟩

/-- A grant has a SID. -/
theorem valid_of_fromValues {enabled : Option UInt32} {sid : Option Text} {permission : Permission}
    (h : Permission.fromValues enabled sid = some permission) :
    ∃ text, permission.grantSid = some text ∧ validSidText text = true := by
  unfold Permission.fromValues at h
  cases enabled with
  | none => cases h
  | some value =>
    dsimp only at h
    split_ifs at h with hdenied
    cases h
    rw [not_or, Bool.not_eq_true, Option.isNone_eq_false_iff] at hdenied
    obtain ⟨text, htext⟩ := Option.isSome_iff_exists.mp hdenied.2
    exact ⟨text, htext, (Option.filter_eq_some_iff.mp htext).2⟩

/-- The SID that a grant names. -/
def named (permission : Option Permission) : Option Text := permission.bind Permission.grantSid

/-! ### The clients of the pipe -/

structure ClientIdentity where
  sid : Text
  image : Text
  sessionId : UInt32
  deriving DecidableEq

/-- Whether two paths are one, with either separator and in any case. -/
def samePath (left right : Text) : Bool :=
  let trim (path : Text) : Text := (path.map fun c => if c = '/' then '\\' else c).rdropWhile fun c => c = '\\'
  eqIgnoreAsciiCase (trim left) (trim right)

/-- Whether a program is one of the two in the install folder. -/
def allowedClientImage (image installRoot : Text) : Bool :=
  match rsplitOnce '\\' (image.map fun c => if c = '/' then '\\' else c) with
  | none => false
  | some (parent, name) =>
    (eqIgnoreAsciiCase name "windowcast-agent-windows.exe".toList || eqIgnoreAsciiCase name "windowcast-app.exe".toList)
      && samePath parent installRoot

/-- Whether a process may be served; `identity` is what its inspection found. -/
def verifyClientWith (identity : Except Text ClientIdentity) (grantSid installRoot : Text) (sessionId : UInt32) : Bool :=
  match identity with
  | .error _ => false
  | .ok identity =>
    eqIgnoreAsciiCase identity.sid grantSid && identity.sessionId = sessionId
      && allowedClientImage identity.image installRoot

/-- What was checked of a client that is served: its user, its session and its program. -/
theorem verifyClientWith_iff {identity : Except Text ClientIdentity} {grantSid installRoot : Text} {sessionId : UInt32} :
    verifyClientWith identity grantSid installRoot sessionId = true ↔
      ∃ client, identity = .ok client ∧ eqIgnoreAsciiCase client.sid grantSid = true ∧
        client.sessionId = sessionId ∧ allowedClientImage client.image installRoot = true := by
  cases identity with
  | error e => simp [verifyClientWith]
  | ok client => simp [verifyClientWith, and_assoc]

end WindowCast.SecureHelper
