import WindowCast.Lib.Text
import WindowCast.Lib.Run

/-!
# Pairing by PIN

A host shows a PIN, and a client that knows it is paired.  Any number of
connections are open at a time: each captures the PIN when it opens, and its
guess is checked, and what came of it is reported, later.  The third failure
reported withdraws the PIN, and a lockout shows a new one when it has run out.

The PIN is behind a lock and the counter of failures is not: what changes the
PIN writes the counter in a step of its own.

## Main definitions

* `Pin` — a PIN as it was shown, with how many were shown before it.
* `Connection`, `Stage` — a connection, from opening to report.
* `Pairings` — the pairing state with its connections and its lockouts.
* `Pairings.failed`, `Pairings.issue`, `Pairings.withdraw` — what the source's
  `failed`, `reopen` and `paired` do under the lock.
* `Pairings.step`, `Pairings.run` — any interleaving.

## Main results

* `Pairings.step_cases` — what a step can do.
* `Pairings.failed_cases` — what counting a failure can do.
-/

namespace WindowCast.Host

/-- Failed pairing attempts before the PIN is withdrawn. -/
def MAX_PAIRING_FAILURES : ℕ := 3

/-- A PIN that is or was shown. -/
structure Pin where
  digits : Text
  issue : ℕ
  deriving DecidableEq, Repr

/-- How far a connection has come. -/
inductive Stage
  | waiting
  /-- Its guess was the PIN it captured. -/
  | paired
  /-- Its guess was not. -/
  | failed
  /-- Its signature did not hold up, in whatever mode. -/
  | refused
  | ended
  deriving DecidableEq, Repr

/-- A connection and the PIN it captured when it opened. -/
structure Connection where
  pin : Option Pin
  stage : Stage
  deriving DecidableEq, Repr

/-- What the owner was told last. -/
inductive Promise
  | nothing
  /-- That pairing is closed. -/
  | closed
  /-- That this PIN is the one to type. -/
  | shown (pin : Pin)
  deriving DecidableEq, Repr

namespace Promise

/-- A PIN that has been used is promised no longer. -/
def used (self : Promise) (pin : Pin) : Promise := if self = .shown pin then .nothing else self

/-- Nor is one that its own failures have locked out. -/
def counted (self : Promise) (pin : Pin) (counted : List Pin) : Promise :=
  if MAX_PAIRING_FAILURES ≤ counted.count pin then self.used pin else self

end Promise

/-- The pairing state of a host. -/
structure Pairings where
  pin : Option Pin
  failures : ℕ
  /-- Writes of the counter that are still to come. -/
  resets : ℕ
  /-- The lockouts that have not run out, each with how often pairing had been
  opened or closed when it started. -/
  lockouts : List ℕ
  connections : List Connection
  /-- How many PINs were shown. -/
  issued : ℕ
  /-- How often pairing was opened or closed. -/
  calls : ℕ
  promise : Promise
  /-- The PIN of each guess that failed. -/
  guessed : List Pin
  /-- The PIN of each failed guess that was counted. -/
  counted : List Pin
  /-- The PIN each pairing was made with, and the one current then. -/
  pairings : List (Pin × Option Pin)
  deriving DecidableEq, Repr

namespace Pairings

/-- What can happen. -/
inductive Event
  /-- A connection opens. -/
  | connect
  /-- The guess of a connection is checked against the PIN it captured. -/
  | guess (i : ℕ) (digits : Text)
  /-- A connection fails to authenticate otherwise. -/
  | refuse (i : ℕ)
  /-- A connection goes, or times out, and reports nothing. -/
  | leave (i : ℕ)
  /-- A connection reports what came of it. -/
  | report (i : ℕ)
  /-- A write of the counter that was to come. -/
  | reset
  | openPairing (digits : Text)
  | closePairing
  /-- A lockout runs out. -/
  | expire (i : ℕ) (digits : Text)
  deriving DecidableEq, Repr

/-- A host just started, with or without a PIN. -/
def new : Option Text → Pairings
  | some digits => ⟨some ⟨digits, 0⟩, 0, 0, [], [], 1, 0, .shown ⟨digits, 0⟩, [], [], []⟩
  | none => ⟨none, 0, 0, [], [], 0, 0, .closed, [], [], []⟩

def setStage (self : Pairings) (i : ℕ) (c : Connection) (stage : Stage) : Pairings :=
  { self with connections := self.connections.set i { c with stage := stage } }

/-- Shows a new PIN, replacing any current one. -/
def issue (self : Pairings) (digits : Text) : Pairings :=
  { self with
    pin := some ⟨digits, self.issued⟩
    issued := self.issued + 1
    resets := self.resets + 1 }

/-- No PIN any more. -/
def withdraw (self : Pairings) : Pairings := { self with pin := none, resets := self.resets + 1 }

/-- Counts a failed attempt; the third withdraws the PIN. -/
def failed (self : Pairings) : Pairings :=
  match self.pin with
  | none => self
  | some _ =>
    if self.failures + 1 < MAX_PAIRING_FAILURES then { self with failures := self.failures + 1 }
    else
      { self with
        failures := self.failures + 1
        pin := none
        lockouts := self.lockouts ++ [self.calls] }

/-- Records that a failed guess at `pin` was counted. -/
def count (self : Pairings) (pin : Pin) : Pairings :=
  let counted := if self.pin.isSome then self.counted ++ [pin] else self.counted
  { self with counted := counted, promise := self.promise.counted pin counted }

def step (self : Pairings) : Event → Option Pairings
  | .connect => some { self with connections := self.connections ++ [⟨self.pin, .waiting⟩] }
  | .guess i digits =>
    match self.connections[i]? with
    | some ⟨some pin, .waiting⟩ =>
      if digits = pin.digits then some (self.setStage i ⟨some pin, .waiting⟩ .paired)
      else
        some { self.setStage i ⟨some pin, .waiting⟩ .failed with guessed := self.guessed ++ [pin] }
    | _ => none
  | .refuse i =>
    match self.connections[i]? with
    | some ⟨pin, .waiting⟩ => some (self.setStage i ⟨pin, .waiting⟩ .refused)
    | _ => none
  | .leave i =>
    match self.connections[i]? with
    | some ⟨_, .ended⟩ => none
    | some c => some (self.setStage i c .ended)
    | none => none
  | .report i =>
    match self.connections[i]? with
    | some ⟨some pin, .paired⟩ =>
      some { (self.setStage i ⟨some pin, .paired⟩ .ended).withdraw with
        pairings := self.pairings ++ [(pin, self.pin)]
        promise := self.promise.used pin }
    | some ⟨some pin, .failed⟩ =>
      some ((self.setStage i ⟨some pin, .failed⟩ .ended).count pin).failed
    | some ⟨pin, .refused⟩ => some (self.setStage i ⟨pin, .refused⟩ .ended).failed
    | _ => none
  | .reset => if self.resets = 0 then none else some { self with failures := 0, resets := self.resets - 1 }
  | .openPairing digits =>
    some { self.issue digits with
      calls := self.calls + 1
      promise := .shown ⟨digits, self.issued⟩ }
  | .closePairing => some { self.withdraw with calls := self.calls + 1, promise := .closed }
  | .expire i digits =>
    match self.lockouts[i]? with
    | none => none
    | some _ => some { self.issue digits with lockouts := self.lockouts.eraseIdx i }

/-- A host after some events; `none` if one of them could not happen. -/
def run (shown : Option Text) (events : List Event) : Option Pairings :=
  events.foldlM step (new shown)

/-! ### Every step -/

/-- What a step does. -/
inductive Step (s : Pairings) : Event → Pairings → Prop
  | connect : Step s .connect { s with connections := s.connections ++ [⟨s.pin, .waiting⟩] }
  | right {i : ℕ} {pin : Pin} (h : s.connections[i]? = some ⟨some pin, .waiting⟩) :
      Step s (.guess i pin.digits) (s.setStage i ⟨some pin, .waiting⟩ .paired)
  | wrong {i : ℕ} {pin : Pin} {digits : Text} (h : s.connections[i]? = some ⟨some pin, .waiting⟩)
      (hwrong : digits ≠ pin.digits) :
      Step s (.guess i digits)
        { s.setStage i ⟨some pin, .waiting⟩ .failed with guessed := s.guessed ++ [pin] }
  | refuse {i : ℕ} {pin : Option Pin} (h : s.connections[i]? = some ⟨pin, .waiting⟩) :
      Step s (.refuse i) (s.setStage i ⟨pin, .waiting⟩ .refused)
  | leave {i : ℕ} {c : Connection} (h : s.connections[i]? = some c) (hstage : c.stage ≠ .ended) :
      Step s (.leave i) (s.setStage i c .ended)
  | paired {i : ℕ} {pin : Pin} (h : s.connections[i]? = some ⟨some pin, .paired⟩) :
      Step s (.report i) { (s.setStage i ⟨some pin, .paired⟩ .ended).withdraw with
        pairings := s.pairings ++ [(pin, s.pin)]
        promise := s.promise.used pin }
  | failed {i : ℕ} {pin : Pin} (h : s.connections[i]? = some ⟨some pin, .failed⟩) :
      Step s (.report i) ((s.setStage i ⟨some pin, .failed⟩ .ended).count pin).failed
  | refused {i : ℕ} {pin : Option Pin} (h : s.connections[i]? = some ⟨pin, .refused⟩) :
      Step s (.report i) (s.setStage i ⟨pin, .refused⟩ .ended).failed
  | reset (h : s.resets ≠ 0) : Step s .reset { s with failures := 0, resets := s.resets - 1 }
  | openPairing {digits : Text} : Step s (.openPairing digits) { s.issue digits with
      calls := s.calls + 1
      promise := .shown ⟨digits, s.issued⟩ }
  | closePairing : Step s .closePairing { s.withdraw with calls := s.calls + 1, promise := .closed }
  | expire {i t : ℕ} {digits : Text} (h : s.lockouts[i]? = some t) :
      Step s (.expire i digits) { s.issue digits with lockouts := s.lockouts.eraseIdx i }

/-- **What a step can do.** -/
theorem step_cases {s s' : Pairings} {event : Event} (h : s.step event = some s') : Step s event s' := by
  cases event with
  | connect =>
    cases h
    exact .connect
  | guess i digits =>
    unfold step at h
    simp only at h
    split at h
    · rename_i pin hc
      split at h
      · rename_i hdigits
        cases h
        subst hdigits
        exact .right hc
      · rename_i hdigits
        cases h
        exact .wrong hc hdigits
    · cases h
  | refuse i =>
    unfold step at h
    simp only at h
    split at h
    · rename_i pin hc
      cases h
      exact .refuse hc
    · cases h
  | leave i =>
    unfold step at h
    simp only at h
    split at h
    · cases h
    · rename_i c hended hc
      cases h
      refine .leave hc fun hstage => ?_
      cases c
      subst hstage
      exact hended _ rfl
    · cases h
  | report i =>
    unfold step at h
    simp only at h
    split at h
    · rename_i pin hc
      cases h
      exact .paired hc
    · rename_i pin hc
      cases h
      exact .failed hc
    · rename_i pin hc
      cases h
      exact .refused hc
    · cases h
  | reset =>
    unfold step at h
    simp only at h
    split at h
    · cases h
    · rename_i hresets
      cases h
      exact .reset hresets
  | openPairing digits =>
    cases h
    exact .openPairing
  | closePairing =>
    cases h
    exact .closePairing
  | expire i digits =>
    unfold step at h
    simp only at h
    split at h
    · cases h
    · rename_i t ht
      cases h
      exact .expire ht

/-- What `failed` does, with a PIN and without. -/
theorem failed_cases (s : Pairings) :
    s.pin = none ∧ s.failed = s ∨
    s.pin.isSome ∧ s.failures + 1 < MAX_PAIRING_FAILURES ∧
      s.failed = { s with failures := s.failures + 1 } ∨
    s.pin.isSome ∧ MAX_PAIRING_FAILURES ≤ s.failures + 1 ∧ s.failed = { s with
      failures := s.failures + 1
      pin := none
      lockouts := s.lockouts ++ [s.calls] } := by
  unfold failed
  split
  · rename_i hpin
    exact .inl ⟨hpin, rfl⟩
  · rename_i pin hpin
    rw [hpin]
    split
    · rename_i hlt
      exact .inr (.inl ⟨rfl, hlt, rfl⟩)
    · rename_i hle
      exact .inr (.inr ⟨rfl, Nat.le_of_not_lt hle, rfl⟩)

end Pairings

end WindowCast.Host
