import WindowCast.Host.Guesses

/-!
# Lockouts and the owner

The third failure withdraws the PIN for a minute, and then a new one is shown.
What the owner does in that minute should win: pairing that was closed stays
closed, and a PIN that was shown stays until it is closed, used or locked out by
its own failures.  It does unless a lockout runs out that started before, or
what came of one PIN is reported against another.

## Main definitions

* `Pairings.Steady` — a lockout runs out only if nothing was opened or closed
  since it started, and reports are about the current PIN.

## Main results

* `Pairings.Kept.step` — what every steady step preserves.
* `Pairings.steady_keeps_promise` — **on a steady run the owner's word holds.**
-/

namespace WindowCast.Host

namespace Promise

theorem used_eq {promise other : Promise} {pin : Pin} (h : promise.used pin = other)
    (hother : other ≠ .nothing) : promise = other ∧ promise ≠ .shown pin := by
  unfold used at h
  split at h
  · exact absurd h.symm hother
  · rename_i hne
    exact ⟨h, hne⟩

theorem counted_nothing (pin : Pin) (counted : List Pin) :
    Promise.nothing.counted pin counted = .nothing := by
  unfold Promise.counted
  split <;> rfl

theorem counted_eq {promise other : Promise} {pin : Pin} {counted : List Pin}
    (h : promise.counted pin counted = other) (hother : other ≠ .nothing) :
    promise = other ∧ (promise = .shown pin → counted.count pin < MAX_PAIRING_FAILURES) := by
  unfold Promise.counted at h
  split at h
  · obtain ⟨heq, hne⟩ := used_eq h hother
    exact ⟨heq, fun hshown => absurd hshown hne⟩
  · rename_i hlt
    exact ⟨h, fun _ => Nat.lt_of_not_le hlt⟩

end Promise

namespace Pairings

/-- The PIN a connection captured. -/
def captured (self : Pairings) (i : ℕ) : Option Pin := (self.connections[i]?).bind fun c => c.pin

/-- A lockout runs out only if pairing was neither opened nor closed since it
started; a pairing, and a failed guess, is reported while its PIN is the current
one or there is none, and a failed guess only with no write of the counter to
come; another failure is reported only while there is no PIN. -/
def Steady (self : Pairings) : Event → Prop
  | .report i =>
    (self.stage i = some .paired → self.pin = none ∨ self.pin = self.captured i) ∧
      (self.stage i = some .failed →
        self.pin = none ∨ self.pin = self.captured i ∧ self.resets = 0) ∧
      (self.stage i = some .refused → self.pin = none)
  | .expire i _ => self.lockouts[i]? = some self.calls
  | .connect | .guess _ _ | .refuse _ | .leave _ | .reset | .openPairing _ | .closePairing => True

instance (self : Pairings) : ∀ event, Decidable (Steady self event)
  | .report _ => inferInstanceAs (Decidable (_ ∧ _ ∧ _))
  | .expire _ _ => inferInstanceAs (Decidable (_ = _))
  | .connect | .guess _ _ | .refuse _ | .leave _ | .reset | .openPairing _ | .closePairing =>
    inferInstanceAs (Decidable True)

/-- What every steady step preserves. -/
structure Kept (s : Pairings) : Prop where
  closed : s.promise = .closed → s.pin = none
  shown : ∀ pin, s.promise = .shown pin → s.pin = some pin
  /-- The counter does not count more than the failures of the PIN that is shown. -/
  own : ∀ pin, s.promise = .shown pin → s.resets = 0 → s.failures ≤ s.counted.count pin
  started : ∀ t ∈ s.lockouts, t ≤ s.calls
  /-- Every lockout that has not run out is older than the owner's word. -/
  overtaken : s.promise ≠ .nothing → ∀ t ∈ s.lockouts, t < s.calls

theorem kept_new (shown : Option Text) : (new shown).Kept where
  closed h := by
    cases shown
    · rfl
    · cases h
  shown pin h := by
    cases shown with
    | none => cases h
    | some digits =>
      cases h
      rfl
  own pin _ _ := by
    cases shown <;> exact Nat.zero_le _
  started t ht := by
    cases shown <;> cases ht
  overtaken _ t ht := by
    cases shown <;> cases ht

/-- A connection that moves on changes nothing else. -/
theorem Kept.setStage {s : Pairings} (h : s.Kept) (i : ℕ) (c : Connection) (stage : Stage) :
    (s.setStage i c stage).Kept :=
  { h with }

/-- A pairing with the current PIN is reported. -/
theorem Kept.paired {s : Pairings} (h : s.Kept) {pin : Pin} (hpin : s.pin = none ∨ s.pin = some pin)
    (pairings : List (Pin × Option Pin)) :
    Kept { s.withdraw with pairings := pairings, promise := s.promise.used pin } where
  closed _ := rfl
  shown p hp := by
    obtain ⟨hp, hne⟩ := Promise.used_eq hp nofun
    have hcurrent := h.shown p hp
    rcases hpin with hpin | hpin
    · rw [hpin] at hcurrent
      cases hcurrent
    · rw [hpin] at hcurrent
      cases hcurrent
      exact absurd hp hne
  own _ _ hresets := absurd hresets (Nat.succ_ne_zero _)
  started := h.started
  overtaken hne := by
    refine h.overtaken fun hnothing => hne ?_
    show s.promise.used pin = .nothing
    rw [hnothing]
    rfl

/-- A failed guess at the current PIN is counted. -/
theorem Kept.counted {s : Pairings} (h : s.Kept) {pin : Pin}
    (hpin : s.pin = none ∨ s.pin = some pin ∧ s.resets = 0) : ((s.count pin).failed).Kept := by
  rcases hpin with hpin | ⟨hpin, hresets⟩
  · -- without a PIN nothing is counted
    have hfailed : (s.count pin).failed = s.count pin := by
      rcases (s.count pin).failed_cases with ⟨-, heq⟩ | ⟨hsome, -⟩ | ⟨hsome, -⟩
      · exact heq
      · rw [show (s.count pin).pin = none from hpin] at hsome
        cases hsome
      · rw [show (s.count pin).pin = none from hpin] at hsome
        cases hsome
    have hnot : ∀ p, (s.count pin).promise ≠ .shown p := by
      intro p hp
      have := h.shown p (Promise.counted_eq hp nofun).1
      rw [hpin] at this
      cases this
    rw [hfailed]
    refine ⟨fun _ => hpin, fun p hp => absurd hp (hnot p), fun p hp => absurd hp (hnot p), h.started,
      fun hne => h.overtaken fun hnothing => hne ?_⟩
    show s.promise.counted pin _ = .nothing
    rw [hnothing, Promise.counted_nothing]
  have hcounted : (s.count pin).counted = s.counted ++ [pin] := by
    unfold count
    rw [hpin]
    rfl
  have hopen : (s.count pin).promise ≠ .closed := by
    intro hclosed
    have := h.closed (Promise.counted_eq hclosed nofun).1
    rw [hpin] at this
    cases this
  -- the one PIN that can be promised is this one, and its failures are its own
  have hown : ∀ p, (s.count pin).promise = .shown p →
      p = pin ∧ s.failures ≤ s.counted.count pin ∧
        (s.counted ++ [pin]).count pin < MAX_PAIRING_FAILURES := by
    intro p hp
    obtain ⟨hp, hlt⟩ := Promise.counted_eq hp nofun
    have hcurrent := h.shown p hp
    rw [hpin] at hcurrent
    cases hcurrent
    refine ⟨rfl, h.own _ hp hresets, ?_⟩
    have := hlt hp
    rwa [hpin] at this
  have hone : (s.counted ++ [pin]).count pin = s.counted.count pin + 1 := by
    rw [List.count_append, List.count_singleton_self]
  rcases (s.count pin).failed_cases with ⟨hnone, -⟩ | ⟨-, hlt, heq⟩ | ⟨-, hle, heq⟩
  · rw [show (s.count pin).pin = some pin from hpin] at hnone
    cases hnone
  · rw [heq]
    refine ⟨fun hclosed => absurd hclosed hopen, fun p hp => ?_, fun p hp _ => ?_, h.started,
      fun hne => h.overtaken fun hnothing => hne ?_⟩
    · rw [(hown p hp).1]
      exact hpin
    · obtain ⟨rfl, hfailures, -⟩ := hown p hp
      show s.failures + 1 ≤ (s.count p).counted.count p
      rw [hcounted, hone]
      exact Nat.succ_le_succ hfailures
    · show s.promise.counted pin _ = .nothing
      rw [hnothing, Promise.counted_nothing]
  · have hle : MAX_PAIRING_FAILURES ≤ s.failures + 1 := hle
    -- the PIN is locked out, by its own failures
    have hnot : ∀ p, (s.count pin).promise ≠ .shown p := by
      intro p hp
      obtain ⟨-, hfailures, hlt⟩ := hown p hp
      omega
    rw [heq]
    refine ⟨fun _ => rfl, fun p hp => absurd hp (hnot p), fun p hp => absurd hp (hnot p), ?_, ?_⟩
    · intro t ht
      rcases List.mem_append.mp ht with ht | ht
      · exact h.started t ht
      · exact (List.mem_singleton.mp ht).le
    · intro hne
      have hne : (s.count pin).promise ≠ .nothing := hne
      cases hpromise : (s.count pin).promise with
      | nothing => exact absurd hpromise hne
      | closed => exact absurd hpromise hopen
      | shown p => exact absurd hpromise (hnot p)

/-- **Every steady step keeps the owner's word.** -/
theorem Kept.step {s s' : Pairings} {event : Event} (h : s.Kept) (hsteady : s.Steady event)
    (hstep : s.step event = some s') : s'.Kept := by
  cases step_cases hstep with
  | connect => exact { h with }
  | right => exact h.setStage _ _ _
  | wrong => exact { h with }
  | refuse => exact h.setStage _ _ _
  | leave => exact h.setStage _ _ _
  | paired hc =>
    rename_i i pin
    have hpin := hsteady.1 (by rw [stage, hc]; rfl)
    rw [captured, hc] at hpin
    exact (h.setStage i ⟨some pin, .paired⟩ .ended).paired hpin _
  | failed hc =>
    rename_i i pin
    have hpin := hsteady.2.1 (by rw [stage, hc]; rfl)
    rw [captured, hc] at hpin
    exact (h.setStage i ⟨some pin, .failed⟩ .ended).counted hpin
  | refused hc =>
    rename_i i pin
    have hnone := hsteady.2.2 (by rw [stage, hc]; rfl)
    have hfailed : (s.setStage i ⟨pin, .refused⟩ .ended).failed
        = s.setStage i ⟨pin, .refused⟩ .ended := by
      unfold Pairings.failed
      rw [show (s.setStage i ⟨pin, .refused⟩ .ended).pin = none from hnone]
    rw [hfailed]
    exact h.setStage _ _ _
  | reset hresets => exact { h with own := fun _ _ _ => Nat.zero_le _ }
  | openPairing =>
    refine ⟨fun hclosed => (by cases hclosed), fun pin hpin => ?_, fun _ _ hresets => absurd hresets (Nat.succ_ne_zero _),
      fun t ht => Nat.le_succ_of_le (h.started t ht), fun _ t ht => Nat.lt_succ_of_le (h.started t ht)⟩
    cases hpin
    rfl
  | closePairing =>
    exact ⟨fun _ => rfl, fun _ hshown => (by cases hshown), fun _ hshown => (by cases hshown),
      fun t ht => Nat.le_succ_of_le (h.started t ht), fun _ t ht => Nat.lt_succ_of_le (h.started t ht)⟩
  | expire ht =>
    -- no lockout is as old as the owner's word, so there is none
    have hnothing : s.promise = .nothing := by
      by_contra hne
      exact Nat.lt_irrefl _ (h.overtaken hne _ (List.mem_of_getElem? hsteady))
    refine ⟨fun hclosed => ?_, fun pin hpin => ?_, fun pin hpin => ?_,
      fun t ht => h.started t (List.mem_of_mem_eraseIdx ht), fun hne => absurd hnothing hne⟩
    · rw [show s.promise = .closed from hclosed] at hnothing
      cases hnothing
    · rw [show s.promise = .shown pin from hpin] at hnothing
      cases hnothing
    · rw [show s.promise = .shown pin from hpin] at hnothing
      cases hnothing

/-- **On a steady run the owner's word holds**: once pairing has been closed no
PIN is current until it is opened, and a PIN that was shown is current until it
is closed, used or locked out by its own failures. -/
theorem steady_keeps_promise {shown : Option Text} {events : List Event} {s : Pairings}
    (h : Run.Guarded step Steady events (new shown) s) :
    (s.promise = .closed → s.pin = none) ∧ ∀ pin, s.promise = .shown pin → s.pin = some pin := by
  have hkept := h.invariant (fun _ _ _ hs hsteady hstep => hs.step hsteady hstep) (kept_new shown)
  exact ⟨hkept.closed, hkept.shown⟩

/-- A connection that guesses wrong and reports it. -/
def wrongGuess (i : ℕ) : List Event := [.connect, .guess i "000000".toList, .report i]

/-- Two wrong guesses, and pairing is closed and opened. -/
theorem steady_keeps_promise_opened :
    ∃ s, run (some shownPin) (wrongGuess 0 ++ wrongGuess 1 ++ [.closePairing, .reset,
        .openPairing "654321".toList, .reset]) = some s ∧
      s.promise = .shown ⟨"654321".toList, 1⟩ ∧ s.pin = some ⟨"654321".toList, 1⟩ := by
  have hrun : Run.Guarded step Steady (wrongGuess 0 ++ wrongGuess 1 ++ [.closePairing, .reset,
        .openPairing "654321".toList, .reset]) (new (some shownPin))
      ⟨some ⟨"654321".toList, 1⟩, 0, 0, [], [⟨some ⟨shownPin, 0⟩, .ended⟩,
        ⟨some ⟨shownPin, 0⟩, .ended⟩], 2, 2, .shown ⟨"654321".toList, 1⟩,
        [⟨shownPin, 0⟩, ⟨shownPin, 0⟩], [⟨shownPin, 0⟩, ⟨shownPin, 0⟩], []⟩ := by
    decide +kernel
  exact ⟨_, hrun.run, rfl, (steady_keeps_promise hrun).2 _ rfl⟩

/-- **A lockout reopens pairing that was closed.**  Three wrong guesses start
it, the owner closes pairing, and a minute later there is a PIN. -/
theorem lockout_reopens :
    ¬ ∀ shown events s, run shown events = some s →
      (s.promise = .closed → s.pin = none) ∧ ∀ pin, s.promise = .shown pin → s.pin = some pin := by
  intro h
  obtain ⟨s, hs, hpromise, hpin⟩ : ∃ s, run (some shownPin) (wrongGuess 0 ++ wrongGuess 1 ++
      wrongGuess 2 ++ [.closePairing, .reset, .expire 0 "654321".toList, .reset]) = some s ∧
      s.promise = .closed ∧ s.pin = some ⟨"654321".toList, 1⟩ :=
    ⟨_, rfl, rfl, rfl⟩
  have := (h _ _ s hs).1 hpromise
  rw [hpin] at this
  cases this

end Pairings

end WindowCast.Host
