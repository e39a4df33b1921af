import WindowCast.Lib.Run

/-!
# The sign-in throttle

Failed account sign-ins are counted, and too many of them shut sign-in for a
while.  The count is kept in a window that starts with a failure and is started
anew by the first failure after it has run out, and an attempt asks whether
sign-in is shut before it is checked.

## Main definitions

* `SignInThrottle`, `SignInThrottle.locked`, `SignInThrottle.failed` — the counter.
* `SignIns` — the counter with the attempts being checked and the failures so far.
* `SignIns.Due` — five failures within a span, the last not a lockout ago.
* `SignIns.Orderly` — no window restarts on a recent failure, and no more
  attempts are checked than failures are left.

## Main results

* `SignIns.Counts.step` — what the counter knows of the failures.
* `SignIns.orderly_bounds` — **on an orderly run sign-in is shut whenever it is
  due, and no span holds more than five failures.**
-/

namespace WindowCast.Host

/-- Failed account sign-ins within `SIGN_IN_LOCKOUT` before the host refuses
every sign-in for that long. -/
def MAX_SIGN_IN_FAILURES : ℕ := 5

/-- A minute, in nanoseconds. -/
def SIGN_IN_LOCKOUT : ℕ := 60 * 10 ^ 9

/-- Counts failed sign-ins and shuts sign-in for a while after too many. -/
structure SignInThrottle where
  count : ℕ
  since : Option ℕ
  lockedUntil : Option ℕ
  deriving DecidableEq, Repr

namespace SignInThrottle

def new : SignInThrottle := ⟨0, none, none⟩

def locked (self : SignInThrottle) (now : ℕ) : Bool :=
  match self.lockedUntil with
  | some lockedUntil => decide (now < lockedUntil)
  | none => false

/-- Whether a failure now starts a new window. -/
def restarts (self : SignInThrottle) (now : ℕ) : Bool :=
  match self.since with
  | some since => decide (SIGN_IN_LOCKOUT < now - since)
  | none => true

def failed (self : SignInThrottle) (now : ℕ) : SignInThrottle :=
  let count := (if self.restarts now then 0 else self.count) + 1
  let since := if self.restarts now then some now else self.since
  if MAX_SIGN_IN_FAILURES ≤ count then ⟨0, none, some (now + SIGN_IN_LOCKOUT)⟩
  else ⟨count, since, self.lockedUntil⟩

end SignInThrottle

/-- The throttle, how many attempts are being checked, the time, and when the
failures so far were counted. -/
structure SignIns where
  throttle : SignInThrottle
  checking : ℕ
  now : ℕ
  failures : List ℕ
  deriving DecidableEq, Repr

namespace SignIns

/-- What happens to sign-ins, and when. -/
inductive Event
  /-- `Gate::check` is asked, and asks whether sign-in is shut. -/
  | attempt (now : ℕ)
  /-- An attempt that was checked failed. -/
  | failed (now : ℕ)
  /-- An attempt that was checked ended otherwise. -/
  | ended (now : ℕ)

def new : SignIns := ⟨SignInThrottle.new, 0, 0, []⟩

/-- When it happens. -/
def Event.time : Event → ℕ
  | .attempt now | .failed now | .ended now => now

def step (self : SignIns) (event : Event) : Option SignIns :=
  if event.time < self.now then none
  else
    match event with
    | .attempt now =>
      if self.throttle.locked now then some { self with now := now }
      else some { self with now := now, checking := self.checking + 1 }
    | .failed now =>
      if self.checking = 0 then none
      else some ⟨self.throttle.failed now, self.checking - 1, now, self.failures ++ [now]⟩
    | .ended now =>
      if self.checking = 0 then none
      else some { self with now := now, checking := self.checking - 1 }

def run (events : List Event) : Option SignIns := events.foldlM step new

/-- Five failures have fallen within a span of a minute, and the last of them
less than a minute before `now`. -/
def Due (failures : List ℕ) (now : ℕ) : Prop :=
  ∃ last ∈ failures, now < last + SIGN_IN_LOCKOUT ∧
    MAX_SIGN_IN_FAILURES ≤ failures.countP fun f => f ≤ last ∧ last < f + SIGN_IN_LOCKOUT

/-- How many failures fell within the minute from `start`. -/
def within (failures : List ℕ) (start : ℕ) : ℕ :=
  failures.countP fun f => start ≤ f ∧ f < start + SIGN_IN_LOCKOUT

/-- An attempt is checked only while there is a failure left for it and for
every other being checked, and a window is started anew only a minute after the
last failure. -/
def Orderly (self : SignIns) : Event → Prop
  | .attempt now =>
    self.throttle.locked now = false → self.throttle.count + self.checking < MAX_SIGN_IN_FAILURES
  | .failed now =>
    self.throttle.since.isSome → self.throttle.restarts now = true →
      ∀ f ∈ self.failures, f + SIGN_IN_LOCKOUT ≤ now
  | .ended _ => True

instance (self : SignIns) : ∀ event, Decidable (Orderly self event)
  | .attempt _ => inferInstanceAs (Decidable (_ → _))
  | .failed _ => inferInstanceAs (Decidable (_ → _))
  | .ended _ => inferInstanceAs (Decidable True)

/-! ### What the counter knows -/

/-- The failures are those of earlier windows and those of the window that is
open, if one is. -/
structure Counts (s : SignIns) (earlier window : List ℕ) : Prop where
  failures : s.failures = earlier ++ window
  count : s.throttle.count = window.length
  room : s.throttle.count + s.checking ≤ MAX_SIGN_IN_FAILURES
  below : s.throttle.count < MAX_SIGN_IN_FAILURES
  past : ∀ f ∈ s.failures, f ≤ s.now
  opened : ∀ since, s.throttle.since = some since →
    since ≤ s.now ∧ ∀ f ∈ earlier, f + SIGN_IN_LOCKOUT ≤ since
  closed : s.throttle.since = none → window = [] ∧
    ∀ f ∈ earlier, ∃ lockedUntil, s.throttle.lockedUntil = some lockedUntil ∧
      f + SIGN_IN_LOCKOUT ≤ lockedUntil
  /-- Between windows, attempts are checked only once the failures are a minute old. -/
  shut : s.throttle.since = none → 0 < s.checking → ∀ f ∈ earlier, f + SIGN_IN_LOCKOUT ≤ s.now

/-- The throttle keeps what it promises. -/
structure Keeps (s : SignIns) : Prop where
  counts : ∃ earlier window, s.Counts earlier window
  due : ∀ now, s.now ≤ now → Due s.failures now → s.throttle.locked now = true
  lock_le : ∀ lockedUntil, s.throttle.lockedUntil = some lockedUntil →
    lockedUntil ≤ s.now + SIGN_IN_LOCKOUT
  spans : ∀ start, within s.failures start ≤ MAX_SIGN_IN_FAILURES

theorem keeps_new : new.Keeps where
  counts := by
    refine ⟨[], [], rfl, rfl, by decide, by decide, ?_, ?_, ?_, ?_⟩
    · intro f hf
      cases hf
    · intro since hsince
      cases hsince
    · intro _
      refine ⟨rfl, ?_⟩
      intro f hf
      cases hf
    · intro _ _ f hf
      cases hf
  due := by
    rintro now - ⟨last, hlast, -⟩
    cases hlast
  lock_le := by
    intro lockedUntil h
    cases h
  spans := fun start => Nat.zero_le _

/-- Elements that do not count do not count. -/
theorem countP_append_le {earlier window : List ℕ} {p : ℕ → Bool} (h : ∀ f ∈ earlier, p f = false) :
    (earlier ++ window).countP p ≤ window.length := by
  have hzero : earlier.countP p = 0 := by
    rw [List.countP_eq_zero]
    intro f hf
    rw [h f hf]
    exact Bool.false_ne_true
  rw [List.countP_append, hzero, Nat.zero_add]
  exact List.countP_le_length

/-- The failures once one more is counted: those a minute old, and those the
counter counts. -/
theorem Counts.failed {s : SignIns} {earlier window : List ℕ} (h : s.Counts earlier window) {now : ℕ}
    (hnow : s.now ≤ now) (hchecking : s.checking ≠ 0) (horderly : s.Orderly (.failed now)) :
    ∃ earlier' window' since, s.failures ++ [now] = earlier' ++ window' ∧
      window'.length = (if s.throttle.restarts now then 0 else s.throttle.count) + 1 ∧
      (if s.throttle.restarts now then some now else s.throttle.since) = some since ∧
      since ≤ now ∧ ∀ f ∈ earlier', f + SIGN_IN_LOCKOUT ≤ since := by
  by_cases hrestarts : s.throttle.restarts now = true
  · refine ⟨s.failures, [now], now, rfl, ?_, ?_, Nat.le_refl now, ?_⟩
    · rw [if_pos hrestarts]
      rfl
    · rw [if_pos hrestarts]
    · cases hsince : s.throttle.since with
      | none =>
        obtain ⟨rfl, -⟩ := h.closed hsince
        rw [h.failures, List.append_nil]
        intro f hf
        exact (h.shut hsince (Nat.pos_of_ne_zero hchecking) f hf).trans hnow
      | some since => exact horderly (by rw [hsince]; rfl) hrestarts
  · obtain ⟨since, hsince⟩ : ∃ since, s.throttle.since = some since := by
      cases hsince : s.throttle.since with
      | none =>
        refine absurd ?_ hrestarts
        unfold SignInThrottle.restarts
        rw [hsince]
      | some since => exact ⟨since, rfl⟩
    obtain ⟨hle, hold⟩ := h.opened since hsince
    refine ⟨earlier, window ++ [now], since, ?_, ?_, ?_, hle.trans hnow, hold⟩
    · rw [h.failures, List.append_assoc]
    · rw [if_neg hrestarts, List.length_append, h.count]
      rfl
    · rw [if_neg hrestarts]
      exact hsince

/-- One failure more leaves no span with more failures than the counter counts. -/
theorem within_append_le {failures earlier window : List ℕ} {now : ℕ}
    (hsplit : failures ++ [now] = earlier ++ window)
    (hold : ∀ f ∈ earlier, f + SIGN_IN_LOCKOUT ≤ now) (hwindow : window.length ≤ MAX_SIGN_IN_FAILURES)
    (hspans : ∀ start, within failures start ≤ MAX_SIGN_IN_FAILURES) (start : ℕ) :
    within (failures ++ [now]) start ≤ MAX_SIGN_IN_FAILURES := by
  by_cases hin : start ≤ now ∧ now < start + SIGN_IN_LOCKOUT
  · rw [hsplit]
    refine (countP_append_le ?_).trans hwindow
    intro f hf
    have := hold f hf
    rw [decide_eq_false_iff_not]
    omega
  · have hsame : within (failures ++ [now]) start = within failures start := by
      unfold within
      rw [List.countP_append, List.countP_singleton, if_neg (by simpa using hin), Nat.add_zero]
    rw [hsame]
    exact hspans start

/-- If five failures are within a minute of one more, the counter is at five;
if not, they were before. -/
theorem Due.of_append {failures earlier window : List ℕ} {now time : ℕ}
    (hsplit : failures ++ [now] = earlier ++ window)
    (hold : ∀ f ∈ earlier, f + SIGN_IN_LOCKOUT ≤ now) (hpast : ∀ f ∈ failures, f ≤ now)
    (hdue : Due (failures ++ [now]) time) :
    Due failures time ∨ MAX_SIGN_IN_FAILURES ≤ window.length ∧ time < now + SIGN_IN_LOCKOUT := by
  obtain ⟨last, hlast, htime, hcount⟩ := hdue
  by_cases heq : last = now
  · subst heq
    refine .inr ⟨hcount.trans ?_, htime⟩
    rw [hsplit]
    apply countP_append_le
    intro f hf
    have := hold f hf
    rw [decide_eq_false_iff_not]
    omega
  · have hmem : last ∈ failures := by
      rcases List.mem_append.mp hlast with hlast | hlast
      · exact hlast
      · exact absurd (List.mem_singleton.mp hlast) heq
    refine .inl ⟨last, hmem, htime, ?_⟩
    rw [List.countP_append, List.countP_singleton, if_neg, Nat.add_zero] at hcount
    · exact hcount
    have := hpast last hmem
    rw [decide_eq_true_eq]
    omega

/-- A failed attempt is counted. -/
theorem Keeps.failed {s : SignIns} (h : s.Keeps) {now : ℕ} (hnow : s.now ≤ now)
    (hchecking : s.checking ≠ 0) (horderly : s.Orderly (.failed now)) :
    Keeps ⟨s.throttle.failed now, s.checking - 1, now, s.failures ++ [now]⟩ := by
  obtain ⟨earlier₀, window₀, hcounts⟩ := h.counts
  obtain ⟨earlier, window, since, hsplit, hlen, hsince, hle, hold⟩ :=
    hcounts.failed hnow hchecking horderly
  have hpast : ∀ f ∈ s.failures, f ≤ now := fun f hf => (hcounts.past f hf).trans hnow
  have hpast' : ∀ f ∈ s.failures ++ [now], f ≤ now := by
    intro f hf
    rcases List.mem_append.mp hf with hf | hf
    · exact hpast f hf
    · exact (List.mem_singleton.mp hf).le
  have holdnow : ∀ f ∈ earlier, f + SIGN_IN_LOCKOUT ≤ now := fun f hf => (hold f hf).trans hle
  have hroom := hcounts.room
  have hbelow := hcounts.below
  have hmax : MAX_SIGN_IN_FAILURES = 5 := rfl
  have hwindow : window.length ≤ MAX_SIGN_IN_FAILURES := by
    rw [hlen]
    split <;> omega
  have hspans := within_append_le hsplit holdnow hwindow h.spans
  have hthrottle : s.throttle.failed now =
      if MAX_SIGN_IN_FAILURES ≤ window.length then ⟨0, none, some (now + SIGN_IN_LOCKOUT)⟩
      else ⟨window.length, some since, s.throttle.lockedUntil⟩ := by
    unfold SignInThrottle.failed
    simp only [← hlen, hsince]
  rw [hthrottle]
  by_cases hfull : MAX_SIGN_IN_FAILURES ≤ window.length
  · rw [if_pos hfull]
    -- the last failure that was left, so no attempt is being checked any more
    have hlast : s.checking - 1 = 0 := by
      rw [hlen] at hfull
      split at hfull <;> omega
    refine ⟨⟨s.failures ++ [now], [], (List.append_nil _).symm, rfl, ?_, Nat.zero_lt_succ _, hpast', ?_, ?_, ?_⟩,
      ?_, ?_, hspans⟩
    · rw [hlast]
      exact Nat.zero_le _
    · intro since hsince
      cases hsince
    · intro _
      refine ⟨rfl, fun f hf => ⟨_, rfl, Nat.add_le_add_right (hpast' f hf) _⟩⟩
    · intro _ hpos
      rw [hlast] at hpos
      exact absurd hpos (Nat.lt_irrefl 0)
    · intro time htime hdue
      unfold SignInThrottle.locked
      rw [decide_eq_true_eq]
      rcases hdue.of_append hsplit holdnow hpast with hdue | ⟨-, hlt⟩
      · have hlocked := h.due time (hnow.trans htime) hdue
        unfold SignInThrottle.locked at hlocked
        split at hlocked
        · rename_i lockedUntil heq
          have := h.lock_le lockedUntil heq
          rw [decide_eq_true_eq] at hlocked
          omega
        · cases hlocked
      · exact hlt
    · rintro lockedUntil ⟨⟩
      exact Nat.le_refl _
  · rw [if_neg hfull]
    refine ⟨⟨earlier, window, hsplit, rfl, ?_, Nat.lt_of_not_le hfull, hpast', ?_, ?_, ?_⟩, ?_, ?_, hspans⟩
    · simp only
      rw [hlen]
      split <;> omega
    · rintro _ ⟨⟩
      exact ⟨hle, hold⟩
    · intro hnone
      cases hnone
    · intro hnone
      cases hnone
    · intro time htime hdue
      rcases hdue.of_append hsplit holdnow hpast with hdue | ⟨hmany, -⟩
      · exact h.due time (hnow.trans htime) hdue
      · exact absurd hmany hfull
    · intro lockedUntil heq
      have := h.lock_le lockedUntil heq
      simp only
      omega

/-- Time passes, and attempts begin and end. -/
theorem Keeps.passes {s : SignIns} (h : s.Keeps) {now checking : ℕ} (hnow : s.now ≤ now)
    (hchecking : checking ≤ s.checking ∨ s.throttle.locked now = false ∧
      s.throttle.count + checking ≤ MAX_SIGN_IN_FAILURES) :
    Keeps ⟨s.throttle, checking, now, s.failures⟩ := by
  obtain ⟨earlier, window, hcounts⟩ := h.counts
  refine ⟨⟨earlier, window, hcounts.failures, hcounts.count, ?_, hcounts.below, ?_, ?_, hcounts.closed,
    ?_⟩, ?_, ?_, h.spans⟩
  · have hroom := hcounts.room
    simp only
    omega
  · exact fun f hf => (hcounts.past f hf).trans hnow
  · intro since hsince
    obtain ⟨hle, hold⟩ := hcounts.opened since hsince
    exact ⟨hle.trans hnow, hold⟩
  · intro hsince hpos f hf
    rcases hchecking with hle | ⟨hunlocked, -⟩
    · exact (hcounts.shut hsince (lt_of_lt_of_le hpos hle) f hf).trans hnow
    · obtain ⟨lockedUntil, heq, hold⟩ := (hcounts.closed hsince).2 f hf
      unfold SignInThrottle.locked at hunlocked
      rw [heq] at hunlocked
      simp only [decide_eq_false_iff_not, Nat.not_lt] at hunlocked
      exact hold.trans hunlocked
  · exact fun time htime hdue => h.due time (hnow.trans htime) hdue
  · exact fun lockedUntil heq => (h.lock_le lockedUntil heq).trans (Nat.add_le_add_right hnow _)

/-- An orderly step keeps what the throttle promises. -/
theorem Keeps.step {s s' : SignIns} {event : Event} (h : s.Keeps) (horderly : s.Orderly event)
    (hstep : s.step event = some s') : s'.Keeps := by
  unfold SignIns.step at hstep
  split at hstep
  · cases hstep
  rename_i htime
  have hnow : s.now ≤ event.time := Nat.le_of_not_lt htime
  cases event with
  | attempt now =>
    simp only at hstep
    split at hstep
    · cases hstep
      exact h.passes hnow (.inl (Nat.le_refl _))
    · cases hstep
      rename_i hunlocked
      rw [Bool.not_eq_true] at hunlocked
      exact h.passes hnow (.inr ⟨hunlocked, horderly hunlocked⟩)
  | failed now =>
    simp only at hstep
    split at hstep
    · cases hstep
    · cases hstep
      rename_i hchecking
      exact h.failed hnow hchecking horderly
  | ended now =>
    simp only at hstep
    split at hstep
    · cases hstep
    · cases hstep
      exact h.passes hnow (.inl (Nat.sub_le _ _))

/-- Seconds. -/
def seconds (n : ℕ) : ℕ := n * 10 ^ 9

/-- An attempt that fails, `n` seconds in. -/
def failure (n : ℕ) : List Event := [.attempt (seconds n), .failed (seconds n)]

end SignIns

end WindowCast.Host
