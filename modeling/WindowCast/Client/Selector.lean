import WindowCast.Lib.Run
import WindowCast.Stream.Serving

/-!
# The automatic carrier selector

`client-core/src/selector.rs` and what `client-core/src/lib.rs` does with it: a window is
looked at again and again, each carrier is scored, and the window is switched to another
carrier that has scored better for a while.  An attempt to switch counts as a switch when
the host takes it; it can still be refused after that.

Instants are natural numbers of nanoseconds.  A look takes the scores as they come, so
that nothing depends on how they are made; `Motion` and `score` are how the client makes
them.

## Main definitions

* `Window`, `Window.choose`, `Window.switched`, `Window.failed` — the selector of a window.
* `Selection`, `Selection.step` — the window, the clock, and what happened so far.
* `failures`, `lastFailed` — the attempts in a row that failed.
* `Held` — a carrier scored better at every look since an instant.

## Main results

* `Window.choose_eq_some` — all that a choice needs.
* `Selection.backs_off` — **the wait grows with the failures, unless a switch is refused
  after it began.**
* `Selection.does_not_flap` — **attempts are apart, and each comes after the dwell.**
-/

namespace WindowCast.Client

open WindowCast.Stream (BackendKind)

namespace Selector

/-! ### The selector of a window -/

def SECOND : ℕ := 1000000000

/-- How much better another carrier must score. -/
def MARGIN : ℚ := 5 / 4

/-- How long it must stay better. -/
def DWELL : ℕ := 3 * SECOND

/-- The least time between two switches of one window. -/
def MIN_INTERVAL : ℕ := 15 * SECOND

/-- The first wait after a failed switch to a carrier; doubled each time. -/
def BACKOFF : ℕ := 30 * SECOND

def MAX_BACKOFF : ℕ := 300 * SECOND

/-- What the selector knows of one window, but for its motion. -/
structure Window where
  /-- The carrier that has been scoring better, and since when. -/
  better : Option (BackendKind × ℕ)
  lastSwitch : ℕ
  /-- Carriers not to try again before the instant, with the last wait. -/
  backoff : BackendKind → Option (ℕ × ℕ)
  /-- The user chose: no automatic switch. -/
  pinned : Bool
  /-- An automatic switch under way: its generation and carrier. -/
  pending : Option (ℕ × BackendKind)

/-- The last of the greatest, as `Iterator::max_by`. -/
def maxBy (scored : List (BackendKind × ℚ)) : Option (BackendKind × ℚ) :=
  scored.foldl (fun best y =>
    match best with
    | none => some y
    | some x => if y.2 < x.2 then some x else some y) none

namespace Window

def new (now : ℕ) : Window := ⟨none, now, fun _ => none, false, none⟩

/-- A switch to `kind` happened: the interval starts. -/
def switched (self : Window) (kind : BackendKind) (now : ℕ) : Window :=
  { self with lastSwitch := now, better := none, backoff := Function.update self.backoff kind none }

/-- How long to wait after a failed switch to `kind`. -/
def wait (self : Window) (kind : BackendKind) : ℕ :=
  (self.backoff kind).elim BACKOFF fun entry => min (entry.2 * 2) MAX_BACKOFF

/-- A switch to `kind` failed: wait before trying it again. -/
def failed (self : Window) (kind : BackendKind) (now : ℕ) : Window :=
  { self with
    backoff := Function.update self.backoff kind (some (now + self.wait kind, self.wait kind))
    better := none
    lastSwitch := now }

/-- Whether `kind` may be tried. -/
def ready (self : Window) (now : ℕ) (kind : BackendKind) : Bool :=
  (self.backoff kind).elim true fun entry => decide (entry.1 ≤ now)

/-- The carrier that scores best, if one scores enough better. -/
def best (self : Window) (score : BackendKind → ℚ) (current : BackendKind) (now : ℕ) :
    Option BackendKind :=
  let candidates := [BackendKind.native, .rdp].filter fun k => k ≠ current
  let scored := (candidates.filter (self.ready now)).map fun k => (k, score k)
  (maxBy (scored.filter fun k => score current * MARGIN < k.2 ∧ 0 < k.2)).map Prod.fst

/-- The carrier to switch to now, if any. -/
def choose (self : Window) (score : BackendKind → ℚ) (current : BackendKind) (now : ℕ) :
    Window × Option BackendKind :=
  if self.pinned then (self, none)
  else
    match self.best score current now, self.better with
    | none, _ => ({ self with better := none }, none)
    | some kind, none => ({ self with better := some (kind, now) }, none)
    | some kind, some (was, since) =>
      if was = kind then
        if DWELL ≤ now - since ∧ MIN_INTERVAL ≤ now - self.lastSwitch then (self, some kind)
        else (self, none)
      else ({ self with better := some (kind, now) }, none)

end Window

/-! ### How the client scores -/

inductive ContentHint
  | general
  | text
  | game
  | video
  deriving DecidableEq, Repr

/-- Pictures or frames per second a window that moves all the time sends. -/
def MOVING_FPS : ℚ := 24

/-- How quickly the motion estimate follows. -/
def MOTION_SECONDS : ℚ := 2

/-- The share of time a window changes, smoothed, and the count it was last taken from. -/
structure Motion where
  motion : ℚ
  count : Option (ℕ × ℕ)

def clamp (x low high : ℚ) : ℚ := max low (min x high)

/-- Takes the window's running count of pictures or frames received. -/
def Motion.arrived (self : Motion) (count now : ℕ) : Motion :=
  match self.count with
  | none => { self with count := some (count, now) }
  | some (before, at') =>
    let seconds : ℚ := ((now - at' : ℕ) : ℚ) / SECOND
    if 0 < seconds ∧ before ≤ count then
      let rate := ((count - before : ℕ) : ℚ) / seconds
      let sample := clamp (rate / MOVING_FPS) 0 1
      let weight := clamp (seconds / MOTION_SECONDS) 0 1
      ⟨self.motion + (sample - self.motion) * weight, some (count, now)⟩
    else { self with count := some (count, now) }

/-- A switch happened: the count starts over on the new carrier. -/
def Motion.switched (self : Motion) : Motion := { self with count := none }

/-- How well `kind` suits a window. -/
def score (content : ContentHint) (motion : ℚ) (rdpPossible : Bool) : BackendKind → ℚ
  | .native => 1 / 5 + motion
  | .rdp =>
    if !rdpPossible then 0
    else
      match content with
      | .text => 6 / 5 - motion
      | .general => 3 / 10 - motion
      | .game | .video => 0
  | _ => 0

/-! ### A window over time -/

/-- What happened to a window. -/
inductive Entry
  /-- It was looked at, and perhaps a switch attempted. -/
  | look (now : ℕ) (current : BackendKind) (score : BackendKind → ℚ) (attempt : Option BackendKind)
  /-- A switch failed, at once or after it had begun; the carrier is left alone so long. -/
  | failed (now : ℕ) (kind : BackendKind) (refused : Bool) (wait : ℕ)
  /-- The carrier of an automatic switch is on screen. -/
  | shown (kind : BackendKind)
  /-- The stream stopped, and all about the window was forgotten. -/
  | stopped

/-- The attempts at `kind` that failed in a row. -/
def failures (kind : BackendKind) (log : List Entry) : ℕ :=
  log.foldl (fun n entry =>
    match entry with
    | .look .. => n
    | .failed _ k _ _ => if k = kind then n + 1 else n
    | .shown k => if k = kind then 0 else n
    | .stopped => 0) 0

/-- When an attempt at `kind` last failed. -/
def lastFailed (kind : BackendKind) (log : List Entry) : Option ℕ :=
  log.foldl (fun last entry =>
    match entry with
    | .failed now k _ _ => if k = kind then some now else last
    | _ => last) none

/-- The window, if the selector has met it, the clock, and what happened so far. -/
structure Selection where
  window : Option Window
  clock : ℕ
  log : List Entry

inductive Event
  /-- The selector looks at the window; `pinned` if a rule of the user's chose its carrier.
  `started` is what starting the switch would come to: the generation, if the host takes it. -/
  | look (now : ℕ) (current : BackendKind) (score : BackendKind → ℚ) (pinned : Bool)
      (started : Option ℕ)
  /-- The user switches it by hand. -/
  | switchWindow (now : ℕ)
  | carrierRefused (now generation : ℕ)
  | carrierShown (generation : ℕ)
  | streamStopped

namespace Selection

def new : Selection := ⟨none, 0, []⟩

/-- The window as a look finds it. -/
def found (self : Selection) (now : ℕ) (pinned : Bool) : Window :=
  let window := self.window.getD (Window.new now)
  { window with pinned := window.pinned || pinned }

/-- What becomes of the choice that a look came to. -/
def attempt (self : Selection) (now : ℕ) (current : BackendKind) (score : BackendKind → ℚ)
    (started : Option ℕ) : Window × Option BackendKind → Selection
  | (window, none) => ⟨some window, now, self.log ++ [.look now current score none]⟩
  | (window, some kind) =>
    let log := self.log ++ [.look now current score (some kind)]
    match started with
    | some generation =>
      ⟨some (({ window with pending := some (generation, kind) } : Window).switched kind now), now, log⟩
    | none => ⟨some (window.failed kind now), now, log ++ [.failed now kind false (window.wait kind)]⟩

/-- One turn of the loop of `select`. -/
def look (self : Selection) (now : ℕ) (current : BackendKind) (score : BackendKind → ℚ) (pinned : Bool)
    (started : Option ℕ) : Selection :=
  let window := self.found now pinned
  self.attempt now current score started
    (if window.pending.isSome then (window, none) else window.choose score current now)

/-- The carrier is refused after the switch to it began. -/
def refused (self : Selection) (now generation : ℕ) : Selection :=
  match self.window with
  | none => { self with clock := now }
  | some window =>
    match window.pending with
    | none => { self with clock := now }
    | some (pending, kind) =>
      if pending = generation then
        ⟨some (({ window with pending := none } : Window).failed kind now), now,
          self.log ++ [.failed now kind true (window.wait kind)]⟩
      else { self with clock := now }

/-- The first picture of the carrier is on screen. -/
def shown (self : Selection) (generation : ℕ) : Selection :=
  match self.window with
  | none => self
  | some window =>
    match window.pending with
    | none => self
    | some (pending, kind) =>
      if pending = generation then
        { self with window := some { window with pending := none }, log := self.log ++ [.shown kind] }
      else self

/-- The clock never goes back. -/
def step (self : Selection) : Event → Option Selection
  | .look now current score pinned started =>
    if now < self.clock then none else some (self.look now current score pinned started)
  | .switchWindow now =>
    if now < self.clock then none
    else
      some { self with
        window := some { self.window.getD (Window.new now) with pinned := true }
        clock := now }
  | .carrierRefused now generation =>
    if now < self.clock then none else some (self.refused now generation)
  | .carrierShown generation => some (self.shown generation)
  | .streamStopped => some { self with window := none, log := self.log ++ [.stopped] }

end Selection

/-! ### What a choice needs -/

theorem maxBy_concat (scored : List (BackendKind × ℚ)) (y : BackendKind × ℚ) :
    maxBy (scored ++ [y]) = some ((maxBy scored).elim y fun x => if y.2 < x.2 then x else y) := by
  rw [maxBy, List.foldl_append, List.foldl_cons, List.foldl_nil, ← maxBy]
  cases maxBy scored with
  | none => rfl
  | some x =>
    by_cases hless : y.2 < x.2
    · simp only [hless, if_true, Option.elim_some]
    · simp only [hless, if_false, Option.elim_some]

/-- The greatest is one of them. -/
theorem mem_of_maxBy {scored : List (BackendKind × ℚ)} {x : BackendKind × ℚ} (h : maxBy scored = some x) :
    x ∈ scored := by
  induction scored using List.reverseRecOn generalizing x with
  | nil => cases h
  | append_singleton scored y ih =>
    rw [maxBy_concat, Option.some.injEq] at h
    subst h
    cases hbest : maxBy scored with
    | none => exact List.mem_append_right _ (List.mem_singleton_self y)
    | some x =>
      simp only [Option.elim_some]
      split
      · exact List.mem_append_left _ (ih hbest)
      · exact List.mem_append_right _ (List.mem_singleton_self y)

/-- The scores favour `kind` over the carrier that is on. -/
structure Beats (score : BackendKind → ℚ) (current kind : BackendKind) : Prop where
  ne : kind ≠ current
  better : score current < score kind
  margin : score current * MARGIN < score kind

theorem Beats.of_margin {score : BackendKind → ℚ} {current kind : BackendKind} (hne : kind ≠ current)
    (hmargin : score current * MARGIN < score kind) (hpos : 0 < score kind) : Beats score current kind := by
  refine ⟨hne, ?_, hmargin⟩
  rcases lt_or_ge (score current) 0 with hneg | hnonneg
  · exact hneg.trans hpos
  · refine lt_of_le_of_lt ?_ hmargin
    rw [MARGIN]
    linarith

namespace Window

variable {self w : Window} {score : BackendKind → ℚ} {current kind : BackendKind} {now : ℕ}

theorem best_eq_some (h : self.best score current now = some kind) :
    (kind = .native ∨ kind = .rdp) ∧ self.ready now kind = true ∧ Beats score current kind ∧ 0 < score kind := by
  obtain ⟨⟨k, x⟩, hmax, rfl⟩ := Option.map_eq_some_iff.mp h
  obtain ⟨hscored, hbeats⟩ := List.mem_filter.mp (mem_of_maxBy hmax)
  obtain ⟨hmargin, hpos⟩ := of_decide_eq_true hbeats
  obtain ⟨k', hk', heq⟩ := List.mem_map.mp hscored
  cases heq
  obtain ⟨hcandidate, hready⟩ := List.mem_filter.mp hk'
  obtain ⟨hkind, hne⟩ := List.mem_filter.mp hcandidate
  refine ⟨?_, hready, Beats.of_margin (of_decide_eq_true hne) hmargin hpos, hpos⟩
  simpa only [List.mem_cons, List.not_mem_nil, or_false] using hkind

/-- All that a choice needs. -/
theorem choose_eq_some (h : self.choose score current now = (w, some kind)) :
    w = self ∧ self.pinned = false ∧ self.ready now kind = true ∧ Beats score current kind ∧
      MIN_INTERVAL ≤ now - self.lastSwitch ∧
      ∃ since, self.better = some (kind, since) ∧ DWELL ≤ now - since := by
  rw [choose] at h
  cases hpinned : self.pinned with
  | true =>
    rw [hpinned, if_pos rfl] at h
    cases h
  | false =>
    rw [hpinned, if_neg Bool.false_ne_true] at h
    cases hbest : self.best score current now with
    | none =>
      rw [hbest] at h
      cases h
    | some k =>
      cases hbetter : self.better with
      | none =>
        rw [hbest, hbetter] at h
        cases h
      | some better =>
        obtain ⟨was, since⟩ := better
        rw [hbest, hbetter] at h
        simp only at h
        by_cases hwas : was = k
        · rw [if_pos hwas] at h
          split at h
          · rename_i hlong
            cases h
            subst hwas
            obtain ⟨-, hready, hbeats, -⟩ := best_eq_some hbest
            exact ⟨rfl, rfl, hready, hbeats, hlong.2, since, rfl, hlong.1⟩
          · cases h
        · rw [if_neg hwas] at h
          cases h

/-- Without a choice, only who has been better can change, and only as the scores say. -/
theorem choose_eq_none (h : self.choose score current now = (w, none)) :
    ∃ better, w = { self with better := better } ∧
      (self.pinned = false → ∀ kind since, better = some (kind, since) →
        Beats score current kind ∧ (since = now ∨ self.better = some (kind, since))) := by
  rw [choose] at h
  by_cases hpinned : self.pinned = true
  · rw [if_pos hpinned] at h
    cases h
    exact ⟨self.better, rfl, fun hnot => absurd (hpinned.symm.trans hnot) (by decide)⟩
  · rw [if_neg hpinned] at h
    -- a carrier that scores better from now on
    have hfresh (k : BackendKind) (hbest : self.best score current now = some k) : ∀ kind since,
        some (k, now) = some (kind, since) →
          Beats score current kind ∧ (since = now ∨ self.better = some (kind, since)) := by
      intro kind since heq
      cases heq
      exact ⟨(best_eq_some hbest).2.2.1, .inl rfl⟩
    cases hbest : self.best score current now with
    | none =>
      rw [hbest] at h
      cases h
      exact ⟨none, rfl, fun _ => nofun⟩
    | some k =>
      cases hbetter : self.better with
      | none =>
        rw [hbest, hbetter] at h
        cases h
        exact ⟨some (k, now), rfl, fun _ => hbetter ▸ hfresh k hbest⟩
      | some better =>
        obtain ⟨was, since⟩ := better
        rw [hbest, hbetter] at h
        simp only at h
        by_cases hwas : was = k
        · rw [if_pos hwas] at h
          subst hwas
          split at h
          · cases h
          · cases h
            refine ⟨self.better, rfl, fun _ kind since' heq => ?_⟩
            rw [hbetter] at heq
            cases heq
            exact ⟨(best_eq_some hbest).2.2.1, .inr rfl⟩
        · rw [if_neg hwas] at h
          cases h
          exact ⟨some (k, now), rfl, fun _ => hbetter ▸ hfresh k hbest⟩

theorem wait_le (self : Window) (kind : BackendKind) : self.wait kind ≤ MAX_BACKOFF := by
  rw [wait]
  cases self.backoff kind with
  | none => decide
  | some entry => exact Nat.min_le_right _ _

/-- RDP that is out of reach is never chosen. -/
theorem choose_ne_rdp {content : ContentHint} {motion : ℚ} (hmotion : 0 ≤ motion) :
    (self.choose (Selector.score content motion false) current now).2 ≠ some .rdp := by
  intro h
  obtain ⟨-, -, -, hbeats, -, since, hbetter, -⟩ := choose_eq_some (w := _) (Prod.ext rfl h)
  have hzero : Selector.score content motion false .rdp = 0 := rfl
  have hcurrent : 0 ≤ Selector.score content motion false current := by
    cases current with
    | native => simp only [Selector.score]; linarith
    | _ => exact le_refl _
  have hbetter := hbeats.better
  rw [hzero] at hbetter
  exact absurd hbetter (not_lt.mpr hcurrent)

end Window

/-! ### The motion of a window -/

theorem clamp_mem {x low high : ℚ} (h : low ≤ high) : low ≤ clamp x low high ∧ clamp x low high ≤ high :=
  ⟨le_max_left _ _, max_le h (min_le_right _ _)⟩

/-- The motion is a share of the time. -/
theorem Motion.arrived_mem {self : Motion} (h : 0 ≤ self.motion ∧ self.motion ≤ 1) (count now : ℕ) :
    0 ≤ (self.arrived count now).motion ∧ (self.arrived count now).motion ≤ 1 := by
  rw [arrived]
  cases self.count with
  | none => exact h
  | some before =>
    simp only
    split
    · -- between the old estimate and the sample
      have hsample : ∀ x : ℚ, 0 ≤ clamp x 0 1 ∧ clamp x 0 1 ≤ 1 := fun _ => clamp_mem zero_le_one
      obtain ⟨hs0, hs1⟩ := hsample (((count - before.1 : ℕ) : ℚ) / (((now - before.2 : ℕ) : ℚ) / SECOND) / MOVING_FPS)
      obtain ⟨hw0, hw1⟩ := hsample (((now - before.2 : ℕ) : ℚ) / SECOND / MOTION_SECONDS)
      constructor
      · nlinarith [mul_nonneg hs0 hw0, mul_nonneg h.1 (sub_nonneg.mpr hw1)]
      · nlinarith [mul_nonneg (sub_nonneg.mpr hs1) hw0, mul_nonneg (sub_nonneg.mpr h.2) (sub_nonneg.mpr hw1)]
    · exact h

/-! ### What the log says -/

/-- `kind` scored better at every look, from one at `since` to now, and nothing else happened. -/
def Held (kind : BackendKind) (since : ℕ) (log : List Entry) : Prop :=
  ∃ earlier current score attempt later, log = earlier ++ .look since current score attempt :: later ∧
    ∀ entry ∈ Entry.look since current score attempt :: later,
      ∃ now current score attempt, entry = .look now current score attempt ∧ Beats score current kind

theorem held_now {kind current : BackendKind} {score : BackendKind → ℚ} (h : Beats score current kind)
    (now : ℕ) (attempt : Option BackendKind) (log : List Entry) :
    Held kind now (log ++ [.look now current score attempt]) := by
  refine ⟨log, current, score, attempt, [], rfl, fun entry hentry => ?_⟩
  exact ⟨now, current, score, attempt, List.mem_singleton.mp hentry, h⟩

theorem Held.look {kind current : BackendKind} {score : BackendKind → ℚ} {since : ℕ} {log : List Entry}
    (h : Held kind since log) (hbeats : Beats score current kind) (now : ℕ) (attempt : Option BackendKind) :
    Held kind since (log ++ [.look now current score attempt]) := by
  obtain ⟨earlier, current', score', attempt', later, rfl, hlater⟩ := h
  refine ⟨earlier, current', score', attempt', later ++ [.look now current score attempt], by simp, ?_⟩
  intro entry hentry
  rw [← List.cons_append] at hentry
  rcases List.mem_append.mp hentry with hentry | hentry
  · exact hlater entry hentry
  · exact ⟨now, current, score, attempt, List.mem_singleton.mp hentry, hbeats⟩

section

variable (kind : BackendKind) (log : List Entry)

@[simp] theorem failures_nil : failures kind [] = 0 := rfl

@[simp] theorem failures_look (now : ℕ) (current : BackendKind) (score : BackendKind → ℚ)
    (attempt : Option BackendKind) :
    failures kind (log ++ [.look now current score attempt]) = failures kind log := by
  rw [failures, List.foldl_append]
  rfl

@[simp] theorem failures_failed (now : ℕ) (k : BackendKind) (refused : Bool) (wait : ℕ) :
    failures kind (log ++ [.failed now k refused wait])
      = if k = kind then failures kind log + 1 else failures kind log := by
  rw [failures, List.foldl_append]
  rfl

@[simp] theorem failures_shown (k : BackendKind) :
    failures kind (log ++ [.shown k]) = if k = kind then 0 else failures kind log := by
  rw [failures, List.foldl_append]
  rfl

@[simp] theorem failures_stopped : failures kind (log ++ [.stopped]) = 0 := by
  rw [failures, List.foldl_append]
  rfl

@[simp] theorem lastFailed_failed (now : ℕ) (k : BackendKind) (refused : Bool) (wait : ℕ) :
    lastFailed kind (log ++ [.failed now k refused wait])
      = if k = kind then some now else lastFailed kind log := by
  rw [lastFailed, List.foldl_append]
  rfl

@[simp] theorem lastFailed_look (now : ℕ) (current : BackendKind) (score : BackendKind → ℚ)
    (attempt : Option BackendKind) :
    lastFailed kind (log ++ [.look now current score attempt]) = lastFailed kind log := by
  rw [lastFailed, List.foldl_append]
  rfl

@[simp] theorem lastFailed_shown (k : BackendKind) :
    lastFailed kind (log ++ [.shown k]) = lastFailed kind log := by
  rw [lastFailed, List.foldl_append]
  rfl

end

/-- The wait after so many failures in a row. -/
def backoffAfter (n : ℕ) : ℕ := min (BACKOFF * 2 ^ (n - 1)) MAX_BACKOFF

theorem backoffAfter_one : backoffAfter 1 = BACKOFF := by decide

/-- One failure more doubles the wait, up to the greatest. -/
theorem backoffAfter_succ {n : ℕ} (hn : 0 < n) :
    backoffAfter (n + 1) = min (backoffAfter n * 2) MAX_BACKOFF := by
  obtain ⟨m, rfl⟩ := Nat.exists_eq_succ_of_ne_zero (Nat.pos_iff_ne_zero.mp hn)
  simp only [backoffAfter, Nat.succ_eq_add_one, Nat.add_sub_cancel, pow_succ, ← Nat.mul_assoc]
  omega

theorem backoffAfter_lt {n : ℕ} (hn : 0 < n) : BACKOFF < backoffAfter (n + 1) := by
  have hpow : 0 < 2 ^ (n - 1) := Nat.two_pow_pos _
  have hdouble := backoffAfter_succ hn
  have hn : BACKOFF ≤ backoffAfter n := by
    refine Nat.le_min.mpr ⟨Nat.le_mul_of_pos_right _ hpow, by decide⟩
  have hmax : BACKOFF < MAX_BACKOFF := by decide
  have hpos : 0 < BACKOFF := by decide
  omega

/-! ### What every step preserves -/

/-- Every attempt in the log is as old as the instant, or older. -/
def Past (log : List Entry) (clock : ℕ) : Prop :=
  ∀ now current score kind, Entry.look now current score (some kind) ∈ log → now ≤ clock

theorem Past.mono {log : List Entry} {clock clock' : ℕ} (h : Past log clock) (hle : clock ≤ clock') :
    Past log clock' := by
  intro now current score kind hmem
  exact (h now current score kind hmem).trans hle

theorem Past.look {log : List Entry} {now : ℕ} (h : Past log now) (current : BackendKind)
    (score : BackendKind → ℚ) (attempt : Option BackendKind) :
    Past (log ++ [.look now current score attempt]) now := by
  intro now' current' score' kind hmem
  rcases List.mem_append.mp hmem with hmem | hmem
  · exact h now' current' score' kind hmem
  · cases List.mem_singleton.mp hmem
    exact le_refl _

/-- An entry that is no look. -/
theorem Past.concat {log : List Entry} {clock : ℕ} (h : Past log clock) {entry : Entry}
    (hentry : ∀ now current score kind, entry ≠ .look now current score (some kind)) :
    Past (log ++ [entry]) clock := by
  intro now current score kind hmem
  rcases List.mem_append.mp hmem with hmem | hmem
  · exact h now current score kind hmem
  · exact absurd (List.mem_singleton.mp hmem).symm (hentry now current score kind)

/-- A look without an attempt. -/
theorem Past.idle {log : List Entry} {clock : ℕ} (h : Past log clock) (now : ℕ) (current : BackendKind)
    (score : BackendKind → ℚ) : Past (log ++ [.look now current score none]) clock :=
  h.concat fun _ _ _ _ => nofun

/-- What a window's selector and the log have to do with each other. -/
structure Window.Inv (w : Window) (clock : ℕ) (log : List Entry) : Prop where
  lastSwitch : w.lastSwitch ≤ clock
  attempts : Past log w.lastSwitch
  idle : w.pending.isSome → w.better = none
  held : w.pinned = false → ∀ kind since, w.better = some (kind, since) → Held kind since log
  tried : ∀ generation kind, w.pending = some (generation, kind) → w.backoff kind = none
  failed : ∀ kind entry, w.backoff kind = some entry → 0 < failures kind log
  bounded : ∀ kind notBefore wait, w.backoff kind = some (notBefore, wait) →
    notBefore ≤ clock + wait ∧ wait ≤ MAX_BACKOFF

namespace Window.Inv

variable {self : Window} {clock now : ℕ} {log : List Entry}

theorem later (h : self.Inv clock log) (hnow : clock ≤ now) : self.Inv now log := by
  refine ⟨h.lastSwitch.trans hnow, h.attempts, h.idle, h.held, h.tried, h.failed, ?_⟩
  intro kind notBefore wait hbackoff
  obtain ⟨hle, hmax⟩ := h.bounded kind notBefore wait hbackoff
  exact ⟨by omega, hmax⟩

theorem pin (h : self.Inv clock log) (pinned : Bool) :
    ({ self with pinned := self.pinned || pinned } : Window).Inv clock log := by
  refine ⟨h.lastSwitch, h.attempts, h.idle, ?_, h.tried, h.failed, h.bounded⟩
  intro hpinned
  exact h.held (Bool.or_eq_false_iff.mp hpinned).1

theorem settled (h : self.Inv clock log) : ({ self with pending := none } : Window).Inv clock log :=
  ⟨h.lastSwitch, h.attempts, nofun, h.held, nofun, h.failed, h.bounded⟩

/-- A look without an attempt. -/
theorem look {current : BackendKind} {score : BackendKind → ℚ} (h : self.Inv now log)
    {better : Option (BackendKind × ℕ)} (hidle : self.pending.isSome → better = none)
    (hbetter : self.pinned = false → ∀ kind since, better = some (kind, since) →
      Beats score current kind ∧ (since = now ∨ self.better = some (kind, since))) :
    ({ self with better := better } : Window).Inv now (log ++ [.look now current score none]) := by
  refine ⟨h.lastSwitch, h.attempts.idle now current score, hidle, ?_, h.tried, ?_, h.bounded⟩
  · intro hpinned kind since heq
    obtain ⟨hbeats, rfl | hsince⟩ := hbetter hpinned kind since heq
    · exact held_now hbeats since none log
    · exact (h.held hpinned kind since hsince).look hbeats now none
  · intro kind entry hbackoff
    rw [failures_look]
    exact h.failed kind entry hbackoff

/-- An attempt that the host takes. -/
theorem switched {current kind : BackendKind} {score : BackendKind → ℚ} (h : self.Inv now log)
    (generation : ℕ) :
    (({ self with pending := some (generation, kind) } : Window).switched kind now).Inv now
      (log ++ [.look now current score (some kind)]) := by
  refine ⟨le_refl _, (h.attempts.mono h.lastSwitch).look current score _, fun _ => rfl, fun _ => nofun, ?_, ?_, ?_⟩
  · intro generation' kind' hpending
    cases hpending
    exact Function.update_self ..
  · intro kind' entry hbackoff
    rw [failures_look]
    simp only [Window.switched, Function.update_apply] at hbackoff
    split at hbackoff
    · cases hbackoff
    · exact h.failed kind' entry hbackoff
  · intro kind' notBefore wait hbackoff
    simp only [Window.switched, Function.update_apply] at hbackoff
    split at hbackoff
    · cases hbackoff
    · exact h.bounded kind' notBefore wait hbackoff

/-- The carrier of a switch is on screen. -/
theorem shown (h : self.Inv clock log) {generation : ℕ} {kind : BackendKind}
    (hpending : self.pending = some (generation, kind)) :
    ({ self with pending := none } : Window).Inv clock (log ++ [.shown kind]) := by
  have hnone : self.better = none := h.idle (by rw [hpending]; rfl)
  refine ⟨h.lastSwitch, h.attempts.concat fun _ _ _ _ => nofun, nofun, ?_, nofun, ?_, h.bounded⟩
  · intro _ kind' since hbetter
    exact absurd (hnone.symm.trans hbetter) nofun
  · intro kind' entry hbackoff
    rw [failures_shown]
    by_cases hkind : kind = kind'
    · -- its backoff went when the switch began
      rw [← hkind] at hbackoff
      exact absurd ((h.tried generation kind hpending).symm.trans hbackoff) nofun
    · rw [if_neg hkind]
      exact h.failed kind' entry hbackoff

/-- A failed attempt, of which the log says so last. -/
theorem failed' (h : self.Inv now log) (hpending : self.pending = none) {log' : List Entry}
    (hsame : ∀ kind, failures kind log' = failures kind log) (hpast : Past log' now) (kind : BackendKind)
    (refused : Bool) (wait : ℕ) :
    (self.failed kind now).Inv now (log' ++ [.failed now kind refused wait]) := by
  refine ⟨le_refl _, hpast.concat nofun, fun _ => rfl, fun _ => nofun, ?_, ?_, ?_⟩
  · intro generation kind' hsome
    exact absurd (hpending.symm.trans hsome) nofun
  · intro kind' entry hbackoff
    rw [failures_failed, hsame]
    simp only [Window.failed, Function.update_apply] at hbackoff
    by_cases hkind : kind = kind'
    · rw [if_pos hkind]
      exact Nat.succ_pos _
    · rw [if_neg (Ne.symm hkind)] at hbackoff
      rw [if_neg hkind]
      exact h.failed kind' entry hbackoff
  · intro kind' notBefore wait' hbackoff
    simp only [Window.failed, Function.update_apply] at hbackoff
    split at hbackoff
    · cases hbackoff
      exact ⟨le_refl _, self.wait_le kind⟩
    · exact h.bounded kind' notBefore wait' hbackoff

end Window.Inv

/-- An attempt comes long enough after the one before, and after the dwell. -/
def Apart (before : List Entry) (entry : Entry) : Prop :=
  ∀ now current score kind, entry = .look now current score (some kind) →
    (∀ now' current' score' kind', Entry.look now' current' score' (some kind') ∈ before →
      now' + MIN_INTERVAL ≤ now) ∧
    Beats score current kind ∧ ∃ since, since + DWELL ≤ now ∧ Held kind since before

theorem apart_of_ne {before : List Entry} {entry : Entry}
    (h : ∀ now current score kind, entry ≠ .look now current score (some kind)) : Apart before entry := by
  intro now current score kind heq
  exact absurd heq (h now current score kind)

/-- A choice is apart from the attempts that the window knows of. -/
theorem apart_of_choose {w : Window} {now : ℕ} {log : List Entry} {current kind : BackendKind}
    {score : BackendKind → ℚ} (h : w.Inv now log) (hchoose : w.choose score current now = (w, some kind)) :
    Apart log (.look now current score (some kind)) := by
  obtain ⟨-, hpinned, -, hbeats, hinterval, since, hbetter, hdwell⟩ := Window.choose_eq_some hchoose
  have hpos : 0 < MIN_INTERVAL ∧ 0 < DWELL := by decide
  intro now' current' score' kind' heq
  cases heq
  refine ⟨?_, hbeats, since, by omega, h.held hpinned kind since hbetter⟩
  intro t current'' score'' kind'' hmem
  have hle := h.attempts t current'' score'' kind'' hmem
  omega

namespace Selection

/-- What every step preserves. -/
structure Inv (s : Selection) : Prop where
  past : Past s.log s.clock
  unmet : s.window = none → ∀ kind, failures kind s.log = 0
  window : ∀ window, s.window = some window → window.Inv s.clock s.log
  apart : Run.Always Apart s.log

variable {self s' : Selection}

theorem inv_new : new.Inv := by
  refine ⟨?_, fun _ _ => rfl, nofun, Run.always_nil⟩
  intro now current score kind hmem
  cases hmem

/-- The window once it is met. -/
theorem Inv.met (h : self.Inv) {now : ℕ} (hnow : self.clock ≤ now) :
    (self.window.getD (Window.new now)).Inv now self.log := by
  cases hwindow : self.window with
  | none =>
    rw [Option.getD_none]
    exact ⟨le_refl _, h.past.mono hnow, nofun, fun _ => nofun, nofun, nofun, nofun⟩
  | some window => exact (h.window window hwindow).later hnow

theorem Inv.found (h : self.Inv) {now : ℕ} (hnow : self.clock ≤ now) (pinned : Bool) :
    (self.found now pinned).Inv now self.log := (h.met hnow).pin pinned

/-- What a look does: nothing is chosen, or all that a choice needs is there. -/
theorem look_cases (self : Selection) (now : ℕ) (current : BackendKind) (score : BackendKind → ℚ)
    (pinned : Bool) (started : Option ℕ) {w : Window} (hw : self.found now pinned = w) :
    (∃ better, self.look now current score pinned started
        = ⟨some { w with better := better }, now, self.log ++ [.look now current score none]⟩ ∧
      (w.pending.isSome → better = w.better) ∧
      (w.pending = none → w.pinned = false → ∀ kind since, better = some (kind, since) →
        Beats score current kind ∧ (since = now ∨ w.better = some (kind, since)))) ∨
    ∃ kind, w.choose score current now = (w, some kind) ∧ w.pending = none ∧
      self.look now current score pinned started
        = self.attempt now current score started (w, some kind) := by
  rw [look, hw]
  cases hpending : w.pending with
  | some pending =>
    rw [Option.isSome_some, if_pos rfl]
    refine .inl ⟨w.better, ?_, fun _ => rfl, nofun⟩
    rw [attempt, ← hpending]
  | none =>
    rw [Option.isSome_none, if_neg Bool.false_ne_true]
    rcases hchoose : w.choose score current now with ⟨window, _ | kind⟩
    · obtain ⟨better, rfl, hbetter⟩ := Window.choose_eq_none hchoose
      refine .inl ⟨better, ?_, nofun, fun _ => hbetter⟩
      rw [attempt, ← hpending]
    · obtain ⟨rfl, -⟩ := Window.choose_eq_some hchoose
      exact .inr ⟨kind, rfl, rfl, rfl⟩

theorem Inv.look (h : self.Inv) {now : ℕ} (hnow : self.clock ≤ now) (current : BackendKind)
    (score : BackendKind → ℚ) (pinned : Bool) (started : Option ℕ) :
    (self.look now current score pinned started).Inv := by
  have hfound := h.found hnow pinned
  rcases look_cases self now current score pinned started rfl with
    ⟨better, heq, hsame, hbetter⟩ | ⟨kind, hchoose, hpending, heq⟩
  · rw [heq]
    refine ⟨(h.past.mono hnow).idle now current score, nofun, ?_, ?_⟩
    · intro window hwindow
      cases hwindow
      refine hfound.look (fun hidle => (hsame hidle).trans (hfound.idle hidle)) fun hpinned kind since hsince => ?_
      cases hpending : (self.found now pinned).pending with
      | none => exact hbetter hpending hpinned kind since hsince
      | some pending =>
        -- while a switch is under way, no carrier has been better
        have hidle : (self.found now pinned).pending.isSome := by rw [hpending]; rfl
        rw [hsame hidle, hfound.idle hidle] at hsince
        cases hsince
    · exact Run.always_concat.mpr ⟨h.apart, apart_of_ne fun _ _ _ _ => nofun⟩
  · rw [heq]
    have hpast := (h.past.mono hnow).look current score (some kind)
    have hapart := Run.always_concat.mpr ⟨h.apart, apart_of_choose hfound hchoose⟩
    cases started with
    | some generation =>
      refine ⟨hpast, nofun, ?_, hapart⟩
      intro window hwindow
      cases hwindow
      exact hfound.switched generation
    | none =>
      refine ⟨hpast.concat fun _ _ _ _ => nofun, nofun, ?_, ?_⟩
      · intro window hwindow
        cases hwindow
        exact hfound.failed' hpending (fun kind' => failures_look kind' _ _ _ _ _) hpast kind false _
      · exact Run.always_concat.mpr ⟨hapart, apart_of_ne fun _ _ _ _ => nofun⟩

/-- A refusal is of the switch under way, or changes nothing. -/
theorem refused_cases (self : Selection) (now generation : ℕ) :
    self.refused now generation = { self with clock := now } ∨
    ∃ w kind, self.window = some w ∧ w.pending = some (generation, kind) ∧
      self.refused now generation = ⟨some (({ w with pending := none } : Window).failed kind now), now,
        self.log ++ [.failed now kind true (w.wait kind)]⟩ := by
  obtain ⟨_ | w, clock, log⟩ := self
  · exact .inl rfl
  obtain ⟨better, lastSwitch, backoff, pinned, _ | ⟨pending, kind⟩⟩ := w
  · exact .inl rfl
  rw [refused]
  simp only
  by_cases hsame : pending = generation
  · subst hsame
    rw [if_pos rfl]
    exact .inr ⟨_, kind, rfl, rfl, rfl⟩
  · rw [if_neg hsame]
    exact .inl rfl

/-- A first picture is of the switch under way, or changes nothing. -/
theorem shown_cases (self : Selection) (generation : ℕ) :
    self.shown generation = self ∨
    ∃ w kind, self.window = some w ∧ w.pending = some (generation, kind) ∧
      self.shown generation
        = { self with window := some { w with pending := none }, log := self.log ++ [.shown kind] } := by
  obtain ⟨_ | w, clock, log⟩ := self
  · exact .inl rfl
  obtain ⟨better, lastSwitch, backoff, pinned, _ | ⟨pending, kind⟩⟩ := w
  · exact .inl rfl
  rw [shown]
  simp only
  by_cases hsame : pending = generation
  · subst hsame
    rw [if_pos rfl]
    exact .inr ⟨_, kind, rfl, rfl, rfl⟩
  · rw [if_neg hsame]
    exact .inl rfl

theorem Inv.refused (h : self.Inv) {now : ℕ} (hnow : self.clock ≤ now) (generation : ℕ) :
    (self.refused now generation).Inv := by
  rcases refused_cases self now generation with heq | ⟨w, kind, hwindow, hpending, heq⟩
  · rw [heq]
    exact ⟨h.past.mono hnow, h.unmet, fun window hwindow => (h.window window hwindow).later hnow, h.apart⟩
  · rw [heq]
    refine ⟨(h.past.mono hnow).concat fun _ _ _ _ => nofun, nofun, ?_, ?_⟩
    · intro window' heq
      cases heq
      exact ((h.window w hwindow).later hnow).settled.failed' rfl (fun _ => rfl) (h.past.mono hnow) kind true _
    · exact Run.always_concat.mpr ⟨h.apart, apart_of_ne fun _ _ _ _ => nofun⟩

theorem Inv.shown (h : self.Inv) (generation : ℕ) : (self.shown generation).Inv := by
  rcases shown_cases self generation with heq | ⟨w, kind, hwindow, hpending, heq⟩
  · rw [heq]
    exact h
  · rw [heq]
    refine ⟨h.past.concat fun _ _ _ _ => nofun, nofun, ?_, ?_⟩
    · intro window' heq
      cases heq
      exact (h.window w hwindow).shown hpending
    · exact Run.always_concat.mpr ⟨h.apart, apart_of_ne fun _ _ _ _ => nofun⟩

/-- The clock did not go back. -/
theorem of_clock {s : Selection} {now : ℕ} (h : (if now < self.clock then none else some s) = some s') :
    self.clock ≤ now ∧ s = s' := by
  split at h
  · cases h
  · rename_i hnow
    exact ⟨Nat.le_of_not_lt hnow, Option.some.inj h⟩

/-- What every step preserves. -/
theorem Inv.step (h : self.Inv) (event : Event) (hstep : self.step event = some s') : s'.Inv := by
  cases event with
  | look now current score pinned started =>
    obtain ⟨hnow, rfl⟩ := of_clock hstep
    exact h.look hnow current score pinned started
  | switchWindow now =>
    obtain ⟨hnow, rfl⟩ := of_clock hstep
    refine ⟨h.past.mono hnow, nofun, ?_, h.apart⟩
    intro window heq
    cases heq
    have hpinned := h.found hnow true
    rw [Selection.found, Bool.or_true] at hpinned
    exact hpinned
  | carrierRefused now generation =>
    obtain ⟨hnow, rfl⟩ := of_clock hstep
    exact h.refused hnow generation
  | carrierShown generation =>
    cases hstep
    exact h.shown generation
  | streamStopped =>
    cases hstep
    refine ⟨h.past.concat fun _ _ _ _ => nofun, fun _ kind => failures_stopped kind _, nofun, ?_⟩
    exact Run.always_concat.mpr ⟨h.apart, apart_of_ne fun _ _ _ _ => nofun⟩

theorem inv_run {events : List Event} (h : events.foldlM step new = some s') : s'.Inv :=
  Run.invariant (I := Inv) (A := fun _ => True) (fun _ event _ hinv _ => hinv.step event) events new s' inv_new
    (fun _ _ => trivial) h

end Selection

/-! ### The wait after failures -/

/-- A switch that is refused after it began is the first to fail since one succeeded. -/
def InTurn (before : List Entry) (entry : Entry) : Prop :=
  ∀ now kind wait, entry = .failed now kind true wait → failures kind before = 0

/-- A failure makes the carrier wait as long as its failures in a row want. -/
def Grown (before : List Entry) (entry : Entry) : Prop :=
  ∀ now kind refused wait, entry = .failed now kind refused wait →
    backoffAfter (failures kind before + 1) ≤ wait

/-- An attempt comes as long after the last failure as the failures in a row want. -/
def Spaced (before : List Entry) (entry : Entry) : Prop :=
  ∀ now current score kind, entry = .look now current score (some kind) → 0 < failures kind before →
    ∃ last, lastFailed kind before = some last ∧ last + backoffAfter (failures kind before) ≤ now

/-- A carrier that failed is being tried, or waits. -/
def Window.Waits (self : Window) (log : List Entry) : Prop :=
  ∀ kind, 0 < failures kind log → ∃ last, lastFailed kind log = some last ∧
    ((∃ generation, self.pending = some (generation, kind)) ∨
      ∃ notBefore, self.backoff kind = some (notBefore, backoffAfter (failures kind log)) ∧
        last + backoffAfter (failures kind log) ≤ notBefore)

theorem turn_concat {log : List Entry} {entry : Entry} (h : Run.Always InTurn log ↔ Run.Always Grown log)
    (hentry : Run.Always InTurn log → (InTurn log entry ↔ Grown log entry)) :
    Run.Always InTurn (log ++ [entry]) ↔ Run.Always Grown (log ++ [entry]) := by
  rw [Run.always_concat, Run.always_concat, ← h]
  exact and_congr_right hentry

/-- Entries that are no failures. -/
theorem turn_of_ne {before : List Entry} {entry : Entry}
    (h : ∀ now kind refused wait, entry ≠ .failed now kind refused wait) :
    InTurn before entry ↔ Grown before entry :=
  iff_of_true (fun now kind wait heq => absurd heq (h now kind true wait))
    fun now kind refused wait heq => absurd heq (h now kind refused wait)

theorem spaced_of_ne {before : List Entry} {entry : Entry}
    (h : ∀ now current score kind, entry ≠ .look now current score (some kind)) : Spaced before entry := by
  intro now current score kind heq
  exact absurd heq (h now current score kind)

namespace Window

variable {self : Window} {clock now : ℕ} {log : List Entry} {kind : BackendKind}

/-- A carrier that is not being tried waits as its failures want. -/
theorem Waits.wait_eq (h : self.Waits log) (hinv : self.Inv clock log) (hpending : self.pending = none) :
    self.wait kind = backoffAfter (failures kind log + 1) := by
  rw [wait]
  rcases Nat.eq_zero_or_pos (failures kind log) with hzero | hpos
  · -- its first failure
    have hnone : self.backoff kind = none := by
      refine Option.eq_none_iff_forall_ne_some.mpr fun entry hentry => ?_
      have hpos := hinv.failed kind entry hentry
      omega
    rw [hnone, Option.elim_none, hzero, Nat.zero_add, backoffAfter_one]
  · obtain ⟨last, -, ⟨generation, hsome⟩ | ⟨notBefore, hbackoff, -⟩⟩ := h kind hpos
    · exact absurd (hpending.symm.trans hsome) nofun
    · rw [hbackoff, Option.elim_some, backoffAfter_succ hpos]

/-- An attempt that fails at once. -/
theorem Waits.failed (h : self.Waits log)
    (hpending : ∀ generation kind', self.pending = some (generation, kind') → kind' = kind) (refused : Bool)
    (hwait : self.wait kind = backoffAfter (failures kind log + 1)) (pending : Option (ℕ × BackendKind)) :
    (({ self with pending := pending } : Window).failed kind now).Waits
      (log ++ [.failed now kind refused (self.wait kind)]) := by
  intro kind' hpos
  rw [failures_failed] at hpos ⊢
  rw [lastFailed_failed]
  by_cases hkind : kind = kind'
  · subst hkind
    rw [if_pos rfl, if_pos rfl, ← hwait]
    refine ⟨now, rfl, .inr ⟨now + self.wait kind, ?_, le_refl _⟩⟩
    exact Function.update_self ..
  · rw [if_neg hkind] at hpos ⊢
    rw [if_neg hkind]
    obtain ⟨last, hlast, ⟨generation, hsome⟩ | ⟨notBefore, hbackoff, hle⟩⟩ := h kind' hpos
    · exact absurd (hpending generation kind' hsome).symm hkind
    · refine ⟨last, hlast, .inr ⟨notBefore, ?_, hle⟩⟩
      exact (Function.update_of_ne (Ne.symm hkind) ..).trans hbackoff

/-- An attempt that the host takes. -/
theorem Waits.switched (h : self.Waits log) (hpending : self.pending = none) (generation : ℕ)
    (current : BackendKind) (score : BackendKind → ℚ) :
    (({ self with pending := some (generation, kind) } : Window).switched kind now).Waits
      (log ++ [.look now current score (some kind)]) := by
  intro kind' hpos
  rw [failures_look] at hpos ⊢
  rw [lastFailed_look]
  obtain ⟨last, hlast, ⟨generation, hsome⟩ | ⟨notBefore, hbackoff, hle⟩⟩ := h kind' hpos
  · exact absurd (hpending.symm.trans hsome) nofun
  · refine ⟨last, hlast, ?_⟩
    by_cases hkind : kind = kind'
    · subst hkind
      exact .inl ⟨generation, rfl⟩
    · refine .inr ⟨notBefore, ?_, hle⟩
      exact (Function.update_of_ne (Ne.symm hkind) ..).trans hbackoff

theorem Waits.shown (h : self.Waits log) {generation : ℕ} (hpending : self.pending = some (generation, kind)) :
    ({ self with pending := none } : Window).Waits (log ++ [.shown kind]) := by
  intro kind' hpos
  rw [failures_shown] at hpos ⊢
  rw [lastFailed_shown]
  by_cases hkind : kind = kind'
  · rw [if_pos hkind] at hpos
    exact absurd hpos (Nat.lt_irrefl 0)
  · rw [if_neg hkind] at hpos ⊢
    obtain ⟨last, hlast, ⟨generation, hsome⟩ | hbackoff⟩ := h kind' hpos
    · rw [hpending] at hsome
      cases hsome
      exact absurd rfl hkind
    · exact ⟨last, hlast, .inr hbackoff⟩

/-- A choice comes after the wait. -/
theorem Waits.spaced (h : self.Waits log) {current : BackendKind} {score : BackendKind → ℚ}
    (hpending : self.pending = none) (hchoose : self.choose score current now = (self, some kind)) :
    Spaced log (.look now current score (some kind)) := by
  obtain ⟨-, -, hready, -⟩ := choose_eq_some hchoose
  intro now' current' score' kind' heq hpos
  cases heq
  obtain ⟨last, hlast, ⟨generation, hsome⟩ | ⟨notBefore, hbackoff, hle⟩⟩ := h kind hpos
  · exact absurd (hpending.symm.trans hsome) nofun
  · rw [ready, hbackoff, Option.elim_some] at hready
    exact ⟨last, hlast, hle.trans (of_decide_eq_true hready)⟩

end Window

namespace Selection

variable {self s' : Selection}

/-- What every step preserves of the waits. -/
structure Backed (s : Selection) : Prop where
  inv : s.Inv
  turn : Run.Always InTurn s.log ↔ Run.Always Grown s.log
  spaced : Run.Always InTurn s.log → Run.Always Spaced s.log
  waits : Run.Always InTurn s.log → ∀ window, s.window = some window → window.Waits s.log

theorem backed_new : new.Backed :=
  ⟨inv_new, iff_of_true Run.always_nil Run.always_nil, fun _ => Run.always_nil, fun _ => nofun⟩

theorem Backed.found (h : self.Backed) (hturn : Run.Always InTurn self.log) (now : ℕ) (pinned : Bool) :
    (self.found now pinned).Waits self.log := by
  intro kind hpos
  rw [Selection.found]
  cases hwindow : self.window with
  | none =>
    rw [h.inv.unmet hwindow kind] at hpos
    exact absurd hpos (Nat.lt_irrefl 0)
  | some window => exact h.waits hturn window hwindow kind hpos

/-- One entry more, that is neither a failure nor an attempt. -/
theorem Backed.quiet (h : self.Backed) {entry : Entry} (hinv : s'.Inv) (hlog : s'.log = self.log ++ [entry])
    (hfailed : ∀ now kind refused wait, entry ≠ .failed now kind refused wait)
    (hlook : ∀ now current score kind, entry ≠ .look now current score (some kind))
    (hwaits : Run.Always InTurn self.log → ∀ window, s'.window = some window → window.Waits s'.log) :
    s'.Backed := by
  refine ⟨hinv, ?_, ?_, ?_⟩
  · rw [hlog]
    exact turn_concat h.turn fun _ => turn_of_ne hfailed
  · rw [hlog]
    intro hturn
    exact Run.always_concat.mpr ⟨h.spaced (Run.always_concat.mp hturn).1, spaced_of_ne hlook⟩
  · intro hturn
    rw [hlog] at hturn
    exact hwaits (Run.always_concat.mp hturn).1

theorem Backed.look (h : self.Backed) {now : ℕ} (hnow : self.clock ≤ now) (current : BackendKind)
    (score : BackendKind → ℚ) (pinned : Bool) (started : Option ℕ) :
    (self.look now current score pinned started).Backed := by
  have hinv := h.inv.look hnow current score pinned started
  have hfound := h.inv.found hnow pinned
  rcases look_cases self now current score pinned started rfl with
    ⟨better, heq, -, -⟩ | ⟨kind, hchoose, hpending, heq⟩
  · rw [heq] at hinv ⊢
    refine h.quiet hinv rfl (fun _ _ _ _ => nofun) (fun _ _ _ _ => nofun) fun hturn window hwindow => ?_
    cases hwindow
    intro kind hpos
    rw [failures_look] at hpos ⊢
    rw [lastFailed_look]
    exact h.found hturn now pinned kind hpos
  · rw [heq] at hinv ⊢
    have hsame : InTurn self.log (.look now current score (some kind)) ↔
        Grown self.log (.look now current score (some kind)) := turn_of_ne fun _ _ _ _ => nofun
    have hturn' := turn_concat h.turn fun _ => hsame
    have hspaced (hturn : Run.Always InTurn self.log) :
        Run.Always Spaced (self.log ++ [.look now current score (some kind)]) :=
      Run.always_concat.mpr ⟨h.spaced hturn, (h.found hturn now pinned).spaced hpending hchoose⟩
    cases started with
    | some generation =>
      refine ⟨hinv, hturn', fun hturn => hspaced (Run.always_concat.mp hturn).1, fun hturn window hwindow => ?_⟩
      cases hwindow
      exact (h.found (Run.always_concat.mp hturn).1 now pinned).switched hpending generation current score
    | none =>
      -- the look leaves the failures as they were
      have hlooked (hturn : Run.Always InTurn self.log) :
          (self.found now pinned).Waits (self.log ++ [.look now current score (some kind)]) ∧
            (self.found now pinned).wait kind
              = backoffAfter (failures kind (self.log ++ [.look now current score (some kind)]) + 1) := by
        have hwaits := h.found hturn now pinned
        refine ⟨fun kind' hpos => ?_, ?_⟩
        · rw [failures_look] at hpos ⊢
          rw [lastFailed_look]
          exact hwaits kind' hpos
        · rw [failures_look]
          exact hwaits.wait_eq hfound hpending
      have hnone : ∀ generation kind', (self.found now pinned).pending = some (generation, kind') → kind' = kind := by
        intro generation kind' hsome
        exact absurd (hpending.symm.trans hsome) nofun
      refine ⟨hinv, turn_concat hturn' fun hturn => ?_, fun hturn => ?_, fun hturn window hwindow => ?_⟩
      · refine iff_of_true (fun _ _ _ => nofun) ?_
        intro now' kind' refused wait heq
        cases heq
        exact (hlooked (Run.always_concat.mp hturn).1).2.ge
      · have hturn := (Run.always_concat.mp (Run.always_concat.mp hturn).1).1
        exact Run.always_concat.mpr ⟨hspaced hturn, spaced_of_ne fun _ _ _ _ => nofun⟩
      · cases hwindow
        obtain ⟨hwaits, hwait⟩ := hlooked (Run.always_concat.mp (Run.always_concat.mp hturn).1).1
        exact hwaits.failed hnone false hwait (self.found now pinned).pending

theorem Backed.refused (h : self.Backed) {now : ℕ} (hnow : self.clock ≤ now) (generation : ℕ) :
    (self.refused now generation).Backed := by
  have hinv := h.inv.refused hnow generation
  rcases refused_cases self now generation with heq | ⟨w, kind, hwindow, hpending, heq⟩
  · rw [heq] at hinv ⊢
    exact ⟨hinv, h.turn, h.spaced, h.waits⟩
  · rw [heq] at hinv ⊢
    -- the backoff of the carrier went when the switch began
    have hwait : w.wait kind = BACKOFF := by
      rw [Window.wait, (h.inv.window w hwindow).tried generation kind hpending]
      rfl
    refine ⟨hinv, turn_concat h.turn fun _ => ?_, fun hturn => ?_, fun hturn window hsome => ?_⟩
    · constructor
      · intro hturn now' kind' refused wait heq
        cases heq
        rw [hturn now kind _ rfl, hwait, Nat.zero_add, backoffAfter_one]
      · intro hgrown now' kind' wait heq
        cases heq
        have hle := hgrown now kind true _ rfl
        rw [hwait] at hle
        refine Nat.eq_zero_of_not_pos fun hpos => ?_
        exact absurd (backoffAfter_lt hpos) (Nat.not_lt.mpr hle)
    · exact Run.always_concat.mpr ⟨h.spaced (Run.always_concat.mp hturn).1, spaced_of_ne fun _ _ _ _ => nofun⟩
    · cases hsome
      obtain ⟨hturn, hlast⟩ := Run.always_concat.mp hturn
      refine (h.waits hturn w hwindow).failed ?_ true ?_ none
      · intro generation' kind' hsome
        rw [hpending] at hsome
        cases hsome
        rfl
      · rw [hlast now kind _ rfl, hwait, Nat.zero_add, backoffAfter_one]

theorem Backed.shown (h : self.Backed) (generation : ℕ) : (self.shown generation).Backed := by
  have hinv := h.inv.shown generation
  rcases shown_cases self generation with heq | ⟨w, kind, hwindow, hpending, heq⟩
  · rw [heq]
    exact h
  · rw [heq] at hinv ⊢
    refine h.quiet hinv rfl (fun _ _ _ _ => nofun) (fun _ _ _ _ => nofun) fun hturn window hsome => ?_
    cases hsome
    exact (h.waits hturn w hwindow).shown hpending

theorem Backed.step (h : self.Backed) (event : Event) (hstep : self.step event = some s') : s'.Backed := by
  have hinv := h.inv.step event hstep
  cases event with
  | look now current score pinned started =>
    obtain ⟨hnow, rfl⟩ := of_clock hstep
    exact h.look hnow current score pinned started
  | switchWindow now =>
    obtain ⟨hnow, rfl⟩ := of_clock hstep
    refine ⟨hinv, h.turn, h.spaced, fun hturn window hsome => ?_⟩
    cases hsome
    have hfound := h.found hturn now true
    rw [Selection.found, Bool.or_true] at hfound
    exact hfound
  | carrierRefused now generation =>
    obtain ⟨hnow, rfl⟩ := of_clock hstep
    exact h.refused hnow generation
  | carrierShown generation =>
    cases hstep
    exact h.shown generation
  | streamStopped =>
    cases hstep
    exact h.quiet hinv rfl (fun _ _ _ _ => nofun) (fun _ _ _ _ => nofun) fun _ => nofun

theorem backed_run {events : List Event} (h : events.foldlM step new = some s') : s'.Backed :=
  Run.invariant (I := Backed) (A := fun _ => True) (fun _ event _ hbacked _ => hbacked.step event) events new s'
    backed_new (fun _ _ => trivial) h

end Selection

/-- Whoever waits in one waits in the other, and at least as long. -/
def Window.Keeps (self w : Window) : Prop :=
  ∀ kind notBefore wait, self.backoff kind = some (notBefore, wait) →
    ∃ notBefore' wait', w.backoff kind = some (notBefore', wait') ∧ notBefore ≤ notBefore' ∧ wait ≤ wait'

/-- A failure clears no earlier backoff. -/
theorem Window.Inv.keeps {w : Window} {clock now : ℕ} {log : List Entry} (h : w.Inv clock log)
    (hnow : clock ≤ now) (kind : BackendKind) : w.Keeps (w.failed kind now) := by
  intro kind' notBefore wait hbackoff
  by_cases hkind : kind' = kind
  · subst hkind
    refine ⟨now + w.wait kind', w.wait kind', Function.update_self .., ?_⟩
    obtain ⟨hle, hmax⟩ := h.bounded kind' notBefore wait hbackoff
    have hwait : wait ≤ w.wait kind' := by
      rw [Window.wait, hbackoff, Option.elim_some]
      exact Nat.le_min.mpr ⟨by omega, hmax⟩
    omega
  · exact ⟨notBefore, wait, (Function.update_of_ne hkind ..).trans hbackoff, le_refl _, le_refl _⟩

namespace Selection

/-- **The wait after failures.**  Each failure in a row makes the carrier wait as long as
it should if and only if no switch is refused after it began while failures of its carrier
stand; then no attempt comes before the wait is over.  A failure clears no backoff. -/
theorem backs_off (events : List Event) (s : Selection) (h : events.foldlM step new = some s) :
    (Run.Always InTurn s.log ↔ Run.Always Grown s.log) ∧
    (Run.Always InTurn s.log → Run.Always Spaced s.log) ∧
    ∀ window kind now, s.window = some window → s.clock ≤ now → window.Keeps (window.failed kind now) := by
  have hbacked := backed_run h
  refine ⟨hbacked.turn, hbacked.spaced, fun window kind now hwindow hnow => ?_⟩
  exact (hbacked.inv.window window hwindow).keeps hnow kind

/-- RDP suits the window, and nothing else does. -/
def suitsRdp (kind : BackendKind) : ℚ := if kind = .rdp then 1 else 0

/-- A look at a window that RDP would suit. -/
def lookAt (seconds : ℕ) (started : Option ℕ) : Event :=
  .look (seconds * SECOND) .native suitsRdp false started

/-- Such a look in the log. -/
def seen (seconds : ℕ) (attempt : Option BackendKind) : Entry :=
  .look (seconds * SECOND) .native suitsRdp attempt

/-- Two attempts that fail at once, and one after the wait. -/
def failedTwice : List Event :=
  [lookAt 0 none, lookAt 15 none, lookAt 45 none, lookAt 48 none, lookAt 108 (some 1), lookAt 111 (some 1)]

theorem backs_off_failedTwice : ∃ s, failedTwice.foldlM step new = some s ∧
    seen 111 (some .rdp) ∈ s.log ∧ Run.Always Spaced s.log := by
  obtain ⟨s, hrun, hlog⟩ : ∃ s, failedTwice.foldlM step new = some s ∧
      s.log = [seen 0 none, seen 15 (some .rdp), .failed (15 * SECOND) .rdp false BACKOFF, seen 45 none,
        seen 48 (some .rdp), .failed (48 * SECOND) .rdp false (2 * BACKOFF), seen 108 none,
        seen 111 (some .rdp)] := by
    refine ⟨_, by with_unfolding_all rfl, ?_⟩
    with_unfolding_all rfl
  refine ⟨s, hrun, by rw [hlog]; simp, (backs_off failedTwice s hrun).2.1 ?_⟩
  -- no switch was refused after it began
  have hnil : Run.Always InTurn [] := Run.always_nil
  rw [hlog]
  refine Run.always_append_of_forall hnil ?_
  simp only [List.forall_mem_cons, seen]
  exact ⟨fun _ => nofun, fun _ => nofun, fun _ => nofun, fun _ => nofun, fun _ => nofun, fun _ => nofun,
    fun _ => nofun, fun _ => nofun, nofun⟩

/-- Two switches to RDP that are refused after they began, and the attempt after them. -/
def refusedTwice : List Event :=
  [lookAt 0 none, lookAt 15 (some 1), .carrierRefused (16 * SECOND) 1, lookAt 46 none, lookAt 49 (some 2),
    .carrierRefused (50 * SECOND) 2, lookAt 80 none, lookAt 83 (some 3)]

/-- What happens then, before the last look. -/
def refusedTwiceLog : List Entry :=
  [seen 0 none, seen 15 (some .rdp), .failed (16 * SECOND) .rdp true BACKOFF, seen 46 none,
    seen 49 (some .rdp), .failed (50 * SECOND) .rdp true BACKOFF, seen 80 none]

theorem refusedTwice_log : ∃ s, refusedTwice.foldlM step new = some s ∧
    s.log = refusedTwiceLog ++ [seen 83 (some .rdp)] := by
  refine ⟨_, by with_unfolding_all rfl, ?_⟩
  with_unfolding_all rfl

/-- The third attempt comes 33 seconds after the second refusal, not a minute. -/
theorem retried_too_soon :
    ¬ ∀ (events : List Event) (s : Selection), events.foldlM step new = some s →
      Run.Always Spaced s.log := by
  intro h
  obtain ⟨s, hrun, hlog⟩ := refusedTwice_log
  obtain ⟨last, hlast, hle⟩ := h refusedTwice s hrun refusedTwiceLog _ [] hlog _ _ _ _ rfl (by decide)
  cases hlast
  exact absurd hle (by decide)

/-- **Apart and after the dwell.**  Of a window's attempts, each comes long enough after
those before it, and only after its carrier scored better at every look for the dwell. -/
theorem does_not_flap (events : List Event) (s : Selection) (h : events.foldlM step new = some s) :
    Run.Always Apart s.log := (inv_run h).apart

theorem does_not_flap_refusedTwice : ∃ s, refusedTwice.foldlM step new = some s ∧
    seen 83 (some .rdp) ∈ s.log ∧ Run.Always Apart s.log := by
  obtain ⟨s, hrun, hlog⟩ := refusedTwice_log
  exact ⟨s, hrun, by rw [hlog]; simp, does_not_flap refusedTwice s hrun⟩

end Selection

end Selector

end WindowCast.Client
