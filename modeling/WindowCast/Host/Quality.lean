import WindowCast.Lib.Run

/-!
# The quality of a stream

The controller of `host-core/src/quality.rs`: from what was sent, what was lost and how
long the way is, it decides the rate, the frame rate and the scale of a stream, within the
client's limits.  Rationals stand for the floats, and natural numbers of nanoseconds for
instants and durations.

## Main definitions

* `Controller`, `Controller.observe` — the controller and one step of its loop.
* `Adapting` — the controller, and what it returned under which limits.
* `Entry.Within` — what was returned respects the limits.
* `Entry.Meetable` — the floors of the frame rate and the scale leave the limits alone.

## Main results

* `Controller.observe_spec` — an observation has a result, and its rate is within the cap.
* `Adapting.within_limits_iff` — **the limits are respected exactly where they are meetable.**
-/

namespace WindowCast.Host

namespace Adaptive

def U32_MAX : ℕ := 2 ^ 32 - 1

/-- Rounded, and kept in 32 bits. -/
def roundU32 (x : ℚ) : ℕ := min ⌊x + 1 / 2⌋.toNat U32_MAX

/-- Above this fraction of packets lost the target is cut. -/
def LOSS_HIGH : ℚ := 1 / 10

/-- Below this the network counts as clean. -/
def LOSS_LOW : ℚ := 2 / 100

/-- The target is cut to this share of what went out. -/
def CUT : ℚ := 7 / 10

def MILLISECOND : ℕ := 1000000

/-- A round trip this much above the best of the last `RTT_WINDOW` cuts by `CUT_DELAY` instead. -/
def RTT_SLACK : ℕ := 80 * MILLISECOND

def CUT_DELAY : ℚ := 85 / 100

def RTT_WINDOW : ℕ := 30000 * MILLISECOND

/-- Growth per clean report. -/
def GROW : ℚ := 108 / 100

/-- Growth needs at least this share of the target sent. -/
def FILLED : ℚ := 4 / 10

/-- The target is let go once it is this far above the unheld rate. -/
def RELEASE : ℚ := 125 / 100

/-- The lowest target: a picture still moves at this. -/
def FLOOR_BPS : ℕ := 150000

/-- Bits per pixel per frame below which the picture is too thin. -/
def THIN : ℚ := 4 / 100

/-- Above this, at the next step up, it steps back up. -/
def ROOMY : ℚ := 9 / 100

def STEP_DOWN_AFTER : ℕ := 3000 * MILLISECOND

def STEP_UP_AFTER : ℕ := 10000 * MILLISECOND

/-- At most one cut per round of reports. -/
def CUT_AFTER : ℕ := 900 * MILLISECOND

/-- Frame rate and scale, from the best down. -/
def STEPS : List (ℕ × ℚ) :=
  [(U32_MAX, 1), (30, 1), (30, 3 / 4), (30, 1 / 2), (20, 1 / 2), (15, 1 / 2)]

/-- A client's ceilings for one stream, each `none` for no limit. -/
structure StreamLimits where
  maxBitrateKbps : Option ℕ
  maxFps : Option ℕ
  maxHeight : Option ℕ
  deriving DecidableEq, Repr

/-- What a stream's encoder is held to.  `none` leaves the agent's own settings in force. -/
structure Quality where
  bitrate : Option ℕ
  fps : Option ℕ
  scale : ℚ
  deriving DecidableEq

/-- What the controller decides from. -/
structure Observation where
  sentBps : ℕ
  /-- The window's own size. -/
  window : ℕ × ℕ
  /-- The agent's frame rate setting. -/
  hostFps : ℕ
  loss : Option ℚ
  rtt : Option ℕ
  deriving DecidableEq

structure Controller where
  limits : StreamLimits
  target : Option ℕ
  step : ℕ
  rtts : List (ℕ × ℕ)
  thinSince : Option ℕ
  roomySince : Option ℕ
  lastCut : Option ℕ
  /-- What the stream sends while nothing holds it, smoothed. -/
  unheldBps : Option ℚ

namespace Controller

def new (limits : StreamLimits) : Controller := ⟨limits, none, 0, [], none, none, none, none⟩

def setLimits (self : Controller) (limits : StreamLimits) : Controller := { self with limits := limits }

def capBps (self : Controller) : Option ℕ := self.limits.maxBitrateKbps.map fun k => min (k * 1000) U32_MAX

/-- The best round trip of the last half minute, with `rtt` added. -/
def baseline (self : Controller) (now rtt : ℕ) : Controller × ℕ :=
  let rtts := (self.rtts ++ [(now, rtt)]).dropWhile fun entry => RTT_WINDOW < now - entry.1
  ({ self with rtts := rtts }, (rtts.map Prod.snd).min?.getD rtt)

/-- Whether the round trip is well above the best. -/
def delayed (self : Controller) (now : ℕ) (seen : Observation) : Controller × Bool :=
  match seen.rtt with
  | none => (self, false)
  | some rtt =>
    let (self, best) := self.baseline now rtt
    (self, decide (best + RTT_SLACK < rtt))

/-- Follows what the stream sends while nothing holds it. -/
def watch (self : Controller) (seen : Observation) : Controller :=
  match self.target with
  | some _ => self
  | none =>
    { self with
      unheldBps := some (self.unheldBps.elim (seen.sentBps : ℚ) fun b => 7 / 10 * b + 3 / 10 * seen.sentBps) }

/-- Whether a cut may come: at most one per round of reports. -/
def mayCut (self : Controller) (now : ℕ) : Bool :=
  self.lastCut.elim true fun at' => decide (CUT_AFTER ≤ now - at')

/-- Grows only while the encoder fills a fair share of what it is given; lets go past the
unheld rate. -/
def grow (self : Controller) (seen : Observation) (delayed : Bool) : Controller :=
  match self.target, seen.loss with
  | some target, some loss =>
    if loss < LOSS_LOW ∧ !delayed ∧ FILLED * target < seen.sentBps then
      let grown : ℚ := target * GROW
      { self with
        target := match self.unheldBps with
          | some unheld => if unheld * RELEASE ≤ grown then none else some (roundU32 grown)
          | none => some (roundU32 grown) }
    else self
  | _, _ => self

/-- The target is cut or grows. -/
def adapt (self : Controller) (now : ℕ) (seen : Observation) (lossy delayed : Bool) : Controller :=
  if (lossy || delayed) && self.mayCut now then
    let sent := max seen.sentBps FLOOR_BPS
    let share := if lossy then CUT else CUT_DELAY
    let before := self.target.elim sent fun t => min t sent
    { self with target := some (max (roundU32 (before * share)) FLOOR_BPS), lastCut := some now }
  else self.grow seen delayed

/-- The target is kept under the client's. -/
def capped (self : Controller) : Controller :=
  match self.target, self.capBps with
  | some target, some cap => { self with target := some (min target cap) }
  | _, _ => self

/-- The frame rate and scale of `step`, within the limits; there is none outside `STEPS`. -/
def stepAt (self : Controller) (step hostFps : ℕ) : Option (ℕ × ℚ) :=
  STEPS[step]?.map fun entry =>
    (max (min (min entry.1 hostFps) (self.limits.maxFps.getD U32_MAX)) 1, entry.2)

/-- The bits that each pixel gets at a step. -/
def bpp (self : Controller) (budget : ℕ) (seen : Observation) (step : ℕ) : Option ℚ :=
  (self.stepAt step seen.hostFps).map fun entry =>
    let pixels : ℚ := seen.window.1 * seen.window.2 * entry.2 * entry.2
    budget / max (pixels * entry.1) 1

/-- A step down once it has been thin for a while. -/
def thin (self : Controller) (now : ℕ) : Controller :=
  let since := self.thinSince.getD now
  if STEP_DOWN_AFTER ≤ now - since then
    { self with roomySince := none, step := self.step + 1, thinSince := none }
  else { self with roomySince := none, thinSince := some since }

/-- A step up once it has been roomy for a while. -/
def roomy (self : Controller) (now : ℕ) : Controller :=
  let since := self.roomySince.getD now
  if STEP_UP_AFTER ≤ now - since then
    { self with thinSince := none, step := self.step - 1, roomySince := none }
  else { self with thinSince := none, roomySince := some since }

/-- Frame rate and size, by how many bits each pixel gets. -/
def restep (self : Controller) (now : ℕ) (seen : Observation) (lossy delayed : Bool) : Option Controller :=
  match self.target.or self.capBps with
  | none => some { self with step := 0 }
  | some budget =>
    (self.bpp budget seen self.step).bind fun here =>
      if here < THIN ∧ self.step + 1 < STEPS.length then some (self.thin now)
      else
        let above := if self.step = 0 then some 0 else self.bpp budget seen (self.step - 1)
        above.map fun above =>
          if 0 < self.step ∧ ROOMY < above ∧ !lossy ∧ !delayed then self.roomy now
          else { self with thinSince := none, roomySince := none }

/-- The quality now, with the client's height limit applied. -/
def quality (self : Controller) (hostFps : ℕ) (window : ℕ × ℕ) : Option Quality :=
  (self.stepAt self.step hostFps).map fun entry =>
    let scale : ℚ := match self.limits.maxHeight with
      | none => entry.2
      | some maxHeight => if 0 < window.2 then min entry.2 (maxHeight / window.2) else entry.2
    { bitrate := self.target.or self.capBps
      fps := if entry.1 < hostFps then some entry.1 else none
      scale := max (1 / 10) (min scale 1) }

/-- One step of the loop, about once a second. -/
def observe (self : Controller) (now : ℕ) (seen : Observation) : Option (Controller × Quality) :=
  let (self, delayed) := self.delayed now seen
  let lossy := seen.loss.any fun loss => LOSS_HIGH < loss
  let self := ((self.watch seen).adapt now seen lossy delayed).capped
  (self.restep now seen lossy delayed).bind fun self =>
    (self.quality seen.hostFps seen.window).map fun quality => (self, quality)

end Controller

/-- What the controller returned, under which limits. -/
structure Entry where
  limits : StreamLimits
  seen : Observation
  quality : Quality
  deriving DecidableEq

/-- The controller of a stream, and what it returned so far. -/
structure Adapting where
  controller : Controller
  log : List Entry

inductive Event
  | observe (now : ℕ) (seen : Observation)
  | setLimits (limits : StreamLimits)

namespace Adapting

def new (limits : StreamLimits) : Adapting := ⟨.new limits, []⟩

def step (self : Adapting) : Event → Option Adapting
  | .observe now seen =>
    (self.controller.observe now seen).map fun r =>
      ⟨r.1, self.log ++ [⟨self.controller.limits, seen, r.2⟩]⟩
  | .setLimits limits => some { self with controller := self.controller.setLimits limits }

end Adapting

/-! ### What an observation leaves -/

namespace Controller

variable {self c : Controller} {now hostFps step : ℕ} {seen : Observation} {lossy delayed : Bool}

/-- Every step has its frame rate and its scale. -/
theorem exists_stepAt (self : Controller) (hostFps : ℕ) (h : step < STEPS.length) :
    ∃ fps scale, self.stepAt step hostFps
      = some (max (min (min fps hostFps) (self.limits.maxFps.getD U32_MAX)) 1, scale) :=
  ⟨STEPS[step].1, STEPS[step].2, by rw [stepAt, List.getElem?_eq_getElem h, Option.map_some]⟩

theorem exists_bpp (self : Controller) (budget : ℕ) (seen : Observation) (h : step < STEPS.length) :
    ∃ b, self.bpp budget seen step = some b := by
  obtain ⟨fps, scale, hstep⟩ := self.exists_stepAt seen.hostFps h
  exact ⟨_, by rw [bpp, hstep, Option.map_some]⟩

/-- Nothing but the step and its timers changes. -/
structure Resteps (before after : Controller) : Prop where
  limits : after.limits = before.limits
  target : after.target = before.target
  step : after.step < STEPS.length

theorem resteps_thin (self : Controller) (now : ℕ) (h : self.step + 1 < STEPS.length) : self.Resteps (self.thin now) := by
  rw [thin]
  split
  · exact ⟨rfl, rfl, h⟩
  · exact ⟨rfl, rfl, Nat.lt_of_succ_lt h⟩

theorem resteps_roomy (self : Controller) (now : ℕ) (h : self.step < STEPS.length) : self.Resteps (self.roomy now) := by
  rw [roomy]
  split
  · exact ⟨rfl, rfl, lt_of_le_of_lt (Nat.sub_le _ _) h⟩
  · exact ⟨rfl, rfl, h⟩

/-- The step changes within `STEPS`. -/
theorem restep_spec (self : Controller) (now : ℕ) (seen : Observation) (lossy delayed : Bool)
    (h : self.step < STEPS.length) : ∃ c, self.restep now seen lossy delayed = some c ∧ self.Resteps c := by
  rw [restep]
  cases self.target.or self.capBps with
  | none => exact ⟨_, rfl, rfl, rfl, (by decide : 0 < STEPS.length)⟩
  | some budget =>
    obtain ⟨here, hhere⟩ := self.exists_bpp budget seen h
    simp only [hhere, Option.bind_some]
    by_cases hthin : here < THIN ∧ self.step + 1 < STEPS.length
    · rw [if_pos hthin]
      exact ⟨_, rfl, self.resteps_thin now hthin.2⟩
    · rw [if_neg hthin]
      obtain ⟨above, habove⟩ : ∃ above,
          (if self.step = 0 then some 0 else self.bpp budget seen (self.step - 1)) = some above := by
        split
        · exact ⟨0, rfl⟩
        · exact self.exists_bpp budget seen (lt_of_le_of_lt (Nat.sub_le _ _) h)
      rw [habove, Option.map_some]
      refine ⟨_, rfl, ?_⟩
      split
      · exact self.resteps_roomy now h
      · exact ⟨rfl, rfl, h⟩

/-- The round trip, the rate and the cuts leave limits and step alone. -/
theorem adapted_eq (self : Controller) (now : ℕ) (seen : Observation) (lossy : Bool) :
    let r := self.delayed now seen
    let c := ((r.1.watch seen).adapt now seen lossy r.2).capped
    c.limits = self.limits ∧ c.step = self.step := by
  have hdelayed : (self.delayed now seen).1.limits = self.limits ∧ (self.delayed now seen).1.step = self.step := by
    rw [Controller.delayed]
    cases seen.rtt <;> exact ⟨rfl, rfl⟩
  have hwatch (c : Controller) : (c.watch seen).limits = c.limits ∧ (c.watch seen).step = c.step := by
    rw [watch]
    cases c.target <;> exact ⟨rfl, rfl⟩
  have hgrow (c : Controller) (delayed : Bool) :
      (c.grow seen delayed).limits = c.limits ∧ (c.grow seen delayed).step = c.step := by
    rw [grow]
    cases c.target <;> cases seen.loss <;> try exact ⟨rfl, rfl⟩
    simp only
    split <;> exact ⟨rfl, rfl⟩
  have hadapt (c : Controller) (delayed : Bool) :
      (c.adapt now seen lossy delayed).limits = c.limits ∧ (c.adapt now seen lossy delayed).step = c.step := by
    rw [adapt]
    split
    · exact ⟨rfl, rfl⟩
    · exact hgrow c delayed
  have hcapped (c : Controller) : c.capped.limits = c.limits ∧ c.capped.step = c.step := by
    rw [capped]
    cases c.target <;> cases c.capBps <;> exact ⟨rfl, rfl⟩
  intro r c
  obtain ⟨hlimits, hstep⟩ := hcapped ((r.1.watch seen).adapt now seen lossy r.2)
  obtain ⟨hlimits', hstep'⟩ := hadapt (r.1.watch seen) r.2
  obtain ⟨hlimits'', hstep''⟩ := hwatch r.1
  exact ⟨hlimits.trans (hlimits'.trans (hlimits''.trans hdelayed.1)),
    hstep.trans (hstep'.trans (hstep''.trans hdelayed.2))⟩

/-- A target is under the cap. -/
def Capped (self : Controller) : Prop :=
  ∀ target cap, self.target = some target → self.capBps = some cap → target ≤ cap

theorem capped_capped (self : Controller) : self.capped.Capped := by
  intro target cap htarget hcap
  cases ht : self.target with
  | none =>
    rw [capped, ht] at htarget
    simp only [ht] at htarget
    cases htarget
  | some t =>
    cases hc : self.capBps with
    | none =>
      rw [capped, ht, hc] at hcap
      simp only [hc] at hcap
      cases hcap
    | some c =>
      rw [capped, ht, hc] at htarget hcap
      simp only [capBps] at htarget hcap hc
      rw [hc] at hcap
      cases htarget
      cases hcap
      exact Nat.min_le_right _ _

/-- An observation has a result, and leaves the step within `STEPS`. -/
theorem observe_spec (self : Controller) (now : ℕ) (seen : Observation) (h : self.step < STEPS.length) :
    ∃ c q, self.observe now seen = some (c, q) ∧ c.quality seen.hostFps seen.window = some q ∧
      c.limits = self.limits ∧ c.step < STEPS.length ∧ c.Capped := by
  let r := self.delayed now seen
  let lossy := seen.loss.any fun loss => LOSS_HIGH < loss
  let c := ((r.1.watch seen).adapt now seen lossy r.2).capped
  obtain ⟨hlimits, hstep⟩ := self.adapted_eq now seen lossy
  obtain ⟨c', hrestep, hsame⟩ := c.restep_spec now seen lossy r.2 (by rw [hstep]; exact h)
  obtain ⟨fps, scale, hstepAt⟩ := c'.exists_stepAt seen.hostFps hsame.step
  obtain ⟨q, hq⟩ : ∃ q, c'.quality seen.hostFps seen.window = some q :=
    ⟨_, by rw [quality, hstepAt, Option.map_some]⟩
  refine ⟨c', q, ?_, hq, hsame.limits.trans hlimits, hsame.step, ?_⟩
  · change ((c.restep now seen lossy r.2).bind fun self =>
      (self.quality seen.hostFps seen.window).map fun quality => (self, quality)) = some (c', q)
    rw [hrestep, Option.bind_some, hq, Option.map_some]
  · intro target cap htarget hcap
    refine capped_capped ((r.1.watch seen).adapt now seen lossy r.2) target cap (hsame.target ▸ htarget) ?_
    rw [capBps, hsame.limits] at hcap
    exact hcap

end Controller

/-! ### The limits -/

/-- What was returned respects the client's limits.  Where the frame rate is left to the
agent, the agent's own counts. -/
structure Entry.Within (entry : Entry) : Prop where
  bitrate : ∀ k, entry.limits.maxBitrateKbps = some k → ∃ b, entry.quality.bitrate = some b ∧ b ≤ k * 1000
  fps : ∀ fps, entry.limits.maxFps = some fps → entry.quality.fps.getD entry.seen.hostFps ≤ fps
  height : ∀ h, entry.limits.maxHeight = some h → entry.quality.scale * entry.seen.window.2 ≤ h

/-- The limits that the floors leave alone: the client asks for at least one frame a second
of an agent that sends any, and for at least a tenth of the window's height. -/
structure Entry.Meetable (entry : Entry) : Prop where
  fps : entry.limits.maxFps = some 0 → entry.seen.hostFps = 0
  height : ∀ h, entry.limits.maxHeight = some h → entry.seen.window.2 ≤ 10 * h

/-- A frame rate with a floor of one, under a limit. -/
theorem fps_within_iff (fps hostFps limit : ℕ) :
    let fps := max (min (min fps hostFps) limit) 1
    (if fps < hostFps then some fps else none).getD hostFps ≤ limit ↔ (limit = 0 → hostFps = 0) := by
  intro fps'
  by_cases hless : fps' < hostFps
  · rw [if_pos hless, Option.getD_some]
    omega
  · rw [if_neg hless, Option.getD_none]
    omega

/-- A scale with a floor of a tenth, under a height. -/
theorem height_within_iff (scale : ℚ) (height maxHeight : ℕ) :
    max (1 / 10) (min (if 0 < height then min scale (maxHeight / height) else scale) 1) * height
      ≤ (maxHeight : ℚ) ↔ height ≤ 10 * maxHeight := by
  rcases Nat.eq_zero_or_pos height with rfl | hpos
  · simp
  · have hheight : (0 : ℚ) < height := Nat.cast_pos.mpr hpos
    rw [if_pos hpos, ← le_div_iff₀ hheight, max_le_iff]
    have hmin : min (min scale (maxHeight / height)) 1 ≤ (maxHeight : ℚ) / height :=
      (min_le_left _ _).trans (min_le_right _ _)
    rw [and_iff_left hmin, div_le_div_iff₀ (by norm_num) hheight, one_mul]
    constructor
    · intro h
      have hcast : (height : ℚ) ≤ ((10 * maxHeight : ℕ) : ℚ) := by push_cast; linarith
      exact_mod_cast hcast
    · intro h
      have hcast : (height : ℚ) ≤ ((10 * maxHeight : ℕ) : ℚ) := by exact_mod_cast h
      push_cast at hcast
      linarith

/-- What a controller returns whose target is under the cap. -/
theorem Controller.quality_within {c : Controller} (hstep : c.step < STEPS.length) (hcapped : c.Capped)
    {seen : Observation} {q : Quality} (h : c.quality seen.hostFps seen.window = some q) :
    (∀ k, c.limits.maxBitrateKbps = some k → ∃ b, q.bitrate = some b ∧ b ≤ k * 1000) ∧
    ((Entry.mk c.limits seen q).Within ↔ (Entry.mk c.limits seen q).Meetable) := by
  obtain ⟨fps, scale, hstepAt⟩ := c.exists_stepAt seen.hostFps hstep
  rw [quality, hstepAt, Option.map_some, Option.some.injEq] at h
  subst h
  have hbitrate : ∀ k, c.limits.maxBitrateKbps = some k →
      ∃ b, c.target.or c.capBps = some b ∧ b ≤ k * 1000 := by
    intro k hk
    have hcap : c.capBps = some (min (k * 1000) U32_MAX) := by rw [capBps, hk, Option.map_some]
    cases htarget : c.target with
    | none => exact ⟨_, by rw [Option.none_or, hcap], Nat.min_le_left _ _⟩
    | some target =>
      exact ⟨target, rfl, (hcapped target _ htarget hcap).trans (Nat.min_le_left _ _)⟩
  refine ⟨hbitrate, ?_⟩
  constructor
  · intro h
    constructor
    · intro (hzero : c.limits.maxFps = some 0)
      have hfps := h.fps 0 hzero
      simp only [hzero, Option.getD_some] at hfps
      exact (fps_within_iff fps seen.hostFps 0).mp hfps rfl
    · intro maxHeight (hmax : c.limits.maxHeight = some maxHeight)
      have hheight := h.height maxHeight hmax
      simp only [hmax] at hheight
      exact (height_within_iff scale seen.window.2 maxHeight).mp hheight
  · intro h
    refine ⟨hbitrate, ?_, ?_⟩
    · intro limit (hlimit : c.limits.maxFps = some limit)
      simp only [hlimit, Option.getD_some]
      refine (fps_within_iff fps seen.hostFps limit).mpr fun hzero => h.fps ?_
      exact hlimit.trans (congrArg some hzero)
    · intro maxHeight (hmax : c.limits.maxHeight = some maxHeight)
      simp only [hmax]
      exact (height_within_iff scale seen.window.2 maxHeight).mpr (h.height maxHeight hmax)

namespace Adapting

/-- What every step preserves. -/
structure Inv (s : Adapting) : Prop where
  step : s.controller.step < STEPS.length
  bitrate : ∀ entry ∈ s.log, ∀ k, entry.limits.maxBitrateKbps = some k →
    ∃ b, entry.quality.bitrate = some b ∧ b ≤ k * 1000
  within : ∀ entry ∈ s.log, entry.Within ↔ entry.Meetable

theorem inv_new (limits : StreamLimits) : (new limits).Inv :=
  ⟨(by decide : 0 < STEPS.length), fun _ hentry => absurd hentry List.not_mem_nil,
    fun _ hentry => absurd hentry List.not_mem_nil⟩

/-- A step does not fail, and keeps what held. -/
theorem Inv.next {self : Adapting} (h : self.Inv) (event : Event) : ∃ s', self.step event = some s' ∧ s'.Inv := by
  cases event with
  | setLimits limits => exact ⟨_, rfl, h.step, h.bitrate, h.within⟩
  | observe now seen =>
    obtain ⟨c, q, hobserve, hquality, hlimits, hstep, hcapped⟩ := self.controller.observe_spec now seen h.step
    obtain ⟨hbitrate, hwithin⟩ := Controller.quality_within hstep hcapped hquality
    rw [hlimits] at hbitrate hwithin
    refine ⟨_, by rw [Adapting.step, hobserve, Option.map_some], hstep, ?_, ?_⟩
    · intro entry hmem
      rcases List.mem_append.mp hmem with hmem | hmem
      · exact h.bitrate entry hmem
      · rw [List.mem_singleton.mp hmem]
        exact hbitrate
    · intro entry hmem
      rcases List.mem_append.mp hmem with hmem | hmem
      · exact h.within entry hmem
      · rw [List.mem_singleton.mp hmem]
        exact hwithin

/-- **The client's limits.**  Every run has its results, the step stays within `STEPS`, the
bitrate within its cap, and whatever is returned respects the limits if and only if they
are meetable. -/
theorem within_limits_iff (limits : StreamLimits) (events : List Event) :
    ∃ s, events.foldlM step (new limits) = some s ∧ s.controller.step < STEPS.length ∧
      ∀ entry ∈ s.log,
        (∀ k, entry.limits.maxBitrateKbps = some k → ∃ b, entry.quality.bitrate = some b ∧ b ≤ k * 1000) ∧
        (entry.Within ↔ entry.Meetable) := by
  obtain ⟨s, hrun, hinv⟩ := Run.total (I := Inv) (A := fun _ => True) (fun s event hs _ => hs.next event) events
    (new limits) (inv_new limits) fun _ _ => trivial
  exact ⟨s, hrun, hinv.step, fun entry hmem => ⟨hinv.bitrate entry hmem, hinv.within entry hmem⟩⟩

/-- A window of a thousand lines, of which a client wants fifty. -/
def tallWindow : Observation := ⟨1000000, (1000, 1000), 60, none, none⟩

/-- The window is sent with a hundred lines. -/
theorem floor_above_limit :
    ¬ ∀ (limits : StreamLimits) (events : List Event) (s : Adapting),
      events.foldlM step (new limits) = some s → ∀ entry ∈ s.log, entry.Within := by
  intro h
  obtain ⟨s, hrun, hlog⟩ : ∃ s, [Event.observe 0 tallWindow].foldlM step (new ⟨none, none, some 50⟩) = some s ∧
      s.log = [⟨⟨none, none, some 50⟩, tallWindow, ⟨none, none, 1 / 10⟩⟩] := by
    refine ⟨_, by with_unfolding_all rfl, ?_⟩
    with_unfolding_all rfl
  have hheight := (h _ _ s hrun _ (hlog ▸ List.mem_singleton_self _)).height 50 rfl
  norm_num [tallWindow] at hheight

end Adapting

end Adaptive

end WindowCast.Host
