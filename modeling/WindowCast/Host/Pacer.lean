import WindowCast.Lib.Run

/-!
# The pace of a source

The pacer of `host-core/src/video.rs`: it is waited on until the next item is due, and told
that an item was taken; the next one is due an interval after this one was, unless that is
long over.  Natural numbers of nanoseconds stand for instants and durations.

## Main definitions

* `Pacer`, `Pacer.tickAt` — the pacer, and what it is told.
* `Source`, `Source.step` — a pacer, the clock, and the items taken so far.
* `Item.During` — an item that was released and taken in a span of time.

## Main results

* `Pacer.tickAt_spec` — the next item is due an interval later at least, and not long ago.
* `paced` — **items are due an interval apart, and no span of time has more of them than its
  length and the debt a source may pay back make room for.**
-/

namespace WindowCast.Host

namespace Pacing

/-! ### The pacer -/

structure Pacer where
  due : ℕ

namespace Pacer

/-- How far behind a source may be and still deliver late items back to back. -/
def CATCH_UP : ℕ := 250 * 10 ^ 6

/-- Due now: the first item is not waited for. -/
def new (now : ℕ) : Pacer := ⟨now⟩

/-- How long is slept until the next item is due. -/
def wait (p : Pacer) (now : ℕ) : ℕ := p.due - now

/-- An item was taken; the next is due `interval` after this one was. -/
def tickAt (p : Pacer) (now interval : ℕ) : Pacer :=
  let next := p.due + interval
  ⟨if now - next > CATCH_UP then now else next⟩

/-- The next item is due an interval later at least, and no longer ago than may be caught up. -/
theorem tickAt_spec (p : Pacer) (now interval : ℕ) :
    p.due + interval ≤ (p.tickAt now interval).due ∧ now ≤ (p.tickAt now interval).due + CATCH_UP := by
  rw [tickAt]
  dsimp only
  split
  · omega
  · omega

end Pacer

/-! ### What a source does with it -/

/-- An item: when it was due, the interval it was taken with, when the wait for it was over (unless
it was not waited for), and when it was taken. -/
structure Item where
  due : ℕ
  interval : ℕ
  released : Option ℕ
  taken : ℕ

/-- The items are the newest first. -/
structure Source where
  pacer : Pacer
  clock : ℕ
  /-- When the last wait was over, if nothing was taken since. -/
  waited : Option ℕ
  items : List Item

/-- A call of the pacer, with the times the clock showed. -/
inductive Call where
  /-- A sleep takes at least as long as it is asked to. -/
  | wait (called returned : ℕ) : Call
  | tick (now interval : ℕ) : Call

namespace Source

def new (now : ℕ) : Source := ⟨Pacer.new now, now, none, []⟩

def step (s : Source) : Call → Option Source
  | .wait called returned =>
    if s.clock ≤ called ∧ called + s.pacer.wait called ≤ returned then
      some { s with clock := returned, waited := some returned }
    else none
  | .tick now interval =>
    if s.clock ≤ now then
      some { pacer := s.pacer.tickAt now interval, clock := now, waited := none,
             items := ⟨s.pacer.due, interval, s.waited, now⟩ :: s.items }
    else none

end Source

/-- Released before the end of the span of `length` from `start` on, and taken after its beginning. -/
def Item.During (start length : ℕ) (item : Item) : Prop :=
  ∃ released, item.released = some released ∧ released ≤ start + length ∧ start ≤ item.taken

instance (start length : ℕ) (item : Item) : Decidable (item.During start length) :=
  match h : item.released with
  | none => isFalse fun ⟨_, hr, _⟩ => by rw [h] at hr; cases hr
  | some released => decidable_of_iff (released ≤ start + length ∧ start ≤ item.taken)
      ⟨fun hr => ⟨released, h, hr⟩, fun ⟨_, hr, hspan⟩ => by rw [h] at hr; cases hr; exact hspan⟩

/-- How many items were released and taken in a span. -/
def Source.during (s : Source) (start length : ℕ) : ℕ := s.items.countP (·.During start length)

/-! ### Its invariants -/

namespace Source

/-- What was waited for is due. -/
def Waited (s : Source) : Prop := ∀ released, s.waited = some released → s.pacer.due ≤ released

/-- Items are due an interval apart, the next one as well. -/
structure Apart (s : Source) : Prop where
  chain : s.items.IsChain fun later earlier => earlier.due + earlier.interval ≤ later.due
  next : ∀ last ∈ s.items.head?, last.due + last.interval ≤ s.pacer.due

/-- The items of a span have moved the time the next one is due forward, each but the first. -/
structure Spread (start length interval : ℕ) (s : Source) : Prop where
  moved : 0 < s.during start length →
    start + (s.during start length - 1) * interval ≤ s.pacer.due + Pacer.CATCH_UP
  few : s.during start length ≤ (length + Pacer.CATCH_UP) / interval + 2

variable {s s' : Source} {call : Call} {start length interval : ℕ}

theorem step_wait {called returned : ℕ} (h : s.step (.wait called returned) = some s') :
    called + s.pacer.wait called ≤ returned ∧ s' = { s with clock := returned, waited := some returned } := by
  rw [step] at h
  split at h
  · rename_i htime
    exact ⟨htime.2, (Option.some.inj h).symm⟩
  · cases h

/-- The item that a source takes at `now`. -/
def item (s : Source) (now interval : ℕ) : Item := ⟨s.pacer.due, interval, s.waited, now⟩

theorem step_tick {now interval : ℕ} (h : s.step (.tick now interval) = some s') :
    s' = ⟨s.pacer.tickAt now interval, now, none, s.item now interval :: s.items⟩ := by
  rw [step] at h
  split at h
  · exact (Option.some.inj h).symm
  · cases h

theorem waited_step (hs : s.Waited) (h : s.step call = some s') : s'.Waited := by
  cases call with
  | wait called returned =>
    obtain ⟨htime, rfl⟩ := step_wait h
    intro released hreleased
    cases hreleased
    rw [Pacer.wait] at htime
    show s.pacer.due ≤ returned
    omega
  | tick now interval =>
    obtain rfl := step_tick h
    exact fun released hreleased => by cases hreleased

theorem apart_step (hs : s.Apart) (h : s.step call = some s') : s'.Apart := by
  cases call with
  | wait called returned =>
    obtain ⟨-, rfl⟩ := step_wait h
    exact ⟨hs.chain, hs.next⟩
  | tick now interval =>
    obtain rfl := step_tick h
    refine ⟨List.isChain_cons.mpr ⟨hs.next, hs.chain⟩, fun last hlast => ?_⟩
    cases hlast
    exact (s.pacer.tickAt_spec now interval).1

theorem items_step (h : s.step call = some s') : s.items ⊆ s'.items := by
  cases call with
  | wait called returned =>
    obtain ⟨-, rfl⟩ := step_wait h
    exact List.Subset.refl _
  | tick now interval =>
    obtain rfl := step_tick h
    exact List.subset_cons_self _ _

theorem during_cons (start length : ℕ) (p : Pacer) (clock : ℕ) (waited : Option ℕ) (item : Item) :
    (⟨p, clock, waited, item :: s.items⟩ : Source).during start length =
      s.during start length + if item.During start length then 1 else 0 := by
  rw [during, during, List.countP_cons]
  simp only [decide_eq_true_eq]

/-- The first item of a span leaves the next one due no longer before it than may be caught up, and every
further one moves that on by its interval; each was due when it was released. -/
theorem spread_during {now given : ℕ} (hwaited : s.Waited) (hs : s.Spread start length interval) (hpos : 0 < interval)
    (hitem : (s.item now given).During start length) (hgiven : interval ≤ given) :
    Spread start length interval ⟨s.pacer.tickAt now given, now, none, s.item now given :: s.items⟩ := by
  obtain ⟨hdue, hbehind⟩ := s.pacer.tickAt_spec now given
  have hcount := during_cons (s := s) start length (s.pacer.tickAt now given) now none (s.item now given)
  rw [if_pos hitem] at hcount
  obtain ⟨released, hreleased, hend, hstart⟩ := hitem
  have hready : s.pacer.due ≤ released := hwaited released hreleased
  -- the first of the span may be any amount behind; what is caught up bounds the next
  rcases Nat.eq_zero_or_pos (s.during start length) with hzero | hsome
  · refine ⟨fun _ => ?_, ?_⟩
    · rw [hcount, hzero, Nat.zero_add, Nat.sub_self, Nat.zero_mul]
      exact hstart.trans hbehind
    · rw [hcount, hzero]
      exact (Nat.le_succ 1).trans (Nat.le_add_left 2 _)
  · have hmoved := hs.moved hsome
    -- the others have moved the due time on by their intervals
    have hsplit : s.during start length * interval = (s.during start length - 1) * interval + interval := by
      rw [← Nat.succ_mul, Nat.succ_eq_add_one, Nat.sub_add_cancel hsome]
    refine ⟨fun _ => ?_, ?_⟩
    · rw [hcount, Nat.add_sub_cancel, hsplit]
      show _ ≤ (s.pacer.tickAt now given).due + Pacer.CATCH_UP
      omega
    · have hroom : s.during start length - 1 ≤ (length + Pacer.CATCH_UP) / interval := by
        rw [Nat.le_div_iff_mul_le hpos]
        omega
      rw [hcount]
      omega

/-- An item outside of a span only moves the next one on. -/
theorem spread_other {now given : ℕ} (hs : s.Spread start length interval)
    (hitem : ¬(s.item now given).During start length) :
    Spread start length interval ⟨s.pacer.tickAt now given, now, none, s.item now given :: s.items⟩ := by
  have hdue := (s.pacer.tickAt_spec now given).1
  have hcount := during_cons (s := s) start length (s.pacer.tickAt now given) now none (s.item now given)
  rw [if_neg hitem, Nat.add_zero] at hcount
  refine ⟨fun hsome => ?_, ?_⟩
  · rw [hcount] at hsome ⊢
    have hmoved := hs.moved hsome
    show _ ≤ (s.pacer.tickAt now given).due + Pacer.CATCH_UP
    omega
  · rw [hcount]
    exact hs.few

theorem spread_step (hwaited : s.Waited) (hs : s.Spread start length interval) (hpos : 0 < interval)
    (hspan : ∀ item ∈ s'.items, item.During start length → interval ≤ item.interval)
    (h : s.step call = some s') : s'.Spread start length interval := by
  cases call with
  | wait called returned =>
    obtain ⟨-, rfl⟩ := step_wait h
    exact ⟨hs.moved, hs.few⟩
  | tick now given =>
    obtain rfl := step_tick h
    by_cases hitem : (s.item now given).During start length
    · exact spread_during hwaited hs hpos hitem (hspan _ List.mem_cons_self hitem)
    · exact spread_other hs hitem

/-- The invariant of a span in which no interval is shorter than `interval`. -/
theorem spread_run {calls : List Call} {now : ℕ} (hpos : 0 < interval)
    (hrun : calls.foldlM step (new now) = some s)
    (hspan : ∀ item ∈ s.items, item.During start length → interval ≤ item.interval) :
    s.Spread start length interval := by
  let Kept (s : Source) : Prop := s.Waited ∧
    ((∀ item ∈ s.items, item.During start length → interval ≤ item.interval) → s.Spread start length interval)
  have hstep (s : Source) (call : Call) (s' : Source) (hs : Kept s) (_ : True) (h : s.step call = some s') : Kept s' :=
    ⟨waited_step hs.1 h, fun hspan =>
      spread_step hs.1 (hs.2 fun item hitem => hspan item (items_step h hitem)) hpos hspan h⟩
  have hinv := Run.invariant hstep calls (new now) s
    ⟨fun released hreleased => (by cases hreleased), fun _ => ⟨fun hsome => (by cases hsome), Nat.zero_le _⟩⟩
    (fun _ _ => trivial) hrun
  exact hinv.2 hspan

/-- **Items are due an interval apart, and no span of time has more of them than its length and the debt
a source may pay back make room for**: whatever is waited for and taken, and whenever. -/
theorem paced {calls : List Call} {now : ℕ} {s : Source} (hrun : calls.foldlM step (new now) = some s) :
    s.Apart ∧ ∀ start length interval, 0 < interval →
      (∀ item ∈ s.items, item.During start length → interval ≤ item.interval) →
      s.during start length ≤ (length + Pacer.CATCH_UP) / interval + 2 := by
  refine ⟨?_, fun start length interval hpos hspan => (spread_run hpos hrun hspan).few⟩
  have hstep (s : Source) (call : Call) (s' : Source) (hs : s.Apart) (_ : True) (h : s.step call = some s') :
      s'.Apart := apart_step hs h
  have hnew : (new now).Apart := ⟨List.isChain_nil, fun last hlast => by cases hlast⟩
  exact Run.invariant hstep calls (new now) s hnew (fun _ _ => trivial) hrun

/-- A stall of ten seconds, and the burst behind it. -/
def stalled : List Call :=
  [.wait 0 0, .tick 0 (100 * 10 ^ 6), .wait 0 (100 * 10 ^ 6), .tick (10 ^ 10) (100 * 10 ^ 6),
    .wait (10 ^ 10) (10 ^ 10), .tick (10 ^ 10) (100 * 10 ^ 6)]

theorem runs_stalled : (stalled.foldlM step (new 0)).isSome := by decide +kernel

theorem paced_stalled :
    let s := (stalled.foldlM step (new 0)).get runs_stalled
    s.Apart ∧ s.during (10 ^ 10) 0 = 2 ∧ s.during (10 ^ 10) 0 ≤ (0 + Pacer.CATCH_UP) / (100 * 10 ^ 6) + 2 := by
  obtain ⟨hapart, hfew⟩ := paced (Option.some_get runs_stalled).symm
  exact ⟨hapart, by decide +kernel, hfew (10 ^ 10) 0 (100 * 10 ^ 6) (by decide) (by decide +kernel)⟩

end Source

end Pacing

end WindowCast.Host
