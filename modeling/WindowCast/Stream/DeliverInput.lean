import WindowCast.Stream.HeldInput

/-!
# The thread that delivers input

`deliver_input` of `host-core/src/lib.rs`: a thread takes events in order, keeps what is
held, opens the gamepads when the first is used, and hands everything else to the
source.  When its sender is dropped it releases what is still held, in any order.

## Main definitions

* `DeliverInput.step` — one event.
* `word` — what an event says of a group of things that can be held.

## Main results

* `DeliverInput.Holding.step` — what is held is what was delivered as pressed last.
* `DeliverInput.released_at_end` — **everything is released at the end.**
-/

namespace WindowCast.Stream

open WindowCast.Host (WindowId)

/-- The most gamepads of a session. -/
def MAX_PADS : UInt8 := 4

/-- What the gamepads are told. -/
inductive PadCall
  | set (pad : UInt8) (state : GamepadState)
  | remove (pad : UInt8)
  deriving DecidableEq, Repr

/-- The thread, with what it has told the gamepads and the source. -/
structure DeliverInput where
  held : HeldInput
  /-- The gamepads are open. -/
  pads : Bool
  /-- They cannot be opened. -/
  noPads : Bool
  padCalls : List PadCall
  delivered : List Input

namespace DeliverInput

def new : DeliverInput := ⟨.default, false, false, [], []⟩

/-- Opens the gamepads, unless they are open or cannot be. -/
def openPads (gamepads : Option (Except Text Unit)) (self : DeliverInput) : DeliverInput :=
  if !self.pads && !self.noPads then
    match gamepads with
    | some (.ok ()) => { self with pads := true }
    | some (.error _) | none => { self with noPads := true }
  else self

def callPads (self : DeliverInput) (call : PadCall) : DeliverInput :=
  if self.pads then { self with padCalls := self.padCalls ++ [call] } else self

/-- Takes one event; `gamepads` is what the source gives when it is asked for them. -/
def step (gamepads : Option (Except Text Unit)) (self : DeliverInput) (event : Input) : DeliverInput :=
  let self := { self with held := self.held.track event.1 event.2 }
  match event.1 with
  | .gamepad pad state =>
    if pad < MAX_PADS then (self.openPads gamepads).callPads (.set pad state) else self
  | .gamepadGone pad => self.callPads (.remove pad)
  | _ => { self with delivered := self.delivered ++ [event] }

/-- The thread once it has taken all events that were sent. -/
def run (gamepads : Option (Except Text Unit)) (events : List Input) : DeliverInput :=
  events.foldl (step gamepads) new

@[simp] theorem openPads_held (gamepads : Option (Except Text Unit)) (self : DeliverInput) :
    (self.openPads gamepads).held = self.held := by
  unfold openPads
  split
  · split <;> rfl
  · rfl

@[simp] theorem openPads_delivered (gamepads : Option (Except Text Unit)) (self : DeliverInput) :
    (self.openPads gamepads).delivered = self.delivered := by
  unfold openPads
  split
  · split <;> rfl
  · rfl

@[simp] theorem callPads_held (self : DeliverInput) (call : PadCall) :
    (self.callPads call).held = self.held := by
  unfold callPads
  split <;> rfl

@[simp] theorem callPads_delivered (self : DeliverInput) (call : PadCall) :
    (self.callPads call).delivered = self.delivered := by
  unfold callPads
  split <;> rfl

theorem step_held (gamepads : Option (Except Text Unit)) (self : DeliverInput) (event : Input) :
    (self.step gamepads event).held = self.held.track event.1 event.2 := by
  obtain ⟨event, focus⟩ := event
  cases event with
  | gamepad pad state =>
    simp only [step]
    split
    · rw [callPads_held, openPads_held]
    · rfl
  | gamepadGone pad => exact callPads_held _ _
  | _ => rfl

/-- Every event that can hold something down is delivered. -/
theorem step_delivered (gamepads : Option (Except Text Unit)) (self : DeliverInput) (event : Input) :
    (self.step gamepads event).delivered = self.delivered ++ [event] ∨
      (self.step gamepads event).delivered = self.delivered ∧ event.1.item = none := by
  obtain ⟨event, focus⟩ := event
  cases event with
  | gamepad pad state =>
    right
    refine ⟨?_, rfl⟩
    simp only [step]
    split
    · rw [callPads_delivered, openPads_delivered]
    · rfl
  | gamepadGone pad => exact .inr ⟨callPads_delivered _ _, rfl⟩
  | _ => exact .inl rfl

/-- What is held is what was delivered as pressed, and not as released since. -/
def Holding (self : DeliverInput) : Prop :=
  ∀ item, self.held.holds item = true ↔ Down item self.delivered

theorem holding_new : new.Holding := by
  intro item
  rw [new, HeldInput.not_holds_default]
  exact ⟨nofun, nofun⟩

theorem Holding.step {self : DeliverInput} (h : self.Holding) (gamepads : Option (Except Text Unit))
    (event : Input) : (self.step gamepads event).Holding := by
  intro item
  rw [step_held, HeldInput.holds_track]
  rcases step_delivered gamepads self event with hdelivered | ⟨hdelivered, hnone⟩
  · rw [hdelivered, Down, latest_concat]
    cases hmark : event.1.mark item with
    | none => exact h item
    | some pressed => simp
  · have hmark : event.1.mark item = none := by
      rw [InputEvent.mark, hnone]
      rfl
    rw [hdelivered, hmark]
    exact h item

theorem holding_run (gamepads : Option (Except Text Unit)) (events : List Input) :
    (run gamepads events).Holding := by
  induction events using List.reverseRecOn with
  | nil => exact holding_new
  | append_singleton events event ih =>
    rw [run, List.foldl_concat]
    exact ih.step gamepads event

end DeliverInput

/-- What an event says of a group of things that can be held: that one is pressed, or
released. -/
def word (which : Item → Prop) [DecidablePred which] (event : Input) : Option Bool :=
  event.1.item.bind fun item => if which item then some event.1.presses else none

section

variable {which : Item → Prop} [DecidablePred which]

theorem word_eq_some {event : Input} {pressed : Bool} (h : word which event = some pressed) :
    ∃ item, event.1.item = some item ∧ which item ∧ event.1.presses = pressed := by
  obtain ⟨item, hitem, h⟩ := Option.bind_eq_some_iff.mp h
  obtain ⟨hwhich, heq⟩ := Option.ite_none_right_eq_some.mp h
  exact ⟨item, hitem, hwhich, Option.some.inj heq⟩

theorem word_of_mark {event : Input} {item : Item} {pressed : Bool} (hwhich : which item)
    (h : event.1.mark item = some pressed) : word which event = some pressed := by
  obtain ⟨hitem, heq⟩ := Option.ite_none_right_eq_some.mp h
  rw [word, hitem, Option.bind_some, if_pos hwhich]
  exact heq

/-- If the last word on a group is that something is pressed, then one of the group is down. -/
theorem down_of_latest {input : List Input} (h : latest (word which) input = some true) :
    ∃ item, which item ∧ Down item input := by
  induction input using List.reverseRecOn with
  | nil => cases h
  | append_singleton input event ih =>
    rw [latest_concat] at h
    cases hword : word which event with
    | some pressed =>
      rw [hword] at h
      cases h
      obtain ⟨item, hitem, hwhich, hpresses⟩ := word_eq_some hword
      refine ⟨item, hwhich, ?_⟩
      rw [Down, latest_concat, InputEvent.mark, if_pos hitem, hpresses]
      rfl
    | none =>
      rw [hword, Option.none_or] at h
      obtain ⟨item, hwhich, hdown⟩ := ih h
      refine ⟨item, hwhich, ?_⟩
      rw [Down, latest_concat]
      cases hmark : event.1.mark item with
      | none => exact hdown
      | some pressed =>
        rw [word_of_mark hwhich hmark] at hword
        cases hword

end

namespace DeliverInput

/-- **Everything is released at the end**, whatever was sent and in whatever order what is
held is released: the last event that is delivered about a key, a button or a touch, or
about a group of them (a button, say, in whatever window), is a release. -/
theorem released_at_end (gamepads : Option (Except Text Unit)) (events : List Input)
    {released : List Input} (hreleased : released.Perm (run gamepads events).held.release)
    (which : Item → Prop) [DecidablePred which]
    (hdelivered : ∃ event ∈ (run gamepads events).delivered ++ released, (word which event).isSome) :
    latest (word which) ((run gamepads events).delivered ++ released) = some false := by
  have hholding := holding_run gamepads events
  -- what is released at the end says nothing else
  have hends {event : Input} (hmem : event ∈ released) :
      word which event = none ∨ word which event = some false := by
    cases hword : word which event with
    | none => exact .inl rfl
    | some pressed =>
      obtain ⟨item, hitem, -, hpresses⟩ := word_eq_some hword
      rcases HeldInput.mark_of_mem_release (hreleased.mem_iff.mp hmem) item with hmark | hmark
      · rw [InputEvent.mark, if_pos hitem] at hmark
        cases hmark
      · rw [InputEvent.mark, if_pos hitem, hpresses] at hmark
        exact .inr hmark
  rw [latest_append]
  by_cases hany : ∃ event ∈ released, word which event = some false
  · rw [latest_eq_some (fun event hmem => hends hmem) hany]
    rfl
  · have hnone : latest (word which) released = none := by
      refine latest_eq_none fun event hmem => ?_
      exact (hends hmem).resolve_right fun hword => hany ⟨event, hmem, hword⟩
    rw [hnone, Option.none_or]
    cases hlatest : latest (word which) (run gamepads events).delivered with
    | none =>
      -- then nothing was delivered about them at all
      obtain ⟨event, hmem, hsome⟩ := hdelivered
      obtain ⟨pressed, hword⟩ := Option.isSome_iff_exists.mp hsome
      rcases List.mem_append.mp hmem with hmem | hmem
      · have := List.findSome?_eq_none_iff.mp hlatest event (List.mem_reverse.mpr hmem)
        rw [hword] at this
        cases this
      · rcases hends hmem with hno | hfalse
        · rw [hword] at hno
          cases hno
        · exact absurd ⟨event, hmem, hfalse⟩ hany
    | some pressed =>
      cases pressed with
      | false => rfl
      | true =>
        -- what is down is held, and so is released
        obtain ⟨item, hwhich, hdown⟩ := down_of_latest hlatest
        obtain ⟨event, hmem, hmark⟩ := HeldInput.mark_release _ ((hholding item).mpr hdown)
        exact absurd ⟨event, hreleased.mem_iff.mpr hmem, word_of_mark hwhich hmark⟩ hany

/-- A key, a button that goes down in one window and up in another, and a touch. -/
def leftPressed : List Input :=
  [(.key 30 true, some 1), (.pointerButton 1 .left true, none), (.pointerButton 2 .left false, none),
    (.gamepad 0 ⟨1, 0, 0, 0, 0, 0, 0⟩, none), (.touch 1 7 0 0 .start, none)]

/-- They are released at the end: the button in the window it was pressed in. -/
theorem released_at_end_leftPressed :
    (run none leftPressed).held.release
        = [(.key 30 false, some 1), (.pointerButton 1 .left false, none), (.touch 1 7 0 0 .cancel, none)] ∧
      latest (word fun item => item = .button 1 .left)
        ((run none leftPressed).delivered ++ (run none leftPressed).held.release) = some false :=
  ⟨rfl, released_at_end none leftPressed (List.Perm.refl _) _
    ⟨(.pointerButton 1 .left true, none), by decide, by decide⟩⟩

end DeliverInput

end WindowCast.Stream
