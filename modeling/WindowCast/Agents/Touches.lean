import WindowCast.Agents.Injector

/-!
# Touches and the left button

Every touch presses and releases the left button of the one virtual pointer, and so does
the client's own left button.

## Main definitions

* `LeftHeld`, `Touching` — what the client holds.
* `Follows` — the button is down while the client holds it, or touches.
* `Last` — nothing else holds the button that an event releases.

## Main results

* `left_inject` — **what an event makes of the button**.
* `follows_iff` — **when the button follows every event**.
-/

namespace WindowCast.Agents

open WindowCast.Host (WindowId)
open WindowCast.Stream (InputEvent Input PointerButton TouchPhase F32)

variable {x : Xkb}

/-! ### What the client holds -/

/-- What an event says of the client's left button. -/
def leftMark : InputEvent → Option Bool
  | .pointerButton _ .left pressed => some pressed
  | _ => none

/-- What an event says of a touch, which its window and its number name: that it is down, or that it
is over. -/
def touchMark (finger : WindowId × UInt32) : InputEvent → Option Bool
  | .touch window id _ _ phase =>
    if (window, id) = finger then
      match phase with
      | .start => some true
      | .move => none
      | .«end» | .cancel => some false
    else none
  | _ => none

def LeftHeld (past : List Arrival) : Prop := latest (fun arrival => leftMark arrival.input.1) past = some true

def Touching (finger : WindowId × UInt32) (past : List Arrival) : Prop :=
  latest (fun arrival => touchMark finger arrival.input.1) past = some true

/-- The client holds the left button, or touches. -/
def Holds (past : List Arrival) : Prop := LeftHeld past ∨ ∃ finger, Touching finger past

/-- Behind an event the button is down exactly if the client holds it, or touches. -/
def Follows (x : Xkb) (past : List Arrival) (arrival : Arrival) : Prop :=
  ButtonDown (buttonCode .left) (Injector.run x (past ++ [arrival])).requests ↔ Holds (past ++ [arrival])

/-- Nothing else holds the button that the event releases. -/
def Last (past : List Arrival) (arrival : Arrival) : Prop :=
  match arrival.input.1 with
  | .pointerButton _ .left false => ∀ finger, ¬ Touching finger past
  | .touch window id _ _ .«end» | .touch window id _ _ .cancel =>
    ¬ LeftHeld past ∧ ∀ finger, finger ≠ (window, id) → ¬ Touching finger past
  | _ => True

/-! ### What the pointer is asked -/

/-- What an event makes of the left button. -/
def pressMark : InputEvent → Option Bool
  | .pointerButton _ .left pressed => some pressed
  | .touch _ _ _ _ .start => some true
  | .touch _ _ _ _ .«end» | .touch _ _ _ _ .cancel => some false
  | _ => none

section

variable {self : Injector x} {sway : Sway} {window : WindowId} {code : UInt32}

theorem button_ask (self : Injector x) (request : Request x.Mods) :
    latest (Request.marksButton code) (self.ask request).requests =
      (request.marksButton code).or (latest (Request.marksButton code) self.requests) := latest_concat _ _ _

@[simp] theorem button_focus (self : Injector x) :
    latest (Request.marksButton code) (self.focus sway window).requests = latest (Request.marksButton code) self.requests := by
  unfold Injector.focus
  split
  · rfl
  · split
    · exact button_ask self _
    · rfl

@[simp] theorem button_moveTo (self : Injector x) (dx dy : F32) :
    latest (Request.marksButton code) (self.moveTo sway window dx dy).requests =
      latest (Request.marksButton code) self.requests := by
  unfold Injector.moveTo
  split
  · split
    · exact button_ask self _
    · rfl
  · rfl

@[simp] theorem button_focusOn (self : Injector x) (focus : Option WindowId) :
    latest (Request.marksButton code) (self.focusOn sway focus).requests =
      latest (Request.marksButton code) self.requests := by
  cases focus with
  | none => rfl
  | some window => exact button_focus self

@[simp] theorem button_key (self : Injector x) (key : UInt32) (pressed : Bool) :
    latest (Request.marksButton code) (self.key key pressed).requests = latest (Request.marksButton code) self.requests := by
  rw [Injector.requests_key, latest_append]
  split <;> rfl

@[simp] theorem button_text (self : Injector x) (text : Text) :
    latest (Request.marksButton code) (text.foldl Injector.typeChar self).requests =
      latest (Request.marksButton code) self.requests := by
  induction text generalizing self with
  | nil => rfl
  | cons c text ih =>
    rw [List.foldl_cons, ih]
    cases htypeable : x.typeable c with
    | none => rw [Injector.typeChar_none htypeable]
    | some entry =>
      obtain ⟨key, shift⟩ := entry
      cases shift with
      | false => rw [Injector.typeChar_plain htypeable, button_key, button_key]
      | true => rw [Injector.typeChar_shift htypeable, button_key, button_key, button_key, button_key]

theorem button_button (self : Injector x) (code' : UInt32) (pressed : Bool) :
    latest (Request.marksButton code) (self.button code' pressed).requests =
      if code' = code then some pressed else latest (Request.marksButton code) self.requests := by
  rw [Injector.button, button_ask, Request.marksButton]
  split
  · rfl
  · rfl

/-- **What an event makes of the button**: what it says last. -/
theorem left_inject (self : Injector x) (arrival : Arrival) :
    latest (Request.marksButton (buttonCode .left)) (self.inject arrival).requests =
      (pressMark arrival.input.1).or (latest (Request.marksButton (buttonCode .left)) self.requests) := by
  obtain ⟨⟨event, focus⟩, sway⟩ := arrival
  cases event with
  | pointerMove window dx dy => exact button_moveTo self dx dy
  | pointerButton window button pressed =>
    have hfocus : latest (Request.marksButton (buttonCode .left)) (if pressed then self.focus sway window else self).requests =
        latest (Request.marksButton (buttonCode .left)) self.requests := by
      split
      · exact button_focus self
      · rfl
    refine (button_button _ _ pressed).trans ?_
    rw [hfocus]
    cases button <;> rfl
  | pointerScroll window dx dy => exact button_ask self _
  | key keycode pressed => exact (button_key _ _ _).trans (button_focusOn self focus)
  | text text => exact (button_text _ _).trans (button_focusOn self focus)
  | touch window id dx dy phase =>
    have hmove := @button_moveTo x sway window (buttonCode .left) self dx dy
    cases phase with
    | start => exact button_button _ _ true
    | move => exact hmove
    | «end» => exact button_button _ _ false
    | cancel => exact button_button _ _ false
  | gamepad pad state => rfl
  | gamepadGone pad => rfl

end

/-! ### Sequences of events -/

section

variable {past : List Arrival} {arrival : Arrival} {finger : WindowId × UInt32} {pressed : Bool}

theorem leftHeld_of_none (h : leftMark arrival.input.1 = none) : LeftHeld (past ++ [arrival]) ↔ LeftHeld past := by
  rw [LeftHeld, latest_concat, h, Option.none_or, LeftHeld]

theorem leftHeld_of_some (h : leftMark arrival.input.1 = some pressed) :
    LeftHeld (past ++ [arrival]) ↔ pressed = true := by
  rw [LeftHeld, latest_concat, h, Option.some_or, Option.some.injEq]

theorem touching_of_none (h : touchMark finger arrival.input.1 = none) :
    Touching finger (past ++ [arrival]) ↔ Touching finger past := by
  rw [Touching, latest_concat, h, Option.none_or, Touching]

theorem touching_of_some (h : touchMark finger arrival.input.1 = some pressed) :
    Touching finger (past ++ [arrival]) ↔ pressed = true := by
  rw [Touching, latest_concat, h, Option.some_or, Option.some.injEq]

/-- What makes nothing of the button changes nothing that is held. -/
theorem holds_of_none (h : pressMark arrival.input.1 = none) : Holds (past ++ [arrival]) ↔ Holds past := by
  have hmarks : leftMark arrival.input.1 = none ∧ ∀ finger, touchMark finger arrival.input.1 = none := by
    cases hevent : arrival.input.1 with
    | pointerButton window button pressed =>
      rw [hevent] at h
      cases button with
      | left => cases h
      | _ => exact ⟨rfl, fun _ => rfl⟩
    | touch window id dx dy phase =>
      rw [hevent] at h
      cases phase with
      | move => exact ⟨rfl, fun _ => ite_self _⟩
      | _ => cases h
    | _ => exact ⟨rfl, fun _ => rfl⟩
  exact or_congr (leftHeld_of_none hmarks.1) (exists_congr fun finger => touching_of_none (hmarks.2 finger))

/-- What presses the button is held. -/
theorem holds_of_press (h : pressMark arrival.input.1 = some true) : Holds (past ++ [arrival]) := by
  cases hevent : arrival.input.1 with
  | pointerButton window button pressed =>
    rw [hevent] at h
    cases button with
    | left => exact .inl ((leftHeld_of_some (by rw [hevent]; exact h)).mpr rfl)
    | _ => cases h
  | touch window id dx dy phase =>
    rw [hevent] at h
    cases phase with
    | start => exact .inr ⟨(window, id), (touching_of_some (by rw [hevent]; exact if_pos rfl)).mpr rfl⟩
    | _ => cases h
  | _ =>
    rw [hevent] at h
    cases h

/-- The end of a touch ends that one. -/
theorem holds_of_over (hleft : leftMark arrival.input.1 = none)
    (htouch : ∀ finger', touchMark finger' arrival.input.1 = if finger = finger' then some false else none) :
    Holds (past ++ [arrival]) ↔ LeftHeld past ∨ ∃ finger', finger' ≠ finger ∧ Touching finger' past := by
  refine or_congr (leftHeld_of_none hleft) (exists_congr fun finger' => ?_)
  by_cases hsame : finger = finger'
  · rw [touching_of_some ((htouch finger').trans (if_pos hsame))]
    exact iff_of_false Bool.false_ne_true fun h => h.1 hsame.symm
  · rw [touching_of_none ((htouch finger').trans (if_neg hsame))]
    exact (and_iff_right (Ne.symm hsame)).symm

/-- Behind what releases the button nothing is held exactly if that was the last to hold it. -/
theorem holds_of_release (h : pressMark arrival.input.1 = some false) : ¬ Holds (past ++ [arrival]) ↔ Last past arrival := by
  have hover {finger : WindowId × UInt32} (hholds : Holds (past ++ [arrival]) ↔ LeftHeld past ∨ ∃ finger', finger' ≠ finger ∧ Touching finger' past) :
      ¬ Holds (past ++ [arrival]) ↔ ¬ LeftHeld past ∧ ∀ finger', finger' ≠ finger → ¬ Touching finger' past := by
    rw [hholds, not_or, not_exists]
    exact and_congr_right fun _ => forall_congr' fun _ => not_and
  unfold Last
  cases hevent : arrival.input.1 with
  | pointerButton window button pressed =>
    rw [hevent] at h
    cases button with
    | left =>
      obtain rfl := Option.some.inj h
      have hleft : ¬ LeftHeld (past ++ [arrival]) := by
        rw [@leftHeld_of_some _ _ false (by rw [hevent]; rfl)]
        exact Bool.false_ne_true
      rw [Holds, or_iff_right hleft, not_exists]
      exact forall_congr' fun finger => not_congr (touching_of_none (by rw [hevent]; rfl))
    | _ => cases h
  | touch window id dx dy phase =>
    rw [hevent] at h
    cases phase with
    | start => cases h
    | move => cases h
    | «end» => exact hover (holds_of_over (by rw [hevent]; rfl) fun finger => by rw [hevent]; rfl)
    | cancel => exact hover (holds_of_over (by rw [hevent]; rfl) fun finger => by rw [hevent]; rfl)
  | _ =>
    rw [hevent] at h
    cases h

/-- What does not release the button need not be the last to hold it. -/
theorem last_of_ne (h : pressMark arrival.input.1 ≠ some false) : Last past arrival := by
  unfold Last
  split
  · rename_i hevent
    exact absurd (by rw [hevent]; rfl) h
  · rename_i hevent
    exact absurd (by rw [hevent]; rfl) h
  · rename_i hevent
    exact absurd (by rw [hevent]; rfl) h
  · trivial

/-- The button is down exactly if something holds it. -/
def Balanced (x : Xkb) (past : List Arrival) : Prop :=
  ButtonDown (buttonCode .left) (Injector.run x past).requests ↔ Holds past

/-- **An event is followed exactly if it is the last to hold what it releases.** -/
theorem follows_iff_last (hpast : Balanced x past) : Follows x past arrival ↔ Last past arrival := by
  rw [Follows, Injector.run_concat, ButtonDown, left_inject]
  cases hmark : pressMark arrival.input.1 with
  | none =>
    refine iff_of_true ?_ (last_of_ne (by rw [hmark]; nofun))
    rw [Option.none_or, holds_of_none hmark]
    exact hpast
  | some pressed =>
    cases pressed with
    | true => exact iff_of_true (iff_of_true rfl (holds_of_press hmark)) (last_of_ne (by rw [hmark]; nofun))
    | false =>
      rw [← holds_of_release hmark]
      exact ⟨fun h hholds => Option.some.inj (h.mpr hholds) |> Bool.false_ne_true, fun h => iff_of_false nofun h⟩

/-- **The button follows every event exactly if each one that releases it is the last to hold it.** -/
theorem follows_iff (x : Xkb) (es : List Arrival) : Run.Always (Follows x) es ↔ Run.Always Last es := by
  refine Run.always_iff (I := Balanced x) (iff_of_false nofun ?_) (fun _ _ hpast => follows_iff_last hpast)
    (fun _ _ _ hfollows => hfollows) es
  rintro (h | ⟨finger, h⟩) <;> cases h

end

/-- Lifting one of two fingers breaks off the drag of the other. -/
theorem drag_broken : ¬ ∀ x : Xkb, ∀ es, Run.Always (Follows x) es := by
  intro h
  have hlast := h keyless _
    [⟨(.touch 1 0 0 0 .start, none), ⟨fun _ => none, false⟩⟩, ⟨(.touch 1 1 0 0 .start, none), ⟨fun _ => none, false⟩⟩]
    ⟨(.touch 1 1 0 0 .«end», none), ⟨fun _ => none, false⟩⟩ [] rfl
  have hdown := hlast.mpr (.inr ⟨(1, 0), rfl⟩)
  cases hdown

end WindowCast.Agents
