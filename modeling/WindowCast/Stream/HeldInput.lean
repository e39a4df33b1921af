import WindowCast.Stream.Serving

/-!
# Input that is held down

The session's task hands the client's input on to a thread that delivers it in
order.  Input is handed on only where it goes to a window that the session streams,
so a release may be turned away that the press was not, and nothing is released when
a window's stream stops.  When the session is over, the thread releases what is
still held.

## Main definitions

* `HeldInput` — what the client has pressed, as the thread that delivers it keeps it.
* `Delivery`, `Delivery.step` — a session with that thread.
* `Delivery.due` — what is to be released.
* `Delivery.Gentle` — nothing is pressed in a window whose stream stops, and no release
  of a key is turned away.

## Main results

* `Delivery.Owing.step` — what every step preserves.
* `Delivery.nothing_stuck` — **what is to be released is released, and behind the
  session's end nothing is down**.
-/

namespace WindowCast.Stream

open WindowCast.Host (WindowId)

/-! ### What is pressed -/

/-- What can be held down. -/
inductive Item
  | key (keycode : UInt32)
  | button (window : WindowId) (button : PointerButton)
  | touch (window : WindowId) (id : UInt32)
  deriving DecidableEq, Repr

/-- What an event presses or releases. -/
def InputEvent.item : InputEvent → Option Item
  | .key keycode _ => some (.key keycode)
  | .pointerButton window button _ => some (.button window button)
  | .touch window id _ _ _ => some (.touch window id)
  | _ => none

def InputEvent.presses : InputEvent → Bool
  | .key _ pressed | .pointerButton _ _ pressed => pressed
  | .touch _ _ _ _ phase => phase = .start || phase = .move
  | _ => false

/-- What an event says of something that can be held: that it is pressed, or released. -/
def InputEvent.mark (item : Item) (event : InputEvent) : Option Bool :=
  if event.item = some item then some event.presses else none

/-- The window of a button or a touch. -/
def Item.window : Item → Option WindowId
  | .key _ => none
  | .button window _ | .touch window _ => some window

theorem inputWindow_eq {event : InputEvent} {item : Item} (h : event.item = some item) :
    inputWindow event = item.window := by
  cases event <;> cases h <;> rfl

theorem item_of_mark {event : InputEvent} {item : Item} {pressed : Bool} (h : event.mark item = some pressed) :
    event.item = some item := (Option.ite_none_right_eq_some.mp h).1

/-- An event, with the window that has the focus. -/
abbrev Input := InputEvent × Option WindowId

/-- Whether something is down behind some input. -/
def Down (item : Item) (input : List Input) : Prop := latest (fun event => event.1.mark item) input = some true

/-- The windows that something was pressed in and not released since. -/
def pressedIn (item : Item) (input : List Input) : List WindowId :=
  input.foldl (fun windows event =>
    match event.1.mark item with
    | some true => event.2.toList ++ windows
    | some false => []
    | none => windows) []

theorem pressedIn_concat (item : Item) (input : List Input) (event : Input) :
    pressedIn item (input ++ [event]) =
      match event.1.mark item with
      | some true => event.2.toList ++ pressedIn item input
      | some false => []
      | none => pressedIn item input := by
  rw [pressedIn, List.foldl_append]
  rfl

/-! ### What the thread keeps -/

structure HeldInput where
  /-- The focus each was pressed with. -/
  keys : AList fun _ : UInt32 => Option WindowId
  buttons : List (WindowId × PointerButton)
  /-- Where each was last. -/
  touches : AList fun _ : WindowId × UInt32 => F32 × F32
  deriving DecidableEq

namespace HeldInput

def default : HeldInput := ⟨∅, [], ∅⟩

def track (self : HeldInput) (event : InputEvent) (focus : Option WindowId) : HeldInput :=
  match event with
  | .key keycode pressed =>
    if pressed then { self with keys := self.keys.insert keycode focus }
    else { self with keys := self.keys.erase keycode }
  | .pointerButton window button pressed =>
    if pressed then { self with buttons := self.buttons.insert (window, button) }
    else { self with buttons := self.buttons.filter fun held => held ≠ (window, button) }
  | .touch window id x y phase =>
    match phase with
    | .start | .move => { self with touches := self.touches.insert (window, id) (x, y) }
    | .end | .cancel => { self with touches := self.touches.erase (window, id) }
  | _ => self

/-- Releases of everything that is held. -/
def release (self : HeldInput) : List Input :=
  self.keys.entries.map (fun held => (.key held.1 false, held.2))
    ++ self.buttons.map (fun held => (.pointerButton held.1 held.2 false, none))
    ++ self.touches.entries.map fun held => (.touch held.1.1 held.1.2 held.2.1 held.2.2 .cancel, none)

def holds (self : HeldInput) : Item → Bool
  | .key keycode => keycode ∈ self.keys
  | .button window button => (window, button) ∈ self.buttons
  | .touch window id => (window, id) ∈ self.touches

theorem not_holds_default (item : Item) : default.holds item = false := by
  cases item <;> rfl

theorem mark_of_item {event : InputEvent} {held : Item} (h : event.item = some held) (item : Item) :
    event.mark item = if held = item then some event.presses else none := by
  rw [InputEvent.mark, h]
  exact if_congr Option.some_inj rfl rfl

theorem mem_insert_iff {α β : Type} [DecidableEq α] {table : AList fun _ : α => β} {a a' : α} {b : β} :
    decide (a' ∈ table.insert a b) = (if a = a' then some true else none).getD (decide (a' ∈ table)) := by
  by_cases h : a = a'
  · subst h
    simp
  · simp [h, Ne.symm h]

theorem mem_erase_iff {α β : Type} [DecidableEq α] {table : AList fun _ : α => β} {a a' : α} :
    decide (a' ∈ table.erase a) = (if a = a' then some false else none).getD (decide (a' ∈ table)) := by
  by_cases h : a = a'
  · subst h
    simp
  · simp [h, Ne.symm h]

/-- What is held is what was pressed and not released. -/
theorem holds_track (self : HeldInput) (event : InputEvent) (focus : Option WindowId) (item : Item) :
    (self.track event focus).holds item = (event.mark item).getD (self.holds item) := by
  cases event with
  | key keycode pressed =>
    rw [mark_of_item rfl]
    cases item with
    | key keycode' =>
      simp only [Item.key.injEq]
      cases pressed with
      | false => exact mem_erase_iff
      | true => exact mem_insert_iff
    | _ => cases pressed <;> rfl
  | pointerButton window button pressed =>
    rw [mark_of_item rfl]
    cases item with
    | button window' button' =>
      have hpair : (Item.button window button = .button window' button') = ((window', button') = (window, button)) := by
        rw [Item.button.injEq, Prod.mk.injEq, @eq_comm _ window' window, @eq_comm _ button' button]
      simp only [hpair]
      by_cases hsame : (window', button') = (window, button)
      · rw [if_pos hsame]
        cases pressed with
        | false => exact decide_eq_false fun hmem => (of_decide_eq_true (List.mem_filter.mp hmem).2) hsame
        | true => exact decide_eq_true (List.mem_insert_iff.mpr (Or.inl hsame))
      · rw [if_neg hsame]
        cases pressed with
        | false =>
          refine decide_eq_decide.mpr (List.mem_filter.trans ?_)
          exact and_iff_left (decide_eq_true hsame)
        | true => exact decide_eq_decide.mpr (List.mem_insert_iff.trans (or_iff_right hsame))
    | _ => cases pressed <;> rfl
  | touch window id x y phase =>
    rw [mark_of_item rfl]
    cases item with
    | touch window' id' =>
      have hpair : (Item.touch window id = .touch window' id') = ((window, id) = (window', id')) := by
        rw [Item.touch.injEq, Prod.mk.injEq]
      simp only [hpair]
      cases phase with
      | start => exact mem_insert_iff
      | move => exact mem_insert_iff
      | «end» => exact mem_erase_iff
      | cancel => exact mem_erase_iff
    | _ => cases phase <;> rfl
  | _ => rfl

theorem exists_entry {α β : Type} [DecidableEq α] {table : AList fun _ : α => β} {a : α} (h : a ∈ table) :
    ∃ b, (⟨a, b⟩ : Sigma fun _ : α => β) ∈ table.entries := by
  obtain ⟨b, hb⟩ := Option.isSome_iff_exists.mp (AList.lookup_isSome.mpr h)
  exact ⟨b, AList.mem_lookup_iff.mp hb⟩

/-- What is held is released, -/
theorem mark_release (self : HeldInput) {item : Item} (h : self.holds item = true) :
    ∃ event ∈ self.release, event.1.mark item = some false := by
  cases item with
  | key keycode =>
    obtain ⟨focus, hentry⟩ := exists_entry (of_decide_eq_true h)
    refine ⟨(.key keycode false, focus), ?_, if_pos rfl⟩
    exact List.mem_append_left _ (List.mem_append_left _ (List.mem_map.mpr ⟨_, hentry, rfl⟩))
  | button window button =>
    refine ⟨(.pointerButton window button false, none), ?_, if_pos rfl⟩
    exact List.mem_append_left _ (List.mem_append_right _ (List.mem_map.mpr ⟨_, of_decide_eq_true h, rfl⟩))
  | touch window id =>
    obtain ⟨position, hentry⟩ := exists_entry (of_decide_eq_true h)
    refine ⟨(.touch window id position.1 position.2 .cancel, none), ?_, if_pos rfl⟩
    exact List.mem_append_right _ (List.mem_map.mpr ⟨_, hentry, rfl⟩)

/-- and nothing is pressed. -/
theorem mark_of_mem_release {self : HeldInput} {event : Input} (h : event ∈ self.release) (item : Item) :
    event.1.mark item = none ∨ event.1.mark item = some false := by
  have hpresses : event.1.presses = false := by
    rcases List.mem_append.mp h with h | h
    · rcases List.mem_append.mp h with h | h
      · obtain ⟨held, -, rfl⟩ := List.mem_map.mp h
        rfl
      · obtain ⟨held, -, rfl⟩ := List.mem_map.mp h
        rfl
    · obtain ⟨held, -, rfl⟩ := List.mem_map.mp h
      rfl
  rw [InputEvent.mark, hpresses]
  split
  · exact Or.inr rfl
  · exact Or.inl rfl

end HeldInput

/-! ### A session and the thread that delivers its input -/

/-- The window whose stream stops with an event. -/
def Serving.stops (self : Serving) : Event → Option WindowId
  | .streamStop window => if (self.streams.lookup window).isSome then some window else none
  | .carrierStop window generation =>
    if (self.streams.lookup window).any fun entry => (entry.without generation).carriers.keys = [] then some window
    else none
  | .feedGoes i => self.feeds[i]?.bind fun feed => if feed.phase = .telling then some feed.window else none
  | _ => none

namespace Serving

variable {s s' : Serving} {event : Event}

/-- A window leaves the table when its stream stops. -/
theorem kept_of_step (hstep : s.step event = some s') {window : WindowId}
    (hsome : (s.streams.lookup window).isSome = true) :
    (s'.streams.lookup window).isSome = true ∨ s.stops event = some window := by
  cases event with
  | streamStart w options g offer =>
    obtain ⟨-, hstep⟩ := Option.ite_none_right_eq_some.mp hstep
    split at hstep <;> cases hstep <;> exact Or.inl hsome
  | attach answer =>
    obtain ⟨starting, -, hstep⟩ := Option.bind_eq_some_iff.mp hstep
    split at hstep
    case h_1 codec _ _ =>
      cases hstep
      rcases attach_cases starting codec answer with ⟨track, -, heq⟩ | ⟨reason, -, heq⟩ | ⟨-, heq⟩ <;>
        rw [heq] <;> exact Or.inl hsome
    case h_2 => cases hstep
  | accept sound =>
    obtain ⟨starting, -, hstep⟩ := Option.bind_eq_some_iff.mp hstep
    obtain ⟨-, hstep⟩ := Option.ite_none_right_eq_some.mp hstep
    cases hstep
    left
    rw [lookup_accept]
    split
    · rfl
    · exact hsome
  | streamStop w =>
    obtain ⟨-, hstep⟩ := Option.ite_none_right_eq_some.mp hstep
    cases hstep
    rw [lookup_streamStop]
    by_cases hw : window = w
    · subst hw
      exact Or.inr (if_pos hsome)
    · rw [if_neg hw]
      exact Or.inl hsome
  | carrierStop w g =>
    obtain ⟨-, hstep⟩ := Option.ite_none_right_eq_some.mp hstep
    cases hstep
    cases hentry : s.streams.lookup w with
    | none =>
      rw [stopCarrier_none hentry]
      exact Or.inl hsome
    | some entry =>
      rw [lookup_stopCarrier hentry]
      by_cases hw : window = w
      · subst hw
        rw [if_pos rfl]
        by_cases hempty : (entry.without g).carriers.keys = []
        · refine Or.inr (if_pos ?_)
          rw [hentry, Option.any_some]
          exact decide_eq_true hempty
        · rw [if_neg hempty]
          exact Or.inl rfl
      · rw [if_neg hw]
        exact Or.inl hsome
  | input event =>
    obtain ⟨-, hstep⟩ := Option.ite_none_right_eq_some.mp hstep
    obtain ⟨focus, input, heq⟩ := takeInput_eq s event
    rw [heq] at hstep
    split at hstep <;> cases hstep <;> exact Or.inl hsome
  | feedEnds i =>
    obtain ⟨feed, -, hstep⟩ := Option.bind_eq_some_iff.mp hstep
    obtain ⟨-, hstep⟩ := Option.ite_none_right_eq_some.mp hstep
    cases hstep
    exact Or.inl hsome
  | feedGoes i =>
    obtain ⟨feed, -, hstep⟩ := Option.bind_eq_some_iff.mp hstep
    unfold Serving.feedGoes at hstep
    split at hstep
    case h_2 =>
      cases hstep
      rw [detachWindow_streams]
      exact Or.inl hsome
    case h_4 => cases hstep
    all_goals
      cases hstep
      exact Or.inl hsome

/-- Nothing is handed on but input. -/
theorem input_of_step (hstep : s.step event = some s') (hevent : ∀ input, event ≠ .input input) :
    s'.mayInput = s.mayInput ∧ s'.input = s.input := by
  cases event with
  | streamStart w options g offer =>
    obtain ⟨-, hstep⟩ := Option.ite_none_right_eq_some.mp hstep
    split at hstep <;> cases hstep <;> exact ⟨rfl, rfl⟩
  | attach answer =>
    obtain ⟨starting, -, hstep⟩ := Option.bind_eq_some_iff.mp hstep
    split at hstep
    case h_1 codec _ _ =>
      cases hstep
      rcases attach_cases starting codec answer with ⟨track, -, heq⟩ | ⟨reason, -, heq⟩ | ⟨-, heq⟩ <;>
        rw [heq] <;> exact ⟨rfl, rfl⟩
    case h_2 => cases hstep
  | accept sound =>
    obtain ⟨starting, -, hstep⟩ := Option.bind_eq_some_iff.mp hstep
    obtain ⟨-, hstep⟩ := Option.ite_none_right_eq_some.mp hstep
    cases hstep
    exact ⟨rfl, rfl⟩
  | streamStop w =>
    obtain ⟨-, hstep⟩ := Option.ite_none_right_eq_some.mp hstep
    cases hstep
    exact streamStop_input
  | carrierStop w g =>
    obtain ⟨-, hstep⟩ := Option.ite_none_right_eq_some.mp hstep
    cases hstep
    exact stopCarrier_input
  | input input => exact absurd rfl (hevent input)
  | feedEnds i =>
    obtain ⟨feed, -, hstep⟩ := Option.bind_eq_some_iff.mp hstep
    obtain ⟨-, hstep⟩ := Option.ite_none_right_eq_some.mp hstep
    cases hstep
    exact ⟨rfl, rfl⟩
  | feedGoes i =>
    obtain ⟨feed, -, hstep⟩ := Option.bind_eq_some_iff.mp hstep
    unfold Serving.feedGoes at hstep
    split at hstep
    case h_2 =>
      cases hstep
      exact ⟨detachWindow_mayInput, detachWindow_input⟩
    case h_4 => cases hstep
    all_goals
      cases hstep
      exact ⟨rfl, rfl⟩

/-- Input is handed on with the window that has the focus, which is streamed, and is the
one it names. -/
theorem takeInput_cases (s : Serving) (event : InputEvent) :
    (∃ window, (s.streams.lookup window).isSome = true ∧ (∀ w, inputWindow event = some w → window = w)
      ∧ s.takeInput event = { s with focus := some window, input := s.input ++ [(event, some window)] })
    ∨ (s.takeInput event = s ∧ (∀ w, inputWindow event = some w → ¬ (s.streams.lookup w).isSome = true)
      ∧ (inputWindow event = none → ¬ (s.focus.any fun focus => (s.streams.lookup focus).isSome) = true)) := by
  cases hwindow : inputWindow event with
  | some window =>
    simp only [takeInput, hwindow]
    by_cases hsome : (s.streams.lookup window).isSome = true
    · rw [if_pos hsome]
      refine Or.inl ⟨window, hsome, ?_, rfl⟩
      rintro w ⟨⟩
      rfl
    · rw [if_neg hsome]
      refine Or.inr ⟨rfl, ?_, nofun⟩
      rintro w ⟨⟩
      exact hsome
  | none =>
    simp only [takeInput, hwindow]
    by_cases hfocus : (s.focus.any fun focus => (s.streams.lookup focus).isSome) = true
    · rw [if_pos hfocus]
      obtain ⟨window, hsame, hsome⟩ := (Option.any_eq_true _ _).mp hfocus
      refine Or.inl ⟨window, hsome, nofun, ?_⟩
      rw [hsame]
    · rw [if_neg hfocus]
      exact Or.inr ⟨rfl, nofun, fun _ => hfocus⟩

end Serving

structure Delivery where
  serving : Serving
  /-- How much of the input the thread has taken. -/
  taken : ℕ
  held : HeldInput
  /-- What was delivered to the source. -/
  delivered : List Input
  /-- What is to be released: the client has released it, or the stream of a window it was
  pressed in has stopped. -/
  due : List Item
  /-- The session is over. -/
  hungUp : Bool
  /-- The thread has released what was still held. -/
  released : Bool

inductive Doing
  | serve (event : Event)
  | deliver
  | hangUp
  | release

namespace Delivery

def new (mayInput : Option Bool) : Delivery := ⟨.new mayInput, 0, .default, [], [], false, false⟩

/-- What is to be released from an event on. -/
def falls (self : Delivery) (event : Event) : List Item :=
  match event with
  | .input event =>
    event.item.toList.filter fun item => ¬ event.presses ∧ pressedIn item self.serving.input ≠ []
  | event =>
    match self.serving.stops event with
    | none => []
    | some window =>
      (self.serving.input.filterMap fun event => event.1.item).filter fun item =>
        window ∈ pressedIn item self.serving.input

/-- Gamepads are not the source's: they have a sink of their own. -/
def sink : InputEvent → Bool
  | .gamepad _ _ | .gamepadGone _ => true
  | _ => false

def step (self : Delivery) : Doing → Option Delivery
  | .serve event =>
    if self.hungUp then none
    else (self.serving.step event).map fun serving =>
      { self with serving := serving, due := self.due ++ self.falls event }
  | .deliver =>
    self.serving.input[self.taken]?.map fun event =>
      { self with
        taken := self.taken + 1
        held := self.held.track event.1 event.2
        delivered := if sink event.1 then self.delivered else self.delivered ++ [event]
        due := self.due.filter fun item => event.1.mark item ≠ some false }
  | .hangUp => if self.hungUp then none else some { self with hungUp := true }
  | .release =>
    if self.hungUp ∧ self.taken = self.serving.input.length ∧ ¬ self.released then
      some { self with
        held := .default
        delivered := self.delivered ++ self.held.release
        due := self.due.filter fun item => ¬ self.held.release.any fun event => event.1.mark item = some false
        released := true }
    else none

/-- What an event relies on: nothing is pressed in a window whose stream stops, and a
release of a key that is pressed comes while the window with the focus is streamed. -/
def Gentle (s : Delivery) : Doing → Prop
  | .serve (.input (.key keycode false)) =>
    pressedIn (.key keycode) s.serving.input ≠ [] →
      s.serving.focus.any fun focus => (s.serving.streams.lookup focus).isSome
  | .serve event => ∀ window ∈ s.serving.stops event, ∀ item, window ∉ pressedIn item s.serving.input
  | _ => True

/-! ### What every step preserves -/

variable {s s' : Delivery} {doing : Doing}

/-- What is to be released has its release on the way, and what is held is what is
down. -/
structure Owing (s : Delivery) : Prop where
  barred : s.serving.mayInput = some false → s.serving.input = []
  live : ∀ {item : Item} {window : WindowId}, window ∈ pressedIn item s.serving.input →
    (s.serving.streams.lookup window).isSome = true ∧ ∀ w, item.window = some w → window = w
  taken : s.taken ≤ s.serving.input.length
  due : ∀ item ∈ s.due, ∃ event ∈ s.serving.input.drop s.taken, event.1.mark item = some false
  held : s.released = false → ∀ item, (s.held.holds item = true ↔ Down item (s.serving.input.take s.taken))
    ∧ latest (fun event => event.1.mark item) s.delivered
      = latest (fun event => event.1.mark item) (s.serving.input.take s.taken)
  released : s.released = true → s.hungUp = true ∧ s.taken = s.serving.input.length
    ∧ ∀ item, ¬ Down item s.delivered

theorem owing_new (mayInput : Option Bool) : Owing (new mayInput) where
  barred := fun _ => rfl
  live := fun hmem => absurd hmem List.not_mem_nil
  taken := Nat.le_refl _
  due := fun _ hmem => absurd hmem List.not_mem_nil
  held := by
    intro _ item
    refine ⟨?_, rfl⟩
    rw [new, HeldInput.not_holds_default]
    exact ⟨nofun, nofun⟩
  released := nofun

/-- Input is handed on. -/
theorem owing_input (h : s.Owing) (hup : s.hungUp = false) {event : InputEvent} {window : WindowId}
    (hbarred : s.serving.mayInput ≠ some false) (hlive : (s.serving.streams.lookup window).isSome = true)
    (hwindow : ∀ w, inputWindow event = some w → window = w) :
    Owing { s with
      serving := { s.serving with focus := some window, input := s.serving.input ++ [(event, some window)] }
      due := s.due ++ s.falls (.input event) } := by
  have htake : (s.serving.input ++ [(event, some window)]).take s.taken = s.serving.input.take s.taken :=
    List.take_append_of_le_length h.taken
  have hdrop : (s.serving.input ++ [(event, some window)]).drop s.taken
      = s.serving.input.drop s.taken ++ [(event, some window)] := List.drop_append_of_le_length h.taken
  refine ⟨fun hfalse => absurd hfalse hbarred, ?_, ?_, ?_, ?_, ?_⟩
  · intro item window' hmem
    dsimp only at hmem ⊢
    rw [pressedIn_concat] at hmem
    cases hmark : event.mark item with
    | none =>
      rw [hmark] at hmem
      exact h.live hmem
    | some pressed =>
      rw [hmark] at hmem
      cases pressed with
      | false => cases hmem
      | true =>
        rcases List.mem_append.mp hmem with hmem | hmem
        · cases List.mem_singleton.mp hmem
          refine ⟨hlive, fun w hw => hwindow w ?_⟩
          rw [inputWindow_eq (item_of_mark hmark), hw]
        · exact h.live hmem
  · dsimp only
    rw [List.length_append]
    exact Nat.le_trans h.taken (Nat.le_add_right _ _)
  · intro item hmem
    dsimp only at hmem ⊢
    rw [hdrop]
    rcases List.mem_append.mp hmem with hmem | hmem
    · obtain ⟨release, hrelease, hmark⟩ := h.due item hmem
      exact ⟨release, List.mem_append_left _ hrelease, hmark⟩
    · obtain ⟨hitem, hfalls⟩ := List.mem_filter.mp hmem
      refine ⟨(event, some window), List.mem_append_right _ (List.mem_singleton_self _), ?_⟩
      have hpresses := (of_decide_eq_true hfalls).1
      rw [InputEvent.mark, if_pos (Option.mem_toList.mp hitem), Bool.eq_false_of_not_eq_true hpresses]
  · intro hreleased item
    dsimp only
    rw [htake]
    exact h.held hreleased item
  · intro hreleased
    have hover := (h.released hreleased).1
    rw [hup] at hover
    cases hover

/-- Where nothing falls due, input and table go on as before. -/
theorem owing_serve (h : s.Owing) (hup : s.hungUp = false) {serving : Serving} {due : List Item}
    (hdue : due = s.due) (hmay : serving.mayInput = s.serving.mayInput) (hinput : serving.input = s.serving.input)
    (hlive : ∀ {item : Item} {window : WindowId}, window ∈ pressedIn item s.serving.input →
      (serving.streams.lookup window).isSome = true) :
    Owing { s with serving := serving, due := due } := by
  subst hdue
  refine ⟨?_, ?_, ?_, ?_, ?_, ?_⟩
  · dsimp only
    rw [hmay, hinput]
    exact h.barred
  · intro item window hmem
    dsimp only at hmem
    rw [hinput] at hmem
    exact ⟨hlive hmem, (h.live hmem).2⟩
  · dsimp only
    rw [hinput]
    exact h.taken
  · dsimp only
    rw [hinput]
    exact h.due
  · dsimp only
    rw [hinput]
    exact h.held
  · intro hreleased
    have hover := (h.released hreleased).1
    rw [hup] at hover
    cases hover

/-- A release that is due is not turned away. -/
theorem falls_nil (h : s.Owing) {event : InputEvent} (hgentle : s.Gentle (.serve (.input event)))
    (hnamed : ∀ w, inputWindow event = some w → ¬ (s.serving.streams.lookup w).isSome = true)
    (hfocus : inputWindow event = none →
      ¬ (s.serving.focus.any fun focus => (s.serving.streams.lookup focus).isSome) = true) :
    s.falls (.input event) = [] := by
  refine List.filter_eq_nil_iff.mpr fun item hitem hfalls => ?_
  obtain ⟨hpresses, hpressed⟩ := of_decide_eq_true hfalls
  have hitem := Option.mem_toList.mp hitem
  obtain ⟨window, hmem⟩ := List.exists_mem_of_ne_nil _ hpressed
  obtain ⟨hlive, hwindow⟩ := h.live hmem
  cases hof : item.window with
  | some w =>
    rw [hwindow w hof] at hlive
    exact hnamed w ((inputWindow_eq hitem).trans hof) hlive
  | none =>
    refine hfocus ((inputWindow_eq hitem).trans hof) ?_
    cases event with
    | key keycode pressed =>
      cases hitem
      cases pressed with
      | false => exact hgentle hpressed
      | true => exact absurd rfl hpresses
    | pointerButton w button pressed =>
      cases hitem
      cases hof
    | touch w id x y phase =>
      cases hitem
      cases hof
    | _ => cases hitem

/-- A stream stops in which nothing is pressed, or none stops. -/
theorem owing_other (h : s.Owing) (hup : s.hungUp = false) {event : Event} (hevent : ∀ input, event ≠ .input input)
    (hgentle : ∀ window ∈ s.serving.stops event, ∀ item, window ∉ pressedIn item s.serving.input) {serving : Serving}
    (hserving : s.serving.step event = some serving) :
    Owing { s with serving := serving, due := s.due ++ s.falls event } := by
  obtain ⟨hmay, hinput⟩ := Serving.input_of_step hserving hevent
  refine owing_serve h hup ?_ hmay hinput ?_
  · have hfalls : s.falls event = [] := by
      have heq : s.falls event = match s.serving.stops event with
          | none => []
          | some window => (s.serving.input.filterMap fun event => event.1.item).filter fun item =>
              window ∈ pressedIn item s.serving.input := by
        cases event with
        | input input => exact absurd rfl (hevent input)
        | _ => rfl
      rw [heq]
      cases hstops : s.serving.stops event with
      | none => rfl
      | some window =>
        refine List.filter_eq_nil_iff.mpr fun item _ hmem => ?_
        exact hgentle window hstops item (of_decide_eq_true hmem)
    rw [hfalls, List.append_nil]
  · intro item window hmem
    refine (Serving.kept_of_step hserving (h.live hmem).1).resolve_right fun hstops => ?_
    exact hgentle window hstops item hmem

theorem Owing.serve (h : s.Owing) {event : Event} (hgentle : s.Gentle (.serve event))
    (hstep : s.step (.serve event) = some s') : s'.Owing := by
  simp only [step] at hstep
  split at hstep
  case isTrue => cases hstep
  case isFalse hup =>
  have hup := Bool.eq_false_of_not_eq_true hup
  obtain ⟨serving, hserving, rfl⟩ := Option.map_eq_some_iff.mp hstep
  cases event with
  | input event =>
    obtain ⟨-, hserving⟩ := Option.ite_none_right_eq_some.mp hserving
    have hlive : ∀ {item : Item} {window : WindowId}, window ∈ pressedIn item s.serving.input →
        (s.serving.streams.lookup window).isSome = true := fun hmem => (h.live hmem).1
    split at hserving
    case isTrue hbarred =>
      cases hserving
      refine owing_serve h hup ?_ rfl rfl hlive
      have hfalls : s.falls (.input event) = [] := by
        refine List.filter_eq_nil_iff.mpr fun item _ hfalls => ?_
        rw [h.barred hbarred] at hfalls
        exact (of_decide_eq_true hfalls).2 rfl
      rw [hfalls, List.append_nil]
    case isFalse hbarred =>
      cases hserving
      rcases s.serving.takeInput_cases event with ⟨window, hsome, hwindow, heq⟩ | ⟨heq, hnamed, hfocus⟩
      · rw [heq]
        exact owing_input h hup hbarred hsome hwindow
      · rw [heq]
        refine owing_serve h hup ?_ rfl rfl hlive
        rw [falls_nil h hgentle hnamed hfocus, List.append_nil]
  | _ => exact owing_other h hup (fun _ hsame => by cases hsame) hgentle hserving

/-- The thread delivers what is next. -/
theorem Owing.deliver (h : s.Owing) (hstep : s.step .deliver = some s') : s'.Owing := by
  obtain ⟨event, hevent, rfl⟩ := Option.map_eq_some_iff.mp hstep
  have hlt := (List.getElem?_eq_some_iff.mp hevent).1
  have htake : s.serving.input.take (s.taken + 1) = s.serving.input.take s.taken ++ [event] := by
    rw [List.take_add_one, hevent]
    rfl
  have hdrop : s.serving.input.drop s.taken = event :: s.serving.input.drop (s.taken + 1) := by
    rw [List.drop_eq_getElem_cons hlt, (List.getElem?_eq_some_iff.mp hevent).2]
  refine ⟨h.barred, h.live, hlt, ?_, ?_, ?_⟩
  · intro item hmem
    obtain ⟨hmem, hother⟩ := List.mem_filter.mp hmem
    obtain ⟨release, hrelease, hmark⟩ := h.due item hmem
    rw [hdrop] at hrelease
    rcases List.mem_cons.mp hrelease with rfl | hrelease
    · exact absurd hmark (of_decide_eq_true hother)
    · exact ⟨release, hrelease, hmark⟩
  · intro hreleased item
    obtain ⟨hheld, hdelivered⟩ := h.held hreleased item
    dsimp only
    rw [htake, Down, latest_concat]
    constructor
    · rw [HeldInput.holds_track]
      cases event.1.mark item with
      | none => exact hheld
      | some pressed => exact Option.some_inj.symm
    · split
      case isTrue hsink =>
        have hnone : event.1.mark item = none := by
          obtain ⟨event, focus⟩ := event
          cases event <;> first | rfl | cases hsink
        rw [hnone, Option.none_or]
        exact hdelivered
      case isFalse =>
        rw [latest_concat, hdelivered]
  · intro hreleased
    have hend := (h.released hreleased).2.1
    omega

/-- Once everything is delivered, what is held is released. -/
theorem Owing.release (h : s.Owing) (hstep : s.step .release = some s') : s'.Owing := by
  obtain ⟨⟨hup, hend, hbefore⟩, hstep⟩ := Option.ite_none_right_eq_some.mp hstep
  cases hstep
  refine ⟨h.barred, h.live, h.taken, fun item hmem => h.due item (List.mem_filter.mp hmem).1, nofun, fun _ => ?_⟩
  refine ⟨hup, hend, fun item hdown => ?_⟩
  obtain ⟨hheld, hdelivered⟩ := h.held (Bool.eq_false_of_not_eq_true hbefore) item
  rw [Down, latest_append] at hdown
  by_cases hholds : s.held.holds item = true
  · have hlatest : latest (fun event => event.1.mark item) s.held.release = some false :=
      latest_eq_some (fun event hmem => HeldInput.mark_of_mem_release hmem item) (s.held.mark_release hholds)
    rw [hlatest] at hdown
    cases hdown
  · cases hlatest : latest (fun event : Input => event.1.mark item) s.held.release with
    | none =>
      rw [hlatest, Option.none_or, hdelivered] at hdown
      exact hholds (hheld.mpr hdown)
    | some pressed =>
      rw [hlatest, Option.some_or] at hdown
      cases hdown
      obtain ⟨event, hmem, hmark⟩ := List.exists_of_findSome?_eq_some hlatest
      rcases HeldInput.mark_of_mem_release (List.mem_reverse.mp hmem) item with hnone | hfalse
      · rw [hnone] at hmark
        cases hmark
      · rw [hfalse] at hmark
        cases hmark

/-- What every step preserves where what is pressed can be released. -/
theorem Owing.step (h : s.Owing) (hgentle : s.Gentle doing) (hstep : s.step doing = some s') : s'.Owing := by
  cases doing with
  | serve event => exact h.serve hgentle hstep
  | deliver => exact h.deliver hstep
  | hangUp =>
    simp only [Delivery.step] at hstep
    split at hstep
    case isTrue => cases hstep
    case isFalse =>
      cases hstep
      exact ⟨h.barred, h.live, h.taken, h.due, h.held, fun hreleased => ⟨rfl, (h.released hreleased).2⟩⟩
  | release => exact h.release hstep

/-! ### Runs -/

/-- Once all input is delivered, nothing is down that is to be released, and behind the
session's end nothing is down. -/
theorem nothing_stuck {doings : List Doing} {mayInput : Option Bool}
    (h : Run.Guarded step Gentle doings (new mayInput) s) :
    (s.taken = s.serving.input.length → ∀ item ∈ s.due, ¬ Down item s.delivered)
      ∧ (s.released = true → ∀ item, ¬ Down item s.delivered) := by
  have howing : s.Owing :=
    h.invariant (fun _ _ _ howing hgentle hstep => howing.step hgentle hstep) (owing_new mayInput)
  refine ⟨fun hend item hmem => ?_, fun hreleased => (howing.released hreleased).2.2⟩
  obtain ⟨event, hpending, -⟩ := howing.due item hmem
  rw [hend, List.drop_length] at hpending
  cases hpending

def typedOffer : Offer := ⟨true, [], [.h264], .ok ()⟩

/-- A window is streamed, and the pointer is moved into it. -/
def streamed : List Doing :=
  [.serve (.streamStart 7 ⟨.native, [.h264]⟩ 0 typedOffer), .serve (.attach (.ok ())), .serve (.accept false),
    .serve (.input (.pointerMove 7 0 0)), .deliver]

/-- A key is pressed and released, a button is pressed, and the session ends. -/
def typed : List Doing :=
  streamed ++ [.serve (.input (.key 30 true)), .serve (.input (.key 30 false)),
    .serve (.input (.pointerButton 7 .left true)), .deliver, .deliver, .deliver, .hangUp, .release]

/-- The key is released by the client, and the button behind the session's end. -/
theorem nothing_stuck_typed :
    ∃ s, typed.foldlM step (new none) = some s
      ∧ s.delivered = [(.pointerMove 7 0 0, some 7), (.key 30 true, some 7), (.key 30 false, some 7),
        (.pointerButton 7 .left true, some 7), (.pointerButton 7 .left false, none)]
      ∧ (s.taken = s.serving.input.length → ∀ item ∈ s.due, ¬ Down item s.delivered)
      ∧ (s.released = true → ∀ item, ¬ Down item s.delivered) := by
  have hrun : Run.Guarded step Gentle typed (new none) _ :=
    ⟨nofun, _, rfl, nofun, _, rfl, nofun, _, rfl, nofun, _, rfl, trivial, _, rfl, nofun, _, rfl, (fun _ => rfl), _, rfl,
      nofun, _, rfl, trivial, _, rfl, trivial, _, rfl, trivial, _, rfl, trivial, _, rfl, trivial, _, rfl, rfl⟩
  exact ⟨_, hrun.run, rfl, nothing_stuck hrun⟩

/-- A key is pressed in a window whose stream stops. -/
def stuck : List Doing := streamed ++ [.serve (.input (.key 30 true)), .deliver, .serve (.streamStop 7)]

/-- **A key that is pressed in a window stays down when the window's stream stops.** -/
theorem stuck_down :
    ¬ ∀ (mayInput : Option Bool) (doings : List Doing) (s : Delivery), doings.foldlM step (new mayInput) = some s →
      s.taken = s.serving.input.length → ∀ item ∈ s.due, ¬ Down item s.delivered := by
  intro h
  exact h none stuck _ rfl rfl (.key 30) (List.mem_singleton_self _) rfl

end Delivery

end WindowCast.Stream
