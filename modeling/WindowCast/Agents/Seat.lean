import WindowCast.Agents.Injector

/-!
# The seat that input lands on

The compositor gives a button to the window under the pointer and a key to the one that has
the focus, and others act on the same seat: the user at the computer, other sessions, and
sway itself.  The injector asks for the focus only where a window is not the one it asked
for last, and moves the pointer only into windows that sway has.

## Main definitions

* `Seat`, `Answers`, `Turn` — the seat, what sway does on it, and who acts on it next.
* `Seat.deeds` — the containers that requests act on.
* `Lands` — what an event does, it does to its window.
* `Aimed` — an event comes while that is where it will land.

## Main results

* `lands_iff_aimed` — where an event lands.
* `lands_iff` — **when every event lands on its window**.
-/

namespace WindowCast.Agents

open WindowCast.Host (WindowId)
open WindowCast.Stream (InputEvent Input PointerButton TouchPhase F32 inputWindow isZero Delivery Doing)

variable {x : Xkb}

/-- The container that has the focus, and the one under the pointer. -/
structure Seat where
  focused : Option ℕ
  under : Option ℕ
  deriving DecidableEq, Repr

/-- What sway does when it is asked. -/
structure Answers where
  /-- Whether it gives the focus to a container. -/
  focuses : ℕ → Bool
  /-- What is under the pointer behind that: containers are raised, and the pointer is warped. -/
  raised : Option ℕ → Option ℕ
  /-- What is on top at a place of a window. -/
  top : WindowId → F32 → F32 → Option ℕ

section

variable {Mods : Type}

/-- Requests for the focus have a socket of their own, and are answered at once; the others are
handed over when the event is done. -/
def Request.atOnce : Request Mods → Bool
  | .focus _ => true
  | _ => false

/-- Requests in the order they reach the compositor in. -/
def flushed (requests : List (Request Mods)) : List (Request Mods) :=
  requests.filter Request.atOnce ++ requests.filter fun request => !request.atOnce

namespace Seat

def ask (answers : Answers) (seat : Seat) : Request Mods → Seat
  | .focus conId => if answers.focuses conId then ⟨some conId, answers.raised seat.under⟩ else seat
  | .motion window dx dy => { seat with under := answers.top window dx dy }
  | _ => seat

/-- What a request acts on, if it does act. -/
def actsOn (seat : Seat) : Request Mods → Option (Option ℕ)
  | .key _ _ => some seat.focused
  | .button _ _ => some seat.under
  | .axis dx dy => if isZero dx && isZero dy then none else some seat.under
  | _ => none

/-- What some requests act on. -/
def deeds (answers : Answers) : Seat → List (Request Mods) → List (Option ℕ)
  | _, [] => []
  | seat, request :: rest => (seat.actsOn request).toList ++ deeds answers (seat.ask answers request) rest

end Seat

end

/-- What happens next on the seat. -/
inductive Turn
  /-- Others leave it so. -/
  | others (seat : Seat)
  | input (arrival : Arrival) (answers : Answers)

/-- What the input thread was given. -/
def inputs (turns : List Turn) : List Input :=
  turns.filterMap fun
    | .others _ => none
    | .input arrival _ => some arrival.input

/-- What is asked for an event. -/
def Injector.asked (self : Injector x) (arrival : Arrival) : List (Request x.Mods) :=
  (self.inject arrival).requests.drop self.requests.length

structure Desk (x : Xkb) where
  injector : Injector x
  seat : Seat

namespace Desk

def step (self : Desk x) : Turn → Desk x
  | .others seat => { self with seat := seat }
  | .input arrival answers =>
    { injector := self.injector.inject arrival
      seat := (flushed (self.injector.asked arrival)).foldl (Seat.ask answers) self.seat }

def run (x : Xkb) (seat : Seat) (past : List Turn) : Desk x := past.foldl step ⟨.new x, seat⟩

end Desk

/-- The container of the window that an event is for: the one it names, or else the one with the
session's focus. -/
def target (arrival : Arrival) : Option ℕ :=
  ((inputWindow arrival.input.1).or arrival.input.2).bind arrival.sway.placed

/-- What an event does, it does to its window. -/
def Lands (x : Xkb) (seat : Seat) (past : List Turn) : Turn → Prop
  | .others _ => True
  | .input arrival answers =>
    let desk := Desk.run x seat past
    ∀ deed ∈ desk.seat.deeds answers (flushed (desk.injector.asked arrival)),
      ∃ conId, deed = some conId ∧ target arrival = some conId

/-- The injector asks for the focus of a window, and sway gives it. -/
def Desk.Gives (self : Desk x) (answers : Answers) (window : WindowId) (conId : ℕ) : Prop :=
  self.injector.focused ≠ some window ∧ answers.focuses conId = true

instance (self : Desk x) (answers : Answers) (window : WindowId) (conId : ℕ) :
    Decidable (self.Gives answers window conId) := inferInstanceAs (Decidable (_ ∧ _))

/-- Keys go to the window with the session's focus: it has the seat's, or is given it. -/
def Desk.KeysAimed (self : Desk x) (arrival : Arrival) (answers : Answers) : Prop :=
  ∃ window conId, arrival.input.2 = some window ∧ arrival.sway.placed window = some conId ∧
    (self.seat.focused = some conId ∨ self.Gives answers window conId)

/-- What is under the pointer when a button is pressed. -/
def Desk.underPress (self : Desk x) (answers : Answers) (window : WindowId) (conId : ℕ) : Option ℕ :=
  if self.Gives answers window conId then answers.raised self.seat.under else self.seat.under

/-- An event comes while it will land on its window. -/
def Aimed (x : Xkb) (seat : Seat) (past : List Turn) : Turn → Prop
  | .others _ => True
  | .input arrival answers =>
    let desk := Desk.run x seat past
    let placed := arrival.sway.placed
    match arrival.input.1 with
    | .key _ _ => desk.KeysAimed arrival answers
    | .text text => (∃ c ∈ text, x.types c = true) → desk.KeysAimed arrival answers
    | .pointerButton window _ true => ∃ conId, placed window = some conId ∧ desk.underPress answers window conId = some conId
    | .pointerButton window _ false => ∃ conId, placed window = some conId ∧ desk.seat.under = some conId
    | .pointerScroll window dx dy =>
      (isZero dx && isZero dy) = false → ∃ conId, placed window = some conId ∧ desk.seat.under = some conId
    | .touch window _ dx dy .start => ∃ conId, placed window = some conId ∧
        (if arrival.sway.layout then answers.top window dx dy else desk.underPress answers window conId) = some conId
    | .touch window _ dx dy .«end» | .touch window _ dx dy .cancel => ∃ conId, placed window = some conId ∧
        (if arrival.sway.layout then answers.top window dx dy else desk.seat.under) = some conId
    | _ => True

/-! ### What is asked for an event -/

section

variable {self self' self'' : Injector x} {sway : Sway} {window : WindowId} {arrival : Arrival} {keys keys' : Prop}

namespace Injector

theorem asked_eq {more : List (Request x.Mods)} (h : (self.inject arrival).requests = self.requests ++ more) :
    self.asked arrival = more := by
  rw [asked, h, List.drop_left]

/-- What is asked for the focus of a window. -/
def focusing (self : Injector x) (sway : Sway) (window : WindowId) : List (Request x.Mods) :=
  if self.focused = some window then [] else (sway.placed window).toList.map .focus

theorem requests_focus (self : Injector x) :
    (self.focus sway window).requests = self.requests ++ self.focusing sway window := by
  unfold focus focusing
  split
  · exact (List.append_nil _).symm
  · cases hplaced : sway.placed window with
    | none => exact (List.append_nil _).symm
    | some conId => rfl

/-- What is asked for a place of a window. -/
def moving (sway : Sway) (window : WindowId) (dx dy : F32) : List (Request x.Mods) :=
  if (sway.placed window).isSome && sway.layout then [.motion window dx dy] else []

theorem requests_moveTo (self : Injector x) (dx dy : F32) :
    (self.moveTo sway window dx dy).requests = self.requests ++ moving sway window dx dy := by
  unfold moveTo moving
  cases hplaced : sway.placed window with
  | none => exact (List.append_nil _).symm
  | some conId =>
    cases hlayout : sway.layout with
    | false => exact (List.append_nil _).symm
    | true => rfl

/-- The pointer is not what is focused. -/
theorem focusing_moveTo (self : Injector x) (window' : WindowId) (dx dy : F32) :
    (self.moveTo sway window dx dy).focusing sway window' = self.focusing sway window' := by
  have hfocused : (self.moveTo sway window dx dy).focused = self.focused := by
    unfold moveTo
    split
    · split <;> rfl
    · rfl
  rw [focusing, focusing, hfocused]

theorem focusing_atOnce : ∀ request ∈ self.focusing sway window, request.atOnce = true := by
  unfold focusing
  split
  · nofun
  · intro request hmem
    obtain ⟨conId, -, rfl⟩ := List.mem_map.mp hmem
    rfl

theorem moving_not_atOnce {dx dy : F32} :
    ∀ request ∈ (moving sway window dx dy : List (Request x.Mods)), request.atOnce = false := by
  unfold moving
  split
  · intro request hmem
    obtain rfl := List.mem_singleton.mp hmem
    rfl
  · nofun

section

variable {focus : Option WindowId} {id : UInt32} {dx dy : F32}

theorem asked_pointerMove (self : Injector x) :
    self.asked ⟨(.pointerMove window dx dy, focus), sway⟩ = moving sway window dx dy :=
  asked_eq (requests_moveTo self dx dy)

theorem asked_move (self : Injector x) :
    self.asked ⟨(.touch window id dx dy .move, focus), sway⟩ = moving sway window dx dy :=
  asked_eq (requests_moveTo self dx dy)

theorem asked_press (self : Injector x) (button : PointerButton) :
    self.asked ⟨(.pointerButton window button true, focus), sway⟩ =
      [] ++ (self.focusing sway window ++ [.button (buttonCode button) true]) := by
  refine asked_eq ?_
  rw [List.nil_append, ← List.append_assoc, ← requests_focus]
  rfl

/-- A touch moves the pointer, asks for the focus, and presses. -/
theorem asked_start (self : Injector x) :
    self.asked ⟨(.touch window id dx dy .start, focus), sway⟩ =
      moving sway window dx dy ++ (self.focusing sway window ++ [.button (buttonCode .left) true]) := by
  refine asked_eq ?_
  rw [← focusing_moveTo self window dx dy, ← List.append_assoc, ← requests_moveTo, ← List.append_assoc, ← requests_focus]
  rfl

theorem asked_over {phase : TouchPhase} (self : Injector x) (hover : phase = .«end» ∨ phase = .cancel) :
    self.asked ⟨(.touch window id dx dy phase, focus), sway⟩ =
      moving sway window dx dy ++ [.button (buttonCode .left) false] := by
  refine asked_eq ?_
  rw [← List.append_assoc, ← requests_moveTo]
  rcases hover with rfl | rfl <;> rfl

end

/-- What was asked between the two is asked of the keyboard, and there are keys in it or not. -/
def Typed (before after : Injector x) (keys : Prop) : Prop :=
  ∃ more, after.requests = before.requests ++ more ∧ (∀ request ∈ more, request.ofKeyboard = true) ∧
    (keys ↔ ∃ code pressed, .key code pressed ∈ more)

theorem typed_key (self : Injector x) (code : UInt32) (pressed : Bool) : self.Typed (self.key code pressed) True := by
  refine ⟨_, requests_key self code pressed, ?_, iff_of_true trivial ⟨code, pressed, List.mem_cons_self⟩⟩
  intro request hmem
  rcases List.mem_cons.mp hmem with rfl | hmem
  · rfl
  · split at hmem
    · obtain rfl := List.mem_singleton.mp hmem
      rfl
    · cases hmem

theorem Typed.trans (h : self.Typed self' keys) (h' : self'.Typed self'' keys') : self.Typed self'' (keys ∨ keys') := by
  obtain ⟨more, hmore, hall, hkeys⟩ := h
  obtain ⟨more', hmore', hall', hkeys'⟩ := h'
  refine ⟨more ++ more', by rw [hmore', hmore, List.append_assoc], fun request hmem => ?_, ?_⟩
  · exact (List.mem_append.mp hmem).elim (hall request) (hall' request)
  · rw [hkeys, hkeys']
    simp only [List.mem_append, exists_or]

theorem typed_typeChar (self : Injector x) (c : Char) : self.Typed (self.typeChar c) (x.types c = true) := by
  unfold Xkb.types
  cases htypeable : x.typeable c with
  | none =>
    rw [typeChar_none htypeable]
    exact ⟨[], (List.append_nil _).symm, nofun, iff_of_false Bool.false_ne_true nofun⟩
  | some entry =>
    obtain ⟨code, shift⟩ := entry
    have htap (self : Injector x) := (typed_key self code true).trans (typed_key _ code false)
    cases shift with
    | false =>
      rw [typeChar_plain htypeable]
      simpa only [or_self, Option.isSome_some] using htap self
    | true =>
      have hshift := ((typed_key self KEY_LEFTSHIFT true).trans (htap _)).trans (typed_key _ KEY_LEFTSHIFT false)
      rw [typeChar_shift htypeable]
      simpa only [or_self, Option.isSome_some] using hshift

theorem typed_text (self : Injector x) (text : Text) :
    self.Typed (text.foldl typeChar self) (∃ c ∈ text, x.types c = true) := by
  induction text generalizing self with
  | nil => exact ⟨[], (List.append_nil _).symm, nofun, iff_of_false nofun nofun⟩
  | cons c text ih =>
    have hboth := (typed_typeChar self c).trans (ih (self.typeChar c))
    rw [List.foldl_cons]
    simpa only [List.mem_cons, exists_eq_or_imp] using hboth

end Injector

end

/-! ### Where it lands -/

section

variable {seat : Seat} {answers : Answers} {injector : Injector x} {sway : Sway} {window : WindowId}
  {requests requests' before behind : List (Request x.Mods)}

theorem Seat.deeds_append : seat.deeds answers (requests ++ requests') =
    seat.deeds answers requests ++ (requests.foldl (Seat.ask answers) seat).deeds answers requests' := by
  induction requests generalizing seat with
  | nil => rfl
  | cons request requests ih => rw [List.cons_append, deeds, deeds, ih, List.append_assoc, List.foldl_cons]

/-- Keys all land on what has the focus. -/
theorem Seat.mem_deeds_keyboard (h : ∀ request ∈ requests, request.ofKeyboard = true) (deed : Option ℕ) :
    deed ∈ seat.deeds answers requests ↔ deed = seat.focused ∧ ∃ code pressed, .key code pressed ∈ requests := by
  induction requests with
  | nil => exact iff_of_false List.not_mem_nil nofun
  | cons request requests ih =>
    obtain ⟨hrequest, hrest⟩ := List.forall_mem_cons.mp h
    have hsame : seat.ask answers request = seat := by
      cases request <;> first | rfl | cases hrequest
    rw [deeds, List.mem_append, hsame, ih hrest]
    cases request with
    | key code pressed =>
      have hone : deed ∈ (seat.actsOn (.key code pressed : Request x.Mods)).toList ↔ deed = seat.focused :=
        List.mem_singleton
      rw [hone]
      exact ⟨fun h => ⟨h.elim id And.left, code, pressed, List.mem_cons_self⟩, fun h => .inl h.1⟩
    | modifiers mods =>
      have hnone : deed ∉ (seat.actsOn (.modifiers mods : Request x.Mods)).toList := List.not_mem_nil
      rw [or_iff_right hnone]
      simp only [List.mem_cons, reduceCtorEq, false_or]
    | _ => cases hrequest

/-- What does not reach the compositor at once keeps its order. -/
theorem filter_later (h : ∀ request ∈ requests, request.atOnce = false) :
    requests.filter Request.atOnce = [] ∧ (requests.filter fun request => !request.atOnce) = requests :=
  ⟨List.filter_eq_nil_iff.mpr fun request hmem => Bool.not_eq_true _ ▸ h request hmem,
    List.filter_eq_self.mpr fun request hmem => Bool.not_eq_true' _ ▸ h request hmem⟩

theorem flushed_of_later (h : ∀ request ∈ requests, request.atOnce = false) : flushed requests = requests := by
  rw [flushed, (filter_later h).1, (filter_later h).2, List.nil_append]

/-- A request for the focus comes first. -/
theorem flushed_of_focusing (hbefore : ∀ request ∈ before, request.atOnce = false)
    (hbehind : ∀ request ∈ behind, request.atOnce = false) :
    flushed (before ++ (injector.focusing sway window ++ behind)) = injector.focusing sway window ++ (before ++ behind) := by
  have hall : (injector.focusing sway window).filter Request.atOnce = injector.focusing sway window ∧
      ((injector.focusing sway window).filter fun request => !request.atOnce) = [] :=
    ⟨List.filter_eq_self.mpr Injector.focusing_atOnce, List.filter_eq_nil_iff.mpr fun request hmem => by
      rw [Injector.focusing_atOnce request hmem]
      exact Bool.false_ne_true⟩
  rw [flushed]
  simp only [List.filter_append, filter_later hbefore, filter_later hbehind, hall, List.append_nil, List.nil_append]

/-- Requests for the focus and motions act on nothing. -/
theorem Seat.deeds_eq_nil (h : ∀ request ∈ requests, ∀ seat : Seat, seat.actsOn request = none) :
    seat.deeds answers requests = [] := by
  induction requests generalizing seat with
  | nil => rfl
  | cons request requests ih =>
    obtain ⟨hrequest, hrest⟩ := List.forall_mem_cons.mp h
    rw [deeds, hrequest, ih hrest]
    rfl

theorem actsOn_focusing : ∀ request ∈ injector.focusing sway window, ∀ seat : Seat, seat.actsOn request = none := by
  intro request hmem seat
  have honce := Injector.focusing_atOnce request hmem
  cases request <;> first | rfl | cases honce

theorem actsOn_moving {dx dy : F32} :
    ∀ request ∈ (Injector.moving sway window dx dy : List (Request x.Mods)), ∀ seat : Seat, seat.actsOn request = none := by
  unfold Injector.moving
  split
  · intro request hmem seat
    obtain rfl := List.mem_singleton.mp hmem
    rfl
  · nofun

end

section

variable {desk : Desk x} {answers : Answers} {arrival : Arrival} {sway : Sway} {window : WindowId} {conId : ℕ}

/-- The seat behind the request for a window's focus. -/
theorem seat_focusing (hplaced : sway.placed window = some conId) :
    (desk.injector.focusing sway window).foldl (Seat.ask answers) desk.seat =
      if desk.Gives answers window conId then ⟨some conId, answers.raised desk.seat.under⟩ else desk.seat := by
  have hgives : desk.Gives answers window conId ↔
      desk.injector.focused ≠ some window ∧ answers.focuses conId = true := Iff.rfl
  unfold Injector.focusing
  rw [hplaced]
  by_cases hfocused : desk.injector.focused = some window
  · rw [if_pos hfocused, if_neg fun h => (hgives.mp h).1 hfocused]
    rfl
  · rw [if_neg hfocused]
    exact if_congr ((and_iff_right hfocused).symm.trans hgives.symm) rfl rfl

theorem focused_focusing (hplaced : sway.placed window = some conId) :
    ((desk.injector.focusing sway window).foldl (Seat.ask answers) desk.seat).focused = some conId ↔
      desk.seat.focused = some conId ∨ desk.Gives answers window conId := by
  rw [seat_focusing hplaced]
  split
  · rename_i h
    exact iff_of_true rfl (.inr h)
  · rename_i h
    exact (or_iff_left h).symm

theorem under_focusing (hplaced : sway.placed window = some conId) :
    ((desk.injector.focusing sway window).foldl (Seat.ask answers) desk.seat).under =
      desk.underPress answers window conId := by
  rw [seat_focusing hplaced]
  unfold Desk.underPress
  split <;> rfl

theorem under_moving {seat : Seat} {dx dy : F32} (hplaced : sway.placed window = some conId) :
    ((Injector.moving sway window dx dy : List (Request x.Mods)).foldl (Seat.ask answers) seat).under =
      if sway.layout then answers.top window dx dy else seat.under := by
  unfold Injector.moving
  rw [hplaced]
  cases sway.layout <;> rfl

/-- What is done is done to one thing, which is the window's container. -/
theorem lands_iff_placed {placed under : Option ℕ} {at' : ℕ → Option ℕ} (h : ∀ conId, placed = some conId → under = at' conId) :
    (∀ deed ∈ [under], ∃ conId, deed = some conId ∧ placed = some conId) ↔
      ∃ conId, placed = some conId ∧ at' conId = some conId := by
  rw [List.forall_mem_singleton]
  exact exists_congr fun conId => ⟨fun hboth => ⟨hboth.2, h conId hboth.2 ▸ hboth.1⟩, fun hboth => ⟨h conId hboth.1 ▸ hboth.2, hboth.1⟩⟩

/-- The deeds of a press behind a request for the focus, and a motion. -/
theorem deeds_press {before : List (Request x.Mods)} (hbefore : ∀ request ∈ before, request.atOnce = false)
    (hquiet : ∀ request ∈ before, ∀ seat : Seat, seat.actsOn request = none) (code : UInt32) (pressed : Bool) :
    desk.seat.deeds answers (flushed (before ++ (desk.injector.focusing sway window ++ [.button code pressed]))) =
      [(before.foldl (Seat.ask answers)
        ((desk.injector.focusing sway window).foldl (Seat.ask answers) desk.seat)).under] := by
  have hbutton : ∀ request ∈ [(.button code pressed : Request x.Mods)], request.atOnce = false := by
    intro request hmem
    obtain rfl := List.mem_singleton.mp hmem
    rfl
  rw [flushed_of_focusing hbefore hbutton, Seat.deeds_append, Seat.deeds_append, Seat.deeds_eq_nil actsOn_focusing,
    Seat.deeds_eq_nil hquiet]
  rfl

/-- The deeds of keys behind a request for the focus. -/
theorem keys_land {self' : Injector x} {keys : Prop}
    (hfocus : (desk.injector.focusOn arrival.sway arrival.input.2).Typed self' keys)
    (hinject : desk.injector.inject arrival = self') (hnamed : inputWindow arrival.input.1 = none) :
    (∀ deed ∈ desk.seat.deeds answers (flushed (desk.injector.asked arrival)),
      ∃ conId, deed = some conId ∧ target arrival = some conId) ↔ (keys → desk.KeysAimed arrival answers) := by
  obtain ⟨more, hmore, hall, hkeys⟩ := hfocus
  have hlater : ∀ request ∈ more, request.atOnce = false := fun request hmem => by
    have := hall request hmem
    cases request <;> first | rfl | cases this
  have htarget : target arrival = arrival.input.2.bind arrival.sway.placed := by
    rw [target, hnamed, Option.none_or]
  rw [htarget, Desk.KeysAimed]
  cases hsession : arrival.input.2 with
  | none =>
    rw [hsession, Injector.focusOn, ← hinject] at hmore
    have hflushed : flushed more = more := flushed_of_later hlater
    rw [Injector.asked_eq hmore, hflushed]
    simp only [Seat.mem_deeds_keyboard hall]
    rw [hkeys]
    constructor
    · intro h hkey
      obtain ⟨conId, -, hnone⟩ := h _ ⟨rfl, hkey⟩
      cases hnone
    · rintro h deed ⟨-, hkey⟩
      obtain ⟨window, conId, hnone, -⟩ := h hkey
      cases hnone
  | some window =>
    rw [hsession, Injector.focusOn, Injector.requests_focus, ← hinject, List.append_assoc] at hmore
    have hflushed := @flushed_of_focusing x desk.injector arrival.sway window [] more nofun hlater
    rw [List.nil_append, List.nil_append] at hflushed
    rw [Injector.asked_eq hmore, hflushed, Seat.deeds_append, Seat.deeds_eq_nil actsOn_focusing, List.nil_append]
    simp only [Seat.mem_deeds_keyboard hall]
    rw [hkeys]
    constructor
    · intro h hkey
      obtain ⟨conId, hfocused, hplaced⟩ := h _ ⟨rfl, hkey⟩
      exact ⟨window, conId, rfl, hplaced, (focused_focusing hplaced).mp hfocused⟩
    · rintro h deed ⟨rfl, hkey⟩
      obtain ⟨window', conId, hwindow, hplaced, hfocused⟩ := h hkey
      obtain rfl := Option.some.inj hwindow
      exact ⟨conId, (focused_focusing hplaced).mpr hfocused, hplaced⟩

/-- A press behind a motion. -/
theorem deeds_moving (dx dy : F32) (code : UInt32) (pressed : Bool) (seat : Seat) :
    seat.deeds answers (flushed (Injector.moving sway window dx dy ++ [(.button code pressed : Request x.Mods)])) =
      [((Injector.moving sway window dx dy : List (Request x.Mods)).foldl (Seat.ask answers) seat).under] := by
  have hlater : ∀ request ∈ Injector.moving sway window dx dy ++ [(.button code pressed : Request x.Mods)],
      request.atOnce = false := by
    intro request hmem
    rcases List.mem_append.mp hmem with hmem | hmem
    · exact Injector.moving_not_atOnce request hmem
    · obtain rfl := List.mem_singleton.mp hmem
      rfl
  rw [flushed_of_later hlater, Seat.deeds_append, Seat.deeds_eq_nil actsOn_moving]
  rfl

/-- A request that acts on nothing lands. -/
theorem lands_of_quiet {requests : List (Request x.Mods)} {target : Option ℕ} (hlater : ∀ request ∈ requests, request.atOnce = false)
    (hquiet : ∀ request ∈ requests, ∀ seat : Seat, seat.actsOn request = none) :
    (∀ deed ∈ desk.seat.deeds answers (flushed requests), ∃ conId, deed = some conId ∧ target = some conId) ↔ True := by
  rw [flushed_of_later hlater, Seat.deeds_eq_nil hquiet]
  exact iff_of_true nofun trivial

/-- **Where an event lands.** -/
theorem lands_iff_aimed (seat : Seat) (past : List Turn) (turn : Turn) :
    Lands x seat past turn ↔ Aimed x seat past turn := by
  cases turn with
  | others seat => exact Iff.rfl
  | input arrival answers =>
    unfold Lands Aimed
    generalize Desk.run x seat past = desk
    obtain ⟨⟨event, focus⟩, sway⟩ := arrival
    have hnothing {event : InputEvent} (hinject : desk.injector.inject ⟨(event, focus), sway⟩ = desk.injector) :
        desk.injector.asked ⟨(event, focus), sway⟩ = [] :=
      Injector.asked_eq (by rw [hinject, List.append_nil])
    dsimp only
    cases event with
    | pointerMove window dx dy =>
      rw [Injector.asked_pointerMove]
      exact lands_of_quiet Injector.moving_not_atOnce actsOn_moving
    | pointerButton window button pressed =>
      cases pressed with
      | false =>
        rw [@Injector.asked_eq x desk.injector _ [.button (buttonCode button) false] rfl]
        exact lands_iff_placed fun _ _ => rfl
      | true =>
        rw [Injector.asked_press, deeds_press (List.forall_mem_nil _) (List.forall_mem_nil _)]
        exact lands_iff_placed fun conId hplaced => under_focusing hplaced
    | pointerScroll window dx dy =>
      have hdeeds : desk.seat.deeds answers (flushed [(.axis dx dy : Request x.Mods)]) =
          if isZero dx && isZero dy then [] else [desk.seat.under] := by
        have hflushed : flushed [(.axis dx dy : Request x.Mods)] = [.axis dx dy] := rfl
        rw [hflushed, Seat.deeds, Seat.actsOn]
        split <;> rfl
      rw [@Injector.asked_eq x desk.injector _ [.axis dx dy] rfl, hdeeds]
      cases hzero : isZero dx && isZero dy with
      | true => exact iff_of_true nofun fun h => nomatch hzero.symm.trans h
      | false => exact (lands_iff_placed fun _ _ => rfl).trans ⟨fun h _ => h, fun h => h hzero⟩
    | key keycode pressed =>
      exact (keys_land (Injector.typed_key _ keycode pressed) rfl rfl).trans (forall_prop_of_true trivial)
    | text text => exact keys_land (Injector.typed_text _ text) rfl rfl
    | touch window id dx dy phase =>
      cases phase with
      | start =>
        rw [Injector.asked_start, deeds_press Injector.moving_not_atOnce actsOn_moving]
        refine lands_iff_placed fun conId hplaced => ?_
        rw [under_moving hplaced, under_focusing hplaced]
      | move =>
        rw [Injector.asked_move]
        exact lands_of_quiet Injector.moving_not_atOnce actsOn_moving
      | «end» =>
        rw [Injector.asked_over _ (.inl rfl), deeds_moving]
        exact lands_iff_placed fun conId hplaced => under_moving hplaced
      | cancel =>
        rw [Injector.asked_over _ (.inr rfl), deeds_moving]
        exact lands_iff_placed fun conId hplaced => under_moving hplaced
    | gamepad pad state =>
      rw [hnothing rfl]
      exact lands_of_quiet (List.forall_mem_nil _) (List.forall_mem_nil _)
    | gamepadGone pad =>
      rw [hnothing rfl]
      exact lands_of_quiet (List.forall_mem_nil _) (List.forall_mem_nil _)

/-- **Every event lands on its window exactly if each comes while it will.** -/
theorem lands_iff (x : Xkb) (seat : Seat) (turns : List Turn) :
    Run.Always (Lands x seat) turns ↔ Run.Always (Aimed x seat) turns :=
  Run.always_iff (I := fun _ => True) trivial (fun past turn _ => lands_iff_aimed seat past turn)
    (fun _ _ _ _ => trivial) turns

end

/-- The input is what the host hands on of a session. -/
def Admitted (turns : List Turn) : Prop :=
  ∃ (mayInput : Option Bool) (doings : List Doing) (s : Delivery),
    doings.foldlM Delivery.step (.new mayInput) = some s ∧ s.delivered = inputs turns

/-- A window that sway has, and gives the focus to. -/
def placedSway : Sway := ⟨fun window => if window = 7 then some 1 else none, true⟩

def giving : Answers := ⟨fun _ => true, id, fun _ _ _ => some 1⟩

/-- Somebody else focuses another window between two keys, and has the second one. -/
theorem key_astray : ¬ ∀ (x : Xkb) (seat : Seat) (turns : List Turn), Admitted turns → Run.Always (Lands x seat) turns := by
  intro h
  have hadmitted : Admitted [.input ⟨(.pointerMove 7 0 0, some 7), placedSway⟩ giving,
      .input ⟨(.key 30 true, some 7), placedSway⟩ giving, .others ⟨some 2, some 2⟩,
      .input ⟨(.key 31 true, some 7), placedSway⟩ giving] :=
    ⟨none, Delivery.streamed ++ [.serve (.input (.key 30 true)), .serve (.input (.key 31 true)), .deliver, .deliver], _,
      rfl, rfl⟩
  have hlands := h keyless ⟨some 2, some 2⟩ _ hadmitted
    [.input ⟨(.pointerMove 7 0 0, some 7), placedSway⟩ giving, .input ⟨(.key 30 true, some 7), placedSway⟩ giving,
      .others ⟨some 2, some 2⟩] (.input ⟨(.key 31 true, some 7), placedSway⟩ giving) [] rfl
  obtain ⟨conId, hdeed, htarget⟩ := hlands (some 2) (by decide)
  have hother : target ⟨(.key 31 true, some 7), placedSway⟩ = some 1 := by decide
  exact absurd (hdeed.trans (htarget.symm.trans hother)) (by decide)

end WindowCast.Agents
