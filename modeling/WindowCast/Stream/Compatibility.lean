import WindowCast.Lib.Owned
import WindowCast.Stream.Streaming

/-!
# Compatibility mode

A window in compatibility mode is offered to third-party clients too.  The host's
owner turns it on until turning it off, a session for as long as it streams the
window; the endpoints are closed when nobody holds the window any more.  A session
lets go where its task takes the window out of its table, and not where a feed ends
by itself.

## Main definitions

* `Compatibility` — the windows in compatibility mode.
* `Hosting`, `Hosting.step` — the host's owner and its sessions, over that table.
* `Hosting.wants` — who has turned it on, and holds it still.
* `Hosting.Lively` — a session streams what it holds.

## Main results

* `Hosting.Held.step` — what every step preserves.
* `Hosting.open_iff_held` — **a window's endpoints are open exactly while somebody holds
  the window**.
-/

namespace WindowCast.Stream

open WindowCast.Host (WindowId)

/-- Who has turned a window's compatibility mode on. -/
inductive Owner
  | host
  /-- The session with this serial, while it streams the window. -/
  | session (serial : ℕ)
  deriving DecidableEq, Repr

/-- The windows in compatibility mode, with their endpoints. -/
abbrev Compatibility (Endpoint : Type) := Owned.Table WindowId Owner (List Endpoint)

namespace Compatibility

variable {Endpoint : Type}

/-- Compatibility mode is turned on: the endpoints are opened for the first owner, where
the host's providers can. -/
def turnOn (self : Compatibility Endpoint) (window : WindowId) (owner : Owner)
    (answers : List (Except Text Endpoint)) : Except Text (Compatibility Endpoint × List Endpoint) :=
  match self.lookup window with
  | some entry => .ok (Owned.join self window entry owner, entry.resource)
  | none =>
    if answers.isEmpty then .error "this host has no compatibility mode".toList
    else
      let endpoints := answers.filterMap Except.toOption
      let failures := answers.filterMap fun answer => match answer with
        | .error reason => some reason
        | .ok _ => none
      if endpoints.isEmpty then .error (List.intercalate "; ".toList failures)
      else .ok (Owned.put self window endpoints owner, endpoints)

/-- An owner lets go of a window. -/
def turnOff (self : Compatibility Endpoint) (window : WindowId) (owner : Owner) : Compatibility Endpoint :=
  Owned.leave self window owner

/-- A session lets go of every window. -/
def sessionEnded (self : Compatibility Endpoint) (serial : ℕ) : Compatibility Endpoint :=
  Owned.leaveAll self (.session serial)

def endpoints (self : Compatibility Endpoint) (window : WindowId) : List Endpoint :=
  (self.lookup window).elim [] Owned.resource

/-- Behind a turn-on the owner holds the window. -/
theorem holds_turnOn {self : Compatibility Endpoint} {window : WindowId} {owner : Owner}
    {answers : List (Except Text Endpoint)} {done : Compatibility Endpoint × List Endpoint}
    (h : self.turnOn window owner answers = .ok done) (hkept : Owned.Kept self) :
    Owned.Kept done.1 ∧ ∀ w o, Owned.Holds done.1 w o ↔ (w = window ∧ o = owner) ∨ Owned.Holds self w o := by
  unfold turnOn at h
  cases hentry : self.lookup window with
  | some entry =>
    rw [hentry] at h
    cases h
    exact ⟨hkept.join entry, fun w o => Owned.holds_join hentry⟩
  | none =>
    rw [hentry] at h
    dsimp only at h
    split at h
    case isTrue => cases h
    case isFalse =>
      split at h
      case isTrue => cases h
      case isFalse =>
        cases h
        exact ⟨hkept.put _, fun w o => Owned.holds_put _ hentry⟩

end Compatibility

/-! ### The host's owner and its sessions -/

/-- What the client is told of a window's compatibility mode. -/
structure CompatibilityAnswer (Endpoint : Type) where
  window : WindowId
  endpoints : List Endpoint
  refused : Option Text

/-- The window that a session's task lets go of with a message: the stop of the stream,
or of its last carrier. -/
def Serving.letsGo (self : Serving) : Event → Option WindowId
  | .streamStop window => some window
  | .carrierStop window generation =>
    (self.streams.lookup window).bind fun entry =>
      if (entry.without generation).carriers.keys = [] then some window else none
  | _ => none

/-- What a session relies on to stream a window past a step of its own. -/
def Serving.lasts (self : Serving) (window : WindowId) (event : Event) : Prop :=
  match event with
  | .feedEnds i => ∃ generation carrier, self.carrier window generation = some carrier
      ∧ self.goesOn carrier = true ∧ carrier.feed ≠ some i
  | .carrierStop w g => w = window → self.letsGo event = some window
      ∨ ∃ generation carrier, generation ≠ g ∧ self.carrier window generation = some carrier
        ∧ self.goesOn carrier = true
  | _ => True

/-- A window that the session does not let go of is streamed on. -/
theorem Serving.streaming_kept {s s' : Serving} {event : Event} (hfresh : s.Fresh) (hstep : s.step event = some s')
    {window : WindowId} (hstreams : s.streaming window = true) (hlasts : s.lasts window event)
    (hkeeps : s.letsGo event ≠ some window) : s'.streaming window = true := by
  -- a carrier that goes on, and that the event is not about
  have hcarrier : ∃ generation carrier, s.carrier window generation = some carrier ∧ s.goesOn carrier = true
      ∧ event ≠ .carrierStop window generation ∧ ∀ i, event = .feedEnds i → carrier.feed ≠ some i := by
    obtain ⟨generation, carrier, hat, hgoes⟩ := streaming_iff.mp hstreams
    cases event with
    | feedEnds i =>
      obtain ⟨generation, carrier, hat, hgoes, hother⟩ := hlasts
      exact ⟨generation, carrier, hat, hgoes, (fun h => by cases h), fun j h => by cases h; exact hother⟩
    | carrierStop w g =>
      by_cases hw : w = window
      · obtain ⟨generation, carrier, hother, hat, hgoes⟩ := (hlasts hw).resolve_left hkeeps
        exact ⟨generation, carrier, hat, hgoes, (fun h => by cases h; exact hother rfl), fun j h => by cases h⟩
      · exact ⟨generation, carrier, hat, hgoes, (fun h => by cases h; exact hw rfl), fun j h => by cases h⟩
    | _ => exact ⟨generation, carrier, hat, hgoes, (fun h => by cases h), fun j h => by cases h⟩
  obtain ⟨generation, carrier, hat, hgoes, hstop, hends⟩ := hcarrier
  rcases goesOn_kept hfresh hstep hat hgoes with ⟨hat', hgoes'⟩ | hevent | hevent | ⟨i, hevent, hfeed⟩
  · exact streaming_iff.mpr ⟨generation, carrier, hat', hgoes'⟩
  · exact absurd hevent hstop
  · rw [hevent] at hkeeps
    exact absurd rfl hkeeps
  · exact absurd hfeed (hends i hevent)

structure Hosting (Endpoint : Type) where
  compat : Compatibility Endpoint
  sessions : AList fun _ : ℕ => Serving
  /-- The serial of the next session. -/
  next : ℕ
  /-- Who has turned compatibility mode on and holds the window still.  Nothing reads it. -/
  wants : List (Owner × WindowId)
  told : List (ℕ × CompatibilityAnswer Endpoint)

inductive HostEvent (Endpoint : Type)
  | connect (mayInput : Option Bool)
  | serve (serial : ℕ) (event : Event)
  /-- A client turns compatibility mode on or off; the providers answer as listed. -/
  | compatibility (serial : ℕ) (window : WindowId) (on : Bool) (answers : List (Except Text Endpoint))
  | sessionEnds (serial : ℕ)
  /-- The host's owner does. -/
  | owner (window : WindowId) (on : Bool) (answers : List (Except Text Endpoint))

namespace Hosting

variable {Endpoint : Type}

def new : Hosting Endpoint := ⟨∅, ∅, 0, [], []⟩

def tell (self : Hosting Endpoint) (serial : ℕ) (answer : CompatibilityAnswer Endpoint) : Hosting Endpoint :=
  { self with told := self.told ++ [(serial, answer)] }

/-- Whether an owner may hold a window: the host's owner any, a session one it streams. -/
def may (self : Hosting Endpoint) : Owner × WindowId → Bool
  | (.host, _) => true
  | (.session serial, window) => (self.sessions.lookup serial).any fun serving => serving.streaming window

/-- Who holds a window no more has let go of it. -/
def still (self : Hosting Endpoint) : Hosting Endpoint := { self with wants := self.wants.filter self.may }

def turnOn (self : Hosting Endpoint) (window : WindowId) (owner : Owner) (answers : List (Except Text Endpoint)) :
    Except Text (Hosting Endpoint × List Endpoint) :=
  match self.compat.turnOn window owner answers with
  | .error reason => .error reason
  | .ok (compat, endpoints) => .ok ({ self with compat := compat, wants := (owner, window) :: self.wants }, endpoints)

def turnOff (self : Hosting Endpoint) (window : WindowId) (owner : Owner) : Hosting Endpoint :=
  { self with
    compat := self.compat.turnOff window owner
    wants := self.wants.filter fun want => want ≠ (owner, window) }

def sessionEnded (self : Hosting Endpoint) (serial : ℕ) : Hosting Endpoint :=
  { self with
    sessions := self.sessions.erase serial
    compat := self.compat.sessionEnded serial
    wants := self.wants.filter fun want => want.1 ≠ .session serial }

/-- A request of a client. -/
def compatibility (self : Hosting Endpoint) (serial : ℕ) (serving : Serving) (window : WindowId) (on : Bool)
    (answers : List (Except Text Endpoint)) : Hosting Endpoint :=
  let refused (reason : Text) := self.tell serial ⟨window, [], some reason⟩
  if ¬ on then
    let off := self.turnOff window (.session serial)
    off.tell serial ⟨window, off.compat.endpoints window, none⟩
  else if serving.streams.lookup window = none then
    refused "only a window this session streams can be put in compatibility mode".toList
  else if serving.mayInput = some false then
    refused ("compatibility mode hands the window's input to other programs, and ".toList
      ++ "this account may not drive windows".toList)
  else
    match self.turnOn window (.session serial) answers with
    | .error reason => refused reason
    | .ok (opened, endpoints) => opened.tell serial ⟨window, endpoints, none⟩

/-- A session's task lets go of a window that its client stops. -/
def letGo (self : Hosting Endpoint) (serial : ℕ) (serving : Serving) (event : Event) : Hosting Endpoint :=
  match serving.letsGo event with
  | none => self
  | some window => self.turnOff window (.session serial)

def step (self : Hosting Endpoint) : HostEvent Endpoint → Option (Hosting Endpoint)
  | .connect mayInput =>
    some { self with sessions := self.sessions.insert self.next (.new mayInput), next := self.next + 1 }
  | .serve serial event =>
    (self.sessions.lookup serial).bind fun serving =>
      (serving.step event).map fun served =>
        { self.letGo serial serving event with sessions := self.sessions.insert serial served }.still
  | .compatibility serial window on answers =>
    (self.sessions.lookup serial).bind fun serving =>
      if serving.starting = none then some (self.compatibility serial serving window on answers).still else none
  | .sessionEnds serial =>
    (self.sessions.lookup serial).map fun _ => self.sessionEnded serial
  | .owner window on answers =>
    if on then
      match self.turnOn window .host answers with
      | .error _ => some self
      | .ok (opened, _) => some opened
    else some (self.turnOff window .host)

/-! ### Who holds a window -/

variable {s s' : Hosting Endpoint} {event : HostEvent Endpoint}

/-- What a step relies on: a window stays streamed while the session holds it, and is
streamed when it is put in compatibility mode. -/
def Lively (self : Hosting Endpoint) : HostEvent Endpoint → Prop
  | .serve serial event => ∀ window serving, (.session serial, window) ∈ self.wants →
      self.sessions.lookup serial = some serving → serving.lasts window event
  | .compatibility serial window true answers => ∀ serving, self.sessions.lookup serial = some serving →
      serving.streams.lookup window ≠ none → serving.mayInput ≠ some false →
      (self.compat.lookup window).isSome = true ∨ (answers.any Except.isOk) = true → serving.streaming window = true
  | _ => True

/-- The table knows who holds what, and a session holds only what it streams. -/
structure Held (s : Hosting Endpoint) : Prop where
  held : ∀ window owner, Owned.Holds s.compat window owner ↔ (owner, window) ∈ s.wants
  kept : Owned.Kept s.compat
  may : ∀ want ∈ s.wants, s.may want = true
  fresh : ∀ {serial : ℕ} {serving : Serving}, s.sessions.lookup serial = some serving → serving.Fresh
  few : ∀ {serial : ℕ} {serving : Serving}, s.sessions.lookup serial = some serving → serial < s.next

theorem may_session {serial : ℕ} {window : WindowId} : s.may (.session serial, window) = true ↔
    ∃ serving, s.sessions.lookup serial = some serving ∧ serving.streaming window = true := Option.any_eq_true _ _

theorem held_new : Held (new : Hosting Endpoint) where
  held := by
    intro window owner
    constructor
    · rintro ⟨entry, hnone, -⟩
      cases hnone
    · intro hmem
      cases hmem
  kept := fun _ _ hnone => by cases hnone
  may := fun _ hmem => by cases hmem
  fresh := fun hnone => by cases hnone
  few := fun hnone => by cases hnone

theorem Held.still (h : s.Held) : s.still.Held := by
  have heq : s.still = s := by
    rw [Hosting.still, List.filter_eq_self.mpr h.may]
  rw [heq]
  exact h

theorem Held.turnOff (h : s.Held) (window : WindowId) (owner : Owner) : (s.turnOff window owner).Held where
  held := by
    intro w o
    rw [Hosting.turnOff, Compatibility.turnOff, Owned.holds_leave, h.held, List.mem_filter, decide_eq_true_iff, and_comm,
      Ne, Prod.mk.injEq, and_comm (a := o = owner)]
  kept := h.kept.leave
  may := fun want hmem => h.may want (List.mem_of_mem_filter hmem)
  fresh := h.fresh
  few := h.few

theorem Held.turnOn (h : s.Held) {window : WindowId} {owner : Owner} {answers : List (Except Text Endpoint)}
    {done : Hosting Endpoint × List Endpoint} (hdone : s.turnOn window owner answers = .ok done)
    (hmay : s.may (owner, window) = true) : done.1.Held := by
  unfold Hosting.turnOn at hdone
  cases hopened : s.compat.turnOn window owner answers with
  | error reason =>
    rw [hopened] at hdone
    cases hdone
  | ok opened =>
    rw [hopened] at hdone
    cases hdone
    obtain ⟨hkept, hheld⟩ := Compatibility.holds_turnOn hopened h.kept
    refine ⟨?_, hkept, ?_, h.fresh, h.few⟩
    · intro w o
      rw [hheld, h.held, List.mem_cons, Prod.mk.injEq, and_comm (a := o = owner)]
    · intro want hmem
      rcases List.mem_cons.mp hmem with rfl | hmem
      · exact hmay
      · exact h.may want hmem

theorem Held.sessionEnded (h : s.Held) (serial : ℕ) : (s.sessionEnded serial).Held where
  held := by
    intro w o
    rw [Hosting.sessionEnded, Compatibility.sessionEnded, Owned.holds_leaveAll, h.held, List.mem_filter,
      decide_eq_true_iff, and_comm]
  kept := Owned.kept_leaveAll
  may := by
    rintro ⟨owner, window⟩ hmem
    obtain ⟨hmem, hne⟩ := List.mem_filter.mp hmem
    have hmay := h.may _ hmem
    cases owner with
    | host => rfl
    | session serial' =>
      have hserial : serial' ≠ serial := by
        rintro rfl
        exact of_decide_eq_true hne rfl
      obtain ⟨serving, hserving, hstreams⟩ := may_session.mp hmay
      exact may_session.mpr ⟨serving, (AList.lookup_erase_ne hserial).trans hserving, hstreams⟩
  fresh := by
    intro serial' serving hserving
    by_cases hserial : serial' = serial
    · rw [hserial, Hosting.sessionEnded, AList.lookup_erase] at hserving
      cases hserving
    · exact h.fresh ((AList.lookup_erase_ne hserial).symm.trans hserving)
  few := by
    intro serial' serving hserving
    by_cases hserial : serial' = serial
    · rw [hserial, Hosting.sessionEnded, AList.lookup_erase] at hserving
      cases hserving
    · exact h.few ((AList.lookup_erase_ne hserial).symm.trans hserving)

/-- A session is put in the table. -/
theorem Held.put (h : s.Held) {serial next : ℕ} {serving : Serving} (hfresh : serving.Fresh) (hserial : serial < next)
    (hnext : s.next ≤ next)
    (hstreams : ∀ window, (.session serial, window) ∈ s.wants → serving.streaming window = true) :
    Held { s with sessions := s.sessions.insert serial serving, next := next } where
  held := h.held
  kept := h.kept
  may := by
    rintro ⟨owner, window⟩ hmem
    cases owner with
    | host => rfl
    | session serial' =>
      by_cases hsame : serial' = serial
      · subst hsame
        exact may_session.mpr ⟨serving, AList.lookup_insert _, hstreams window hmem⟩
      · obtain ⟨serving', hserving', hstreams'⟩ := may_session.mp (h.may _ hmem)
        exact may_session.mpr ⟨serving', (AList.lookup_insert_ne hsame).trans hserving', hstreams'⟩
  fresh := by
    intro serial' serving' hserving'
    by_cases hsame : serial' = serial
    · rw [hsame, AList.lookup_insert] at hserving'
      cases hserving'
      exact hfresh
    · exact h.fresh ((AList.lookup_insert_ne hsame).symm.trans hserving')
  few := by
    intro serial' serving' hserving'
    by_cases hsame : serial' = serial
    · rw [hsame]
      exact hserial
    · exact Nat.lt_of_lt_of_le (h.few ((AList.lookup_insert_ne hsame).symm.trans hserving')) hnext

/-- What a session does leaves the windows that it holds streamed. -/
theorem Held.serve (h : s.Held) {serial : ℕ} {serving served : Serving} {event : Event}
    (hserving : s.sessions.lookup serial = some serving) (hstep : serving.step event = some served)
    (hlively : s.Lively (.serve serial event)) :
    Held { s.letGo serial serving event with sessions := s.sessions.insert serial served } := by
  have hfresh := h.fresh hserving
  -- what the session holds and does not let go of is streamed on
  have hkept : ∀ window, (.session serial, window) ∈ s.wants → serving.letsGo event ≠ some window →
      served.streaming window = true := by
    intro window hwants hkeeps
    obtain ⟨serving', hserving', hstreams⟩ := may_session.mp (h.may _ hwants)
    rw [hserving] at hserving'
    cases hserving'
    exact Serving.streaming_kept hfresh hstep hstreams (hlively window serving hwants hserving) hkeeps
  unfold letGo
  cases hgo : serving.letsGo event with
  | none =>
    refine h.put (hfresh.step hstep) (h.few hserving) (Nat.le_refl _) ?_
    intro window hwants
    exact hkept window hwants (by rw [hgo]; exact (Option.some_ne_none _).symm)
  | some left =>
    refine (h.turnOff left (.session serial)).put (hfresh.step hstep) (h.few hserving) (Nat.le_refl _) ?_
    intro window hwants
    obtain ⟨hwants, hother⟩ := List.mem_filter.mp hwants
    refine hkept window hwants ?_
    rw [hgo]
    rintro ⟨⟩
    exact of_decide_eq_true hother rfl

/-- Where a window is put in compatibility mode it was, or an endpoint could be opened. -/
theorem opens_of_turnOn {window : WindowId} {owner : Owner} {answers : List (Except Text Endpoint)}
    {done : Hosting Endpoint × List Endpoint} (hdone : s.turnOn window owner answers = .ok done) :
    (s.compat.lookup window).isSome = true ∨ (answers.any Except.isOk) = true := by
  unfold Hosting.turnOn Compatibility.turnOn at hdone
  cases hentry : s.compat.lookup window with
  | some entry => exact Or.inl rfl
  | none =>
    right
    rw [hentry] at hdone
    by_contra hany
    have hnil : answers.filterMap Except.toOption = [] := by
      rw [List.filterMap_eq_nil_iff]
      intro answer hmem
      cases answer with
      | error reason => rfl
      | ok endpoint => exact absurd (List.any_eq_true.mpr ⟨_, hmem, rfl⟩) hany
    dsimp only at hdone
    rw [hnil] at hdone
    by_cases hempty : answers.isEmpty = true
    · rw [if_pos hempty] at hdone
      cases hdone
    · rw [if_neg hempty] at hdone
      cases hdone

/-- A client's request leaves who holds what as the table knows it. -/
theorem Held.compatibility (h : s.Held) {serial : ℕ} {serving : Serving} {window : WindowId} {on : Bool}
    {answers : List (Except Text Endpoint)} (hserving : s.sessions.lookup serial = some serving)
    (hlively : s.Lively (.compatibility serial window on answers)) :
    (s.compatibility serial serving window on answers).Held := by
  have htell : ∀ {s : Hosting Endpoint} (answer : CompatibilityAnswer Endpoint), s.Held → (s.tell serial answer).Held :=
    fun _ h => ⟨h.held, h.kept, h.may, h.fresh, h.few⟩
  unfold Hosting.compatibility
  cases on with
  | false => exact htell _ (h.turnOff window _)
  | true =>
    rw [if_neg (fun hoff => hoff rfl)]
    split
    case isTrue => exact htell _ h
    case isFalse hstreamed =>
      split
      case isTrue => exact htell _ h
      case isFalse hallowed =>
        cases hdone : s.turnOn window (.session serial) answers with
        | error reason => exact htell _ h
        | ok done =>
          have hstreams := hlively serving hserving hstreamed hallowed (opens_of_turnOn hdone)
          exact htell _ (h.turnOn hdone (may_session.mpr ⟨serving, hserving, hstreams⟩))

/-- What every step preserves. -/
theorem Held.step (h : s.Held) (hlively : s.Lively event) (hstep : s.step event = some s') : s'.Held := by
  cases event with
  | connect mayInput =>
    cases hstep
    refine h.put (Serving.fresh_of_none rfl) (Nat.lt_succ_self _) (Nat.le_succ _) ?_
    -- the serial is new, so nobody holds a window with it
    intro window hwants
    obtain ⟨serving, hserving, -⟩ := may_session.mp (h.may _ hwants)
    exact absurd (h.few hserving) (Nat.lt_irrefl _)
  | serve serial event =>
    obtain ⟨serving, hserving, hstep⟩ := Option.bind_eq_some_iff.mp hstep
    obtain ⟨served, hserved, rfl⟩ := Option.map_eq_some_iff.mp hstep
    exact (h.serve hserving hserved hlively).still
  | compatibility serial window on answers =>
    obtain ⟨serving, hserving, hstep⟩ := Option.bind_eq_some_iff.mp hstep
    obtain ⟨-, hstep⟩ := Option.ite_none_right_eq_some.mp hstep
    cases hstep
    exact (h.compatibility hserving hlively).still
  | sessionEnds serial =>
    obtain ⟨serving, -, rfl⟩ := Option.map_eq_some_iff.mp hstep
    exact h.sessionEnded serial
  | owner window on answers =>
    cases on with
    | false =>
      cases hstep
      exact h.turnOff window .host
    | true =>
      cases hdone : s.turnOn window .host answers with
      | error reason =>
        simp only [Hosting.step, if_true, hdone] at hstep
        cases hstep
        exact h
      | ok done =>
        simp only [Hosting.step, if_true, hdone] at hstep
        cases hstep
        exact h.turnOn hdone rfl

/-- A window's endpoints are open exactly while somebody holds the window, and a session
that does is live and streams it. -/
theorem open_iff_held {es : List (HostEvent Endpoint)} (h : Run.Guarded step Lively es new s) (window : WindowId) :
    ((s.compat.lookup window).isSome = true ↔ ∃ owner, (owner, window) ∈ s.wants)
      ∧ ∀ serial, (.session serial, window) ∈ s.wants →
        ∃ serving, s.sessions.lookup serial = some serving ∧ serving.streaming window = true := by
  have hheld : s.Held := h.invariant (fun _ _ _ hheld hlively hstep => hheld.step hlively hstep) held_new
  refine ⟨?_, fun serial hwants => may_session.mp (hheld.may _ hwants)⟩
  rw [hheld.kept.isSome_iff]
  exact exists_congr fun owner => hheld.held window owner

/-- A client starts a stream. -/
def started (serial : ℕ) : List (HostEvent ℕ) :=
  [.connect none, .serve serial (.streamStart 7 ⟨.native, [.h264]⟩ 0 Serving.switchOffer), .serve serial (.attach (.ok ())),
    .serve serial (.accept true)]

/-- Two clients and the host's owner hold a window, and let go of it one after the other. -/
def handedOn : List (HostEvent ℕ) :=
  started 0 ++ [.compatibility 0 7 true [.error "no VNC".toList, .ok 3389]] ++ started 1
    ++ [.compatibility 1 7 true [], .owner 7 true [], .serve 0 (.streamStop 7), .owner 7 false [], .sessionEnds 1]

theorem open_iff_held_handedOn :
    ∃ s s', handedOn.dropLast.foldlM step new = some s ∧ s.compat.lookup 7 = some ⟨[3389], [.session 1]⟩
      ∧ handedOn.foldlM step new = some s' ∧ s'.compat.lookup 7 = none
      ∧ ((s.compat.lookup 7).isSome = true ↔ ∃ owner, (owner, 7) ∈ s.wants)
      ∧ ((s'.compat.lookup 7).isSome = true ↔ ∃ owner, (owner, 7) ∈ s'.wants) := by
  have hstreams : ∀ {serving serving' : Serving}, some serving = some serving' → serving.streaming 7 = true →
      serving'.streaming 7 = true := by
    rintro serving _ ⟨⟩ hstreams
    exact hstreams
  have hserve : ∀ {s : Hosting ℕ} {serial : ℕ} {event : Event}, (∀ (serving : Serving) (window : WindowId), serving.lasts window event) →
      s.Lively (.serve serial event) := fun hlasts window serving _ _ => hlasts serving window
  have hrun : Run.Guarded step Lively handedOn.dropLast new _ :=
    ⟨trivial, _, rfl, hserve (fun _ _ => trivial), _, rfl, hserve (fun _ _ => trivial), _, rfl,
      hserve (fun _ _ => trivial), _, rfl, (fun _ hserving _ _ _ => hstreams hserving rfl), _, rfl,
      trivial, _, rfl, hserve (fun _ _ => trivial), _, rfl, hserve (fun _ _ => trivial), _, rfl,
      hserve (fun _ _ => trivial), _, rfl, (fun _ hserving _ _ _ => hstreams hserving rfl), _, rfl, trivial, _, rfl,
      hserve (fun _ _ => trivial), _, rfl, trivial, _, rfl, rfl⟩
  have hall := hrun.append (show Run.Guarded step Lively [.sessionEnds 1] _ _ from ⟨trivial, _, rfl, rfl⟩)
  exact ⟨_, _, hrun.run, rfl, hall.run, rfl, (open_iff_held hrun 7).1, (open_iff_held hall 7).1⟩

/-- A client streams a window in compatibility mode, and the window closes by itself. -/
def leftOpen : List (HostEvent ℕ) := started 0 ++ [.compatibility 0 7 true [.ok 3389], .serve 0 (.feedEnds 0)]

/-- **The endpoints of a window stay open whose stream has ended by itself.** -/
theorem leftOpen_stays :
    ¬ ∀ (es : List (HostEvent ℕ)) (s : Hosting ℕ), es.foldlM step new = some s → ∀ window,
      (s.compat.lookup window).isSome = true ↔ ∃ owner, (owner, window) ∈ s.wants := by
  intro h
  obtain ⟨owner, hmem⟩ := (h leftOpen _ (by rfl) 7).mp rfl
  cases hmem

end Hosting

end WindowCast.Stream
