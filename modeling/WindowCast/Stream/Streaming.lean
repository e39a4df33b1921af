import WindowCast.Stream.Carriers

/-!
# What a session streams

A carrier goes on while its feed runs, or while it is handed off, and a session streams
a window while a carrier of it goes on.  The table of the session's task may hold a
window that the session streams no more: a feed that ends by itself leaves the table
alone.

## Main definitions

* `Serving.goesOn`, `Serving.streaming` — what goes on.
* `Serving.Fresh` — no stream is started over another.

## Main results

* `Serving.goesOn_kept` — what a carrier that goes on goes on through.
* `Serving.Fresh.step` — what every step preserves.
-/

namespace WindowCast.Stream

open WindowCast.Host (WindowId)

namespace Serving

variable {s s' : Serving} {event : Event}

/-- Whether a carrier goes on: its feed runs, or it is handed off. -/
def goesOn (self : Serving) (carrier : Carrier) : Bool :=
  match carrier.feed with
  | none => true
  | some i => self.feeds[i]?.any fun feed => feed.phase = .running

/-- Whether the session streams a window. -/
def streaming (self : Serving) (window : WindowId) : Bool := (self.carriersOf window).any self.goesOn

theorem streaming_iff {window : WindowId} : s.streaming window = true ↔
    ∃ generation carrier, s.carrier window generation = some carrier ∧ s.goesOn carrier = true := by
  rw [streaming, List.any_eq_true]
  constructor
  · rintro ⟨carrier, hmem, hgoes⟩
    obtain ⟨generation, hcarrier⟩ := mem_carriersOf.mp hmem
    exact ⟨generation, carrier, hcarrier, hgoes⟩
  · rintro ⟨generation, carrier, hcarrier, hgoes⟩
    exact ⟨carrier, mem_carriersOf.mpr ⟨generation, hcarrier⟩, hgoes⟩

/-- No stream is started over another. -/
def Fresh (s : Serving) : Prop :=
  ∀ starting ∈ s.starting, s.carrier starting.window starting.generation = none

/-- A feed that runs does so until it ends. -/
theorem running_kept (hstep : s.step event = some s') {i : ℕ} {feed : Feed} (hfeed : s.feeds[i]? = some feed)
    (hrunning : feed.phase = .running) :
    (∃ feed', s'.feeds[i]? = some feed' ∧ feed'.phase = .running) ∨ event = .feedEnds i := by
  have hset : ∀ {j : ℕ} {feed' : Feed} (phase : FeedPhase), s.feeds[j]? = some feed' → j ≠ i →
      ∃ feed'', (s.setPhase j feed' phase).feeds[i]? = some feed'' ∧ feed''.phase = .running := by
    intro j feed' phase _ hji
    refine ⟨feed, ?_, hrunning⟩
    rw [setPhase]
    dsimp only
    rw [List.getElem?_set_ne hji]
    exact hfeed
  cases event with
  | streamStart w options g offer =>
    obtain ⟨-, hstep⟩ := Option.ite_none_right_eq_some.mp hstep
    split at hstep <;> cases hstep <;> exact Or.inl ⟨feed, hfeed, hrunning⟩
  | attach answer =>
    obtain ⟨starting, -, hstep⟩ := Option.bind_eq_some_iff.mp hstep
    split at hstep
    case h_1 codec _ _ =>
      cases hstep
      left
      rcases attach_cases starting codec answer with ⟨track, -, heq⟩ | ⟨reason, -, heq⟩ | ⟨-, heq⟩
      · exact ⟨feed, by rw [heq]; exact feed_of_feed hfeed, hrunning⟩
      · exact ⟨feed, by rw [heq]; exact hfeed, hrunning⟩
      · exact ⟨feed, by rw [heq]; exact feed_of_feed hfeed, hrunning⟩
    case h_2 => cases hstep
  | accept sound =>
    obtain ⟨starting, -, hstep⟩ := Option.bind_eq_some_iff.mp hstep
    obtain ⟨-, hstep⟩ := Option.ite_none_right_eq_some.mp hstep
    cases hstep
    exact Or.inl ⟨feed, hfeed, hrunning⟩
  | streamStop w =>
    obtain ⟨-, hstep⟩ := Option.ite_none_right_eq_some.mp hstep
    cases hstep
    left
    rw [streamStop_feed, hfeed, Option.map_some]
    split
    · exact ⟨_, rfl, hrunning⟩
    · exact ⟨_, rfl, hrunning⟩
  | carrierStop w g =>
    obtain ⟨-, hstep⟩ := Option.ite_none_right_eq_some.mp hstep
    cases hstep
    left
    cases hentry : s.streams.lookup w with
    | none =>
      rw [stopCarrier_none hentry]
      exact ⟨feed, hfeed, hrunning⟩
    | some entry =>
      rw [stopCarrier_feed hentry, hfeed, Option.map_some]
      split
      · exact ⟨_, rfl, hrunning⟩
      · exact ⟨_, rfl, hrunning⟩
  | input event =>
    obtain ⟨-, hstep⟩ := Option.ite_none_right_eq_some.mp hstep
    obtain ⟨focus, input, heq⟩ := takeInput_eq s event
    rw [heq] at hstep
    split at hstep <;> cases hstep <;> exact Or.inl ⟨feed, hfeed, hrunning⟩
  | feedEnds j =>
    obtain ⟨feed', hfeed', hstep⟩ := Option.bind_eq_some_iff.mp hstep
    obtain ⟨-, hstep⟩ := Option.ite_none_right_eq_some.mp hstep
    cases hstep
    by_cases hji : j = i
    · exact Or.inr (by rw [hji])
    · exact Or.inl (hset _ hfeed' hji)
  | feedGoes j =>
    obtain ⟨feed', hfeed', hstep⟩ := Option.bind_eq_some_iff.mp hstep
    have hji : feed'.phase ≠ .running → j ≠ i := by
      rintro hphase rfl
      rw [hfeed] at hfeed'
      cases hfeed'
      exact hphase hrunning
    left
    unfold Serving.feedGoes at hstep
    split at hstep
    case h_1 hphase =>
      cases hstep
      exact hset _ hfeed' (hji (by rw [hphase]; decide))
    case h_2 hphase =>
      cases hstep
      rw [detachWindow_feeds]
      exact hset _ hfeed' (hji (by rw [hphase]; decide))
    case h_3 hphase =>
      cases hstep
      exact hset _ hfeed' (hji (by rw [hphase]; decide))
    case h_4 => cases hstep

/-- A carrier that goes on does so until it is stopped, its stream is, or its feed
ends. -/
theorem goesOn_kept (hfresh : s.Fresh) (hstep : s.step event = some s') {window : WindowId} {generation : ℕ}
    {carrier : Carrier} (hcarrier : s.carrier window generation = some carrier) (hgoes : s.goesOn carrier = true) :
    (s'.carrier window generation = some carrier ∧ s'.goesOn carrier = true)
      ∨ event = .carrierStop window generation ∨ event = .streamStop window
      ∨ ∃ i, event = .feedEnds i ∧ carrier.feed = some i := by
  rcases carrier_kept (fun hsome => hfresh _ hsome) hstep hcarrier with hkept | hstop | hstop
  · cases hfeedOf : carrier.feed with
    | none =>
      left
      refine ⟨hkept, ?_⟩
      rw [goesOn, hfeedOf]
    | some i =>
      rw [goesOn, hfeedOf] at hgoes
      obtain ⟨feed, hfeed, hrunning⟩ := (Option.any_eq_true _ _).mp hgoes
      rcases running_kept hstep hfeed (of_decide_eq_true hrunning) with ⟨feed', hfeed', hrunning'⟩ | hends
      · left
        refine ⟨hkept, ?_⟩
        rw [goesOn, hfeedOf]
        exact (Option.any_eq_true _ _).mpr ⟨feed', hfeed', decide_eq_true hrunning'⟩
      · exact Or.inr (Or.inr (Or.inr ⟨i, hends, rfl⟩))
  · exact Or.inr (Or.inl hstop)
  · exact Or.inr (Or.inr (Or.inl hstop))

/-- Where the table is as before, and so is what is being started. -/
theorem Fresh.of_eq (h : s.Fresh) (hstreams : s'.streams = s.streams)
    (hstarting : ∀ starting ∈ s'.starting, ∃ starting' ∈ s.starting,
      starting'.window = starting.window ∧ starting'.generation = starting.generation) : s'.Fresh := by
  intro starting hsome
  obtain ⟨starting', hsome', hwindow, hgeneration⟩ := hstarting starting hsome
  have hnone := h starting' hsome'
  unfold Serving.carrier at hnone ⊢
  rw [hstreams, ← hwindow, ← hgeneration]
  exact hnone

theorem fresh_of_none (hnone : s.starting = none) : s.Fresh := by
  intro starting hsome
  rw [hnone] at hsome
  cases hsome

/-- No stream is started over another, whatever comes. -/
theorem Fresh.step (h : s.Fresh) (hstep : s.step event = some s') : s'.Fresh := by
  have hsame : ∀ {s'' : Serving}, s''.streams = s.streams → s''.starting = s.starting → s''.Fresh := by
    intro s'' hstreams hstarting
    refine h.of_eq hstreams ?_
    intro starting hsome
    rw [hstarting] at hsome
    exact ⟨starting, hsome, rfl, rfl⟩
  cases event with
  | streamStart w options g offer =>
    obtain ⟨-, hstep⟩ := Option.ite_none_right_eq_some.mp hstep
    cases hanswer : s.answer w options g offer with
    | error reason =>
      rw [hanswer] at hstep
      cases hstep
      exact hsame rfl rfl
    | ok starting =>
      rw [hanswer] at hstep
      cases hstep
      obtain ⟨rfl, rfl, -, hrunning, -⟩ := answer_ok hanswer
      intro starting' hsome
      cases hsome
      exact carrier_of_running hrunning
  | attach answer =>
    obtain ⟨starting, hstarting, hstep⟩ := Option.bind_eq_some_iff.mp hstep
    split at hstep
    case h_1 codec _ _ =>
      cases hstep
      have hfed : ∀ {s'' : Serving} {track : WindowTrack}, s''.streams = s.streams → (s''.feed starting track).Fresh := by
        intro s'' track hstreams
        refine h.of_eq hstreams ?_
        rintro _ ⟨⟩
        exact ⟨starting, hstarting, rfl, rfl⟩
      rcases attach_cases starting codec answer with ⟨track, -, heq⟩ | ⟨reason, -, heq⟩ | ⟨-, heq⟩
      · rw [heq]
        exact hfed rfl
      · rw [heq]
        exact fresh_of_none rfl
      · rw [heq]
        exact hfed rfl
    case h_2 => cases hstep
  | accept sound =>
    obtain ⟨starting, -, hstep⟩ := Option.bind_eq_some_iff.mp hstep
    obtain ⟨-, hstep⟩ := Option.ite_none_right_eq_some.mp hstep
    cases hstep
    exact fresh_of_none rfl
  | streamStop w =>
    obtain ⟨hnone, hstep⟩ := Option.ite_none_right_eq_some.mp hstep
    cases hstep
    exact fresh_of_none (streamStop_starting.trans hnone)
  | carrierStop w g =>
    obtain ⟨hnone, hstep⟩ := Option.ite_none_right_eq_some.mp hstep
    cases hstep
    exact fresh_of_none (stopCarrier_starting.trans hnone)
  | input event =>
    obtain ⟨hnone, hstep⟩ := Option.ite_none_right_eq_some.mp hstep
    obtain ⟨focus, input, heq⟩ := takeInput_eq s event
    rw [heq] at hstep
    split at hstep <;> cases hstep <;> exact fresh_of_none hnone
  | feedEnds i =>
    obtain ⟨feed, -, hstep⟩ := Option.bind_eq_some_iff.mp hstep
    obtain ⟨-, hstep⟩ := Option.ite_none_right_eq_some.mp hstep
    cases hstep
    exact hsame rfl rfl
  | feedGoes i =>
    obtain ⟨feed, -, hstep⟩ := Option.bind_eq_some_iff.mp hstep
    unfold Serving.feedGoes at hstep
    split at hstep
    case h_1 =>
      cases hstep
      exact hsame rfl rfl
    case h_2 =>
      cases hstep
      exact hsame detachWindow_streams detachWindow_starting
    case h_3 =>
      cases hstep
      exact hsame rfl rfl
    case h_4 => cases hstep

end Serving

end WindowCast.Stream
