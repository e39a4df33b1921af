import WindowCast.Stream.Serving

/-!
# What a client is told of a stream's end

The session's task takes a window out of its table before it tells the client that
the stream has stopped.  A feed that ends by itself tells the client too, but the
table keeps the window.

## Main definitions

* `Serving.Ended` — the session has no stream of a window.
* `Serving.Kept` — no feed tells of an end while the table has the window.

## Main results

* `Serving.Told.step` — what every step preserves.
* `Serving.ended_of_told` — **after the client was told of the end, the session has no
  stream of the window**.
-/

namespace WindowCast.Stream

open WindowCast.Host (WindowId)
open WindowCast.Transport (VideoCodec)

namespace Serving

variable {s s' : Serving} {event : Event}

/-- The feed carries a stream that is in the table, or is being started. -/
def Carries (s : Serving) (i : ℕ) (window : WindowId) : Prop :=
  (∃ generation carrier, s.carrier window generation = some carrier ∧ carrier.feed = some i)
    ∨ ∃ starting track, s.starting = some starting ∧ starting.window = window ∧ starting.fed = some (i, track)

/-- What the client was told, and what goes on. -/
structure Told (s : Serving) : Prop where
  word : ∀ window, lastWord window s.sent = some false → s.streams.lookup window = none
  carried : ∀ {i : ℕ} {feed : Feed}, s.feeds[i]? = some feed → feed.stop = false → s.Carries i feed.window
  fresh : ∀ starting, s.starting = some starting → s.carrier starting.window starting.generation = none

theorem told_new (mayInput : Option Bool) : Told (new mayInput) where
  word := fun _ h => by cases h
  carried := fun h => by cases h
  fresh := fun _ h => by cases h

/-- What an event relies on: a feed tells of an end only when the table has the window no
more. -/
def Kept (s : Serving) : Event → Prop
  | .feedGoes i => ∀ feed ∈ s.feeds[i]?, feed.phase = .telling → s.streams.lookup feed.window = none
  | _ => True

/-- Where the table, the start and the feeds are as before, so is what carries. -/
theorem Told.of_eq (h : s.Told) (hstreams : s'.streams = s.streams) (hstarting : s'.starting = s.starting)
    (hfeeds : ∀ {i : ℕ} {feed : Feed}, s'.feeds[i]? = some feed → feed.stop = false →
      ∃ feed', s.feeds[i]? = some feed' ∧ feed'.stop = false ∧ feed'.window = feed.window)
    (hword : ∀ window, lastWord window s'.sent = some false →
      lastWord window s.sent = some false ∨ s.streams.lookup window = none) : s'.Told where
  word := by
    intro window hlast
    rw [hstreams]
    exact (hword window hlast).elim (h.word window) id
  carried := by
    intro i feed hfeed hstop
    obtain ⟨feed', hfeed', hstop', hsame⟩ := hfeeds hfeed hstop
    have hcarries := h.carried hfeed' hstop'
    unfold Carries carrier at hcarries ⊢
    rw [hstreams, hstarting, ← hsame]
    exact hcarries
  fresh := by
    unfold carrier
    rw [hstreams, hstarting]
    exact h.fresh

theorem told_send_refusal (h : s.Told) (window : WindowId) (generation : ℕ) (reason : Text) :
    (s.send (.streamStartResponse window generation (.error reason))).Told := by
  refine h.of_eq rfl rfl (fun hfeed hstop => ⟨_, hfeed, hstop, rfl⟩) fun w hlast => Or.inl ?_
  rw [lastWord_send] at hlast
  exact hlast

/-- A feed starts on its track. -/
theorem told_feed (h : s.Told) {starting : Starting} (hstarting : s.starting = some starting)
    (hfed : starting.fed = none) (track : WindowTrack) : (s.feed starting track).Told where
  word := h.word
  carried := by
    intro i feed hfeed hstop
    rcases feed_feed hfeed with hold | ⟨rfl, rfl⟩
    · rcases h.carried hold hstop with hcarrier | ⟨starting', track', hsame, -, hfed'⟩
      · exact Or.inl hcarrier
      · rw [hstarting] at hsame
        cases hsame
        rw [hfed] at hfed'
        cases hfed'
    · exact Or.inr ⟨_, track, rfl, rfl, rfl⟩
  fresh := by
    intro starting' hsame
    cases hsame
    exact h.fresh starting hstarting

theorem told_attach (h : s.Told) {starting : Starting} (hstarting : s.starting = some starting)
    (hfed : starting.fed = none) (codec : VideoCodec) (answer : Except Text Unit) :
    (s.attach starting codec answer).Told := by
  rcases attach_cases starting codec answer with ⟨track, -, heq⟩ | ⟨reason, -, heq⟩ | ⟨-, heq⟩
  · rw [heq]
    exact told_feed h hstarting hfed track
  · rw [heq]
    refine told_send_refusal (s := { s with starting := none }) ⟨h.word, ?_, fun _ hnone => by cases hnone⟩ _ _ _
    intro i feed hfeed hstop
    rcases h.carried hfeed hstop with hcarrier | ⟨starting', track', hsame, -, hfed'⟩
    · exact Or.inl hcarrier
    · rw [hstarting] at hsame
      cases hsame
      rw [hfed] at hfed'
      cases hfed'
  · rw [heq]
    exact told_feed (s := { s with
      windows := s.windows.insert starting.window ⟨s.attached, codec⟩
      attached := s.attached + 1 }) ⟨h.word, h.carried, h.fresh⟩ hstarting hfed _

theorem told_accept (h : s.Told) {starting : Starting} (hstarting : s.starting = some starting) (sound : Bool) :
    (s.accept starting sound).Told where
  word := by
    intro window hlast
    rw [lastWord_accept] at hlast
    rw [lookup_accept]
    by_cases hw : starting.window = window
    · rw [if_pos hw] at hlast
      cases hlast
    · rw [if_neg hw] at hlast
      rw [if_neg (Ne.symm hw)]
      exact h.word window hlast
  carried := by
    intro i feed hfeed hstop
    refine Or.inl ?_
    rcases h.carried hfeed hstop with ⟨generation, carrier, hcarrier, hfeedOf⟩ | ⟨starting', track, hsame, hwindow, hfed⟩
    · refine ⟨generation, carrier, ?_, hfeedOf⟩
      rw [carrier_accept, if_neg, hcarrier]
      rintro ⟨hw, hg⟩
      rw [hw, hg, h.fresh starting hstarting] at hcarrier
      cases hcarrier
    · rw [hstarting] at hsame
      cases hsame
      refine ⟨starting.generation, ⟨starting.kind, starting.codec, starting.fed.map Prod.fst⟩, ?_, ?_⟩
      · rw [carrier_accept, if_pos ⟨hwindow.symm, rfl⟩]
      · rw [hfed]
        rfl
  fresh := fun _ hnone => by cases hnone

/-- The feeds that a stop leaves are those of the carriers it leaves. -/
theorem told_stop (h : s.Told) (hnone : s.starting = none) (hstarting : s'.starting = s.starting)
    (gone : WindowId → Carrier → Prop)
    (hword : ∀ window, lastWord window s'.sent = some false → s'.streams.lookup window = none)
    (hcarrier : ∀ {window : WindowId} {generation : ℕ} {carrier : Carrier},
      s.carrier window generation = some carrier →
        s'.carrier window generation = some carrier ∨ gone window carrier)
    (hfeed : ∀ {i : ℕ} {feed : Feed}, s'.feeds[i]? = some feed → feed.stop = false →
      s.feeds[i]? = some feed ∧ ∀ window carrier, gone window carrier → carrier.feed ≠ some i) : s'.Told where
  word := hword
  carried := by
    intro i feed hfeed' hstop
    obtain ⟨hold, hkept⟩ := hfeed hfeed' hstop
    rcases h.carried hold hstop with ⟨generation, carrier, hat, hfeedOf⟩ | ⟨starting, track, hsome, -, -⟩
    · refine Or.inl ⟨generation, carrier, (hcarrier hat).resolve_right fun hgone => ?_, hfeedOf⟩
      exact hkept _ carrier hgone hfeedOf
    · rw [hnone] at hsome
      cases hsome
  fresh := by
    intro starting hsome
    rw [hstarting, hnone] at hsome
    cases hsome

theorem told_streamStop (h : s.Told) (hnone : s.starting = none) (window : WindowId) :
    (s.streamStop window).Told := by
  refine told_stop h hnone streamStop_starting (fun w carrier => w = window ∧ carrier ∈ s.carriersOf window) ?_ ?_ ?_
  · intro w hlast
    rw [lookup_streamStop]
    rw [lastWord_streamStop] at hlast
    split
    case isTrue => rfl
    case isFalse hw =>
      rw [if_neg fun hend => hw hend.1.symm] at hlast
      exact h.word w hlast
  · intro w generation carrier hcarrier
    rw [carrier_streamStop]
    by_cases hw : w = window
    · exact Or.inr ⟨hw, mem_carriersOf.mpr ⟨generation, hw ▸ hcarrier⟩⟩
    · rw [if_neg hw]
      exact Or.inl hcarrier
  · intro i feed hfeed hstop
    rw [streamStop_feed] at hfeed
    obtain ⟨feed', hfeed', heq⟩ := Option.map_eq_some_iff.mp hfeed
    split at heq
    case isTrue =>
      rw [← heq] at hstop
      cases hstop
    case isFalse hkept =>
      subst heq
      refine ⟨hfeed', ?_⟩
      rintro w carrier ⟨-, hmem⟩ hfeedOf
      exact hkept (List.mem_map.mpr ⟨carrier, hmem, hfeedOf⟩)

theorem told_stopCarrier (h : s.Told) (hnone : s.starting = none) (window : WindowId) (generation : ℕ) :
    (s.stopCarrier window generation).Told := by
  cases hentry : s.streams.lookup window with
  | none =>
    rw [stopCarrier_none hentry]
    exact h
  | some entry =>
  refine told_stop h hnone stopCarrier_starting
    (fun w carrier => w = window ∧ entry.carriers.lookup generation = some carrier) ?_ ?_ ?_
  · intro w hlast
    rw [lookup_stopCarrier hentry]
    rw [lastWord_stopCarrier hentry] at hlast
    split
    case isTrue hw =>
      split
      case isTrue => rfl
      case isFalse hmore =>
        rw [if_neg fun hend => hmore hend.2, hw] at hlast
        rw [h.word window hlast] at hentry
        cases hentry
    case isFalse hw =>
      rw [if_neg fun hend => hw hend.1.symm] at hlast
      exact h.word w hlast
  · intro w generation' carrier hcarrier
    rw [carrier_stopCarrier]
    by_cases hgone : w = window ∧ generation' = generation
    · obtain ⟨rfl, rfl⟩ := hgone
      rw [Serving.carrier, hentry] at hcarrier
      exact Or.inr ⟨rfl, hcarrier⟩
    · rw [if_neg hgone]
      exact Or.inl hcarrier
  · intro i feed hfeed hstop
    rw [stopCarrier_feed hentry] at hfeed
    obtain ⟨feed', hfeed', heq⟩ := Option.map_eq_some_iff.mp hfeed
    split at heq
    case isTrue =>
      rw [← heq] at hstop
      cases hstop
    case isFalse hkept =>
      subst heq
      refine ⟨hfeed', ?_⟩
      rintro w carrier ⟨-, hcarrier⟩ hfeedOf
      rw [hcarrier] at hkept
      exact hkept hfeedOf

/-- What every step preserves where a feed tells of an end only when the table has the
window no more. -/
theorem Told.step (h : s.Told) (hkept : s.Kept event) (hstep : s.step event = some s') : s'.Told := by
  cases event with
  | streamStart window options generation offer =>
    obtain ⟨hnone, hstep⟩ := Option.ite_none_right_eq_some.mp hstep
    cases hanswer : s.answer window options generation offer with
    | error reason =>
      rw [hanswer] at hstep
      cases hstep
      exact told_send_refusal h window generation reason
    | ok starting =>
      rw [hanswer] at hstep
      cases hstep
      obtain ⟨rfl, rfl, -, hrunning, -⟩ := answer_ok hanswer
      refine ⟨h.word, ?_, ?_⟩
      · intro i feed hfeed hstop
        rcases h.carried hfeed hstop with hcarrier | ⟨starting', track, hsome, -, -⟩
        · exact Or.inl hcarrier
        · rw [hnone] at hsome
          cases hsome
      · intro starting' hsame
        cases hsame
        exact carrier_of_running hrunning
  | attach answer =>
    obtain ⟨starting, hstarting, hstep⟩ := Option.bind_eq_some_iff.mp hstep
    split at hstep
    case h_1 codec hcodec hfed =>
      cases hstep
      exact told_attach h hstarting hfed codec answer
    case h_2 => cases hstep
  | accept sound =>
    obtain ⟨starting, hstarting, hstep⟩ := Option.bind_eq_some_iff.mp hstep
    obtain ⟨-, hstep⟩ := Option.ite_none_right_eq_some.mp hstep
    cases hstep
    exact told_accept h hstarting sound
  | streamStop window =>
    obtain ⟨hnone, hstep⟩ := Option.ite_none_right_eq_some.mp hstep
    cases hstep
    exact told_streamStop h hnone window
  | carrierStop window generation =>
    obtain ⟨hnone, hstep⟩ := Option.ite_none_right_eq_some.mp hstep
    cases hstep
    exact told_stopCarrier h hnone window generation
  | input event =>
    obtain ⟨-, hstep⟩ := Option.ite_none_right_eq_some.mp hstep
    split at hstep
    case isTrue =>
      cases hstep
      exact h
    case isFalse =>
      cases hstep
      obtain ⟨focus, input, heq⟩ := takeInput_eq s event
      rw [heq]
      exact ⟨h.word, h.carried, h.fresh⟩
  | feedEnds i =>
    obtain ⟨feed, hfeed, hstep⟩ := Option.bind_eq_some_iff.mp hstep
    obtain ⟨-, hstep⟩ := Option.ite_none_right_eq_some.mp hstep
    cases hstep
    refine h.of_eq rfl rfl ?_ fun _ hlast => Or.inl hlast
    intro j feed' hfeed' hstop
    obtain ⟨feed'', hold, hsame, hwindow⟩ := feed_of_setPhase hfeed _ hfeed'
    exact ⟨feed'', hold, hsame.trans hstop, hwindow⟩
  | feedGoes i =>
    obtain ⟨feed, hfeed, hstep⟩ := Option.bind_eq_some_iff.mp hstep
    have hphases : ∀ phase, (s.setPhase i feed phase).Told := by
      intro phase
      refine h.of_eq rfl rfl ?_ fun _ hlast => Or.inl hlast
      intro j feed' hfeed' hstop
      obtain ⟨feed'', hold, hsame, hwindow⟩ := feed_of_setPhase hfeed _ hfeed'
      exact ⟨feed'', hold, hsame.trans hstop, hwindow⟩
    unfold Serving.feedGoes at hstep
    split at hstep
    case h_1 =>
      cases hstep
      have hphase := hphases .detaching
      exact ⟨hphase.word, hphase.carried, hphase.fresh⟩
    case h_2 =>
      cases hstep
      refine (hphases .telling).of_eq detachWindow_streams detachWindow_starting ?_ ?_
      · intro j feed' hfeed' hstop
        rw [detachWindow_feeds] at hfeed'
        exact ⟨feed', hfeed', hstop, rfl⟩
      · intro window hlast
        rw [lastWord_detachWindow] at hlast
        exact Or.inl hlast
    case h_3 hphase =>
      cases hstep
      refine (hphases .ended).of_eq rfl rfl (fun hfeed' hstop => ⟨_, hfeed', hstop, rfl⟩) ?_
      intro window hlast
      rw [lastWord_send, HostMessage.word] at hlast
      by_cases hw : feed.window = window
      · exact Or.inr (hw ▸ hkept feed hfeed hphase)
      · rw [if_neg hw, Option.none_or] at hlast
        exact Or.inl hlast
    case h_4 => cases hstep

/-! ### Runs -/

/-- The session has no stream of a window: a start is not refused as carried already,
input is not accepted, and no feed goes on but one that is being started. -/
structure Ended (s : Serving) (window : WindowId) : Prop where
  table : s.streams.lookup window = none
  startable : ∀ generation kind, s.running window generation kind = false
  named : ∀ event, inputWindow event = some window → s.takeInput event = s
  focused : s.focus = some window → ∀ event, inputWindow event = none → s.takeInput event = s
  feeds : ∀ {i : ℕ} {feed : Feed}, s.feeds[i]? = some feed → feed.window = window → feed.stop = false →
    ∃ starting track, s.starting = some starting ∧ starting.window = window ∧ starting.fed = some (i, track)

theorem Told.ended (h : s.Told) {window : WindowId} (hlast : lastWord window s.sent = some false) :
    s.Ended window := by
  have htable := h.word window hlast
  refine ⟨htable, ?_, ?_, ?_, ?_⟩
  · intro generation kind
    rw [running, htable]
    rfl
  · intro event hwindow
    simp only [takeInput, hwindow, htable]
    rfl
  · intro hfocus event hwindow
    simp only [takeInput, hwindow, hfocus, Option.any_some, htable]
    rfl
  · intro i feed hfeed hwindow hstop
    subst hwindow
    refine (h.carried hfeed hstop).resolve_left ?_
    rintro ⟨generation, carrier, hcarrier, -⟩
    rw [Serving.carrier, htable] at hcarrier
    cases hcarrier

/-- Nothing less will do: a feed that tells of the end while the table has the window
breaks it at once. -/
theorem kept_of_ended (hstep : s.step event = some s')
    (h : ∀ window, lastWord window s'.sent = some false → s'.streams.lookup window = none) : s.Kept event := by
  cases event with
  | feedGoes i =>
    intro feed hfeed hphase
    have hgoes : s.step (.feedGoes i) = some ((s.setPhase i feed .ended).send (.streamStopped feed.window)) := by
      rw [Serving.step, hfeed, Option.bind_some, Serving.feedGoes, hphase]
    rw [hgoes] at hstep
    cases hstep
    refine h feed.window ?_
    rw [lastWord_send, HostMessage.word, if_pos rfl]
    rfl
  | _ => trivial

def nativeOffer : Offer := ⟨true, [], [.h264], .ok ()⟩

/-- A window is streamed, stopped by the client, streamed again, and then its other carrier
stopped. -/
def stoppedTwice : List Event :=
  [.streamStart 7 ⟨.native, [.h264]⟩ 0 nativeOffer, .attach (.ok ()), .accept true, .streamStop 7, .feedEnds 0,
    .streamStart 7 ⟨.native, [.h264]⟩ 1 nativeOffer, .attach (.ok ()), .accept true, .carrierStop 7 1]

/-- The window of a stream closes. -/
def closedByItself : List Event :=
  [.streamStart 7 ⟨.native, [.h264]⟩ 0 nativeOffer, .attach (.ok ()), .accept false, .feedEnds 0, .feedGoes 0,
    .feedGoes 0, .feedGoes 0]

end Serving

end WindowCast.Stream
