import WindowCast.Stream.Serving

/-!
# Carriers of one window

A client that switches a window's carrier starts the new one and then stops the old
one.  A carrier on the session sends on the window's track, and a window has one
track: two such carriers share it, in the codec of the first, and the stop of either
takes it away.

## Main definitions

* `Serving.On` — a carrier sends on a track of its own.
* `Serving.Separate` — a window has one carrier on the session.

## Main results

* `Serving.Apart.step` — what every step preserves.
* `Serving.stop_ends_one` — **a stop of one carrier ends that one only**.
-/

namespace WindowCast.Stream

open WindowCast.Host (WindowId)
open WindowCast.Transport (VideoCodec)

namespace Serving

variable {s s' : Serving} {event : Event}

/-- A carrier of the window sends on its track, which is attached, in the codec the
client was told. -/
structure On (s : Serving) (window : WindowId) (carrier : Carrier) (i : ℕ) (track : WindowTrack) : Prop where
  feed : carrier.feed = some i
  fed : ∃ feed, s.feeds[i]? = some feed ∧ feed.window = window ∧ feed.track = track ∧ feed.stop = false
  attached : s.windows.lookup window = some track
  codec : carrier.codec = some track.codec

/-- A stream that is being started has its feed and its track, and is the only one of its
window on the session. -/
structure Ready (s : Serving) (starting : Starting) (i : ℕ) (track : WindowTrack) : Prop where
  fed : ∃ feed, s.feeds[i]? = some feed ∧ feed.window = starting.window ∧ feed.track = track ∧ feed.stop = false
  attached : s.windows.lookup starting.window = some track
  codec : starting.codec = some track.codec
  alone : ∀ generation carrier, s.carrier starting.window generation = some carrier → sessionTrack carrier.kind = false

/-- Every carrier on the session has a track of its own. -/
structure Apart (s : Serving) : Prop where
  carried : ∀ {window : WindowId} {generation : ℕ} {carrier : Carrier}, s.carrier window generation = some carrier →
    sessionTrack carrier.kind = true → ∃ i track, s.On window carrier i track
  handed : ∀ {window : WindowId} {generation : ℕ} {carrier : Carrier}, s.carrier window generation = some carrier →
    sessionTrack carrier.kind = false → carrier.feed = none
  alone : ∀ {window : WindowId} {generation generation' : ℕ} {carrier carrier' : Carrier},
    s.carrier window generation = some carrier → s.carrier window generation' = some carrier' →
      sessionTrack carrier.kind = true → sessionTrack carrier'.kind = true → generation = generation'
  fresh : ∀ {starting : Starting}, s.starting = some starting →
    s.carrier starting.window starting.generation = none
  kind : ∀ {starting : Starting}, s.starting = some starting → starting.codec.isSome = sessionTrack starting.kind
  ready : ∀ {starting : Starting} {i : ℕ} {track : WindowTrack}, s.starting = some starting →
    starting.fed = some (i, track) → s.Ready starting i track
  few : ∀ {window : WindowId} {track : WindowTrack}, s.windows.lookup window = some track → track.id < s.attached
  own : ∀ {window window' : WindowId} {track track' : WindowTrack}, s.windows.lookup window = some track →
    s.windows.lookup window' = some track' → track.id = track'.id → window = window'

theorem apart_new (mayInput : Option Bool) : Apart (new mayInput) where
  carried := fun h => by cases h
  handed := fun h => by cases h
  alone := fun h => by cases h
  fresh := fun h => by cases h
  kind := fun h => by cases h
  ready := fun h => by cases h
  few := fun h => by cases h
  own := fun h => by cases h

/-- What an event relies on: a track is attached where there is none, and a feed that has
ended by itself takes the track away where no carrier sends on it any more. -/
def Separate (s : Serving) : Event → Prop
  | .attach _ => ∀ starting ∈ s.starting, s.windows.lookup starting.window = none
  | .feedGoes i => ∀ feed ∈ s.feeds[i]?, feed.phase = .detaching →
    (∀ carrier ∈ s.carriersOf feed.window, sessionTrack carrier.kind = false)
      ∧ ∀ starting ∈ s.starting, starting.window = feed.window → starting.fed = none
  | _ => True

/-- Feeds of two carriers on the session are two. -/
theorem Apart.feed_inj (h : s.Apart) {window window' : WindowId} {generation generation' : ℕ} {carrier carrier' : Carrier}
    (hcarrier : s.carrier window generation = some carrier) (hcarrier' : s.carrier window' generation' = some carrier')
    {i : ℕ} (hfeed : carrier.feed = some i) (hfeed' : carrier'.feed = some i) :
    window = window' ∧ generation = generation' := by
  have hkind : ∀ {window : WindowId} {generation : ℕ} {carrier : Carrier},
      s.carrier window generation = some carrier → carrier.feed = some i → sessionTrack carrier.kind = true := by
    intro window generation carrier hcarrier hfeed
    by_contra hhanded
    have hnone := h.handed hcarrier (eq_false_of_ne_true hhanded)
    rw [hfeed] at hnone
    cases hnone
  obtain ⟨j, track, hon⟩ := h.carried hcarrier (hkind hcarrier hfeed)
  obtain ⟨j', track', hon'⟩ := h.carried hcarrier' (hkind hcarrier' hfeed')
  obtain ⟨feed, hat, hwindow, -, -⟩ := hon.fed
  obtain ⟨feed', hat', hwindow', -, -⟩ := hon'.fed
  have hj : j = i := Option.some.inj (hon.feed.symm.trans hfeed)
  have hj' : j' = i := Option.some.inj (hon'.feed.symm.trans hfeed')
  subst hj
  subst hj'
  rw [hat] at hat'
  cases hat'
  have hsame : window = window' := hwindow.symm.trans hwindow'
  subst hsame
  exact ⟨rfl, h.alone hcarrier hcarrier' (hkind hcarrier hfeed) (hkind hcarrier' hfeed')⟩

/-- A carrier whose feed and whose track stay is on its track. -/
theorem On.of_eq {window : WindowId} {carrier : Carrier} {i : ℕ} {track : WindowTrack} (h : s.On window carrier i track)
    (hfeeds : ∀ {feed : Feed}, s.feeds[i]? = some feed → ∃ phase, s'.feeds[i]? = some { feed with phase := phase })
    (hwindows : s'.windows.lookup window = s.windows.lookup window) : s'.On window carrier i track := by
  obtain ⟨feed, hfeed, hwindow, htrack, hstop⟩ := h.fed
  obtain ⟨phase, hfeed'⟩ := hfeeds hfeed
  exact ⟨h.feed, ⟨_, hfeed', hwindow, htrack, hstop⟩, hwindows.trans h.attached, h.codec⟩

/-- The same for a stream that is being started. -/
theorem Ready.of_eq {starting : Starting} {i : ℕ} {track : WindowTrack} (h : s.Ready starting i track)
    (hfeeds : ∀ {feed : Feed}, s.feeds[i]? = some feed → ∃ phase, s'.feeds[i]? = some { feed with phase := phase })
    (hwindows : s'.windows.lookup starting.window = s.windows.lookup starting.window)
    (hstreams : s'.streams = s.streams) : s'.Ready starting i track := by
  obtain ⟨feed, hfeed, hwindow, htrack, hstop⟩ := h.fed
  obtain ⟨phase, hfeed'⟩ := hfeeds hfeed
  refine ⟨⟨_, hfeed', hwindow, htrack, hstop⟩, hwindows.trans h.attached, h.codec, ?_⟩
  unfold carrier
  rw [hstreams]
  exact h.alone

/-- Where the table, the start and the tracks are as before. -/
theorem Apart.of_eq (h : s.Apart) (hstreams : s'.streams = s.streams) (hstarting : s'.starting = s.starting)
    (hwindows : s'.windows = s.windows) (hattached : s'.attached = s.attached)
    (hfeeds : ∀ {i : ℕ} {feed : Feed}, s.feeds[i]? = some feed →
      ∃ phase, s'.feeds[i]? = some { feed with phase := phase }) : s'.Apart := by
  have hcarrier : ∀ window generation, s'.carrier window generation = s.carrier window generation := by
    intro window generation
    unfold carrier
    rw [hstreams]
  refine ⟨?_, ?_, ?_, ?_, ?_, ?_, ?_, ?_⟩
  · intro window generation carrier hat hkind
    rw [hcarrier] at hat
    obtain ⟨i, track, hon⟩ := h.carried hat hkind
    exact ⟨i, track, hon.of_eq hfeeds (by rw [hwindows])⟩
  · intro window generation carrier hat
    rw [hcarrier] at hat
    exact h.handed hat
  · intro window generation generation' carrier carrier' hat hat'
    rw [hcarrier] at hat hat'
    exact h.alone hat hat'
  · intro starting hsome
    rw [hcarrier]
    exact h.fresh (hstarting ▸ hsome)
  · intro starting hsome
    exact h.kind (hstarting ▸ hsome)
  · intro starting i track hsome hfed
    exact (h.ready (hstarting ▸ hsome) hfed).of_eq hfeeds (by rw [hwindows]) hstreams
  · intro window track
    rw [hwindows, hattached]
    exact h.few
  · intro window window' track track'
    rw [hwindows]
    exact h.own

/-- A track is attached, and its feed starts. -/
theorem apart_attach (h : s.Apart) {starting : Starting} (hstarting : s.starting = some starting)
    {codec : VideoCodec} (hcodec : starting.codec = some codec)
    (hnone : s.windows.lookup starting.window = none) :
    Apart ({ s with
      windows := s.windows.insert starting.window ⟨s.attached, codec⟩
      attached := s.attached + 1 }.feed starting ⟨s.attached, codec⟩) := by
  have hnew : (s.windows.insert starting.window ⟨s.attached, codec⟩).lookup starting.window
      = some ⟨s.attached, codec⟩ := AList.lookup_insert _
  have hold : ∀ {window}, window ≠ starting.window →
      (s.windows.insert starting.window ⟨s.attached, codec⟩).lookup window = s.windows.lookup window :=
    fun hne => AList.lookup_insert_ne hne
  -- the window has no carrier on the session, or its track would be attached
  have halone : ∀ generation carrier, s.carrier starting.window generation = some carrier →
      sessionTrack carrier.kind = false := by
    intro generation carrier hcarrier
    by_contra hkind
    obtain ⟨i, track, hon⟩ := h.carried hcarrier (eq_true_of_ne_false hkind)
    have hattached := hon.attached
    rw [hnone] at hattached
    cases hattached
  refine ⟨?_, h.handed, h.alone, ?_, ?_, ?_, ?_, ?_⟩
  · intro window generation carrier hcarrier hkind
    have hne : window ≠ starting.window := by
      rintro rfl
      have hfalse := halone generation carrier hcarrier
      rw [hkind] at hfalse
      cases hfalse
    obtain ⟨i, track, hon⟩ := h.carried hcarrier hkind
    exact ⟨i, track, hon.of_eq (fun hfeed => ⟨_, feed_of_feed hfeed⟩) (hold hne)⟩
  · intro starting' hsome
    have hfresh := h.fresh hstarting
    cases hsome
    exact hfresh
  · intro starting' hsome
    have hkind := h.kind hstarting
    cases hsome
    exact hkind
  · intro starting' i track hsome hfed
    cases hsome
    cases hfed
    exact ⟨⟨_, List.getElem?_concat_length, rfl, rfl, rfl⟩, hnew, hcodec, halone⟩
  · intro window track hlookup
    by_cases hw : window = starting.window
    · subst hw
      cases hnew.symm.trans hlookup
      exact Nat.lt_succ_self _
    · exact Nat.lt_succ_of_lt (h.few ((hold hw).symm.trans hlookup))
  · intro window window' track track' hlookup hlookup' hid
    by_cases hw : window = starting.window
    · subst hw
      cases hnew.symm.trans hlookup
      by_contra hne
      have hlt := h.few ((hold (Ne.symm hne)).symm.trans hlookup')
      rw [← hid] at hlt
      exact Nat.lt_irrefl _ hlt
    · by_cases hw' : window' = starting.window
      · subst hw'
        cases hnew.symm.trans hlookup'
        have hlt := h.few ((hold hw).symm.trans hlookup)
        rw [hid] at hlt
        exact absurd hlt (Nat.lt_irrefl _)
      · exact h.own ((hold hw).symm.trans hlookup) ((hold hw').symm.trans hlookup') hid

/-- The stream has started. -/
theorem apart_accept (h : s.Apart) {starting : Starting} (hstarting : s.starting = some starting)
    (hfed : starting.codec.isSome = starting.fed.isSome) (sound : Bool) : (s.accept starting sound).Apart := by
  have hkind := (h.kind hstarting).symm.trans hfed
  -- the new carrier is on its track, and no other of the window is on the session
  have hnew : sessionTrack starting.kind = true →
      (∃ i track, s.On starting.window ⟨starting.kind, starting.codec, starting.fed.map Prod.fst⟩ i track)
        ∧ ∀ generation carrier, s.carrier starting.window generation = some carrier →
          sessionTrack carrier.kind = false := by
    intro hsession
    rw [hsession] at hkind
    obtain ⟨⟨i, track⟩, hsome⟩ := Option.isSome_iff_exists.mp hkind.symm
    have hready := h.ready hstarting hsome
    exact ⟨⟨i, track, by rw [hsome]; rfl, hready.fed, hready.attached, hready.codec⟩, hready.alone⟩
  refine ⟨?_, ?_, ?_, (fun hsome => by cases hsome), (fun hsome => by cases hsome), (fun hsome => by cases hsome),
    h.few, h.own⟩
  · intro window generation carrier hcarrier hsession
    rw [carrier_accept] at hcarrier
    by_cases hsame : window = starting.window ∧ generation = starting.generation
    · rw [if_pos hsame] at hcarrier
      cases hcarrier
      rw [hsame.1]
      obtain ⟨i, track, hon⟩ := (hnew hsession).1
      exact ⟨i, track, hon.of_eq (fun hfeed => ⟨_, hfeed⟩) rfl⟩
    · rw [if_neg hsame] at hcarrier
      obtain ⟨i, track, hon⟩ := h.carried hcarrier hsession
      exact ⟨i, track, hon.of_eq (fun hfeed => ⟨_, hfeed⟩) rfl⟩
  · intro window generation carrier hcarrier hhanded
    rw [carrier_accept] at hcarrier
    by_cases hsame : window = starting.window ∧ generation = starting.generation
    · rw [if_pos hsame] at hcarrier
      cases hcarrier
      have hnone : starting.fed = none := by
        rw [hhanded] at hkind
        exact Option.isNone_iff_eq_none.mp (by simpa using hkind.symm)
      rw [hnone]
      rfl
    · rw [if_neg hsame] at hcarrier
      exact h.handed hcarrier hhanded
  · intro window generation generation' carrier carrier' hcarrier hcarrier' hsession hsession'
    rw [carrier_accept] at hcarrier hcarrier'
    by_cases hsame : window = starting.window ∧ generation = starting.generation
    · obtain ⟨rfl, rfl⟩ := hsame
      by_cases hsame' : starting.window = starting.window ∧ generation' = starting.generation
      · exact hsame'.2.symm
      · rw [if_pos ⟨rfl, rfl⟩] at hcarrier
        cases hcarrier
        rw [if_neg hsame'] at hcarrier'
        have hfalse := (hnew hsession).2 generation' carrier' hcarrier'
        rw [hsession'] at hfalse
        cases hfalse
    · rw [if_neg hsame] at hcarrier
      by_cases hsame' : window = starting.window ∧ generation' = starting.generation
      · obtain ⟨rfl, rfl⟩ := hsame'
        rw [if_pos ⟨rfl, rfl⟩] at hcarrier'
        cases hcarrier'
        have hfalse := (hnew hsession').2 generation carrier hcarrier
        rw [hsession] at hfalse
        cases hfalse
      · rw [if_neg hsame'] at hcarrier'
        exact h.alone hcarrier hcarrier' hsession hsession'

/-- A stop leaves the other carriers on their tracks. -/
theorem apart_stop (h : s.Apart) (hnone : s'.starting = none) (hattached : s'.attached = s.attached)
    (hcarrier : ∀ {window : WindowId} {generation : ℕ} {carrier : Carrier},
      s'.carrier window generation = some carrier → s.carrier window generation = some carrier)
    (hwindows : ∀ {window : WindowId} {track : WindowTrack}, s'.windows.lookup window = some track →
      s.windows.lookup window = some track)
    (hon : ∀ {window : WindowId} {generation : ℕ} {carrier : Carrier} {i : ℕ} {track : WindowTrack},
      s'.carrier window generation = some carrier → sessionTrack carrier.kind = true → s.On window carrier i track →
        s'.On window carrier i track) : s'.Apart where
  carried := by
    intro window generation carrier hat hkind
    obtain ⟨i, track, hwas⟩ := h.carried (hcarrier hat) hkind
    exact ⟨i, track, hon hat hkind hwas⟩
  handed := fun hat => h.handed (hcarrier hat)
  alone := fun hat hat' => h.alone (hcarrier hat) (hcarrier hat')
  fresh := fun hsome => by rw [hnone] at hsome; cases hsome
  kind := fun hsome => by rw [hnone] at hsome; cases hsome
  ready := fun hsome => by rw [hnone] at hsome; cases hsome
  few := fun hlookup => hattached ▸ h.few (hwindows hlookup)
  own := fun hlookup hlookup' => h.own (hwindows hlookup) (hwindows hlookup')

theorem streamStop_on (h : s.Apart) {window w : WindowId} {generation : ℕ} {carrier : Carrier} {i : ℕ}
    {track : WindowTrack} (hw : w ≠ window) (hcarrier : s.carrier w generation = some carrier)
    (hon : s.On w carrier i track) : (s.streamStop window).On w carrier i track := by
  have hkept : some i ∉ (s.carriersOf window).map Carrier.feed := by
    intro hmem
    obtain ⟨carrier', hmem', hfeed'⟩ := List.mem_map.mp hmem
    obtain ⟨generation', hcarrier'⟩ := mem_carriersOf.mp hmem'
    exact hw (h.feed_inj hcarrier hcarrier' hon.feed hfeed').1
  refine hon.of_eq (fun {feed} hfeed => ⟨feed.phase, ?_⟩) (streamStop_windows hw)
  rw [streamStop_feed, hfeed, Option.map_some, if_neg hkept]

theorem apart_streamStop (h : s.Apart) (hnone : s.starting = none) (window : WindowId) : (s.streamStop window).Apart := by
  have hcarrier : ∀ {w : WindowId} {generation : ℕ} {carrier : Carrier},
      (s.streamStop window).carrier w generation = some carrier →
        w ≠ window ∧ s.carrier w generation = some carrier := by
    intro w generation carrier hat
    rw [carrier_streamStop] at hat
    exact Option.ite_none_left_eq_some.mp hat
  refine apart_stop h (streamStop_starting.trans hnone) streamStop_attached (fun hat => (hcarrier hat).2)
    windows_of_streamStop ?_
  intro w generation carrier i track hat _ hon
  exact streamStop_on h (hcarrier hat).1 (hcarrier hat).2 hon

/-- The stop of one carrier leaves every other on its track. -/
theorem stopCarrier_on (h : s.Apart) {window w : WindowId} {generation generation' : ℕ} {carrier : Carrier} {i : ℕ}
    {track : WindowTrack} (hother : ¬ (w = window ∧ generation' = generation))
    (hcarrier : s.carrier w generation' = some carrier) (hkind : sessionTrack carrier.kind = true)
    (hon : s.On w carrier i track) : (s.stopCarrier window generation).On w carrier i track := by
  cases hentry : s.streams.lookup window with
  | none =>
    rw [stopCarrier_none hentry]
    exact hon
  | some entry =>
  have hstopped : ∀ {carrier'}, entry.carriers.lookup generation = some carrier' →
      s.carrier window generation = some carrier' := by
    intro carrier' hlookup
    rw [Serving.carrier, hentry]
    exact hlookup
  refine hon.of_eq (fun {feed} hfeed => ⟨feed.phase, ?_⟩) ?_
  · rw [stopCarrier_feed hentry, hfeed, Option.map_some, if_neg]
    intro hsame
    obtain ⟨carrier', hlookup, hfeed'⟩ := Option.bind_eq_some_iff.mp hsame
    exact hother (h.feed_inj hcarrier (hstopped hlookup) hon.feed hfeed')
  · rw [stopCarrier_windows hentry, if_neg]
    rintro ⟨rfl, hany⟩
    obtain ⟨carrier', hlookup, hkind'⟩ := (Option.any_eq_true _ _).mp hany
    exact hother ⟨rfl, h.alone hcarrier (hstopped hlookup) hkind hkind'⟩

theorem apart_stopCarrier (h : s.Apart) (hnone : s.starting = none) (window : WindowId) (generation : ℕ) :
    (s.stopCarrier window generation).Apart := by
  cases hentry : s.streams.lookup window with
  | none =>
    rw [stopCarrier_none hentry]
    exact h
  | some entry =>
  have hcarrier : ∀ {w : WindowId} {generation' : ℕ} {carrier : Carrier},
      (s.stopCarrier window generation).carrier w generation' = some carrier →
        ¬ (w = window ∧ generation' = generation) ∧ s.carrier w generation' = some carrier := by
    intro w generation' carrier hat
    rw [carrier_stopCarrier] at hat
    exact Option.ite_none_left_eq_some.mp hat
  refine apart_stop h (stopCarrier_starting.trans hnone) stopCarrier_attached (fun hat => (hcarrier hat).2) ?_ ?_
  · intro w track hlookup
    rw [stopCarrier_windows hentry] at hlookup
    exact (Option.ite_none_left_eq_some.mp hlookup).2
  · intro w generation' carrier i track hat hkind hon
    exact stopCarrier_on h (hcarrier hat).1 (hcarrier hat).2 hkind hon

/-- A track is taken away that no carrier sends on. -/
theorem apart_detachWindow (h : s.Apart) {window : WindowId}
    (hcarriers : ∀ carrier ∈ s.carriersOf window, sessionTrack carrier.kind = false)
    (hstarting : ∀ starting ∈ s.starting, starting.window = window → starting.fed = none) :
    (s.detachWindow window).Apart := by
  have hwindows : ∀ {w : WindowId} {track : WindowTrack}, (s.detachWindow window).windows.lookup w = some track →
      s.windows.lookup w = some track := by
    intro w track hlookup
    rw [lookup_detachWindow] at hlookup
    exact (Option.ite_none_left_eq_some.mp hlookup).2
  have hkept : ∀ {w : WindowId}, w ≠ window → (s.detachWindow window).windows.lookup w = s.windows.lookup w := by
    intro w hw
    rw [lookup_detachWindow, if_neg hw]
  have hcarrier : ∀ w generation, (s.detachWindow window).carrier w generation = s.carrier w generation := by
    intro w generation
    unfold carrier
    rw [detachWindow_streams]
  refine ⟨?_, ?_, ?_, ?_, ?_, ?_, ?_, fun hlookup hlookup' => h.own (hwindows hlookup) (hwindows hlookup')⟩
  · intro w generation carrier hat hkind
    rw [hcarrier] at hat
    have hw : w ≠ window := by
      rintro rfl
      have hfalse := hcarriers carrier (mem_carriersOf.mpr ⟨generation, hat⟩)
      rw [hkind] at hfalse
      cases hfalse
    obtain ⟨i, track, hon⟩ := h.carried hat hkind
    exact ⟨i, track, hon.of_eq (fun hfeed => ⟨_, by rw [detachWindow_feeds]; exact hfeed⟩) (hkept hw)⟩
  · intro w generation carrier hat
    rw [hcarrier] at hat
    exact h.handed hat
  · intro w generation generation' carrier carrier' hat hat'
    rw [hcarrier] at hat hat'
    exact h.alone hat hat'
  · intro starting hsome
    rw [detachWindow_starting] at hsome
    rw [hcarrier]
    exact h.fresh hsome
  · intro starting hsome
    rw [detachWindow_starting] at hsome
    exact h.kind hsome
  · intro starting i track hsome hfed
    rw [detachWindow_starting] at hsome
    have hw : starting.window ≠ window := by
      intro hw
      rw [hstarting starting hsome hw] at hfed
      cases hfed
    exact (h.ready hsome hfed).of_eq (fun hfeed => ⟨_, by rw [detachWindow_feeds]; exact hfeed⟩) (hkept hw)
      detachWindow_streams
  · intro w track hlookup
    rw [detachWindow_attached]
    exact h.few (hwindows hlookup)

/-- What every step preserves of carriers that are apart. -/
theorem Apart.step (h : s.Apart) (hseparate : s.Separate event) (hstep : s.step event = some s') : s'.Apart := by
  cases event with
  | streamStart window options generation offer =>
    obtain ⟨hnone, hstep⟩ := Option.ite_none_right_eq_some.mp hstep
    cases hanswer : s.answer window options generation offer with
    | error reason =>
      rw [hanswer] at hstep
      cases hstep
      exact h.of_eq rfl rfl rfl rfl fun hfeed => ⟨_, hfeed⟩
    | ok starting =>
      rw [hanswer] at hstep
      cases hstep
      obtain ⟨rfl, rfl, hfed, hrunning, hkind⟩ := answer_ok hanswer
      refine ⟨fun hat hkind => ?_, h.handed, h.alone, ?_, ?_, ?_, h.few, h.own⟩
      · obtain ⟨i, track, hon⟩ := h.carried hat hkind
        exact ⟨i, track, hon.of_eq (fun hfeed => ⟨_, hfeed⟩) rfl⟩
      · intro starting' hsame
        cases hsame
        exact carrier_of_running hrunning
      · intro starting' hsame
        cases hsame
        exact hkind
      · intro starting' i track hsame hfed'
        cases hsame
        rw [hfed] at hfed'
        cases hfed'
  | attach answer =>
    obtain ⟨starting, hstarting, hstep⟩ := Option.bind_eq_some_iff.mp hstep
    split at hstep
    case h_1 codec hcodec hfed =>
      cases hstep
      have hnone := hseparate starting hstarting
      rcases attach_cases starting codec answer with ⟨track, hsome, -⟩ | ⟨reason, -, heq⟩ | ⟨-, heq⟩
      · rw [hnone] at hsome
        cases hsome
      · rw [heq]
        refine ⟨fun hat hkind => ?_, h.handed, h.alone, (fun hsome => by cases hsome), (fun hsome => by cases hsome),
          (fun hsome => by cases hsome), h.few, h.own⟩
        obtain ⟨i, track, hon⟩ := h.carried hat hkind
        exact ⟨i, track, hon.of_eq (fun hfeed => ⟨_, hfeed⟩) rfl⟩
      · rw [heq]
        exact apart_attach h hstarting hcodec hnone
    case h_2 => cases hstep
  | accept sound =>
    obtain ⟨starting, hstarting, hstep⟩ := Option.bind_eq_some_iff.mp hstep
    obtain ⟨hfed, hstep⟩ := Option.ite_none_right_eq_some.mp hstep
    cases hstep
    exact apart_accept h hstarting hfed sound
  | streamStop window =>
    obtain ⟨hnone, hstep⟩ := Option.ite_none_right_eq_some.mp hstep
    cases hstep
    exact apart_streamStop h hnone window
  | carrierStop window generation =>
    obtain ⟨hnone, hstep⟩ := Option.ite_none_right_eq_some.mp hstep
    cases hstep
    exact apart_stopCarrier h hnone window generation
  | input event =>
    obtain ⟨-, hstep⟩ := Option.ite_none_right_eq_some.mp hstep
    split at hstep
    case isTrue =>
      cases hstep
      exact h
    case isFalse =>
      cases hstep
      obtain ⟨focus, input, heq⟩ := takeInput_eq s event
      rw [heq]
      exact h.of_eq rfl rfl rfl rfl fun hfeed => ⟨_, hfeed⟩
  | feedEnds i =>
    obtain ⟨feed, hfeed, hstep⟩ := Option.bind_eq_some_iff.mp hstep
    obtain ⟨-, hstep⟩ := Option.ite_none_right_eq_some.mp hstep
    cases hstep
    exact h.of_eq rfl rfl rfl rfl fun hfeed' => setPhase_feed hfeed _ hfeed'
  | feedGoes i =>
    obtain ⟨feed, hfeed, hstep⟩ := Option.bind_eq_some_iff.mp hstep
    have hphases : ∀ phase, (s.setPhase i feed phase).Apart := fun phase =>
      h.of_eq rfl rfl rfl rfl fun hfeed' => setPhase_feed hfeed _ hfeed'
    unfold Serving.feedGoes at hstep
    split at hstep
    case h_1 =>
      cases hstep
      exact (hphases .detaching).of_eq rfl rfl rfl rfl fun hfeed' => ⟨_, hfeed'⟩
    case h_2 hphase =>
      cases hstep
      obtain ⟨hcarriers, hstarting⟩ := hseparate feed hfeed hphase
      exact apart_detachWindow (hphases .telling) hcarriers hstarting
    case h_3 =>
      cases hstep
      exact (hphases .ended).of_eq rfl rfl rfl rfl fun hfeed' => ⟨_, hfeed'⟩
    case h_4 => cases hstep

/-! ### Runs -/

/-- A carrier goes only with its own stop, or with its stream. -/
theorem carrier_kept (hfresh : ∀ {starting : Starting}, s.starting = some starting →
      s.carrier starting.window starting.generation = none)
    (hstep : s.step event = some s') {window : WindowId} {generation : ℕ} {carrier : Carrier}
    (hcarrier : s.carrier window generation = some carrier) :
    s'.carrier window generation = some carrier ∨ event = .carrierStop window generation
      ∨ event = .streamStop window := by
  have hsame : ∀ {s'' : Serving}, s''.streams = s.streams → s''.carrier window generation = some carrier := by
    intro s'' hstreams
    unfold Serving.carrier at hcarrier ⊢
    rw [hstreams]
    exact hcarrier
  cases event with
  | streamStart w options g offer =>
    obtain ⟨-, hstep⟩ := Option.ite_none_right_eq_some.mp hstep
    split at hstep <;> cases hstep <;> exact Or.inl (hsame rfl)
  | attach answer =>
    obtain ⟨starting, -, hstep⟩ := Option.bind_eq_some_iff.mp hstep
    split at hstep
    case h_1 codec _ _ =>
      cases hstep
      rcases attach_cases starting codec answer with ⟨track, -, heq⟩ | ⟨reason, -, heq⟩ | ⟨-, heq⟩ <;>
        exact Or.inl (hsame (by rw [heq]; rfl))
    case h_2 => cases hstep
  | accept sound =>
    obtain ⟨starting, hstarting, hstep⟩ := Option.bind_eq_some_iff.mp hstep
    obtain ⟨-, hstep⟩ := Option.ite_none_right_eq_some.mp hstep
    cases hstep
    left
    rw [carrier_accept, if_neg, hcarrier]
    rintro ⟨rfl, rfl⟩
    rw [hfresh hstarting] at hcarrier
    cases hcarrier
  | streamStop w =>
    obtain ⟨-, hstep⟩ := Option.ite_none_right_eq_some.mp hstep
    cases hstep
    rw [carrier_streamStop]
    by_cases hw : window = w
    · exact Or.inr (Or.inr (by rw [hw]))
    · rw [if_neg hw]
      exact Or.inl hcarrier
  | carrierStop w g =>
    obtain ⟨-, hstep⟩ := Option.ite_none_right_eq_some.mp hstep
    cases hstep
    rw [carrier_stopCarrier]
    by_cases hw : window = w ∧ generation = g
    · exact Or.inr (Or.inl (by rw [hw.1, hw.2]))
    · rw [if_neg hw]
      exact Or.inl hcarrier
  | input event =>
    obtain ⟨-, hstep⟩ := Option.ite_none_right_eq_some.mp hstep
    obtain ⟨focus, input, heq⟩ := takeInput_eq s event
    rw [heq] at hstep
    split at hstep <;> cases hstep <;> exact Or.inl (hsame rfl)
  | feedEnds i =>
    obtain ⟨feed, -, hstep⟩ := Option.bind_eq_some_iff.mp hstep
    obtain ⟨-, hstep⟩ := Option.ite_none_right_eq_some.mp hstep
    cases hstep
    exact Or.inl (hsame rfl)
  | feedGoes i =>
    obtain ⟨feed, -, hstep⟩ := Option.bind_eq_some_iff.mp hstep
    unfold Serving.feedGoes at hstep
    split at hstep
    case h_1 =>
      cases hstep
      exact Or.inl (hsame rfl)
    case h_2 =>
      cases hstep
      exact Or.inl (hsame detachWindow_streams)
    case h_3 =>
      cases hstep
      exact Or.inl (hsame rfl)
    case h_4 => cases hstep

/-- What a client that switches carriers relies on. -/
structure Lawful (s : Serving) : Prop where
  /-- Every carrier on the session sends on a track, in the codec the client was told, -/
  carried : ∀ {window : WindowId} {generation : ℕ} {carrier : Carrier}, s.carrier window generation = some carrier →
    sessionTrack carrier.kind = true → ∃ i track, s.On window carrier i track
  /-- and the track is its own. -/
  own : ∀ {window window' : WindowId} {generation generation' : ℕ} {carrier carrier' : Carrier} {i i' : ℕ}
    {track track' : WindowTrack}, s.carrier window generation = some carrier → sessionTrack carrier.kind = true →
      s.On window carrier i track → s.carrier window' generation' = some carrier' →
      sessionTrack carrier'.kind = true → s.On window' carrier' i' track' → track.id = track'.id →
        window = window' ∧ generation = generation'
  /-- A stop takes away the carrier it names, -/
  ends : ∀ {window : WindowId} {generation : ℕ} {s' : Serving}, s.step (.carrierStop window generation) = some s' →
    s'.carrier window generation = none
      ∧ ∀ {carrier : Carrier} {i : ℕ} {feed : Feed}, s.carrier window generation = some carrier →
        carrier.feed = some i → s'.feeds[i]? = some feed → feed.stop = true
  /-- and leaves every other where it is, on its track. -/
  leaves : ∀ {window window' : WindowId} {generation generation' : ℕ} {carrier : Carrier} {s' : Serving},
    s.step (.carrierStop window generation) = some s' → ¬ (window' = window ∧ generation' = generation) →
      s.carrier window' generation' = some carrier → s'.carrier window' generation' = some carrier
        ∧ ∀ {i : ℕ} {track : WindowTrack}, sessionTrack carrier.kind = true → s.On window' carrier i track →
          s'.On window' carrier i track
  /-- Nothing else takes a carrier away but the stop of its stream. -/
  kept : ∀ {event : Event} {window : WindowId} {generation : ℕ} {carrier : Carrier} {s' : Serving},
    s.step event = some s' → s.carrier window generation = some carrier →
      s'.carrier window generation = some carrier ∨ event = .carrierStop window generation
        ∨ event = .streamStop window

theorem Apart.lawful (h : s.Apart) : s.Lawful where
  carried := h.carried
  own := by
    intro window window' generation generation' carrier carrier' i i' track track' hat hkind hon hat' hkind' hon' hid
    have hwindow := h.own hon.attached hon'.attached hid
    subst hwindow
    exact ⟨rfl, h.alone hat hat' hkind hkind'⟩
  ends := by
    intro window generation s' hstep
    obtain ⟨-, hstep⟩ := Option.ite_none_right_eq_some.mp hstep
    cases hstep
    refine ⟨by rw [carrier_stopCarrier, if_pos ⟨rfl, rfl⟩], ?_⟩
    intro carrier i feed hcarrier hfeedOf hfeed
    obtain ⟨entry, hentry, hlookup⟩ := Option.bind_eq_some_iff.mp hcarrier
    rw [stopCarrier_feed hentry, hlookup, Option.bind_some, hfeedOf] at hfeed
    obtain ⟨feed', -, rfl⟩ := Option.map_eq_some_iff.mp hfeed
    rw [if_pos rfl]
  leaves := by
    intro window window' generation generation' carrier s' hstep hother hcarrier
    obtain ⟨-, hstep⟩ := Option.ite_none_right_eq_some.mp hstep
    cases hstep
    refine ⟨by rw [carrier_stopCarrier, if_neg hother, hcarrier], ?_⟩
    exact fun hkind hon => stopCarrier_on h hother hcarrier hkind hon
  kept := fun hstep hcarrier => carrier_kept h.fresh hstep hcarrier

/-- A stop of one carrier ends that one only, and every other keeps its track and its
codec. -/
theorem stop_ends_one {es : List Event} {mayInput : Option Bool} (h : Run.Guarded step Separate es (new mayInput) s) :
    s.Lawful := by
  have hapart : s.Apart :=
    h.invariant (fun _ _ _ hapart hseparate hstep => hapart.step hseparate hstep) (apart_new mayInput)
  exact hapart.lawful

def switchOffer : Offer := ⟨true, [.desktop, .rdp], [.h264], .ok ()⟩

/-- A client switches from the session to a handoff, and back to the session. -/
def switched : List Event :=
  [.streamStart 7 ⟨.native, [.h264]⟩ 0 switchOffer, .attach (.ok ()), .accept true,
    .streamStart 7 ⟨.rdp, []⟩ 1 switchOffer, .accept true, .carrierStop 7 0,
    .streamStart 7 ⟨.desktop, [.h264]⟩ 2 switchOffer, .attach (.ok ()), .accept true, .carrierStop 7 1]

theorem stop_ends_one_switched :
    ∃ s, switched.foldlM step (new none) = some s ∧ s.carrier 7 0 = none ∧ s.carrier 7 1 = none
      ∧ s.carrier 7 2 = some ⟨.desktop, some .h264, some 1⟩ ∧ s.windows.lookup 7 = some ⟨1, .h264⟩ ∧ s.Lawful := by
  have hnone : ∀ {windows : AList fun _ : WindowId => WindowTrack} {starting starting' : Starting},
      some starting = some starting' → windows.lookup starting.window = none →
        windows.lookup starting'.window = none := by
    rintro windows starting _ ⟨⟩ hnone
    exact hnone
  have hrun : Run.Guarded step Separate switched (new none) _ :=
    ⟨trivial, _, rfl, (fun _ hsame => hnone hsame rfl), _, rfl, trivial, _, rfl, trivial, _, rfl, trivial, _, rfl,
      trivial, _, rfl, trivial, _, rfl, (fun _ hsame => hnone hsame rfl), _, rfl, trivial, _, rfl,
      trivial, _, rfl, rfl⟩
  exact ⟨_, hrun.run, rfl, rfl, rfl, rfl, stop_ends_one hrun⟩

/-- A client switches from the window's own capture to the desktop's. -/
def shared : List Event :=
  [.streamStart 7 ⟨.native, [.h264]⟩ 0 switchOffer, .attach (.ok ()), .accept true,
    .streamStart 7 ⟨.desktop, [.h264]⟩ 1 switchOffer, .attach (.ok ()), .accept true, .carrierStop 7 0]

/-- **Two carriers on the session share the window's track, and the stop of one takes it
from the other.** -/
theorem shared_track_goes :
    ¬ ∀ (mayInput : Option Bool) (es : List Event) (s : Serving), es.foldlM step (new mayInput) = some s →
      s.Lawful := by
  intro h
  have hlawful := h none shared _ rfl
  obtain ⟨i, track, hon⟩ := @Lawful.carried _ hlawful 7 1 ⟨.desktop, some .h264, some 1⟩ rfl rfl
  have hattached := hon.attached
  cases hattached

end Serving

end WindowCast.Stream
