import WindowCast.GameStream.Threads

/-!
# Whose frames are sent, and whose input is delivered

A stream holds a window: its picture, and a thread that delivers into it.  Whether the
window is in compatibility mode is asked by the app's number and once, when the stream
opens, so what a stream sends belongs to a window in compatibility mode only as long as
nothing changes behind it.

## Main definitions

* `Run.holdsWindow` — what a stream sends and delivers is of that window.
* `Server.KeepsGuards` — no guard is dropped while a stream holds its window, and a
  stream finds no other window under its number.

## Main results

* `Server.shown_of_out` — **then all that is sent and delivered is of windows in
  compatibility mode**.
* `Server.out_dropped` — a frame of a window whose guard was dropped.
-/

namespace WindowCast.GameStream

open WindowCast.Host (WindowId)

/-! ### One stream -/

namespace Run

/-- A stream's picture is of the window, or input may still be delivered into it. -/
def holdsWindow (self : Run) (window : WindowId) : Prop :=
  self.source = some window
    ∨ ∃ input thread, self.sink = some (input, thread) ∧ input.window = window ∧ thread.ended = false

/-- The delivering thread delivers into its sink's window. -/
def Directed (self : Run) : Prop := ∀ input thread, self.sink = some (input, thread) → thread.Into input.window

variable {platform : Platform} {gcm : Aes128Gcm} {apps : CompatApps} {launch : Launch} {taken : Port → Bool}
  {self self' : Run} {out : List Output} {stop : Bool} {window : WindowId}

theorem directed_new (launch : ℕ) (key : Vector UInt8 16) (config : StreamConfig) (rtspPeer : Option Ip) :
    (Run.new launch key config rtspPeer).Directed := fun _ _ h => by cases h

theorem directed_streams (self : Run) (found : Option WindowId) : (self.streams found).Directed := by
  intro input thread hsink
  obtain ⟨window, -, hpair⟩ := Option.map_eq_some_iff.mp hsink
  cases hpair
  exact Delivering.into_new window

theorem Directed.unlisten (h : self.Directed) :
    self.unlisten.Directed ∧ ∀ window, self.unlisten.holdsWindow window → self.holdsWindow window := by
  refine ⟨fun input thread hsink => ?_, fun window hholds => hholds.imp id ?_⟩
  · obtain ⟨⟨input, thread⟩, hbefore, hpair⟩ := Option.map_eq_some_iff.mp hsink
    cases hpair
    have hinto := h input thread hbefore
    exact ⟨hinto.queue, hinto.keys, hinto.buttons, hinto.touches⟩
  · rintro ⟨input, thread, hsink, hwindow, hlive⟩
    obtain ⟨⟨input, thread⟩, hbefore, hpair⟩ := Option.map_eq_some_iff.mp hsink
    cases hpair
    exact ⟨input, thread, hbefore, hwindow, hlive⟩

/-- The listener puts input of the sink's own window into its thread's queue, and closes it. -/
theorem sink_hear {reading : Reading} (event : ControlEvent) (h : self.Directed) :
    (self.hear reading event).Directed ∧ ∀ window, (self.hear reading event).holdsWindow window → self.holdsWindow window := by
  cases event with
  | connected => exact ⟨h, fun _ => id⟩
  | disconnected => exact h.unlisten
  | message kind payload =>
    rw [hear]
    split
    · exact ⟨h, fun _ => id⟩
    · split
      · refine ⟨fun input thread hsink => ?_, fun window hholds => hholds.imp id ?_⟩
        · obtain ⟨⟨input, thread⟩, hbefore, hpair⟩ := Option.map_eq_some_iff.mp hsink
          cases hinputs : input.inputs reading (reading.parse payload) with
          | mk sent input' =>
            obtain ⟨hwindow, hsent⟩ := WindowInput.of_mem_inputs hinputs
            dsimp only at hpair
            rw [hinputs] at hpair
            cases hpair
            rw [hwindow]
            exact (h input thread hbefore).push hsent
        · rintro ⟨input, thread, hsink, hwindow, hlive⟩
          obtain ⟨⟨input, thread⟩, hbefore, hpair⟩ := Option.map_eq_some_iff.mp hsink
          cases hinputs : input.inputs reading (reading.parse payload) with
          | mk sent input' =>
            obtain ⟨hsame, -⟩ := WindowInput.of_mem_inputs hinputs
            dsimp only at hpair
            rw [hinputs] at hpair
            cases hpair
            exact ⟨input, thread, hbefore, hsame ▸ hwindow, hlive⟩
      · exact ⟨h, fun _ => id⟩

/-- A step of the listener. -/
theorem sink_listened {reading : Reading} (h : self.Directed) (hlistened : Listened reading stop self self') :
    self'.Directed ∧ ∀ window, self'.holdsWindow window → self.holdsWindow window := by
  cases hlistened with
  | checks => exact ⟨h, fun _ => id⟩
  | ends => exact h.unlisten
  | nothing => exact ⟨h, fun _ => id⟩
  | hears listener control is event events =>
    have htaken : Directed { self with control := some { control with events := events }, listener := .checking } := h
    exact sink_hear event htaken

/-- What a step of a stream makes of the windows it holds: it finds them, and sends and
delivers nothing of others. -/
theorem windows_step {e : Event} (h : self.Directed) (hstep : self.step platform apps launch taken e = some (out, self')) :
    self'.Directed
      ∧ (∀ window, self'.holdsWindow window → self.holdsWindow window
        ∨ (self.phase = .openFind ∨ self.phase = .inputFind) ∧ apps.window launch.app = some window)
      ∧ ∀ o ∈ out, ∀ window, o.window = some window → self.holdsWindow window := by
  have hkept : ∀ {run : Run}, run.source = self.source → run.sink = self.sink → run.Directed
      ∧ ∀ window, run.holdsWindow window → self.holdsWindow window := by
    intro run hsource hsink
    refine ⟨fun input thread hs => h input thread (hsink ▸ hs), fun window hholds => ?_⟩
    rwa [holdsWindow, hsource, hsink] at hholds
  have hnone : ∀ o ∈ ([] : List Output), ∀ window, o.window = some window → self.holdsWindow window := nofun
  cases e with
  | main meets =>
    have hquiet : ∀ {run : Run}, run.source = self.source → run.sink = self.sink → run.Directed
        ∧ (∀ window, run.holdsWindow window → self.holdsWindow window
          ∨ (self.phase = .openFind ∨ self.phase = .inputFind) ∧ apps.window launch.app = some window)
        ∧ ∀ o ∈ ([] : List Output), ∀ window, o.window = some window → self.holdsWindow window := by
      intro run hsource hsink
      obtain ⟨hdirected, hholds⟩ := hkept hsource hsink
      exact ⟨hdirected, fun window hw => Or.inl (hholds window hw), hnone⟩
    -- its picture is let go, and its sink stays
    have hreturns : self.returns.Directed
        ∧ (∀ window, self.returns.holdsWindow window → self.holdsWindow window
          ∨ (self.phase = .openFind ∨ self.phase = .inputFind) ∧ apps.window launch.app = some window)
        ∧ ∀ o ∈ ([] : List Output), ∀ window, o.window = some window → self.holdsWindow window := by
      refine ⟨h, fun window hw => Or.inl (Or.inr ?_), hnone⟩
      rcases hw with hsource | hsink
      · cases hsource
      · exact hsink
    cases moved_of_main hstep with
    | openFind hphase found hfound =>
      refine ⟨h, fun window hw => ?_, hnone⟩
      rcases hw with hsource | hsink
      · exact Or.inr ⟨Or.inl hphase, hfound.trans hsource⟩
      · exact Or.inl (Or.inr hsink)
    | deafens hphase =>
      refine ⟨directed_streams self none, fun window hw => ?_, hnone⟩
      rcases hw with hsource | ⟨input, thread, hsink, -⟩
      · exact Or.inl (Or.inl hsource)
      · cases hsink
    | inputFind hphase =>
      refine ⟨directed_streams self _, fun window hw => ?_, hnone⟩
      rcases hw with hsource | ⟨input, thread, hsink, hwindow, -⟩
      · exact Or.inl (Or.inl hsource)
      · obtain ⟨found, hfound, hpair⟩ := Option.map_eq_some_iff.mp hsink
        cases hpair
        exact Or.inr ⟨Or.inr hphase, hfound.trans (congrArg some hwindow)⟩
    | sends keyframe hphase data idr timestamp =>
      refine ⟨h, fun window hw => Or.inl hw, fun o ho window hwindow => Or.inl ?_⟩
      obtain ⟨packet, -, rfl⟩ := List.mem_map.mp ho
      exact hwindow
    | ends => exact hreturns
    | leaves => exact hreturns
    | fails => exact hreturns
    | joins => exact hreturns
    | bindVideo => exact hquiet rfl rfl
    | bindAudio => exact hquiet rfl rfl
    | soundCheck => exact hquiet rfl rfl
    | hears => exact hquiet rfl rfl
    | bindControl => exact hquiet rfl rfl
    | waits => exact hquiet rfl rfl
    | pinged => exact hquiet rfl rfl
    | openCheck => exact hquiet rfl rfl
    | inputCheck => exact hquiet rfl rfl
    | grabs => exact hquiet rfl rfl
    | terminates => exact hquiet rfl rfl
  | audio hears =>
    obtain ⟨audio, audio', -, -, rfl⟩ := step_audio hstep
    rw [step_audio_out hstep]
    exact ⟨h, fun _ hw => Or.inl hw, hnone⟩
  | control service =>
    obtain ⟨control, sent, control', -, -, rfl, rfl⟩ := step_control hstep
    refine ⟨h, fun _ hw => Or.inl hw, fun o ho window hwindow => ?_⟩
    obtain ⟨packet, -, rfl⟩ := List.mem_map.mp ho
    cases hwindow
  | listen =>
    obtain ⟨hlistens, rfl⟩ := step_listen hstep
    obtain ⟨hdirected, hholds⟩ := sink_listened h (listened_of_listens hlistens)
    exact ⟨hdirected, fun window hw => Or.inl (hholds window hw), hnone⟩
  | deliver =>
    obtain ⟨input, thread, delivered, thread', hsink, hturn, rfl, rfl⟩ := step_deliver hstep
    have hlive := Delivering.live_of_step hturn
    obtain ⟨hinto, hdelivered⟩ := (h input thread hsink).step hturn
    refine ⟨fun input' thread'' hsink' => ?_, fun window hw => Or.inl (hw.imp id ?_), fun o ho window hwindow => Or.inr ?_⟩
    · cases hsink'
      exact hinto
    · rintro ⟨input', thread'', hsink', hwindow, -⟩
      cases hsink'
      exact ⟨input, thread, hsink, hwindow, hlive⟩
    · obtain ⟨sent, hsent, rfl⟩ := List.mem_map.mp ho
      have htarget := hdelivered sent hsent
      exact ⟨input, thread, hsink, Option.some_inj.mp (htarget.symm.trans hwindow), hlive⟩

end Run

/-! ### The server -/

namespace Server

variable {platform : Platform} {s s' : Server}

/-- A window's guard is dropped only where no stream holds it, and where a stream looks a
window up by its app's number, the first that has it is in compatibility mode. -/
def KeepsGuards (self : Server) : Event → Prop
  | .drops window => ∀ run ∈ self.runs, ¬ run.holdsWindow window
  | .run i (.main _) => ∀ run ∈ self.runs[i]?, ∀ launch ∈ self.launches[run.launch]?,
    run.phase = .openFind ∨ run.phase = .inputFind → ∀ window ∈ self.apps.window launch.app, window ∈ self.apps.shown
  | _ => True

/-- All windows that are held are in compatibility mode. -/
def HeldShown (self : Server) : Prop :=
  ∀ run ∈ self.runs, run.Directed ∧ ∀ window, run.holdsWindow window → window ∈ self.apps.shown

/-- What was sent and delivered last is of windows in compatibility mode. -/
def OutShown (self : Server) : Prop := ∀ o ∈ self.out, ∀ window, o.window = some window → window ∈ self.apps.shown

theorem heldShown_step {e : Event} (h : s.HeldShown) (hguard : s.KeepsGuards e) (hstep : s.step platform e = some s') :
    s'.HeldShown ∧ s'.OutShown := by
  have hnone : ∀ {t : Server}, t.out = [] → t.OutShown := fun hout o ho => by
    rw [hout] at ho
    cases ho
  cases e with
  | shows window title =>
    cases hstep
    refine ⟨fun run hrun => ⟨(h run hrun).1, fun w hw => ?_⟩, hnone rfl⟩
    exact (AList.mem_insert _).mpr (Or.inr ((h run hrun).2 w hw))
  | drops window =>
    cases hstep
    refine ⟨fun run hrun => ⟨(h run hrun).1, fun w hw => ?_⟩, hnone rfl⟩
    refine AList.mem_erase.mpr ⟨fun heq => ?_, (h run hrun).2 w hw⟩
    subst heq
    exact hguard run hrun hw
  | lists windows => cases hstep; exact ⟨h, hnone rfl⟩
  | launch resume app key mode pingPayload connectData =>
    rw [Server.step] at hstep
    split at hstep <;> cases hstep <;> exact ⟨h, hnone rfl⟩
  | cancel => cases hstep; exact ⟨h, hnone rfl⟩
  | announce i number rtspPeer =>
    rcases step_announce hstep with rfl | ⟨launch, config, -, -, rfl⟩
    · exact ⟨h, hnone rfl⟩
    · refine ⟨fun run hrun => ?_, hnone rfl⟩
      rcases List.mem_append.mp hrun with hrun | hrun
      · exact h run hrun
      · rw [List.mem_singleton.mp hrun]
        refine ⟨Run.directed_new _ _ _ _, fun window hw => ?_⟩
        rcases hw with hsource | ⟨_, _, hsink, -⟩
        · cases hsource
        · cases hsink
  | run i e =>
    obtain ⟨run, launch, out, run', hi, hlaunch, hmove, rfl⟩ := step_run hstep
    obtain ⟨hdirected, hheld⟩ := h run (List.mem_of_getElem? hi)
    obtain ⟨hdirected', hheld', hout⟩ := Run.windows_step hdirected hmove
    refine ⟨fun other hother => ?_, fun o ho window hwindow => hheld window (hout o ho window hwindow)⟩
    rcases List.mem_or_eq_of_mem_set hother with hother | rfl
    · exact h other hother
    · refine ⟨hdirected', fun window hw => ?_⟩
      rcases hheld' window hw with hw | ⟨hphase, hfound⟩
      · exact hheld window hw
      · -- a window is found by the thread of the stream alone
        cases e with
        | main meets => exact hguard run hi launch hlaunch hphase window hfound
        | audio hears =>
          obtain ⟨_, _, -, -, rfl⟩ := Run.step_audio hmove
          exact hheld window hw
        | control service =>
          obtain ⟨_, _, _, -, -, -, rfl⟩ := Run.step_control hmove
          exact hheld window hw
        | listen =>
          have hlistened := Run.listened_of_listens (Run.step_listen hmove).1
          exact hheld window ((Run.sink_listened hdirected hlistened).2 window hw)
        | deliver =>
          obtain ⟨input, thread, _, thread', hsink, hturn, -, rfl⟩ := Run.step_deliver hmove
          refine hheld window (hw.imp id ?_)
          rintro ⟨input', thread'', hsink', hwindow, -⟩
          cases hsink'
          exact ⟨input, thread, hsink, hwindow, Delivering.live_of_step hturn⟩
  | clears i =>
    obtain ⟨run, hi, -, rfl⟩ := step_clears hstep
    refine ⟨fun other hother => ?_, hnone rfl⟩
    rcases List.mem_or_eq_of_mem_set hother with hother | rfl
    · exact h other hother
    · exact h run (List.mem_of_getElem? hi)

/-- If no guard is dropped while a stream holds its window, and no stream finds another window
under its number, all that is sent and delivered is of windows in compatibility mode. -/
theorem shown_of_out {windows : List WindowId} {es : List Event}
    (hrun : Run.Guarded (step platform) KeepsGuards es (new windows) s) :
    ∀ o ∈ s.out, ∀ window, o.window = some window → window ∈ s.apps.shown := by
  have hinv : s.HeldShown ∧ s.OutShown :=
    hrun.invariant (I := fun s => s.HeldShown ∧ s.OutShown) (fun _ _ _ hs hguard hstep => heldShown_step hs.1 hguard hstep)
      ⟨(fun _ h => by cases h), fun _ h => by cases h⟩
  exact hinv.2

/-! ### A guard that is dropped -/

/-- A stream of a window in compatibility mode, up to its first frame. -/
def awaiting : List Event :=
  [.launch false 1 (Vector.replicate 16 0) (1280, 720, 60) [] 0, .announce 0 plain none]
    ++ ([.bind false, .bind false, .nothing, .opens false, .bind false,
      .ping false (some ([0x50, 0x49, 0x4E, 0x47], [])), .nothing, .opens true, .nothing, .nothing, .nothing] : List Meets).map
        fun meets => .run 0 (.main meets)

def oneFrame : Event := .run 0 (.main (.frame [] true 0))

set_option maxRecDepth 20000 in
theorem run_dropped (platform : Platform) : ∃ s o window,
    (.shows 1 [] :: awaiting ++ [.drops 1, oneFrame]).foldlM (step platform) (new [1]) = some s
      ∧ s.out.head? = some o ∧ o.window = some window ∧ (s.apps.shown.keys.contains window) = false :=
  ⟨_, _, _, Run.cons.mpr ⟨_, rfl, Run.cons.mpr ⟨_, rfl, Run.cons.mpr ⟨_, rfl, Run.cons.mpr ⟨_, rfl,
    Run.cons.mpr ⟨_, rfl, Run.cons.mpr ⟨_, rfl, Run.cons.mpr ⟨_, rfl, Run.cons.mpr ⟨_, rfl,
    Run.cons.mpr ⟨_, rfl, Run.cons.mpr ⟨_, rfl, Run.cons.mpr ⟨_, rfl, Run.cons.mpr ⟨_, rfl,
    Run.cons.mpr ⟨_, rfl, Run.cons.mpr ⟨_, rfl, Run.cons.mpr ⟨_, rfl, Run.cons.mpr ⟨_, rfl,
    Run.nil.mpr rfl⟩⟩⟩⟩⟩⟩⟩⟩⟩⟩⟩⟩⟩⟩⟩⟩, rfl, rfl, rfl⟩

/-- The guard of a window is dropped while its stream goes on, and a frame of it is sent. -/
theorem out_dropped : ∃ es : List Event, ∀ platform : Platform, ∃ s,
    es.foldlM (step platform) (new [1]) = some s
      ∧ ∃ o ∈ s.out, ∃ window, o.window = some window ∧ window ∉ s.apps.shown := by
  refine ⟨.shows 1 [] :: awaiting ++ [.drops 1, oneFrame], fun platform => ?_⟩
  obtain ⟨s, o, window, hs, hout, hwindow, hhidden⟩ := run_dropped platform
  refine ⟨s, hs, o, List.mem_of_mem_head? hout, window, hwindow, fun hmem => ?_⟩
  rw [List.contains_eq_mem, decide_eq_false_iff_not] at hhidden
  exact hhidden (AList.mem_keys.mp hmem)

set_option maxRecDepth 20000 in
theorem run_frame_shown (platform : Platform) : ∃ s t o,
    step platform (new [1]) (.shows 1 []) = some s ∧ (awaiting ++ [oneFrame]).foldlM (step platform) s = some t
      ∧ s.apps.windows = [1] ∧ s.apps.shown.keys = [1] ∧ t.out.head? = some o ∧ o.window = some 1 :=
  ⟨_, _, _, rfl, Run.cons.mpr ⟨_, rfl, Run.cons.mpr ⟨_, rfl, Run.cons.mpr ⟨_, rfl, Run.cons.mpr ⟨_, rfl,
    Run.cons.mpr ⟨_, rfl, Run.cons.mpr ⟨_, rfl, Run.cons.mpr ⟨_, rfl, Run.cons.mpr ⟨_, rfl,
    Run.cons.mpr ⟨_, rfl, Run.cons.mpr ⟨_, rfl, Run.cons.mpr ⟨_, rfl, Run.cons.mpr ⟨_, rfl,
    Run.cons.mpr ⟨_, rfl, Run.cons.mpr ⟨_, rfl,
    Run.nil.mpr rfl⟩⟩⟩⟩⟩⟩⟩⟩⟩⟩⟩⟩⟩⟩, rfl, rfl, rfl, rfl⟩

/-- A stream of the one window there is, which stays in compatibility mode, sends a frame of
it. -/
theorem shown_of_out_frame : ∃ es : List Event, ∀ platform : Platform, ∃ s o,
    Run.Guarded (step platform) KeepsGuards es (new [1]) s ∧ o ∈ s.out ∧ o.window = some 1 ∧ 1 ∈ s.apps.shown := by
  refine ⟨.shows 1 [] :: (awaiting ++ [oneFrame]), fun platform => ?_⟩
  obtain ⟨s, t, o, hs, ht, hwindows, hshown, hout, hwindow⟩ := run_frame_shown platform
  -- none of the events changes what is listed or shown
  have hquiet : Run.Guarded (step platform) (fun _ e => ∃ i, e = .announce 0 plain none ∨ (∃ meets, e = .run i (.main meets))
      ∨ e = .launch false 1 (Vector.replicate 16 0) (1280, 720, 60) [] 0) (awaiting ++ [oneFrame]) s t :=
    .of_run ht fun e he _ => by
      rcases List.mem_append.mp he with he | he
      · rcases List.mem_append.mp he with he | he
        · rcases List.mem_cons.mp he with rfl | he
          · exact ⟨0, Or.inr (Or.inr rfl)⟩
          · exact ⟨0, Or.inl (List.mem_singleton.mp he)⟩
        · obtain ⟨meets, -, rfl⟩ := List.mem_map.mp he
          exact ⟨0, Or.inr (Or.inl ⟨meets, rfl⟩)⟩
      · exact ⟨0, Or.inr (Or.inl ⟨_, List.mem_singleton.mp he⟩)⟩
  have hguarded : Run.Guarded (step platform) KeepsGuards (awaiting ++ [oneFrame]) s t := by
    refine hquiet.imp (I := fun s => s.apps.windows = [1] ∧ s.apps.shown.keys = [1]) ?_ ?_ ⟨hwindows, hshown⟩
    · rintro s e s' happs ⟨i, rfl | ⟨meets, rfl⟩ | rfl⟩ hstep
      · rcases step_announce hstep with rfl | ⟨_, _, -, -, rfl⟩ <;> exact happs
      · obtain ⟨_, _, _, _, _, _, _, rfl⟩ := step_run hstep
        exact happs
      · rw [step] at hstep
        split at hstep <;> cases hstep <;> exact happs
    · rintro s e ⟨hlisted, hkeys⟩ ⟨i, rfl | ⟨meets, rfl⟩ | rfl⟩
      · trivial
      · intro run _ launch _ _ window hfound
        have hmem : window ∈ s.apps.windows := List.mem_of_find?_eq_some hfound
        rw [hlisted] at hmem
        rw [List.mem_singleton.mp hmem]
        refine AList.mem_keys.mpr ?_
        rw [hkeys]
        exact List.mem_singleton_self 1
      · trivial
  have hrun : Run.Guarded (step platform) KeepsGuards (.shows 1 [] :: (awaiting ++ [oneFrame])) (new [1]) t :=
    ⟨trivial, s, hs, hguarded⟩
  have hmem := List.mem_of_mem_head? hout
  exact ⟨t, o, hrun, hmem, hwindow, shown_of_out hrun o hmem 1 hwindow⟩

end Server

end WindowCast.GameStream
