import WindowCast.GameStream.Stream
import WindowCast.Lib.Run

/-!
# What the steps of a stream can do

The steps of the thread of a stream, one by one with what each rests on, and what the
steps of its other threads leave alone; and from what every step of a stream keeps, what
every step of the server does.

## Main definitions

* `Run.Moved` — a step of the thread of a stream.
* `Server.Each` — a property of every stream, under its launch.

## Main results

* `Run.moved_of_main` — there are no other steps.
* `Server.Each.step` — **what every step of a stream keeps, the server keeps**.
-/

namespace WindowCast.GameStream

open WindowCast.Host (WindowId)

/-! ### The thread of a stream -/

namespace Run

/-- The steps of the thread of a stream: what each rests on, sends and makes of it. -/
inductive Moved (gcm : Aes128Gcm) (apps : CompatApps) (launch : Launch) (taken : Port → Bool) (self : Run) (e : Meets) :
    List Output → Run → Prop
  | bindVideo (phase : self.phase = .bindVideo) (free : taken .video = false) :
    Moved gcm apps launch taken self e [] { self with video := true, phase := .bindAudio }
  | bindAudio (phase : self.phase = .bindAudio) (free : taken .audio = false) :
    Moved gcm apps launch taken self e [] { self with audio := some ⟨false, .bound⟩, phase := .soundCheck }
  | soundCheck (phase : self.phase = .soundCheck) : Moved gcm apps launch taken self e [] { self with phase := .soundFind }
  | hears (phase : self.phase = .soundCheck ∨ self.phase = .soundFind) (sound : Bool) :
    Moved gcm apps launch taken self e [] (self.hears sound)
  | bindControl (phase : self.phase = .bindControl) (free : taken .control = false) :
    Moved gcm apps launch taken self e [] { self with control := some .new, phase := .pinging }
  | waits (phase : self.phase = .pinging) : Moved gcm apps launch taken self e [] self
  | pinged (phase : self.phase = .pinging) (going : launch.stop = false) :
    Moved gcm apps launch taken self e [] { self with phase := .openCheck }
  | openCheck (phase : self.phase = .openCheck) : Moved gcm apps launch taken self e [] { self with phase := .openFind }
  | openFind (phase : self.phase = .openFind) (window : WindowId) (found : apps.window launch.app = some window) :
    Moved gcm apps launch taken self e [] { self with source := some window, phase := .inputCheck }
  | inputCheck (phase : self.phase = .inputCheck) : Moved gcm apps launch taken self e [] { self with phase := .inputFind }
  | deafens (phase : self.phase = .inputCheck) : Moved gcm apps launch taken self e [] (self.streams none)
  | inputFind (phase : self.phase = .inputFind) :
    Moved gcm apps launch taken self e [] (self.streams (apps.window launch.app))
  | grabs (phase : self.phase = .streaming) :
    Moved gcm apps launch taken self e [] { self with wantsKeyframe := false, phase := .grabbing self.wantsKeyframe }
  | sends (keyframe : Bool) (phase : self.phase = .grabbing keyframe) (data : List UInt8) (idr : Bool) (timestamp : UInt32)
      (event : e = .frame data idr timestamp) :
    Moved gcm apps launch taken self e (self.sends gcm data idr timestamp).1 (self.sends gcm data idr timestamp).2
  | ends (keyframe : Bool) (phase : self.phase = .grabbing keyframe) :
    Moved gcm apps launch taken self e [] { self with left := true }.returns
  | terminates (phase : self.phase = .streaming) (stop : launch.stop = true) :
    Moved gcm apps launch taken self e [] self.terminate
  | leaves (phase : self.phase = .streaming) (left : self.left = true) : Moved gcm apps launch taken self e [] self.returns
  | fails (phase : self.phase ∈ [Phase.bindVideo, .bindAudio, .bindControl, .pinging, .openCheck, .openFind]) :
    Moved gcm apps launch taken self e [] self.returns
  | joins (phase : self.phase = .stopping) (listener : self.listener = .ended)
      (audio : ∀ audio, self.audio = some audio → audio.phase = .ended) : Moved gcm apps launch taken self e [] self.returns

variable {platform : Platform} {gcm : Aes128Gcm} {apps : CompatApps} {launch : Launch} {taken : Port → Bool}
  {self self' : Run} {out : List Output}

theorem moved_of_main {e : Meets} (h : self.main gcm apps launch taken e = some (out, self')) :
    Moved gcm apps launch taken self e out self' := by
  unfold main at h
  split at h
  case h_1 hphase =>
    cases h
    split
    case isTrue => exact .fails (by rw [hphase]; decide)
    case isFalse hfree => exact .bindVideo hphase (by simpa using fun hport => hfree (Or.inl hport))
  case h_2 hphase =>
    cases h
    split
    case isTrue => exact .fails (by rw [hphase]; decide)
    case isFalse hfree => exact .bindAudio hphase (by simpa using fun hport => hfree (Or.inl hport))
  case h_3 hphase =>
    cases h
    split
    case isTrue => exact .soundCheck hphase
    case isFalse => exact .hears (Or.inl hphase) false
  case h_4 hphase =>
    cases h
    exact .hears (Or.inr hphase) _
  case h_5 hphase =>
    cases h
    split
    case isTrue => exact .fails (by rw [hphase]; decide)
    case isFalse hfree => exact .bindControl hphase (by simpa using fun hport => hfree (Or.inl hport))
  case h_6 hphase =>
    cases h
    split
    case isTrue => exact .fails (by rw [hphase]; decide)
    case isFalse hstop =>
      split
      case isTrue => exact .pinged hphase (by simpa using fun hstopped => hstop (Or.inl hstopped))
      case isFalse => exact .waits hphase
  case h_7 hphase =>
    cases h
    split
    case isTrue => exact .openCheck hphase
    case isFalse => exact .fails (by rw [hphase]; decide)
  case h_8 hphase =>
    cases h
    split
    case h_1 window hwindow =>
      split
      case isTrue => exact .openFind hphase window hwindow
      case isFalse => exact .fails (by rw [hphase]; decide)
    case h_2 => exact .fails (by rw [hphase]; decide)
  case h_9 hphase =>
    cases h
    split
    case isTrue => exact .inputCheck hphase
    case isFalse => exact .deafens hphase
  case h_10 hphase =>
    cases h
    exact .inputFind hphase
  case h_11 hphase =>
    cases h
    split
    case isTrue hstop => exact .terminates hphase hstop
    case isFalse =>
      split
      case isTrue hleft => exact .leaves hphase hleft
      case isFalse => exact .grabs hphase
  case h_12 keyframe data idr timestamp hphase =>
    cases h
    exact .sends keyframe hphase data idr timestamp rfl
  case h_13 keyframe hphase =>
    cases h
    exact .ends keyframe hphase
  case h_14 hphase =>
    split at h
    case isTrue hjoined =>
      cases h
      refine .joins hphase hjoined.1 fun audio haudio => ?_
      simpa [haudio] using hjoined.2
    case isFalse => cases h
  case h_15 => cases h

/-! ### The other threads -/

/-- A step of the thread of the sound changes no more than that thread. -/
theorem step_audio {hears : Hears} (h : self.step platform apps launch taken (.audio hears) = some (out, self')) :
    ∃ audio audio', self.audio = some audio
      ∧ audio.step (isPing launch.pingPayload self.rtspPeer) launch.stop hears = some audio'
      ∧ self' = { self with audio := some audio' } := by
  obtain ⟨audio, haudio, hsteps⟩ := Option.bind_eq_some_iff.mp h
  obtain ⟨audio', hstep, hself⟩ := Option.bind_eq_some_iff.mp hsteps
  cases hself
  exact ⟨audio, audio', haudio, hstep, rfl⟩

theorem step_audio_out {hears : Hears} (h : self.step platform apps launch taken (.audio hears) = some (out, self')) :
    out = [] := by
  obtain ⟨_, -, hsteps⟩ := Option.bind_eq_some_iff.mp h
  obtain ⟨_, -, hself⟩ := Option.bind_eq_some_iff.mp hsteps
  cases hself
  rfl

/-- A step of the control thread changes no more than that thread. -/
theorem step_control {service : Service}
    (h : self.step platform apps launch taken (.control service) = some (out, self')) :
    ∃ control sent control', self.control = some control
      ∧ control.step platform.gcm launch.key launch.connectData service = some (sent, control')
      ∧ out = sent.map .control ∧ self' = { self with control := some control' } := by
  obtain ⟨control, hcontrol, hsteps⟩ := Option.bind_eq_some_iff.mp h
  obtain ⟨⟨sent, control'⟩, hstep, hself⟩ := Option.bind_eq_some_iff.mp hsteps
  cases hself
  exact ⟨control, sent, control', hcontrol, hstep, rfl, rfl⟩

theorem step_listen (h : self.step platform apps launch taken .listen = some (out, self')) :
    self.listens platform.reading launch.stop = some self' ∧ out = [] := by
  obtain ⟨after, hlistens, hself⟩ := Option.bind_eq_some_iff.mp h
  cases hself
  exact ⟨hlistens, rfl⟩

/-- A step of the delivering thread changes no more than that thread. -/
theorem step_deliver (h : self.step platform apps launch taken .deliver = some (out, self')) :
    ∃ input thread delivered thread', self.sink = some (input, thread) ∧ thread.step = some (delivered, thread')
      ∧ out = delivered.map .input ∧ self' = { self with sink := some (input, thread') } := by
  obtain ⟨⟨input, thread⟩, hsink, hsteps⟩ := Option.bind_eq_some_iff.mp h
  obtain ⟨⟨delivered, thread'⟩, hstep, hself⟩ := Option.bind_eq_some_iff.mp hsteps
  cases hself
  exact ⟨input, thread, delivered, thread', hsink, hstep, rfl, rfl⟩

/-- The steps of the listener. -/
inductive Listened (reading : Reading) (stop : Bool) (self : Run) : Run → Prop
  | checks (listener : self.listener = .checking) (going : stop = false) (here : self.left = false) :
    Listened reading stop self { self with listener := .receiving }
  | ends (listener : self.listener = .checking ∨ self.listener = .receiving) : Listened reading stop self self.unlisten
  | nothing (listener : self.listener = .receiving) : Listened reading stop self { self with listener := .checking }
  | hears (listener : self.listener = .receiving) (control : Control) (is : self.control = some control)
      (event : ControlEvent) (events : List ControlEvent) (queued : control.events = event :: events) :
    Listened reading stop self
      ({ self with control := some { control with events := events }, listener := .checking }.hear reading event)

theorem listened_of_listens {reading : Reading} {stop : Bool} (h : self.listens reading stop = some self') :
    Listened reading stop self self' := by
  unfold listens at h
  split at h
  case h_1 hlistener =>
    cases h
    split
    case isTrue => exact .ends (Or.inl hlistener)
    case isFalse hgo =>
      rw [not_or, Bool.not_eq_true, Bool.not_eq_true] at hgo
      exact .checks hlistener hgo.1 hgo.2
  case h_2 control hlistener hcontrol =>
    split at h
    case h_1 event events hevents =>
      cases h
      exact .hears hlistener control hcontrol event events hevents
    case h_2 =>
      cases h
      split
      case isTrue => exact .ends (Or.inr hlistener)
      case isFalse => exact .nothing hlistener
  case h_3 => cases h

/-- What a step of the listener leaves alone: of the control thread, all but its events. -/
structure Beside (before after : Run) : Prop where
  launch : after.launch = before.launch
  phase : after.phase = before.phase
  video : after.video = before.video
  audio : after.audio = before.audio
  source : after.source = before.source
  cipher : after.cipher = before.cipher
  ivs : after.ivs = before.ivs
  control : ∀ control', after.control = some control' → ∃ control, before.control = some control
    ∧ control'.nonces = control.nonces ∧ control'.outgoing = control.outgoing ∧ control'.hungUp = control.hungUp
    ∧ control'.ended = control.ended

/-- A change that leaves the control thread alone, too. -/
theorem Beside.of_eq {before after : Run} (launch : after.launch = before.launch) (phase : after.phase = before.phase)
    (video : after.video = before.video) (audio : after.audio = before.audio) (source : after.source = before.source)
    (cipher : after.cipher = before.cipher) (ivs : after.ivs = before.ivs) (control : after.control = before.control) :
    Beside before after :=
  ⟨launch, phase, video, audio, source, cipher, ivs, fun control' hcontrol' =>
    ⟨control', control ▸ hcontrol', rfl, rfl, rfl, rfl⟩⟩

theorem Beside.trans {before between after : Run} (h : Beside before between) (h' : Beside between after) :
    Beside before after where
  launch := h'.launch.trans h.launch
  phase := h'.phase.trans h.phase
  video := h'.video.trans h.video
  audio := h'.audio.trans h.audio
  source := h'.source.trans h.source
  cipher := h'.cipher.trans h.cipher
  ivs := h'.ivs.trans h.ivs
  control := fun control'' hcontrol'' => by
    obtain ⟨control', hcontrol', hnonces', houtgoing', hhungUp', hended'⟩ := h'.control control'' hcontrol''
    obtain ⟨control, hcontrol, hnonces, houtgoing, hhungUp, hended⟩ := h.control control' hcontrol'
    exact ⟨control, hcontrol, hnonces'.trans hnonces, houtgoing'.trans houtgoing, hhungUp'.trans hhungUp,
      hended'.trans hended⟩

theorem beside_unlisten (self : Run) : Beside self self.unlisten where
  launch := rfl
  phase := rfl
  video := rfl
  audio := rfl
  source := rfl
  cipher := rfl
  ivs := rfl
  control := fun control' hcontrol' => by
    obtain ⟨control, hcontrol, rfl⟩ := Option.map_eq_some_iff.mp hcontrol'
    exact ⟨control, hcontrol, rfl, rfl, rfl, rfl⟩

theorem beside_hear {reading : Reading} (event : ControlEvent) : Beside self (self.hear reading event) := by
  cases event with
  | connected => exact .of_eq rfl rfl rfl rfl rfl rfl rfl rfl
  | disconnected => exact beside_unlisten self
  | message kind payload =>
    rw [hear]
    split
    · exact .of_eq rfl rfl rfl rfl rfl rfl rfl rfl
    · split <;> exact .of_eq rfl rfl rfl rfl rfl rfl rfl rfl

theorem Listened.beside {reading : Reading} {stop : Bool} (h : Listened reading stop self self') : Beside self self' := by
  cases h with
  | checks => exact .of_eq rfl rfl rfl rfl rfl rfl rfl rfl
  | ends => exact beside_unlisten self
  | nothing => exact .of_eq rfl rfl rfl rfl rfl rfl rfl rfl
  | hears listener control is event events =>
    have htaken : Beside self { self with control := some { control with events := events }, listener := .checking } :=
      ⟨rfl, rfl, rfl, rfl, rfl, rfl, rfl, fun control' hcontrol' => by
        cases hcontrol'
        exact ⟨control, is, rfl, rfl, rfl, rfl⟩⟩
    exact htaken.trans (beside_hear event)

theorem beside_listen (h : self.step platform apps launch taken .listen = some (out, self')) : Beside self self' :=
  (listened_of_listens (step_listen h).1).beside

/-- A stream stays one of its launch. -/
theorem launch_step {e : Event} (h : self.step platform apps launch taken e = some (out, self')) :
    self'.launch = self.launch := by
  cases e with
  | main meets => cases moved_of_main h <;> rfl
  | audio hears =>
    obtain ⟨_, _, _, _, rfl⟩ := step_audio h
    rfl
  | control service =>
    obtain ⟨_, _, _, _, _, _, rfl⟩ := step_control h
    rfl
  | listen => exact (beside_listen h).launch
  | deliver =>
    obtain ⟨_, _, _, _, _, _, _, rfl⟩ := step_deliver h
    rfl

end Run

/-! ### The server -/

namespace Server

variable {platform : Platform} {s s' : Server}

theorem step_run {i : ℕ} {e : Run.Event} (h : s.step platform (.run i e) = some s') :
    ∃ run launch out run', s.runs[i]? = some run ∧ s.launches[run.launch]? = some launch
      ∧ run.step platform s.apps launch s.taken e = some (out, run')
      ∧ s' = { s with runs := s.runs.set i run', out := out } := by
  obtain ⟨run, hrun, hrest⟩ := Option.bind_eq_some_iff.mp h
  obtain ⟨launch, hlaunch, hrest⟩ := Option.bind_eq_some_iff.mp hrest
  obtain ⟨⟨out, run'⟩, hstep, hs⟩ := Option.bind_eq_some_iff.mp hrest
  cases hs
  exact ⟨run, launch, out, run', hrun, hlaunch, hstep, rfl⟩

theorem step_clears {i : ℕ} (h : s.step platform (.clears i) = some s') :
    ∃ run, s.runs[i]? = some run ∧ run.phase = .returned
      ∧ s' = { s with
          launches := s.launches.modify run.launch fun launch => { launch with streaming := false }
          runs := s.runs.set i { run with phase := .cleared }
          out := [] } := by
  obtain ⟨run, hrun, hrest⟩ := Option.bind_eq_some_iff.mp h
  split at hrest
  case isTrue hphase =>
    cases hrest
    exact ⟨run, hrun, hphase, rfl⟩
  case isFalse => cases hrest

/-- An ANNOUNCE starts a stream, or changes nothing. -/
theorem step_announce {i : ℕ} {number : String → Option UInt32} {rtspPeer : Option Ip}
    (h : s.step platform (.announce i number rtspPeer) = some s') :
    s' = { s with out := [] } ∨ ∃ launch config, s.launches[i]? = some launch ∧ launch.streaming = false
      ∧ s' = { s with
          launches := s.launches.modify i fun launch => { launch with streaming := true }
          runs := s.runs ++ [.new i launch.key config rtspPeer]
          out := [] } := by
  obtain ⟨launch, hlaunch, hrest⟩ := Option.bind_eq_some_iff.mp h
  split at hrest
  case h_1 =>
    cases hrest
    exact Or.inl rfl
  case h_2 config _ =>
    split at hrest
    case isTrue =>
      cases hrest
      exact Or.inl rfl
    case isFalse hno =>
      cases hrest
      rw [not_or, Bool.not_eq_true] at hno
      exact Or.inr ⟨launch, config, hlaunch, hno.2, rfl⟩

end Server

/-- What becomes of a launch: it stays stopped. -/
structure Launch.Later (before after : Launch) : Prop where
  app : after.app = before.app
  stop : before.stop = true → after.stop = true

namespace Server

variable {platform : Platform} {s s' : Server} {l : Launch} {k : ℕ}

theorem getElem?_modify_later {launches : List Launch} {f : Launch → Launch} (hf : ∀ l : Launch, l.Later (f l)) (i : ℕ)
    (hl : launches[k]? = some l) : ∃ l', (launches.modify i f)[k]? = some l' ∧ l.Later l' := by
  rw [List.getElem?_modify, hl]
  by_cases hi : i = k
  · exact ⟨f l, congrArg some (if_pos hi), hf l⟩
  · exact ⟨l, congrArg some (if_neg hi), rfl, id⟩

theorem getElem?_stopped (hl : s.launches[k]? = some l) :
    ∃ l', s.stopped[k]? = some l' ∧ l.Later l' ∧ l'.streaming = l.streaming := by
  unfold stopped
  split
  case h_1 i _ =>
    rw [List.getElem?_modify, hl]
    by_cases hi : i = k
    · exact ⟨{ l with stop := true }, congrArg some (if_pos hi), ⟨rfl, fun _ => rfl⟩, rfl⟩
    · exact ⟨l, congrArg some (if_neg hi), ⟨rfl, id⟩, rfl⟩
  case h_2 => exact ⟨l, hl, ⟨rfl, id⟩, rfl⟩

/-- The launches stay, in their places. -/
theorem launches_step {e : Event} (h : s.step platform e = some s') (hl : s.launches[k]? = some l) :
    ∃ l', s'.launches[k]? = some l' ∧ l.Later l' := by
  have hsame : ∃ l', s.launches[k]? = some l' ∧ l.Later l' := ⟨l, hl, rfl, id⟩
  cases e with
  | shows window title => cases h; exact hsame
  | drops window => cases h; exact hsame
  | lists windows => cases h; exact hsame
  | launch resume app key mode pingPayload connectData =>
    rw [step] at h
    split at h
    · cases h
      exact hsame
    · cases h
      obtain ⟨l', hl', hlater, -⟩ := getElem?_stopped hl
      exact ⟨l', List.getElem?_append_left (List.getElem?_eq_some_iff.mp hl').1 ▸ hl', hlater⟩
  | cancel =>
    cases h
    obtain ⟨l', hl', hlater, -⟩ := getElem?_stopped hl
    exact ⟨l', hl', hlater⟩
  | announce i number rtspPeer =>
    rcases step_announce h with rfl | ⟨launch, config, -, -, rfl⟩
    · exact hsame
    · refine getElem?_modify_later ?_ _ hl
      exact fun l => ⟨rfl, id⟩
  | run i e =>
    obtain ⟨_, _, _, _, _, _, _, rfl⟩ := step_run h
    exact hsame
  | clears i =>
    obtain ⟨_, _, _, rfl⟩ := step_clears h
    refine getElem?_modify_later ?_ _ hl
    exact fun l => ⟨rfl, id⟩

/-- What is at a place of a list with one more element. -/
theorem getElem?_concat_cases {α : Type} {elements : List α} {last a : α} {i : ℕ} (h : (elements ++ [last])[i]? = some a) :
    elements[i]? = some a ∨ i = elements.length ∧ a = last := by
  by_cases hi : i < elements.length
  · rw [List.getElem?_append_left hi] at h
    exact Or.inl h
  · have hlast : i = elements.length := by
      have hlt := (List.getElem?_eq_some_iff.mp h).1
      rw [List.length_append, List.length_singleton] at hlt
      omega
    rw [hlast, List.getElem?_concat_length, Option.some_inj] at h
    exact Or.inr ⟨hlast, h.symm⟩

/-- What is at a place of a list after another place was set, or that one. -/
theorem getElem?_set_cases {α : Type} {elements : List α} {a b : α} {i j : ℕ} (h : (elements.set i a)[j]? = some b) :
    i = j ∧ b = a ∨ i ≠ j ∧ elements[j]? = some b := by
  by_cases hij : i = j
  · subst hij
    rw [List.getElem?_set] at h
    split at h
    · split at h
      · exact Or.inl ⟨rfl, (Option.some_inj.mp h).symm⟩
      · cases h
    · contradiction
  · rw [List.getElem?_set_ne hij] at h
    exact Or.inr ⟨hij, h⟩

/-- A property of every stream, under its launch's stop. -/
def Each (P : Bool → Run → Prop) (s : Server) : Prop :=
  ∀ (i : ℕ) (run : Run), s.runs[i]? = some run → ∃ launch, s.launches[run.launch]? = some launch ∧ P launch.stop run

/-- What the steps of a stream keep, whatever else there is, the server's keep. -/
theorem Each.step {P : Bool → Run → Prop} (hstop : ∀ run, P false run → P true run)
    (hnew : ∀ stop launch key config rtspPeer, P stop (.new launch key config rtspPeer))
    (hrun : ∀ {apps launch taken run e out run'}, run.step platform apps launch taken e = some (out, run') →
      P launch.stop run → P launch.stop run')
    (hclear : ∀ stop run, run.phase = .returned → P stop run → P stop { run with phase := .cleared })
    {e : Event} (h : s.step platform e = some s') (hs : s.Each P) : s'.Each P := by
  have hlater : ∀ {l l' : Launch} {run}, l.Later l' → P l.stop run → P l'.stop run := by
    intro l l' run hl hP
    cases hstopped : l.stop with
    | true =>
      rw [hl.stop hstopped]
      rwa [hstopped] at hP
    | false =>
      rw [hstopped] at hP
      cases l'.stop with
      | false => exact hP
      | true => exact hstop run hP
  -- a stream that was there, under what its launch has become
  have hold : ∀ (i : ℕ) (run : Run), s.runs[i]? = some run → ∃ launch, s'.launches[run.launch]? = some launch ∧ P launch.stop run := by
    intro i run hi
    obtain ⟨launch, hlaunch, hP⟩ := hs i run hi
    obtain ⟨launch', hlaunch', hl⟩ := launches_step h hlaunch
    exact ⟨launch', hlaunch', hlater hl hP⟩
  cases e with
  | shows window title => cases h; exact hold
  | drops window => cases h; exact hold
  | lists windows => cases h; exact hold
  | launch resume app key mode pingPayload connectData =>
    rw [Server.step] at h
    split at h <;> cases h <;> exact hold
  | cancel => cases h; exact hold
  | announce i number rtspPeer =>
    rcases step_announce h with rfl | ⟨launch, config, hlaunch, -, rfl⟩
    · exact hold
    · intro j run hj
      rcases getElem?_concat_cases hj with hj | ⟨-, rfl⟩
      · exact hold j run hj
      · obtain ⟨launch', hlaunch', -⟩ := launches_step h hlaunch
        exact ⟨launch', hlaunch', hnew _ _ _ _ _⟩
  | run i e =>
    obtain ⟨run, launch, out, run', hi, hlaunch, hstep, rfl⟩ := step_run h
    intro j run₁ hj
    obtain ⟨launch', hlaunch', hP⟩ := hs i run hi
    rw [hlaunch] at hlaunch'
    cases hlaunch'
    rcases getElem?_set_cases hj with ⟨-, rfl⟩ | ⟨-, hj⟩
    · exact ⟨launch, by rw [Run.launch_step hstep]; exact hlaunch, hrun hstep hP⟩
    · exact hold j run₁ hj
  | clears i =>
    obtain ⟨run, hi, hphase, rfl⟩ := step_clears h
    intro j run₁ hj
    rcases getElem?_set_cases hj with ⟨-, rfl⟩ | ⟨-, hj⟩
    · obtain ⟨launch, hlaunch, hP⟩ := hold i run hi
      exact ⟨launch, hlaunch, hclear _ run hphase hP⟩
    · exact hold j run₁ hj

end Server

end WindowCast.GameStream
