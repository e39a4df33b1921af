import WindowCast.GameStream.Steps

/-!
# The threads a stream leaves behind

A stream returns from many places, and only where its launch is stopped does it wait for
its other threads.  Each of those has an end of its own: the control thread when the
sender is gone, the listener when the client counts as gone, the delivering thread when
its sink is closed.  The thread of the sound ends with the sound or with the launch.

## Main definitions

* `Run.rank` — what the threads of a stream that has returned have left to do.
* `Server.Rests` — the threads end, and the ports are free for the next stream.

## Main results

* `Run.rank_step` — a step of such a thread lowers the rank.
* `Server.rests_iff` — **a stream leaves no thread and no port behind exactly where its
  launch is stopped or its sound has ended**.
* `Server.not_rests_left` — a client that leaves.
-/

namespace WindowCast.GameStream

open WindowCast.Host (WindowId)

/-! ### What a stream leaves -/

/-- The client's control stream is not listened to yet. -/
def Phase.early (phase : Phase) : Bool :=
  phase ∈ [Phase.bindVideo, .bindAudio, .soundCheck, .soundFind, .bindControl, .pinging, .openCheck, .openFind,
    .inputCheck, .inputFind]

/-- The thread of the stream has returned. -/
def Phase.back (phase : Phase) : Bool := phase ∈ [Phase.returned, .cleared]

namespace Run

/-- The listener is running. -/
def listening (self : Run) : Prop := self.listener = .checking ∨ self.listener = .receiving

/-- What holds of the threads of a stream, while it goes and after it has returned. -/
structure Settling (stop : Bool) (run : Run) : Prop where
  bound : ∀ audio, run.audio = some audio → audio.phase = .bound → run.phase = .soundCheck ∨ run.phase = .soundFind
  early : run.phase.early = true → run.listener = .absent
  video : run.phase.back = true → run.video = false
  control : run.phase.back = true → ∀ control, run.control = some control → control.hungUp = true
  listener : run.phase.back = true → run.listening → run.left = true ∨ stop = true

variable {platform : Platform} {gcm : Aes128Gcm} {apps : CompatApps} {launch : Launch} {taken : Port → Bool}
  {self self' : Run} {out : List Output} {stop : Bool}

theorem not_listening_of_absent (h : self.listener = .absent) : ¬ self.listening := by
  rw [listening, h]
  rintro (h | h) <;> cases h

/-- Where a phase is neither early nor back, only the thread of the sound matters. -/
theorem Settling.going (hearly : self.phase.early = false) (hback : self.phase.back = false)
    (hbound : ∀ audio, self.audio = some audio → audio.phase ≠ .bound) : self.Settling stop where
  bound := fun audio haudio hphase => absurd hphase (hbound audio haudio)
  early := fun h => by
    rw [hearly] at h
    cases h
  video := fun h => by
    rw [hback] at h
    cases h
  control := fun h => by
    rw [hback] at h
    cases h
  listener := fun h => by
    rw [hback] at h
    cases h

/-- While the phase is early, there is no listener. -/
theorem Settling.starting (hback : self.phase.back = false) (hlistener : self.listener = .absent)
    (hbound : ∀ audio, self.audio = some audio → audio.phase = .bound → self.phase = .soundCheck ∨ self.phase = .soundFind) :
    self.Settling stop where
  bound := hbound
  early := fun _ => hlistener
  video := fun h => by
    rw [hback] at h
    cases h
  control := fun h => by
    rw [hback] at h
    cases h
  listener := fun h => by
    rw [hback] at h
    cases h

theorem settling_new (stop : Bool) (launch : ℕ) (key : Vector UInt8 16) (config : StreamConfig) (rtspPeer : Option Ip) :
    (Run.new launch key config rtspPeer).Settling stop :=
  .starting rfl rfl fun _ h => by cases h

/-- A stream may return where the listener, if there is one, is about to end. -/
theorem settling_returns (hbound : ∀ audio, self.audio = some audio → audio.phase ≠ .bound)
    (hlistener : self.listening → self.left = true ∨ stop = true) : self.returns.Settling stop where
  bound := fun audio haudio hphase => absurd hphase (hbound audio haudio)
  early := fun h => by cases h
  video := fun _ => rfl
  control := fun _ control' hcontrol' => by
    obtain ⟨control, -, rfl⟩ := Option.map_eq_some_iff.mp hcontrol'
    rfl
  listener := fun _ => hlistener

theorem Settling.not_bound (h : self.Settling stop) (hcheck : self.phase ≠ .soundCheck) (hfind : self.phase ≠ .soundFind) :
    ∀ audio, self.audio = some audio → audio.phase ≠ .bound := fun audio haudio hphase =>
  (h.bound audio haudio hphase).elim hcheck hfind

/-- A step of the thread of a stream. -/
theorem Settling.moved {e : Meets} (h : self.Settling launch.stop)
    (hmoved : Moved gcm apps launch taken self e out self') : self'.Settling launch.stop := by
  -- in one phase, the sound is bound by none of the others
  have hunbound : ∀ {phase : Phase}, self.phase = phase → phase ≠ .soundCheck → phase ≠ .soundFind →
      ∀ audio, self.audio = some audio → audio.phase ≠ .bound := by
    rintro phase rfl hcheck hfind
    exact h.not_bound hcheck hfind
  have habsent : ∀ {phase : Phase}, self.phase = phase → phase.early = true → self.listener = .absent := by
    rintro phase rfl hearly
    exact h.early hearly
  cases hmoved with
  | bindVideo hphase =>
    refine .starting rfl (habsent hphase rfl) fun audio haudio hbound => ?_
    exact absurd hbound (hunbound hphase nofun nofun audio haudio)
  | bindAudio hphase => exact .starting rfl (habsent hphase rfl) fun _ _ _ => Or.inl rfl
  | soundCheck hphase => exact .starting rfl (habsent hphase rfl) fun _ _ _ => Or.inr rfl
  | hears hphase sound =>
    have hlistener : self.listener = .absent := hphase.elim (fun h => habsent h rfl) fun h => habsent h rfl
    refine .starting rfl hlistener fun audio haudio hbound => ?_
    cases haudio
    cases hbound
  | bindControl hphase =>
    refine .starting rfl (habsent hphase rfl) fun audio haudio hbound => ?_
    exact absurd hbound (hunbound hphase nofun nofun audio haudio)
  | waits => exact h
  | pinged hphase =>
    refine .starting rfl (habsent hphase rfl) fun audio haudio hbound => ?_
    exact absurd hbound (hunbound hphase nofun nofun audio haudio)
  | openCheck hphase =>
    refine .starting rfl (habsent hphase rfl) fun audio haudio hbound => ?_
    exact absurd hbound (hunbound hphase nofun nofun audio haudio)
  | openFind hphase =>
    refine .starting rfl (habsent hphase rfl) fun audio haudio hbound => ?_
    exact absurd hbound (hunbound hphase nofun nofun audio haudio)
  | inputCheck hphase =>
    refine .starting rfl (habsent hphase rfl) fun audio haudio hbound => ?_
    exact absurd hbound (hunbound hphase nofun nofun audio haudio)
  | deafens hphase => exact .going rfl rfl (hunbound hphase nofun nofun)
  | inputFind hphase => exact .going rfl rfl (hunbound hphase nofun nofun)
  | grabs hphase => exact .going rfl rfl (hunbound hphase nofun nofun)
  | sends keyframe hphase => exact .going rfl rfl (hunbound hphase nofun nofun)
  | ends keyframe hphase =>
    have hleft : ∀ audio, { self with left := true }.audio = some audio → audio.phase ≠ .bound :=
      hunbound hphase nofun nofun
    exact settling_returns hleft fun _ => Or.inl rfl
  | terminates hphase => exact .going rfl rfl (hunbound hphase nofun nofun)
  | leaves hphase hleft => exact settling_returns (hunbound hphase nofun nofun) fun _ => Or.inl hleft
  | fails hphase =>
    have hearly : self.phase.early = true ∧ self.phase ≠ .soundCheck ∧ self.phase ≠ .soundFind := by
      revert hphase
      cases self.phase <;> simp [Phase.early]
    exact settling_returns (h.not_bound hearly.2.1 hearly.2.2) fun hon =>
      absurd hon (not_listening_of_absent (h.early hearly.1))
  | joins hphase hlistener =>
    refine settling_returns (hunbound hphase nofun nofun) fun hon => ?_
    rw [listening, hlistener] at hon
    rcases hon with hon | hon <;> cases hon

theorem Settling.mono (h : self.Settling false) : self.Settling true where
  bound := h.bound
  early := h.early
  video := h.video
  control := h.control
  listener := fun _ _ => Or.inr rfl

theorem Settling.cleared (h : self.Settling stop) (hphase : self.phase = .returned) :
    { self with phase := .cleared }.Settling stop where
  bound := fun audio haudio hbound => absurd hbound (h.not_bound (by rw [hphase]; nofun) (by rw [hphase]; nofun) audio haudio)
  early := fun hearly => by cases hearly
  video := fun _ => h.video (by rw [hphase]; rfl)
  control := fun _ => h.control (by rw [hphase]; rfl)
  listener := fun _ => h.listener (by rw [hphase]; rfl)

/-- A step of the thread of the sound never goes back to where the port was bound. -/
theorem not_bound_of_step {ours : List UInt8 → Ip → Bool} {audio audio' : Audio} {hears : Hears}
    (h : audio.step ours stop hears = some audio') : audio'.phase ≠ .bound := by
  unfold Audio.step at h
  split at h
  case h_1 hphase =>
    cases h
    split
    · exact nofun
    · split
      · split
        · exact nofun
        · dsimp only
          split <;> exact nofun
      · rw [hphase]
        exact nofun
  case h_2 hphase =>
    cases h
    split
    · exact nofun
    · rw [hphase]
      exact nofun
  case h_3 hphase =>
    cases h
    split
    · exact nofun
    · rw [hphase]
      exact nofun
  case h_4 => cases h

/-- What the listener does of the client's state: whoever has left stays so. -/
theorem left_hear {reading : Reading} (event : ControlEvent) (h : self.left = true) :
    (self.hear reading event).left = true := by
  cases event with
  | connected => exact h
  | disconnected => rfl
  | message kind payload =>
    rw [hear]
    split
    · exact h
    · split <;> exact h

/-- A step of the listener. -/
theorem Settling.listened {reading : Reading} (h : self.Settling stop) (hlistened : Listened reading stop self self') :
    self'.Settling stop := by
  have hbeside := hlistened.beside
  have hon : self.listening := by
    cases hlistened with
    | checks listener => exact Or.inl listener
    | ends listener => exact listener
    | nothing listener => exact Or.inr listener
    | hears listener => exact Or.inr listener
  refine ⟨?_, fun hearly => ?_, fun hback => ?_, fun hback control' hcontrol' => ?_, fun hback hon' => ?_⟩
  · rw [hbeside.audio, hbeside.phase]
    exact h.bound
  · rw [hbeside.phase] at hearly
    exact absurd hon (not_listening_of_absent (h.early hearly))
  · rw [hbeside.video]
    exact h.video (hbeside.phase ▸ hback)
  · obtain ⟨control, hcontrol, -, -, hhungUp, -⟩ := hbeside.control control' hcontrol'
    rw [hhungUp]
    exact h.control (hbeside.phase ▸ hback) control hcontrol
  · refine (h.listener (hbeside.phase ▸ hback) hon).imp_left fun hleft => ?_
    cases hlistened with
    | checks => exact hleft
    | ends => rfl
    | nothing => exact hleft
    | hears => exact left_hear _ hleft

/-- A step of any of its threads. -/
theorem Settling.step {e : Event} (h : self.Settling launch.stop)
    (hstep : self.step platform apps launch taken e = some (out, self')) : self'.Settling launch.stop := by
  cases e with
  | main meets => exact h.moved (moved_of_main hstep)
  | audio hears =>
    obtain ⟨audio, audio', haudio, hturn, rfl⟩ := step_audio hstep
    refine ⟨fun audio'' haudio'' hbound => ?_, h.early, h.video, h.control, h.listener⟩
    cases haudio''
    exact absurd hbound (not_bound_of_step hturn)
  | control service =>
    obtain ⟨control, sent, control', hcontrol, hturn, -, rfl⟩ := step_control hstep
    refine ⟨h.bound, h.early, h.video, fun hback control'' hcontrol'' => ?_, h.listener⟩
    cases hcontrol''
    rw [(Control.step_spec hturn).1.hungUp]
    exact h.control hback control hcontrol
  | listen => exact h.listened (listened_of_listens (step_listen hstep).1)
  | deliver =>
    obtain ⟨_, _, _, _, _, _, _, rfl⟩ := step_deliver hstep
    exact ⟨h.bound, h.early, h.video, h.control, h.listener⟩

/-! ### What its threads have left to do -/

/-- Whether a thread that is there has not ended, as a number. -/
def alive (ended : Bool) : ℕ := if ended then 0 else 1

/-- What the listener has left to do once the client counts as gone. -/
def listenerRank : Listener → ℕ
  | .receiving => 2
  | .checking => 1
  | _ => 0

/-- What the threads of a stream that has returned have left to do: first the listener, which
may hand the delivering thread more. -/
def rank (self : Run) : ℕ × ℕ :=
  (listenerRank self.listener,
    (self.audio.elim 0 fun audio => alive (audio.phase = .ended)) + (self.control.elim 0 fun control => alive control.ended)
      + self.sink.elim 0 fun sink => sink.2.queue.length + alive sink.2.ended)

/-- The order of ranks. -/
abbrev Less : ℕ × ℕ → ℕ × ℕ → Prop := Prod.Lex (· < ·) (· < ·)

/-- The threads of a stream that is cleared, all of which are to end. -/
structure Ending (stop : Bool) (run : Run) : Prop where
  settling : run.Settling stop
  cleared : run.phase = .cleared
  audio : stop = true ∨ ∀ audio, run.audio = some audio → audio.phase = .ended

/-- Once its launch is stopped, the thread of the sound makes its last turn. -/
theorem ended_of_stop {ours : List UInt8 → Ip → Bool} {audio audio' : Audio} {hears : Hears}
    (h : audio.step ours true hears = some audio') : audio'.phase = .ended ∧ audio.phase ≠ .ended := by
  unfold Audio.step at h
  split at h
  case h_1 hphase =>
    cases h
    exact ⟨rfl, by rw [hphase]; exact nofun⟩
  case h_2 hphase =>
    cases h
    exact ⟨rfl, by rw [hphase]; exact nofun⟩
  case h_3 hphase =>
    cases h
    exact ⟨rfl, by rw [hphase]; exact nofun⟩
  case h_4 => cases h

/-- A thread that has ended makes no turn. -/
theorem step_of_ended {ours : List UInt8 → Ip → Bool} {audio : Audio} (h : audio.phase = .ended) (hears : Hears) :
    audio.step ours stop hears = none := by
  unfold Audio.step
  rw [h]

theorem delivering_less {thread thread' : Delivering} {delivered : List Stream.Input}
    (h : thread.step = some (delivered, thread')) :
    thread'.queue.length + alive thread'.ended < thread.queue.length + alive thread.ended := by
  unfold Delivering.step at h
  split at h
  case isTrue => cases h
  case isFalse hended =>
    split at h
    case h_1 event focus queue hqueue =>
      cases h
      rw [hqueue]
      exact Nat.add_lt_add_right (Nat.lt_succ_self _) _
    case h_2 hqueue =>
      split at h
      case isTrue =>
        cases h
        rw [alive, alive, if_neg hended]
        exact Nat.lt_succ_self _
      case isFalse => cases h

theorem listener_hear {reading : Reading} (event : ControlEvent) :
    listenerRank (self.hear reading event).listener ≤ listenerRank self.listener := by
  cases event with
  | connected => exact Nat.le_refl _
  | disconnected => exact Nat.zero_le _
  | message kind payload =>
    rw [hear]
    split
    · exact Nat.le_refl _
    · split <;> exact Nat.le_refl _

/-- A step of the threads of such a stream lowers the rank. -/
theorem rank_step {e : Event} (h : self.Ending launch.stop)
    (hstep : self.step platform apps launch taken e = some (out, self')) : Less self'.rank self.rank := by
  cases e with
  | main meets =>
    have hcleared := h.cleared
    simp [step, main, hcleared] at hstep
  | audio hears =>
    obtain ⟨audio, audio', haudio, hturn, rfl⟩ := step_audio hstep
    rcases h.audio with hstop | hended
    · rw [hstop] at hturn
      obtain ⟨hafter, hbefore⟩ := ended_of_stop hturn
      refine Prod.Lex.right _ ?_
      rw [haudio]
      simp only [Option.elim, alive, hafter, hbefore, decide_true, decide_false, if_true]
      exact Nat.add_lt_add_right (Nat.add_lt_add_right (by decide) _) _
    · rw [step_of_ended (hended audio haudio)] at hturn
      cases hturn
  | control service =>
    obtain ⟨control, sent, control', hcontrol, hturn, -, rfl⟩ := step_control hstep
    obtain ⟨-, -, hlive, hlast⟩ := Control.step_spec hturn
    have hhungUp := h.settling.control (by rw [h.cleared]; rfl) control hcontrol
    refine Prod.Lex.right _ ?_
    rw [hcontrol]
    simp only [Option.elim, alive, hlive, hlast hhungUp, if_true]
    exact Nat.add_lt_add_right (Nat.add_lt_add_left (by decide) _) _
  | listen =>
    refine Prod.Lex.left _ _ ?_
    cases listened_of_listens (step_listen hstep).1 with
    | checks hlistener hgoing hhere =>
      -- whoever has returned has a client that left, or a launch that is stopped
      rcases h.settling.listener (by rw [h.cleared]; rfl) (Or.inl hlistener) with hleft | hstop
      · rw [hhere] at hleft
        cases hleft
      · rw [hgoing] at hstop
        cases hstop
    | ends hlistener =>
      rcases hlistener with hlistener | hlistener <;> rw [hlistener]
      · exact Nat.zero_lt_one
      · exact Nat.zero_lt_two
    | nothing hlistener =>
      rw [hlistener]
      exact Nat.one_lt_two
    | hears hlistener control is event events =>
      rw [hlistener]
      exact Nat.lt_of_le_of_lt (listener_hear event) Nat.one_lt_two
  | deliver =>
    obtain ⟨input, thread, delivered, thread', hsink, hturn, -, rfl⟩ := step_deliver hstep
    refine Prod.Lex.right _ ?_
    rw [hsink]
    exact Nat.add_lt_add_left (delivering_less hturn) _

/-- A step of such a thread leaves it one of a stream that ends. -/
theorem Ending.step {e : Event} (h : self.Ending launch.stop)
    (hstep : self.step platform apps launch taken e = some (out, self')) : self'.Ending launch.stop := by
  refine ⟨h.settling.step hstep, ?_, h.audio.imp_right fun hended audio' haudio' => ?_⟩
  · cases e with
    | main meets =>
      have hcleared := h.cleared
      simp [Run.step, main, hcleared] at hstep
    | audio hears =>
      obtain ⟨_, _, _, _, rfl⟩ := step_audio hstep
      exact h.cleared
    | control service =>
      obtain ⟨_, _, _, _, _, _, rfl⟩ := step_control hstep
      exact h.cleared
    | listen => exact (beside_listen hstep).phase.trans h.cleared
    | deliver =>
      obtain ⟨_, _, _, _, _, _, _, rfl⟩ := step_deliver hstep
      exact h.cleared
  · cases e with
    | main meets =>
      have hcleared := h.cleared
      simp [Run.step, main, hcleared] at hstep
    | audio hears =>
      obtain ⟨audio, _, haudio, hturn, rfl⟩ := step_audio hstep
      rw [step_of_ended (hended audio haudio)] at hturn
      cases hturn
    | control service =>
      obtain ⟨_, _, _, _, _, _, rfl⟩ := step_control hstep
      exact hended audio' haudio'
    | listen =>
      rw [(beside_listen hstep).audio] at haudio'
      exact hended audio' haudio'
    | deliver =>
      obtain ⟨_, _, _, _, _, _, _, rfl⟩ := step_deliver hstep
      exact hended audio' haudio'

/-- A thread of such a stream that still has a port can make a step. -/
theorem exists_step_of_holds (h : self.Ending launch.stop) {port : Port} (hholds : self.holds port = true) :
    ∃ e, (self.step platform apps launch taken e).isSome := by
  cases port with
  | video =>
    have hvideo := h.settling.video (by rw [h.cleared]; rfl)
    rw [holds, hvideo] at hholds
    cases hholds
  | audio =>
    obtain ⟨audio, haudio, hphase⟩ := (Option.any_eq_true _ _).mp hholds
    have hunbound := h.settling.not_bound (by rw [h.cleared]; nofun) (by rw [h.cleared]; nofun) audio haudio
    cases hnow : audio.phase with
    | bound => exact absurd hnow hunbound
    | waiting => exact ⟨.audio (.ping none true), by simp [step, haudio, Audio.step, hnow]⟩
    | draining => exact ⟨.audio (.ping none true), by simp [step, haudio, Audio.step, hnow]⟩
    | playing => exact ⟨.audio (.samples false), by simp [step, haudio, Audio.step, hnow]⟩
    | ended =>
      rw [hnow] at hphase
      cases hphase
  | control =>
    obtain ⟨control, hcontrol, hlive⟩ := (Option.any_eq_true _ _).mp hholds
    have hended : control.ended = false := by simpa using hlive
    obtain ⟨turn, hturn⟩ := Option.isSome_iff_exists.mp
      (@Control.step_isSome platform.gcm launch.key launch.connectData control hended .nothing)
    exact ⟨.control .nothing, by simp [step, hcontrol, hturn]⟩

end Run

/-! ### The server -/

namespace Server

variable {platform : Platform} {s s' : Server}

/-- A step of a thread of the stream. -/
def Own (i : ℕ) : Event → Prop
  | .run j _ => j = i
  | _ => False

/-- An ANNOUNCE of the launch starts a stream, which gets all its ports. -/
def Restarts (platform : Platform) (self : Server) (launch : ℕ) : Prop :=
  ∀ number rtspPeer l config, self.launches[launch]? = some l → announce number l = some config → config.codec = 0 →
    ∃ (meets : List Meets) (s : Server) (run : Run),
      (.announce launch number rtspPeer :: meets.map fun meets => Event.run self.runs.length (.main meets)).foldlM
          (step platform) self = some s
        ∧ s.runs[self.runs.length]? = some run ∧ run.phase = .pinging

/-- What a stream leaves behind that has been cleared: no thread that goes on while its
launch is not stopped, and with no request from anywhere else, in the end no thread and
no port, so that the launch can be streamed again. -/
structure Rests (platform : Platform) (server : Server) (i launch : ℕ) : Prop where
  ends : ∀ forever : Run.Forever (step platform), forever.state 0 = server →
    (∀ n l, (forever.state n).launches[launch]? = some l → l.stop = false) → ∃ k, ∀ n, k ≤ n → ¬ Own i (forever.event n)
  halts : ∀ forever : Run.Forever (step platform), forever.state 0 = server → ∃ n, ¬ Own i (forever.event n)
  frees : ∀ (es : List Event) (s : Server), (∀ e ∈ es, Own i e) → es.foldlM (step platform) server = some s →
    (∀ e, Own i e → step platform s e = none) →
      (∀ run, s.runs[i]? = some run → ∀ port, run.holds port = false)
        ∧ ((∀ j run, j ≠ i → s.runs[j]? = some run → ∀ port, run.holds port = false) →
          (∀ l, s.launches[launch]? = some l → l.streaming = false) → s.Restarts platform launch)

/-- The next stream, where no other has a port. -/
theorem restarts {launch : ℕ} (hfree : ∀ run ∈ s.runs, ∀ port, run.holds port = false)
    (hidle : ∀ l, s.launches[launch]? = some l → l.streaming = false) : s.Restarts platform launch := by
  intro number rtspPeer l config hl hconfig hcodec
  let launches := s.launches.modify launch fun launch => { launch with streaming := true }
  -- the server with one more stream, at the end
  let more := fun run : Run => { s with launches := launches, runs := s.runs ++ [run], out := [] }
  have hlaunch : launches[launch]? = some { l with streaming := true } := by
    rw [List.getElem?_modify, hl]
    exact congrArg some (if_pos rfl)
  have htaken : ∀ run port, (more run).taken port = run.holds port := by
    intro run port
    have hnone : (s.runs.any fun run => run.holds port) = false :=
      List.any_eq_false.mpr fun other hother => by
        rw [hfree other hother port]
        exact Bool.false_ne_true
    change ((s.runs ++ [run]).any fun run => run.holds port) = run.holds port
    rw [List.any_append, hnone, List.any_cons, List.any_nil, Bool.or_false, Bool.false_or]
  have hannounce : step platform s (.announce launch number rtspPeer) = some (more (.new launch l.key config rtspPeer)) := by
    simp only [step, hl, hconfig, hcodec, hidle l hl, Option.bind_eq_bind, Option.bind_some]
    rfl
  have hmain : ∀ {run run' : Run} {meets : Meets}, run.launch = launch →
      run.main platform.gcm s.apps { l with streaming := true } run.holds meets = some ([], run') →
      step platform (more run) (.run s.runs.length (.main meets)) = some (more run') := by
    intro run run' meets hrun hstep
    have hat : (more run).runs[s.runs.length]? = some run := List.getElem?_concat_length
    have hset : (more run).runs.set s.runs.length run' = s.runs ++ [run'] := by
      change (s.runs ++ [run]).set s.runs.length run' = _
      rw [List.set_append_right _ _ (Nat.le_refl _), Nat.sub_self]
      rfl
    have hall : (more run).taken = run.holds := funext (htaken run)
    have hto : Run.step platform s.apps { l with streaming := true } run.holds run (.main meets) = some ([], run') := hstep
    have hl' : (more run).launches[run.launch]? = some { l with streaming := true } := by
      rw [hrun]
      exact hlaunch
    have hshort : step platform (more run) (.run s.runs.length (.main meets))
        = some { more run with runs := (more run).runs.set s.runs.length run', out := [] } := by
      simp only [step, hat, hl', hall, Option.bind_eq_bind, Option.bind_some]
      rw [show (more run).apps = s.apps from rfl, hto]
      rfl
    rw [hshort, hset]
  let bare : Run := .new launch l.key config rtspPeer
  have hvideo := @hmain bare { bare with video := true, phase := .bindAudio } (.bind false) rfl rfl
  have haudio := @hmain { bare with video := true, phase := .bindAudio }
    { bare with video := true, audio := some ⟨false, .bound⟩, phase := .soundCheck } (.bind false) rfl rfl
  -- whatever the app's sound is, the control port is next
  have hcontrol : ∀ sound, ∃ run, run.phase = .pinging
      ∧ step platform (more { bare with video := true, audio := some ⟨sound, .waiting⟩, phase := .bindControl })
          (.run s.runs.length (.main (.bind false))) = some (more run) := fun sound =>
    ⟨{ bare with video := true, audio := some ⟨sound, .waiting⟩, control := some .new, phase := .pinging }, rfl,
      hmain rfl rfl⟩
  cases hshows : s.apps.shows l.app with
  | false =>
    have hsound := @hmain { bare with video := true, audio := some ⟨false, .bound⟩, phase := .soundCheck }
      { bare with video := true, audio := some ⟨false, .waiting⟩, phase := .bindControl } .nothing rfl
      (by
        change some (([] : List Output), if s.apps.shows l.app = true then _ else _) = _
        rw [hshows]
        rfl)
    obtain ⟨run, hphase, hlast⟩ := hcontrol false
    refine ⟨[.bind false, .bind false, .nothing, .bind false], more run, run, ?_, List.getElem?_concat_length, hphase⟩
    exact Run.cons.mpr ⟨_, hannounce, Run.cons.mpr ⟨_, hvideo, Run.cons.mpr ⟨_, haudio, Run.cons.mpr ⟨_, hsound,
      Run.cons.mpr ⟨_, hlast, Run.nil.mpr rfl⟩⟩⟩⟩⟩
  | true =>
    have hcheck := @hmain { bare with video := true, audio := some ⟨false, .bound⟩, phase := .soundCheck }
      { bare with video := true, audio := some ⟨false, .bound⟩, phase := .soundFind } .nothing rfl
      (by
        change some (([] : List Output), if s.apps.shows l.app = true then _ else _) = _
        rw [hshows]
        rfl)
    have hsound := @hmain { bare with video := true, audio := some ⟨false, .bound⟩, phase := .soundFind }
      { bare with video := true, audio := some ⟨(s.apps.window l.app).isSome ∧ true, .waiting⟩, phase := .bindControl }
      (.opens true) rfl rfl
    obtain ⟨run, hphase, hlast⟩ := hcontrol ((s.apps.window l.app).isSome ∧ true)
    refine ⟨[.bind false, .bind false, .nothing, .opens true, .bind false], more run, run, ?_, List.getElem?_concat_length,
      hphase⟩
    exact Run.cons.mpr ⟨_, hannounce, Run.cons.mpr ⟨_, hvideo, Run.cons.mpr ⟨_, haudio, Run.cons.mpr ⟨_, hcheck,
      Run.cons.mpr ⟨_, hsound, Run.cons.mpr ⟨_, hlast, Run.nil.mpr rfl⟩⟩⟩⟩⟩⟩

/-- The stream at a place ends, and its launch. -/
def EndingAt (s : Server) (i launch : ℕ) : Prop :=
  ∃ run l, s.runs[i]? = some run ∧ run.launch = launch ∧ s.launches[launch]? = some l ∧ run.Ending l.stop

/-- The rank of the stream at a place. -/
def rankAt (i : ℕ) (s : Server) : ℕ × ℕ := s.runs[i]?.elim (0, 0) Run.rank

/-- Every stream is on its way to its end, and one that is cleared stays so. -/
theorem each_settling_step {e : Event} (hs : s.Each Run.Settling) (h : s.step platform e = some s') :
    s'.Each Run.Settling :=
  hs.step (fun _ h => h.mono) Run.settling_new (fun hstep h => h.step hstep) (fun _ _ hphase h => h.cleared hphase) h

theorem EndingAt.step {i launch : ℕ} {e : Event} (h : s.EndingAt i launch) (hstep : s.step platform e = some s') :
    s'.EndingAt i launch := by
  obtain ⟨run, l, hi, hrun, hl, hending⟩ := h
  obtain ⟨l', hl', hlater⟩ := launches_step hstep hl
  have hmono : ∀ {run : Run}, run.Ending l.stop → run.Ending l'.stop := by
    intro run hrun
    cases hstop : l.stop with
    | true =>
      rw [hlater.stop hstop]
      rwa [hstop] at hrun
    | false =>
      rw [hstop] at hrun
      cases l'.stop with
      | false => exact hrun
      | true => exact ⟨hrun.settling.mono, hrun.cleared, Or.inl rfl⟩
  have hold : s'.runs[i]? = some run → s'.EndingAt i launch := fun hi' => ⟨run, l', hi', hrun, hl', hmono hending⟩
  cases e with
  | shows window title => cases hstep; exact hold hi
  | drops window => cases hstep; exact hold hi
  | lists windows => cases hstep; exact hold hi
  | launch resume app key mode pingPayload connectData =>
    rw [Server.step] at hstep
    split at hstep <;> cases hstep <;> exact hold hi
  | cancel => cases hstep; exact hold hi
  | announce j number rtspPeer =>
    rcases step_announce hstep with rfl | ⟨_, config, -, -, rfl⟩
    · exact hold hi
    · exact hold (List.getElem?_append_left (List.getElem?_eq_some_iff.mp hi).1 ▸ hi)
  | run j e =>
    obtain ⟨run₁, l₁, out, run', hj, hl₁, hmove, rfl⟩ := step_run hstep
    by_cases hij : j = i
    · subst hij
      rw [hi] at hj
      cases hj
      rw [hrun, hl] at hl₁
      cases hl₁
      refine ⟨run', l, List.getElem?_set_self (List.getElem?_eq_some_iff.mp hi).1, ?_, hl, hending.step hmove⟩
      exact (Run.launch_step hmove).trans hrun
    · exact hold ((List.getElem?_set_ne hij).trans hi)
  | clears j =>
    obtain ⟨run₁, hj, hphase, rfl⟩ := step_clears hstep
    by_cases hij : j = i
    · subst hij
      rw [hi] at hj
      cases hj
      rw [hending.cleared] at hphase
      cases hphase
    · exact hold ((List.getElem?_set_ne hij).trans hi)

/-- A step of one of the stream's threads lowers the rank, and no other changes it. -/
theorem rankAt_step {i launch : ℕ} {e : Event} (h : s.EndingAt i launch) (hstep : s.step platform e = some s') :
    (Own i e → Run.Less (rankAt i s') (rankAt i s)) ∧ (¬ Own i e → rankAt i s' = rankAt i s) := by
  obtain ⟨run, l, hi, hrun, hl, hending⟩ := h
  have hsame : s'.runs[i]? = s.runs[i]? → rankAt i s' = rankAt i s := fun heq => by rw [rankAt, rankAt, heq]
  cases e with
  | shows window title => cases hstep; exact ⟨fun h => h.elim, fun _ => rfl⟩
  | drops window => cases hstep; exact ⟨fun h => h.elim, fun _ => rfl⟩
  | lists windows => cases hstep; exact ⟨fun h => h.elim, fun _ => rfl⟩
  | launch resume app key mode pingPayload connectData =>
    rw [Server.step] at hstep
    split at hstep <;> cases hstep <;> exact ⟨fun h => h.elim, fun _ => rfl⟩
  | cancel => cases hstep; exact ⟨fun h => h.elim, fun _ => rfl⟩
  | announce j number rtspPeer =>
    refine ⟨fun h => h.elim, fun _ => hsame ?_⟩
    rcases step_announce hstep with rfl | ⟨_, config, -, -, rfl⟩
    · rfl
    · exact List.getElem?_append_left (List.getElem?_eq_some_iff.mp hi).1
  | run j e =>
    obtain ⟨run₁, l₁, out, run', hj, hl₁, hmove, rfl⟩ := step_run hstep
    refine ⟨fun hij => ?_, fun hij => hsame (List.getElem?_set_ne hij)⟩
    change j = i at hij
    subst hij
    rw [hi] at hj
    cases hj
    rw [hrun, hl] at hl₁
    cases hl₁
    have hafter : (s.runs.set j run')[j]? = some run' := List.getElem?_set_self (List.getElem?_eq_some_iff.mp hi).1
    rw [rankAt, rankAt, hi, hafter]
    exact Run.rank_step hending hmove
  | clears j =>
    refine ⟨fun h => h.elim, fun _ => hsame ?_⟩
    obtain ⟨run₁, hj, hphase, rfl⟩ := step_clears hstep
    by_cases hij : j = i
    · subst hij
      rw [hi] at hj
      cases hj
      rw [hending.cleared] at hphase
      cases hphase
    · exact List.getElem?_set_ne hij

theorem wellFounded_less : WellFounded Run.Less := WellFounded.prod_lex Nat.lt_wfRel.wf Nat.lt_wfRel.wf

/-- The threads of a stream that ends make only so many steps. -/
theorem EndingAt.ends {i launch : ℕ} (forever : Run.Forever (Server.step platform)) (h : (forever.state 0).EndingAt i launch) :
    ∃ k, ∀ n, k ≤ n → ¬ Own i (forever.event n) :=
  forever.ends wellFounded_less (rankAt i) (fun _ _ _ h hstep => h.step hstep)
    (fun _ _ _ h hown hstep => (rankAt_step h hstep).1 hown) (fun _ _ _ h hother hstep => (rankAt_step h hstep).2 hother) h

/-- Where such a stream's threads can do nothing more, they have no port. -/
theorem EndingAt.free {i launch : ℕ} (h : s.EndingAt i launch) (hstuck : ∀ e, Own i e → Server.step platform s e = none)
    {run : Run} (hi : s.runs[i]? = some run) (port : Port) : run.holds port = false := by
  obtain ⟨run', l, hi', hrun, hl, hending⟩ := h
  rw [hi] at hi'
  cases hi'
  by_contra hholds
  obtain ⟨e, he⟩ := @Run.exists_step_of_holds platform s.apps l s.taken run hending port
    (Bool.eq_true_of_not_eq_false hholds)
  obtain ⟨⟨out, run'⟩, hstep⟩ := Option.isSome_iff_exists.mp he
  have hnone := hstuck (.run i e) rfl
  rw [← hrun] at hl
  simp [Server.step, hi, hl, hstep] at hnone

theorem EndingAt.run {i launch : ℕ} {es : List Event} (h : s.EndingAt i launch)
    (hrun : es.foldlM (Server.step platform) s = some s') : s'.EndingAt i launch :=
  Run.invariant (A := fun _ => True) (fun _ _ _ (h : Server.EndingAt _ i launch) _ hstep => EndingAt.step h hstep) es s s' h
    (fun _ _ => trivial) hrun

/-- A stream whose launch is stopped or whose sound has ended comes to rest. -/
theorem EndingAt.rests {i launch : ℕ} (h : s.EndingAt i launch) : s.Rests platform i launch where
  ends := by
    rintro forever rfl -
    exact h.ends forever
  halts := by
    rintro forever rfl
    obtain ⟨k, hk⟩ := h.ends forever
    exact ⟨k, hk k (Nat.le_refl _)⟩
  frees := by
    intro es t _ hrun hstuck
    have hafter := h.run hrun
    refine ⟨fun run hi port => hafter.free hstuck hi port, fun hothers hidle => restarts (fun run hmem port => ?_) hidle⟩
    obtain ⟨j, hj⟩ := List.mem_iff_getElem?.mp hmem
    by_cases hij : j = i
    · subst hij
      exact hafter.free hstuck hj port
    · exact hothers j run hij hj port

/-- A turn of the thread of the sound that changes nothing. -/
theorem exists_turn {ours : List UInt8 → Ip → Bool} {audio : Audio} (hended : audio.phase ≠ .ended)
    (hbound : audio.phase ≠ .bound) : ∃ hears, audio.step ours false hears = some audio := by
  cases hphase : audio.phase with
  | bound => exact absurd hphase hbound
  | waiting => exact ⟨.ping none true, by simp [Audio.step, hphase]⟩
  | draining => exact ⟨.ping none true, by simp [Audio.step, hphase]⟩
  | playing => exact ⟨.samples true, by simp [Audio.step, hphase]⟩
  | ended => exact absurd hphase hended

/-- A stream whose launch is not stopped, and whose sound goes on, does not come to rest. -/
theorem not_rests_of_audio {i : ℕ} {run : Run} {l : Launch} {audio : Audio} (hi : s.runs[i]? = some run)
    (hl : s.launches[run.launch]? = some l) (hstop : l.stop = false) (haudio : run.audio = some audio)
    (hended : audio.phase ≠ .ended) (hbound : audio.phase ≠ .bound) : ¬ s.Rests platform i run.launch := by
  intro hrests
  obtain ⟨hears, hturn⟩ := @exists_turn (isPing l.pingPayload run.rtspPeer) audio hended hbound
  -- the same turn, again and again
  let quiet : Server := { s with out := [] }
  have hsame : s.runs.set i run = s.runs := by
    obtain ⟨hlt, hget⟩ := List.getElem?_eq_some_iff.mp hi
    rw [← hget, List.set_getElem_self]
  have hstep : ∀ {t : Server}, t.runs = s.runs → t.launches = s.launches →
      step platform t (.run i (.audio hears)) = some { t with out := [] } := by
    intro t hruns hlaunches
    have hmove : run.step platform t.apps l t.taken (.audio hears) = some ([], run) := by
      simp only [Run.step, haudio, Option.bind_eq_bind, Option.bind_some, hstop, hturn]
      rw [← haudio]
    simp only [step, hruns, hlaunches, hi, hl, hmove, Option.bind_eq_bind, Option.bind_some, hsame]
  let forever : Run.Forever (step platform) := {
    state := fun n => if n = 0 then s else quiet
    event := fun _ => .run i (.audio hears)
    next := fun n => by
      rw [if_neg (Nat.succ_ne_zero n)]
      by_cases hn : n = 0
      · rw [if_pos hn]
        exact hstep rfl rfl
      · rw [if_neg hn]
        exact hstep rfl rfl }
  have hgoing : ∀ n l', (forever.state n).launches[run.launch]? = some l' → l'.stop = false := by
    intro n l' hl'
    have hsome : s.launches[run.launch]? = some l' := by
      change (if n = 0 then s else quiet).launches[run.launch]? = some l' at hl'
      by_cases hn : n = 0
      · rwa [if_pos hn] at hl'
      · rwa [if_neg hn] at hl'
    rw [hl] at hsome
    cases hsome
    exact hstop
  obtain ⟨k, hk⟩ := hrests.ends forever rfl hgoing
  exact hk k (Nat.le_refl _) rfl

/-- A stream that is cleared leaves neither a thread that goes on nor a port exactly where its
launch is stopped, it has no thread of the sound, or that thread has ended. -/
theorem rests_iff {windows : List WindowId} {es : List Event} (hrun : es.foldlM (step platform) (new windows) = some s)
    {i : ℕ} {run : Run} {l : Launch} (hi : s.runs[i]? = some run) (hl : s.launches[run.launch]? = some l)
    (hcleared : run.phase = .cleared) :
    s.Rests platform i run.launch ↔ l.stop = true ∨ ∀ audio, run.audio = some audio → audio.phase = .ended := by
  have heach : s.Each Run.Settling :=
    Run.invariant (A := fun _ => True) (fun _ _ _ hs _ hstep => each_settling_step hs hstep) es (new windows) s
      (fun _ _ h => by cases h) (fun _ _ => trivial) hrun
  obtain ⟨l', hl', hsettling⟩ := heach i run hi
  rw [hl] at hl'
  cases hl'
  constructor
  · intro hrests
    by_contra hnot
    rw [not_or, Bool.not_eq_true] at hnot
    obtain ⟨hstop, hsound⟩ := hnot
    push Not at hsound
    obtain ⟨audio, haudio, hended⟩ := hsound
    have hunbound := hsettling.not_bound (by rw [hcleared]; nofun) (by rw [hcleared]; nofun) audio haudio
    exact not_rests_of_audio hi hl hstop haudio hended hunbound hrests
  · intro haudio
    have hending : s.EndingAt i run.launch := ⟨run, l, hi, rfl, hl, hsettling, hcleared, haudio⟩
    exact hending.rests

/-! ### A client that leaves -/

/-- An ANNOUNCE with nothing but a packet size. -/
def plain (name : String) : Option UInt32 := if name = "x-nv-video[0].packetSize" then some 1024 else none

/-- A stream of a window without sound, whose client leaves after a ping to each port. -/
def deserted : List Event :=
  [.shows 1 [], .launch false 1 (Vector.replicate 16 0) (1280, 720, 60) [] 0, .announce 0 plain none]
    ++ ([.main (.bind false), .main (.bind false), .main .nothing, .main (.opens false), .main (.bind false),
      .audio (.ping (some ([0x50, 0x49, 0x4E, 0x47], [])) true),
      .main (.ping false (some ([0x50, 0x49, 0x4E, 0x47], []))), .main .nothing, .main (.opens true), .main .nothing,
      .main .nothing, .control .fails, .listen, .listen, .main .nothing] : List Run.Event).map (.run 0)
    ++ [.clears 0]

/-- A stream that could not bind the audio port, which another program has. -/
def refused : List Event :=
  [.shows 1 [], .launch false 1 (Vector.replicate 16 0) (1280, 720, 60) [] 0, .announce 0 plain none,
    .run 0 (.main (.bind false)), .run 0 (.main (.bind true)), .clears 0]

set_option maxRecDepth 20000 in
theorem run_left (platform : Platform) : ∃ s run l, deserted.foldlM (step platform) (new [1]) = some s
    ∧ s.runs[0]? = some run ∧ s.launches[run.launch]? = some l ∧ run.phase = .cleared ∧ l.stop = false
    ∧ run.audio = some ⟨false, .draining⟩ :=
  ⟨_, _, _, Run.cons.mpr ⟨_, rfl, Run.cons.mpr ⟨_, rfl, Run.cons.mpr ⟨_, rfl, Run.cons.mpr ⟨_, rfl,
    Run.cons.mpr ⟨_, rfl, Run.cons.mpr ⟨_, rfl, Run.cons.mpr ⟨_, rfl, Run.cons.mpr ⟨_, rfl,
    Run.cons.mpr ⟨_, rfl, Run.cons.mpr ⟨_, rfl, Run.cons.mpr ⟨_, rfl, Run.cons.mpr ⟨_, rfl,
    Run.cons.mpr ⟨_, rfl, Run.cons.mpr ⟨_, rfl, Run.cons.mpr ⟨_, rfl, Run.cons.mpr ⟨_, rfl,
    Run.cons.mpr ⟨_, rfl, Run.cons.mpr ⟨_, rfl, Run.cons.mpr ⟨_, rfl,
    Run.nil.mpr rfl⟩⟩⟩⟩⟩⟩⟩⟩⟩⟩⟩⟩⟩⟩⟩⟩⟩⟩⟩, rfl, rfl, rfl, rfl, rfl⟩

/-- The client of a stream without sound leaves: the thread that takes the audio port's pings
goes on. -/
theorem not_rests_left : ∃ es : List Event, ∀ platform : Platform, ∃ s run l,
    es.foldlM (step platform) (new [1]) = some s ∧ s.runs[0]? = some run ∧ s.launches[run.launch]? = some l
      ∧ run.phase = .cleared ∧ ¬ s.Rests platform 0 run.launch := by
  refine ⟨deserted, fun platform => ?_⟩
  obtain ⟨s, run, l, hs, hi, hl, hcleared, hstop, haudio⟩ := run_left platform
  exact ⟨s, run, l, hs, hi, hl, hcleared, not_rests_of_audio hi hl hstop haudio nofun nofun⟩

/-- A stream that fails before its sound. -/
theorem rests_iff_refused : ∃ es : List Event, ∀ platform : Platform, ∃ s run,
    es.foldlM (step platform) (new [1]) = some s ∧ s.runs[0]? = some run ∧ s.Rests platform 0 run.launch := by
  refine ⟨refused, fun platform => ?_⟩
  have hrun : ∃ s run l, refused.foldlM (step platform) (new [1]) = some s ∧ s.runs[0]? = some run
      ∧ s.launches[run.launch]? = some l ∧ run.phase = .cleared ∧ run.audio = none :=
    ⟨_, _, _, Run.cons.mpr ⟨_, rfl, Run.cons.mpr ⟨_, rfl, Run.cons.mpr ⟨_, rfl, Run.cons.mpr ⟨_, rfl,
      Run.cons.mpr ⟨_, rfl, Run.cons.mpr ⟨_, rfl,
      Run.nil.mpr rfl⟩⟩⟩⟩⟩⟩, rfl, rfl, rfl, rfl⟩
  obtain ⟨s, run, l, hs, hi, hl, hcleared, hnone⟩ := hrun
  refine ⟨s, run, hs, hi, (rests_iff hs hi hl hcleared).mpr (Or.inr fun audio haudio => ?_)⟩
  rw [hnone] at haudio
  cases haudio

end Server

end WindowCast.GameStream
