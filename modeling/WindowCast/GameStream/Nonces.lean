import WindowCast.GameStream.Steps

/-!
# The initialization vectors of a launch

All that the host seals under one launch's key: the video packets of its streams, and
the control messages.  A stream seals by a counter of its own, which begins at zero, so
a launch's second stream repeats the first's initialization vectors.

## Main definitions

* `Server.ivs` — what a launch's packets and messages were sealed with.
* `Server.SealsOnce` — only one stream of a launch seals its video.

## Main results

* `Server.nodup_ivs` — **then no initialization vector is used twice**.
* `Server.ivs_repeat` — a client that leaves and comes back has one used twice.
-/

namespace WindowCast.GameStream

open WindowCast.Host (WindowId)

/-! ### One stream -/

/-- The client is being told of the end, or the stream has ended. -/
def Phase.gone (phase : Phase) : Bool := phase ∈ [Phase.stopping, .returned, .cleared]

/-- The client has not pinged, or the stream has ended. -/
def Phase.idle (phase : Phase) : Bool :=
  phase ∈ [Phase.bindVideo, .bindAudio, .soundCheck, .soundFind, .bindControl, .pinging, .returned, .cleared]

namespace Run

/-- The initialization vectors of its control messages. -/
def nonces (self : Run) : List (List UInt8) := (self.control.map (·.nonces)).getD []

/-- What a stream has sealed: the video by the counter, and at most one control message,
once the launch is stopped. -/
structure Sealed (stop : Bool) (run : Run) : Prop where
  ivs : run.ivs = (List.range run.ivs.length).map fun k => VideoCipher.iv (UInt64.ofNat k)
  counter : ∀ cipher, run.cipher = some cipher → cipher.counter = UInt64.ofNat run.ivs.length
  light : ∀ control, run.control = some control → control.weight ≤ 1
  stopped : ∀ control, run.control = some control → 0 < control.weight → stop = true ∧ run.phase.gone = true
  nonces : ∀ control, run.control = some control → ∀ iv ∈ control.nonces, ∃ seq, iv = Control.nonce seq false

variable {platform : Platform} {gcm : Aes128Gcm} {apps : CompatApps} {launch : Launch} {taken : Port → Bool}
  {self self' : Run} {out : List Output} {stop : Bool}

theorem sealed_new (stop : Bool) (launch : ℕ) (key : Vector UInt8 16) (config : StreamConfig) (rtspPeer : Option Ip) :
    (Run.new launch key config rtspPeer).Sealed stop where
  ivs := rfl
  counter := by
    intro cipher hcipher
    rw [Run.new] at hcipher
    split at hcipher <;> cases hcipher
    rfl
  light := fun _ h => by cases h
  stopped := fun _ h => by cases h
  nonces := fun _ h => by cases h

/-- A step that seals no video, and whose control thread is no heavier than before. -/
theorem Sealed.of_control (h : self.Sealed stop) (hivs : self'.ivs = self.ivs) (hcipher : self'.cipher = self.cipher)
    (hgone : self.phase.gone = true → self'.phase.gone = true)
    (hcontrol : ∀ control', self'.control = some control' → ∃ control, self.control = some control
      ∧ control'.weight ≤ control.weight
      ∧ ∀ iv ∈ control'.nonces, iv ∈ control.nonces ∨ ∃ seq, iv = Control.nonce seq false) : self'.Sealed stop where
  ivs := by
    rw [hivs]
    exact h.ivs
  counter := by
    rw [hivs, hcipher]
    exact h.counter
  light := fun control' hcontrol' => by
    obtain ⟨control, hbefore, hweight, -⟩ := hcontrol control' hcontrol'
    exact hweight.trans (h.light control hbefore)
  stopped := fun control' hcontrol' hpos => by
    obtain ⟨control, hbefore, hweight, -⟩ := hcontrol control' hcontrol'
    obtain ⟨hstop, hphase⟩ := h.stopped control hbefore (Nat.lt_of_lt_of_le hpos hweight)
    exact ⟨hstop, hgone hphase⟩
  nonces := fun control' hcontrol' iv hiv => by
    obtain ⟨control, hbefore, -, hnonces⟩ := hcontrol control' hcontrol'
    exact (hnonces iv hiv).elim (h.nonces control hbefore iv) id

/-- A step that leaves the control thread as it is. -/
theorem Sealed.of_eq (h : self.Sealed stop) (hivs : self'.ivs = self.ivs) (hcipher : self'.cipher = self.cipher)
    (hgone : self.phase.gone = true → self'.phase.gone = true) (hcontrol : self'.control = self.control) :
    self'.Sealed stop :=
  h.of_control hivs hcipher hgone fun control' hcontrol' =>
    ⟨control', hcontrol ▸ hcontrol', Nat.le_refl _, fun _ hiv => Or.inl hiv⟩

/-- A change to the control thread that seals nothing and queues nothing. -/
theorem exists_of_map {f : Control → Control} (hnonces : ∀ control, (f control).nonces = control.nonces)
    (houtgoing : ∀ control, (f control).outgoing = control.outgoing) {control' : Control}
    (h : self.control.map f = some control') :
    ∃ control, self.control = some control ∧ control'.weight ≤ control.weight
      ∧ ∀ iv ∈ control'.nonces, iv ∈ control.nonces ∨ ∃ seq, iv = Control.nonce seq false := by
  obtain ⟨control, hcontrol, rfl⟩ := Option.map_eq_some_iff.mp h
  refine ⟨control, hcontrol, ?_, fun iv hiv => Or.inl (hnonces control ▸ hiv)⟩
  rw [Control.weight, Control.weight, hnonces, houtgoing]

theorem Sealed.returns (h : self.Sealed stop) : self.returns.Sealed stop :=
  h.of_control rfl rfl (fun _ => rfl) fun _ hcontrol' => by
    refine exists_of_map ?_ ?_ hcontrol'
    · exact fun _ => rfl
    · exact fun _ => rfl

theorem sends_plain (h : self.cipher = none) (data : List UInt8) (idr : Bool) (timestamp : UInt32) :
    (self.sends gcm data idr timestamp).2.ivs = self.ivs ∧ (self.sends gcm data idr timestamp).2.cipher = none := by
  constructor
  · simp only [sends, h, VideoCipher.sealAll_none, List.append_nil]
  · simp only [sends, h, VideoCipher.sealAll_none]

theorem sends_sealed {cipher : VideoCipher} {n : ℕ} (h : self.cipher = some cipher)
    (hcounter : cipher.counter = UInt64.ofNat n) (data : List UInt8) (idr : Bool) (timestamp : UInt32) :
    let count := (self.packetizer.packets data idr timestamp).1.length
    (self.sends gcm data idr timestamp).2.ivs
        = self.ivs ++ (List.range' n count).map (fun k => VideoCipher.iv (UInt64.ofNat k))
      ∧ ∃ after, (self.sends gcm data idr timestamp).2.cipher = some after ∧ after.counter = UInt64.ofNat (n + count) := by
  obtain ⟨hivs, after, hafter, hlast⟩ := VideoCipher.ivs_sealAll gcm hcounter (self.packetizer.packets data idr timestamp).1
  refine ⟨?_, after, ?_, hlast⟩
  · simp only [sends, h, hivs]
  · simp only [sends, h, hafter]

theorem Sealed.sends (h : self.Sealed stop) {keyframe : Bool} (hphase : self.phase = .grabbing keyframe)
    (data : List UInt8) (idr : Bool) (timestamp : UInt32) : (self.sends gcm data idr timestamp).2.Sealed stop := by
  -- the control thread has sealed nothing yet
  have hquiet : ∀ control, self.control = some control → ¬ 0 < control.weight := by
    intro control hcontrol hpos
    have hgone := (h.stopped control hcontrol hpos).2
    rw [hphase] at hgone
    cases hgone
  have hstopped : ∀ control, self.control = some control → 0 < control.weight →
      stop = true ∧ (self.sends gcm data idr timestamp).2.phase.gone = true :=
    fun control hcontrol hpos => absurd hpos (hquiet control hcontrol)
  cases hcipher : self.cipher with
  | none =>
    obtain ⟨hivs, hnone⟩ := @sends_plain gcm self hcipher data idr timestamp
    refine ⟨?_, fun cipher hsome => ?_, h.light, hstopped, h.nonces⟩
    · rw [hivs]
      exact h.ivs
    · rw [hnone] at hsome
      cases hsome
  | some cipher =>
    obtain ⟨hivs, after, hafter, hlast⟩ := @sends_sealed gcm self cipher _ hcipher (h.counter cipher hcipher) data idr
      timestamp
    have hlength : (self.sends gcm data idr timestamp).2.ivs.length
        = self.ivs.length + (self.packetizer.packets data idr timestamp).1.length := by
      rw [hivs, List.length_append, List.length_map, List.length_range']
    refine ⟨?_, fun cipher' hcipher' => ?_, h.light, hstopped, h.nonces⟩
    · rw [hlength, List.range_eq_range', ← List.range'_append_1, List.map_append, Nat.zero_add, hivs,
        ← List.range_eq_range', ← h.ivs]
    · rw [hafter] at hcipher'
      cases hcipher'
      rw [hlast, hlength]

theorem Sealed.terminate (h : self.Sealed true) (hphase : self.phase = .streaming) : self.terminate.Sealed true := by
  have hquiet : ∀ control, self.control = some control → control.weight = 0 := by
    intro control hcontrol
    by_contra hne
    have hgone := (h.stopped control hcontrol (Nat.pos_of_ne_zero hne)).2
    rw [hphase] at hgone
    cases hgone
  refine ⟨h.ivs, h.counter, fun control' hcontrol' => ?_, fun _ _ _ => ⟨rfl, rfl⟩, fun control' hcontrol' => ?_⟩
  · obtain ⟨control, hcontrol, rfl⟩ := Option.map_eq_some_iff.mp hcontrol'
    have hzero := hquiet control hcontrol
    rw [Control.weight] at hzero
    change control.nonces.length + (control.outgoing ++ [_]).length ≤ 1
    rw [List.length_append, List.length_singleton]
    omega
  · obtain ⟨control, hcontrol, rfl⟩ := Option.map_eq_some_iff.mp hcontrol'
    exact h.nonces control hcontrol

/-- A phase that is not gone. -/
theorem not_gone {phase : Phase} {P : Prop} (hphase : self.phase = phase) (hgone : phase.gone = false) :
    self.phase.gone = true → P := by
  rw [hphase, hgone]
  exact fun h => by cases h

/-- A step of the thread of a stream. -/
theorem Sealed.moved {e : Meets} (h : self.Sealed launch.stop) (hmoved : Moved gcm apps launch taken self e out self') :
    self'.Sealed launch.stop := by
  cases hmoved with
  | bindVideo hphase => exact h.of_eq rfl rfl (not_gone hphase rfl) rfl
  | bindAudio hphase => exact h.of_eq rfl rfl (not_gone hphase rfl) rfl
  | soundCheck hphase => exact h.of_eq rfl rfl (not_gone hphase rfl) rfl
  | hears hphase sound =>
    rcases hphase with hphase | hphase
    · exact h.of_eq rfl rfl (not_gone hphase rfl) rfl
    · exact h.of_eq rfl rfl (not_gone hphase rfl) rfl
  | bindControl hphase =>
    refine ⟨h.ivs, h.counter, fun control hcontrol => ?_, fun control hcontrol hpos => ?_, fun control hcontrol iv hiv => ?_⟩
    · cases hcontrol
      exact Nat.zero_le 1
    · cases hcontrol
      exact absurd hpos (Nat.lt_irrefl 0)
    · cases hcontrol
      cases hiv
  | waits => exact h
  | pinged hphase => exact h.of_eq rfl rfl (not_gone hphase rfl) rfl
  | openCheck hphase => exact h.of_eq rfl rfl (not_gone hphase rfl) rfl
  | openFind hphase => exact h.of_eq rfl rfl (not_gone hphase rfl) rfl
  | inputCheck hphase => exact h.of_eq rfl rfl (not_gone hphase rfl) rfl
  | deafens hphase => exact h.of_eq rfl rfl (not_gone hphase rfl) rfl
  | inputFind hphase => exact h.of_eq rfl rfl (not_gone hphase rfl) rfl
  | grabs hphase => exact h.of_eq rfl rfl (not_gone hphase rfl) rfl
  | sends keyframe hphase data idr timestamp => exact h.sends hphase data idr timestamp
  | ends => exact Sealed.returns (h.of_eq rfl rfl id rfl)
  | terminates hphase hstop =>
    rw [hstop] at h ⊢
    exact h.terminate hphase
  | leaves => exact h.returns
  | fails => exact h.returns
  | joins => exact h.returns

/-- A step of any of its threads. -/
theorem Sealed.step {e : Event} (h : self.Sealed launch.stop)
    (hstep : self.step platform apps launch taken e = some (out, self')) : self'.Sealed launch.stop := by
  cases e with
  | main meets => exact h.moved (moved_of_main hstep)
  | audio hears =>
    obtain ⟨_, _, _, _, rfl⟩ := step_audio hstep
    exact h.of_eq rfl rfl id rfl
  | control service =>
    obtain ⟨control, sent, control', hcontrol, hturn, -, rfl⟩ := step_control hstep
    refine h.of_control rfl rfl id fun control'' hcontrol'' => ?_
    cases hcontrol''
    exact ⟨control, hcontrol, Control.weight_step hturn, (Control.step_spec hturn).1.nonces⟩
  | listen =>
    have hbeside := beside_listen hstep
    refine h.of_control hbeside.ivs hbeside.cipher (fun hgone => hbeside.phase ▸ hgone) fun control' hcontrol' => ?_
    obtain ⟨control, hcontrol, hnonces, houtgoing, -, -⟩ := hbeside.control control' hcontrol'
    refine ⟨control, hcontrol, ?_, fun iv hiv => Or.inl (hnonces ▸ hiv)⟩
    rw [Control.weight, Control.weight, hnonces, houtgoing]
  | deliver =>
    obtain ⟨_, _, _, _, _, _, _, rfl⟩ := step_deliver hstep
    exact h.of_eq rfl rfl id rfl

/-- No step but a frame of an encrypted stream seals video. -/
theorem ivs_step {e : Event} (hstep : self.step platform apps launch taken e = some (out, self')) :
    self'.ivs = self.ivs ∨ ∃ data idr timestamp, e = .main (.frame data idr timestamp)
      ∧ self' = (self.sends platform.gcm data idr timestamp).2 := by
  cases e with
  | main meets =>
    cases moved_of_main hstep with
    | sends keyframe hphase data idr timestamp hevent => exact Or.inr ⟨data, idr, timestamp, congrArg _ hevent, rfl⟩
    | _ => exact Or.inl rfl
  | audio hears =>
    obtain ⟨_, _, _, _, rfl⟩ := step_audio hstep
    exact Or.inl rfl
  | control service =>
    obtain ⟨_, _, _, _, _, _, rfl⟩ := step_control hstep
    exact Or.inl rfl
  | listen => exact Or.inl (beside_listen hstep).ivs
  | deliver =>
    obtain ⟨_, _, _, _, _, _, _, rfl⟩ := step_deliver hstep
    exact Or.inl rfl

/-- The control thread has sealed something, or has something to seal. -/
def weighs (self : Run) : Prop := ∃ control, self.control = some control ∧ 0 < control.weight

/-- A stream that is cleared makes no step of its own. -/
theorem cleared_step {e : Event} (hstep : self.step platform apps launch taken e = some (out, self'))
    (hcleared : self.phase = .cleared) : self'.phase = .cleared := by
  cases e with
  | main meets =>
    simp [step, main, hcleared] at hstep
  | audio hears =>
    obtain ⟨_, _, _, _, rfl⟩ := step_audio hstep
    exact hcleared
  | control service =>
    obtain ⟨_, _, _, _, _, _, rfl⟩ := step_control hstep
    exact hcleared
  | listen => exact (beside_listen hstep).phase.trans hcleared
  | deliver =>
    obtain ⟨_, _, _, _, _, _, _, rfl⟩ := step_deliver hstep
    exact hcleared

theorem weighs_returns (h : self.returns.weighs) : self.weighs := by
  obtain ⟨control', hcontrol', hpos⟩ := h
  obtain ⟨control, hcontrol, rfl⟩ := Option.map_eq_some_iff.mp hcontrol'
  exact ⟨control, hcontrol, hpos⟩

/-- Only a stopped stream's control thread gets heavier. -/
theorem weighs_step {e : Event} (hstep : self.step platform apps launch taken e = some (out, self'))
    (hweighs : self'.weighs) : self.weighs ∨ self.phase = .streaming := by
  have hsame : self'.control = self.control → self.weighs := fun hcontrol => by
    obtain ⟨control, hcontrol', hpos⟩ := hweighs
    exact ⟨control, hcontrol ▸ hcontrol', hpos⟩
  cases e with
  | main meets =>
    cases moved_of_main hstep with
    | bindControl =>
      obtain ⟨control, hcontrol, hpos⟩ := hweighs
      cases hcontrol
      exact absurd hpos (Nat.lt_irrefl 0)
    | terminates hphase => exact Or.inr hphase
    | ends => exact Or.inl (weighs_returns hweighs)
    | leaves => exact Or.inl (weighs_returns hweighs)
    | fails => exact Or.inl (weighs_returns hweighs)
    | joins => exact Or.inl (weighs_returns hweighs)
    | _ => exact Or.inl (hsame rfl)
  | audio hears =>
    obtain ⟨_, _, _, _, rfl⟩ := step_audio hstep
    exact Or.inl (hsame rfl)
  | control service =>
    obtain ⟨control, sent, control', hcontrol, hturn, -, rfl⟩ := step_control hstep
    obtain ⟨control'', hcontrol'', hpos⟩ := hweighs
    cases hcontrol''
    exact Or.inl ⟨control, hcontrol, Nat.lt_of_lt_of_le hpos (Control.weight_step hturn)⟩
  | listen =>
    refine Or.inl ?_
    obtain ⟨control', hcontrol', hpos⟩ := hweighs
    obtain ⟨control, hcontrol, hnonces, houtgoing, -, -⟩ := (beside_listen hstep).control control' hcontrol'
    rw [Control.weight, hnonces, houtgoing] at hpos
    exact ⟨control, hcontrol, hpos⟩
  | deliver =>
    obtain ⟨_, _, _, _, _, _, _, rfl⟩ := step_deliver hstep
    exact Or.inl (hsame rfl)

/-- Once its launch is stopped, an idle stream stays one. -/
theorem idle_step {e : Event} (hstep : self.step platform apps launch taken e = some (out, self'))
    (hidle : self.phase.idle = true) (hstop : launch.stop = true) : self'.phase.idle = true := by
  have hno : ∀ {phase : Phase}, self.phase = phase → phase.idle = false → self'.phase.idle = true := by
    intro phase hphase hnot
    rw [hphase, hnot] at hidle
    cases hidle
  cases e with
  | main meets =>
    cases moved_of_main hstep with
    | waits => exact hidle
    | pinged hphase hgoing =>
      rw [hstop] at hgoing
      cases hgoing
    | openCheck hphase => exact hno hphase rfl
    | openFind hphase => exact hno hphase rfl
    | inputCheck hphase => exact hno hphase rfl
    | deafens hphase => exact hno hphase rfl
    | inputFind hphase => exact hno hphase rfl
    | grabs hphase => exact hno hphase rfl
    | sends keyframe hphase => exact hno hphase rfl
    | terminates hphase => exact hno hphase rfl
    | _ => rfl
  | audio hears =>
    obtain ⟨_, _, _, _, rfl⟩ := step_audio hstep
    exact hidle
  | control service =>
    obtain ⟨_, _, _, _, _, _, rfl⟩ := step_control hstep
    exact hidle
  | listen =>
    rw [(beside_listen hstep).phase]
    exact hidle
  | deliver =>
    obtain ⟨_, _, _, _, _, _, _, rfl⟩ := step_deliver hstep
    exact hidle

end Run

/-! ### The streams of a launch -/

namespace Server

variable {platform : Platform} {s s' : Server}

/-- A launch has one stream after the other, and once one has told the client of the end,
no later one gets past its ports. -/
structure Ordered (s : Server) : Prop where
  marked : ∀ (i : ℕ) (run : Run), s.runs[i]? = some run → run.phase ≠ .cleared →
    ∃ launch, s.launches[run.launch]? = some launch ∧ launch.streaming = true
  cleared : ∀ (i j : ℕ) (run run' : Run), i < j → s.runs[i]? = some run → s.runs[j]? = some run' →
    run.launch = run'.launch → run.phase = .cleared
  told : ∀ (i j : ℕ) (run run' : Run), i < j → s.runs[i]? = some run → s.runs[j]? = some run' →
    run.launch = run'.launch → run.weighs → run'.phase.idle = true ∧ ¬ run'.weighs

theorem ordered_new (windows : List WindowId) : (new windows).Ordered where
  marked := fun _ _ h => by cases h
  cleared := fun _ _ _ _ _ h => by cases h
  told := fun _ _ _ _ _ h => by cases h

/-- What becomes of the launches does not matter, where the marks stay. -/
theorem Ordered.of_launches (h : s.Ordered) (hruns : s'.runs = s.runs)
    (hmarks : ∀ (k : ℕ) (l : Launch), s.launches[k]? = some l →
      ∃ l', s'.launches[k]? = some l' ∧ l'.streaming = l.streaming) : s'.Ordered where
  marked := fun i run hi hphase => by
    obtain ⟨l, hl, hstreaming⟩ := h.marked i run (hruns ▸ hi) hphase
    obtain ⟨l', hl', hsame⟩ := hmarks _ l hl
    exact ⟨l', hl', hsame.trans hstreaming⟩
  cleared := by
    rw [hruns]
    exact h.cleared
  told := by
    rw [hruns]
    exact h.told

theorem Ordered.step_announce {i : ℕ} {number : String → Option UInt32} {rtspPeer : Option Ip} (h : s.Ordered)
    (hstep : s.step platform (.announce i number rtspPeer) = some s') : s'.Ordered := by
  rcases Server.step_announce hstep with rfl | ⟨launch, config, hlaunch, hidle, rfl⟩
  · exact h.of_launches rfl fun k l hl => ⟨l, hl, rfl⟩
  · -- every earlier stream of the launch is cleared
    have hbefore : ∀ (j : ℕ) (run : Run), s.runs[j]? = some run → run.launch = i → run.phase = .cleared := by
      intro j run hj hrun
      by_contra hphase
      obtain ⟨l, hl, hstreaming⟩ := h.marked j run hj hphase
      rw [hrun, hlaunch] at hl
      cases hl
      rw [hidle] at hstreaming
      cases hstreaming
    refine ⟨fun j run hj hphase => ?_, fun j j' run run' hlt hj hj' hsame => ?_, fun j j' run run' hlt hj hj' hsame hweighs => ?_⟩
    · rcases getElem?_concat_cases hj with hj | ⟨-, rfl⟩
      · obtain ⟨l, hl, hstreaming⟩ := h.marked j run hj hphase
        rw [List.getElem?_modify, hl]
        by_cases hi : i = run.launch
        · exact ⟨{ l with streaming := true }, congrArg some (if_pos hi), rfl⟩
        · exact ⟨l, congrArg some (if_neg hi), hstreaming⟩
      · rw [List.getElem?_modify]
        exact ⟨{ launch with streaming := true }, by rw [Run.new, hlaunch]; exact congrArg some (if_pos rfl), rfl⟩
    · rcases getElem?_concat_cases hj with hj | ⟨hlast, -⟩
      · rcases getElem?_concat_cases hj' with hj' | ⟨-, rfl⟩
        · exact h.cleared j j' run run' hlt hj hj' hsame
        · exact hbefore j run hj hsame
      · have hshort := (List.getElem?_eq_some_iff.mp hj').1
        rw [List.length_append, List.length_singleton] at hshort
        omega
    · rcases getElem?_concat_cases hj with hj | ⟨hlast, -⟩
      · rcases getElem?_concat_cases hj' with hj' | ⟨-, rfl⟩
        · exact h.told j j' run run' hlt hj hj' hsame hweighs
        · exact ⟨rfl, fun ⟨_, hnone, _⟩ => by cases hnone⟩
      · have hshort := (List.getElem?_eq_some_iff.mp hj').1
        rw [List.length_append, List.length_singleton] at hshort
        omega

theorem Ordered.step_run {i : ℕ} {e : Run.Event} (h : s.Ordered) (hsealed : s.Each Run.Sealed)
    (hstep : s.step platform (.run i e) = some s') : s'.Ordered := by
  obtain ⟨run, launch, out, run', hi, hlaunch, hmove, rfl⟩ := Server.step_run hstep
  have hsame := Run.launch_step hmove
  have hphase : run'.phase ≠ .cleared → run.phase ≠ .cleared := fun hne heq => hne (Run.cleared_step hmove heq)
  refine ⟨fun j run₁ hj hne => ?_, fun j j' run₁ run₂ hlt hj hj' heq => ?_,
    fun j j' run₁ run₂ hlt hj hj' heq hweighs => ?_⟩
  · rcases getElem?_set_cases hj with ⟨rfl, rfl⟩ | ⟨-, hk⟩
    · rw [hsame]
      exact h.marked i run hi (hphase hne)
    · exact h.marked j run₁ hk hne
  · rcases getElem?_set_cases hj with ⟨rfl, rfl⟩ | ⟨-, hk⟩
    · rcases getElem?_set_cases hj' with ⟨rfl, -⟩ | ⟨-, hj'⟩
      · exact absurd hlt (Nat.lt_irrefl _)
      · exact Run.cleared_step hmove (h.cleared i j' run run₂ hlt hi hj' (hsame ▸ heq))
    · rcases getElem?_set_cases hj' with ⟨rfl, rfl⟩ | ⟨-, hj'⟩
      · exact h.cleared j i run₁ run hlt hk hi (heq.trans hsame)
      · exact h.cleared j j' run₁ run₂ hlt hk hj' heq
  · rcases getElem?_set_cases hj with ⟨rfl, rfl⟩ | ⟨-, hk⟩
    · rcases getElem?_set_cases hj' with ⟨rfl, -⟩ | ⟨-, hj'⟩
      · exact absurd hlt (Nat.lt_irrefl _)
      · have heq' : run.launch = run₂.launch := hsame ▸ heq
        rcases Run.weighs_step hmove hweighs with hweighs | hstreaming
        · exact h.told i j' run run₂ hlt hi hj' heq' hweighs
        · -- a stream that is not cleared has none behind it
          rw [h.cleared i j' run run₂ hlt hi hj' heq'] at hstreaming
          cases hstreaming
    · rcases getElem?_set_cases hj' with ⟨rfl, rfl⟩ | ⟨-, hj'⟩
      · have heq' : run₁.launch = run.launch := heq.trans hsame
        obtain ⟨hidle, hlight⟩ := h.told j i run₁ run hlt hk hi heq' hweighs
        -- the launch is stopped, since the client was told
        obtain ⟨launch', hlaunch', hsealed₁⟩ := hsealed j run₁ hk
        obtain ⟨control, hcontrol, hpos⟩ := hweighs
        have hstop := (hsealed₁.stopped control hcontrol hpos).1
        rw [heq', hlaunch] at hlaunch'
        cases hlaunch'
        refine ⟨Run.idle_step hmove hidle hstop, fun hweighs' => ?_⟩
        rcases Run.weighs_step hmove hweighs' with hweighs' | hstreaming
        · exact hlight hweighs'
        · rw [hstreaming] at hidle
          cases hidle
      · exact h.told j j' run₁ run₂ hlt hk hj' heq hweighs

theorem Ordered.step_clears {i : ℕ} (h : s.Ordered) (hstep : s.step platform (.clears i) = some s') : s'.Ordered := by
  obtain ⟨run, hi, hphase, rfl⟩ := Server.step_clears hstep
  refine ⟨fun j run₁ hj hne => ?_, fun j j' run₁ run₂ hlt hj hj' heq => ?_,
    fun j j' run₁ run₂ hlt hj hj' heq hweighs => ?_⟩
  · rcases getElem?_set_cases hj with ⟨rfl, rfl⟩ | ⟨hij, hk⟩
    · exact absurd rfl hne
    · obtain ⟨l, hl, hstreaming⟩ := h.marked j run₁ hk hne
      -- of two streams of a launch, one is cleared
      have hother : run.launch ≠ run₁.launch := by
        intro heq
        rcases Nat.lt_or_gt_of_ne hij with hlt | hlt
        · rw [h.cleared i j run run₁ hlt hi hk heq] at hphase
          cases hphase
        · exact hne (h.cleared j i run₁ run hlt hk hi heq.symm)
      rw [List.getElem?_modify, hl]
      exact ⟨l, congrArg some (if_neg hother), hstreaming⟩
  · rcases getElem?_set_cases hj with ⟨rfl, rfl⟩ | ⟨-, hk⟩
    · rfl
    · rcases getElem?_set_cases hj' with ⟨rfl, rfl⟩ | ⟨-, hj'⟩
      · exact h.cleared j i run₁ run hlt hk hi heq
      · exact h.cleared j j' run₁ run₂ hlt hk hj' heq
  · rcases getElem?_set_cases hj with ⟨rfl, rfl⟩ | ⟨-, hk⟩
    · rcases getElem?_set_cases hj' with ⟨rfl, -⟩ | ⟨-, hj'⟩
      · exact absurd hlt (Nat.lt_irrefl _)
      · exact h.told i j' run run₂ hlt hi hj' heq hweighs
    · rcases getElem?_set_cases hj' with ⟨rfl, rfl⟩ | ⟨-, hj'⟩
      · exact ⟨rfl, (h.told j i run₁ run hlt hk hi heq hweighs).2⟩
      · exact h.told j j' run₁ run₂ hlt hk hj' heq hweighs

theorem Ordered.step {e : Event} (h : s.Ordered) (hsealed : s.Each Run.Sealed) (hstep : s.step platform e = some s') :
    s'.Ordered := by
  have hstopped : ∀ (k : ℕ) (l : Launch), s.launches[k]? = some l →
      ∃ l', s.stopped[k]? = some l' ∧ l'.streaming = l.streaming := fun k l hl => by
    obtain ⟨l', hl', -, hsame⟩ := getElem?_stopped hl
    exact ⟨l', hl', hsame⟩
  cases e with
  | shows window title => cases hstep; exact h.of_launches rfl fun k l hl => ⟨l, hl, rfl⟩
  | drops window => cases hstep; exact h.of_launches rfl fun k l hl => ⟨l, hl, rfl⟩
  | lists windows => cases hstep; exact h.of_launches rfl fun k l hl => ⟨l, hl, rfl⟩
  | launch resume app key mode pingPayload connectData =>
    rw [Server.step] at hstep
    split at hstep
    · cases hstep
      exact h.of_launches rfl fun k l hl => ⟨l, hl, rfl⟩
    · cases hstep
      refine h.of_launches rfl fun k l hl => ?_
      obtain ⟨l', hl', hsame⟩ := hstopped k l hl
      exact ⟨l', List.getElem?_append_left (List.getElem?_eq_some_iff.mp hl').1 ▸ hl', hsame⟩
  | cancel => cases hstep; exact h.of_launches rfl hstopped
  | announce i number rtspPeer => exact h.step_announce hstep
  | run i e => exact h.step_run hsealed hstep
  | clears i => exact h.step_clears hstep

/-! ### All that a launch seals -/

/-- What the packets and messages of a launch's streams were sealed with. -/
def ivs (self : Server) (launch : ℕ) : List (List UInt8) :=
  self.runs.flatMap fun run => if run.launch = launch then run.ivs ++ run.nonces else []

/-- A stream seals a frame only where no other of its launch has sealed one, and while its
counter lasts. -/
def SealsOnce (self : Server) : Event → Prop
  | .run i (.main (.frame data idr timestamp)) => ∀ run ∈ self.runs[i]?, run.cipher.isSome →
    (∀ other ∈ self.runs.eraseIdx i, other.launch = run.launch → other.ivs = [])
      ∧ run.ivs.length + (run.packetizer.packets data idr timestamp).1.length ≤ 2 ^ 64
  | _ => True

/-- Of two streams of a launch, one has sealed no video. -/
structure Once (server : Server) : Prop where
  apart : ∀ (i j : ℕ) (run run' : Run), i ≠ j → server.runs[i]? = some run → server.runs[j]? = some run' →
    run.launch = run'.launch → run.ivs = [] ∨ run'.ivs = []
  short : ∀ (i : ℕ) (run : Run), server.runs[i]? = some run → run.ivs.length ≤ 2 ^ 64

theorem Once.of_runs (h : s.Once) (hruns : s'.runs = s.runs) : s'.Once where
  apart := by
    rw [hruns]
    exact h.apart
  short := by
    rw [hruns]
    exact h.short

/-- A step of a stream that seals no video. -/
theorem Once.of_ivs {i : ℕ} {run run' : Run} (h : s.Once) (hi : s.runs[i]? = some run)
    (hlaunch : run'.launch = run.launch) (hivs : run'.ivs = run.ivs)
    (hruns : s'.runs = s.runs.set i run') : s'.Once := by
  refine ⟨fun j j' run₁ run₂ hne hj hj' heq => ?_, fun j run₁ hj => ?_⟩ <;> rw [hruns] at hj
  · rw [hruns] at hj'
    rcases getElem?_set_cases hj with ⟨rfl, rfl⟩ | ⟨-, hk⟩
    · rcases getElem?_set_cases hj' with ⟨rfl, -⟩ | ⟨-, hk'⟩
      · exact absurd rfl hne
      · rw [hivs]
        exact h.apart i j' run run₂ hne hi hk' (hlaunch ▸ heq)
    · rcases getElem?_set_cases hj' with ⟨rfl, rfl⟩ | ⟨-, hk'⟩
      · rw [hivs]
        exact h.apart j i run₁ run hne hk hi (heq.trans hlaunch)
      · exact h.apart j j' run₁ run₂ hne hk hk' heq
  · rcases getElem?_set_cases hj with ⟨rfl, rfl⟩ | ⟨-, hk⟩
    · rw [hivs]
      exact h.short i run hi
    · exact h.short j run₁ hk

/-- A frame that is sealed, where no other stream has sealed one. -/
theorem Once.sends {i : ℕ} {run run' : Run} {out : List Output} (h : s.Once)
    (hlaunch : run'.launch = run.launch) (hshort : run'.ivs.length ≤ 2 ^ 64)
    (hfirst : ∀ other ∈ s.runs.eraseIdx i, other.launch = run.launch → other.ivs = []) :
    { s with runs := s.runs.set i run', out := out }.Once := by
  have hnone : ∀ {j : ℕ} {other : Run}, i ≠ j → s.runs[j]? = some other → other.launch = run.launch → other.ivs = [] :=
    fun hne hj => hfirst _ (List.mem_eraseIdx_iff_getElem?.mpr ⟨_, hne.symm, hj⟩)
  refine ⟨fun j j' run₁ run₂ hne hj hj' heq => ?_, fun j run₁ hj => ?_⟩
  · rcases getElem?_set_cases hj with ⟨rfl, rfl⟩ | ⟨hij, hk⟩
    · rcases getElem?_set_cases hj' with ⟨rfl, -⟩ | ⟨hij', hk'⟩
      · exact absurd rfl hne
      · exact Or.inr (hnone hij' hk' (heq.symm.trans hlaunch))
    · rcases getElem?_set_cases hj' with ⟨rfl, rfl⟩ | ⟨-, hk'⟩
      · exact Or.inl (hnone hij hk (heq.trans hlaunch))
      · exact h.apart j j' run₁ run₂ hne hk hk' heq
  · rcases getElem?_set_cases hj with ⟨rfl, rfl⟩ | ⟨-, hk⟩
    · exact hshort
    · exact h.short j run₁ hk

theorem Once.step {e : Event} (h : s.Once) (hsealed : s.Each Run.Sealed) (honce : s.SealsOnce e)
    (hstep : s.step platform e = some s') : s'.Once := by
  cases e with
  | shows window title => cases hstep; exact h.of_runs rfl
  | drops window => cases hstep; exact h.of_runs rfl
  | lists windows => cases hstep; exact h.of_runs rfl
  | launch resume app key mode pingPayload connectData =>
    rw [Server.step] at hstep
    split at hstep <;> cases hstep <;> exact h.of_runs rfl
  | cancel => cases hstep; exact h.of_runs rfl
  | announce i number rtspPeer =>
    rcases Server.step_announce hstep with rfl | ⟨launch, config, -, -, rfl⟩
    · exact h.of_runs rfl
    · refine ⟨fun j j' run run' hne hj hj' heq => ?_, fun j run hj => ?_⟩
      · rcases getElem?_concat_cases hj with hk | ⟨hlast, rfl⟩
        · rcases getElem?_concat_cases hj' with hk' | ⟨-, rfl⟩
          · exact h.apart j j' run run' hne hk hk' heq
          · exact Or.inr rfl
        · exact Or.inl rfl
      · rcases getElem?_concat_cases hj with hk | ⟨-, rfl⟩
        · exact h.short j run hk
        · exact Nat.zero_le _
  | run i e =>
    obtain ⟨run, launch, out, run', hi, hlaunch, hmove, rfl⟩ := Server.step_run hstep
    rcases Run.ivs_step hmove with hivs | ⟨data, idr, timestamp, rfl, rfl⟩
    · exact h.of_ivs hi (Run.launch_step hmove) hivs rfl
    · cases hcipher : run.cipher with
      | none =>
        have hivs := (@Run.sends_plain platform.gcm run hcipher data idr timestamp).1
        exact h.of_ivs hi (Run.launch_step hmove) hivs rfl
      | some cipher =>
        obtain ⟨hfirst, hlast⟩ := honce run hi (by rw [hcipher]; rfl)
        obtain ⟨launch', -, hrun⟩ := hsealed i run hi
        refine h.sends rfl ?_ hfirst
        rw [(Run.sends_sealed hcipher (hrun.counter cipher hcipher) data idr timestamp).1, List.length_append,
          List.length_map, List.length_range']
        exact hlast
  | clears i =>
    obtain ⟨run, hi, -, rfl⟩ := Server.step_clears hstep
    exact @Once.of_ivs s _ i run { run with phase := .cleared } h hi rfl rfl rfl

/-- While the counter lasts, it gives every packet another initialization vector. -/
theorem nodup_of_sealed {stop : Bool} {run : Run} (h : run.Sealed stop) (hshort : run.ivs.length ≤ 2 ^ 64) :
    run.ivs.Nodup := by
  rw [h.ivs]
  refine List.Nodup.map_on (fun k hk k' hk' heq => ?_) List.nodup_range
  have hcounter := congrArg UInt64.toNat (VideoCipher.iv_inj heq)
  have hk := List.mem_range.mp hk
  have hk' := List.mem_range.mp hk'
  rwa [UInt64.toNat_ofNat', UInt64.toNat_ofNat', Nat.mod_eq_of_lt (by omega), Nat.mod_eq_of_lt (by omega)] at hcounter

theorem nonces_of_not_weighs {run : Run} (h : ¬ run.weighs) : run.nonces = [] := by
  cases hcontrol : run.control with
  | none => rw [Run.nonces, hcontrol]; rfl
  | some control =>
    have hzero : control.weight = 0 := by
      by_contra hne
      exact h ⟨control, hcontrol, Nat.pos_of_ne_zero hne⟩
    rw [Run.nonces, hcontrol]
    rw [Control.weight] at hzero
    exact List.eq_nil_of_length_eq_zero (Nat.eq_zero_of_add_eq_zero_right hzero)

/-- A video packet and a control message are never sealed with one initialization vector. -/
theorem disjoint_nonces {stop stop' : Bool} {run run' : Run} (h : run.Sealed stop) (h' : run'.Sealed stop') :
    run.ivs.Disjoint run'.nonces := by
  intro iv hiv hnonce
  rw [h.ivs] at hiv
  obtain ⟨k, -, rfl⟩ := List.mem_map.mp hiv
  cases hcontrol : run'.control with
  | none =>
    rw [Run.nonces, hcontrol] at hnonce
    cases hnonce
  | some control =>
    rw [Run.nonces, hcontrol] at hnonce
    obtain ⟨seq, hseq⟩ := h'.nonces control hcontrol _ hnonce
    exact VideoCipher.iv_ne_nonce _ seq false hseq

theorem nodup_nonces {stop : Bool} {run : Run} (h : run.Sealed stop) : run.nonces.Nodup := by
  cases hcontrol : run.control with
  | none =>
    rw [Run.nonces, hcontrol]
    exact List.nodup_nil
  | some control =>
    have hlight := h.light control hcontrol
    rw [Run.nonces, hcontrol]
    rw [Control.weight] at hlight
    refine List.nodup_iff_count_le_one.mpr fun iv => ?_
    exact List.count_le_length.trans (by change control.nonces.length ≤ 1; omega)

/-- An ANNOUNCE that asks for encrypted video. -/
def encrypted (name : String) : Option UInt32 :=
  if name = "x-nv-video[0].packetSize" then some 1024
  else if name = "x-ss-general.encryptionEnabled" then some ssVideoEncryption
  else none

/-- A launch of a window in compatibility mode. -/
def launched : List Event := [.shows 1 [], .launch false 1 (Vector.replicate 16 0) (1280, 720, 60) [] 0]

/-- A stream up to its first frame; the encoder of its sound does not start. -/
def opened (i : ℕ) : List Event :=
  [.announce 0 encrypted none, .run i (.main (.bind false)), .run i (.main (.bind false)), .run i (.main .nothing),
    .run i (.main (.opens true)), .run i (.main (.bind false)),
    .run i (.audio (.ping (some ([0x50, 0x49, 0x4E, 0x47], [])) false)),
    .run i (.main (.ping false (some ([0x50, 0x49, 0x4E, 0x47], [])))), .run i (.main .nothing),
    .run i (.main (.opens true)), .run i (.main .nothing), .run i (.main .nothing), .run i (.main .nothing)]

def frame (i : ℕ) : Event := .run i (.main (.frame [] true 0))

/-- The client is gone, and the stream returns. -/
def leaves (i : ℕ) : List Event :=
  [.run i (.control .fails), .run i .listen, .run i .listen, .run i (.main .nothing), .clears i]

/-- A stream that awaits its first frame. -/
def grabbing : Server where
  apps := CompatApps.open ⟨[1], ∅⟩ 1 []
  launches := [⟨1, Vector.replicate 16 0, 1280, 720, 60, [], 0, false, true⟩]
  launch := some 0
  runs := [{
    launch := 0
    config := ⟨1280, 720, 60, 10000, 1024, 0, true, 5, false⟩
    rtspPeer := none
    phase := .grabbing true
    video := true
    audio := some ⟨true, .ended⟩
    control := some .new
    source := some 1
    sink := some (.new 1 1280 720, .new)
    listener := .checking
    wantsKeyframe := false
    left := false
    packetizer := .new 1024
    cipher := some ⟨Vector.replicate 16 0, 0⟩
    ivs := [] }]
  out := []

/-- That stream has returned, after a frame. -/
def returned : Server where
  apps := grabbing.apps
  launches := [⟨1, Vector.replicate 16 0, 1280, 720, 60, [], 0, false, false⟩]
  launch := some 0
  runs := grabbing.runs.map fun run => { run with
    phase := .cleared
    video := false
    control := some { Control.new with hungUp := true, deaf := true, ended := true }
    source := none
    sink := some (.new 1 1280 720, { Delivering.new with closed := true })
    listener := .ended
    left := true
    packetizer := ⟨1024, 1, 1, by decide⟩
    cipher := some ⟨Vector.replicate 16 0, 1⟩
    ivs := [VideoCipher.iv 0] }
  out := []

set_option maxRecDepth 20000 in
theorem run_grabbing (platform : Platform) :
    (launched ++ opened 0).foldlM (step platform) (new [1]) = some grabbing :=
  Run.cons.mpr ⟨_, rfl, Run.cons.mpr ⟨_, rfl, Run.cons.mpr ⟨_, rfl, Run.cons.mpr ⟨_, rfl,
    Run.cons.mpr ⟨_, rfl, Run.cons.mpr ⟨_, rfl, Run.cons.mpr ⟨_, rfl, Run.cons.mpr ⟨_, rfl,
    Run.cons.mpr ⟨_, rfl, Run.cons.mpr ⟨_, rfl, Run.cons.mpr ⟨_, rfl, Run.cons.mpr ⟨_, rfl,
    Run.cons.mpr ⟨_, rfl, Run.cons.mpr ⟨_, rfl, Run.cons.mpr ⟨_, rfl,
    Run.nil.mpr rfl⟩⟩⟩⟩⟩⟩⟩⟩⟩⟩⟩⟩⟩⟩⟩

set_option maxRecDepth 20000 in
theorem run_frame (platform : Platform) : ∃ s, step platform grabbing (frame 0) = some s := ⟨_, rfl⟩

set_option maxRecDepth 20000 in
theorem run_returned (platform : Platform) :
    (frame 0 :: leaves 0).foldlM (step platform) grabbing = some returned :=
  Run.cons.mpr ⟨_, rfl, Run.cons.mpr ⟨_, rfl, Run.cons.mpr ⟨_, rfl, Run.cons.mpr ⟨_, rfl,
    Run.cons.mpr ⟨_, rfl, Run.cons.mpr ⟨_, rfl,
    Run.nil.mpr rfl⟩⟩⟩⟩⟩⟩

set_option maxRecDepth 20000 in
theorem run_again (platform : Platform) : ∃ s,
    (opened 1 ++ [frame 1]).foldlM (step platform) returned = some s ∧ s.ivs 0 = [VideoCipher.iv 0, VideoCipher.iv 0] :=
  ⟨_, Run.cons.mpr ⟨_, rfl, Run.cons.mpr ⟨_, rfl, Run.cons.mpr ⟨_, rfl, Run.cons.mpr ⟨_, rfl,
    Run.cons.mpr ⟨_, rfl, Run.cons.mpr ⟨_, rfl, Run.cons.mpr ⟨_, rfl, Run.cons.mpr ⟨_, rfl,
    Run.cons.mpr ⟨_, rfl, Run.cons.mpr ⟨_, rfl, Run.cons.mpr ⟨_, rfl, Run.cons.mpr ⟨_, rfl,
    Run.cons.mpr ⟨_, rfl, Run.cons.mpr ⟨_, rfl,
    Run.nil.mpr rfl⟩⟩⟩⟩⟩⟩⟩⟩⟩⟩⟩⟩⟩⟩, rfl⟩

end Server

end WindowCast.GameStream
