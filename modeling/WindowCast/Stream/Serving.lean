import WindowCast.Lib.Latest
import WindowCast.Lib.Run
import WindowCast.Lib.Table
import WindowCast.Host.Limits
import WindowCast.Transport.RemoteWindow

/-!
# The streams of a session

A session streams windows to its client, each on one carrier or several: video on a
track of the session, or a connection of its own.  The session's task takes the
client's messages one by one; every carrier on the session has a thread that feeds
its track.  A feed that ends by itself takes its window's tracks away and tells the
client, and the session's task hears nothing of it.

## Main definitions

* `Serving` — what the host keeps for a session.
* `Serving.step` — a message of the client, or something a feed does.
* `HostMessage.word` — what the host tells of a window.

## Main results

* `Serving.lookup_accept`, `Serving.lookup_end`, `Serving.lookup_stopCarrier` — what the
  table holds behind a start and a stop.
-/

namespace WindowCast.Stream

open WindowCast.Host (WindowId)
open WindowCast.Transport (VideoCodec)

/-! ### Messages -/

inductive BackendKind
  | native
  | passthrough
  | desktop
  | gameStream
  | rdp
  | vnc
  | other
  deriving DecidableEq, Repr

def BackendKind.name : BackendKind → Text
  | .native => "Native".toList
  | .passthrough => "Passthrough".toList
  | .desktop => "Desktop".toList
  | .gameStream => "GameStream".toList
  | .rdp => "Rdp".toList
  | .vnc => "Vnc".toList
  | .other => "Other".toList

/-- The backend that serves a request: the one asked for, where the host has it. -/
def serve (requested : BackendKind) (available : List BackendKind) : BackendKind :=
  if requested ∈ available then requested else .native

/-- Whether a carrier sends on the session's video track, and not on a connection of
its own. -/
def sessionTrack (kind : BackendKind) : Bool := kind = .native || kind = .desktop

structure StreamOptions where
  backend : BackendKind
  codecs : List VideoCodec
  deriving DecidableEq, Repr

inductive PointerButton
  | left
  | right
  | middle
  | back
  | forward
  deriving DecidableEq, Repr

inductive TouchPhase
  | start
  | move
  | «end»
  | cancel
  deriving DecidableEq, Repr

/-- The bits of a single-precision number. -/
abbrev F32 := UInt32

/-- Either zero. -/
def isZero (x : F32) : Bool := x &&& 0x7fffffff = 0

/-- All of a pad: its buttons, sticks and triggers. -/
structure GamepadState where
  buttons : UInt32
  leftX : Int16
  leftY : Int16
  rightX : Int16
  rightY : Int16
  leftTrigger : UInt8
  rightTrigger : UInt8
  deriving DecidableEq, Repr

inductive InputEvent
  | pointerMove (window : WindowId) (x y : F32)
  | pointerButton (window : WindowId) (button : PointerButton) (pressed : Bool)
  | pointerScroll (window : WindowId) (dx dy : F32)
  | key (keycode : UInt32) (pressed : Bool)
  | text (text : Text)
  | touch (window : WindowId) (id : UInt32) (x y : F32) (phase : TouchPhase)
  | gamepad (pad : UInt8) (state : GamepadState)
  | gamepadGone (pad : UInt8)
  deriving DecidableEq, Repr

/-- The window an input event names, if it names one. -/
def inputWindow : InputEvent → Option WindowId
  | .pointerMove window _ _ | .pointerButton window _ _ | .pointerScroll window _ _
  | .touch window _ _ _ _ => some window
  | _ => none

/-- What a stream was started as: its backend, its codec and its track, for one on
the session. -/
structure Accepted where
  backend : BackendKind
  codec : Option VideoCodec
  track : Option ℕ
  deriving DecidableEq, Repr

/-- What the host sends. -/
inductive HostMessage
  | streamStartResponse (window : WindowId) (generation : ℕ) (answer : Except Text Accepted)
  | trackEnded (window : WindowId)
  | streamStopped (window : WindowId)

/-- What the host tells of a window: that a stream of it has started, or that it has
stopped. -/
def HostMessage.word (window : WindowId) : HostMessage → Option Bool
  | .streamStartResponse w _ (.ok _) => if w = window then some true else none
  | .streamStopped w => if w = window then some false else none
  | _ => none

/-- The last that the host has told of a window. -/
def lastWord (window : WindowId) (sent : List HostMessage) : Option Bool := latest (HostMessage.word window) sent

/-! ### The session -/

/-- A track of the session. -/
structure WindowTrack where
  id : ℕ
  codec : VideoCodec
  deriving DecidableEq, Repr

/-- How far a feed has come. -/
inductive FeedPhase
  | running
  /-- It has ended by itself, and takes away the window's sound, -/
  | ending
  /-- and its track, -/
  | detaching
  /-- and tells the client. -/
  | telling
  | ended
  deriving DecidableEq, Repr

/-- The thread that feeds a track. -/
structure Feed where
  window : WindowId
  track : WindowTrack
  stop : Bool
  phase : FeedPhase
  deriving DecidableEq, Repr

/-- A carrier of a window's stream. -/
structure Carrier where
  kind : BackendKind
  /-- The codec the client was told, for one on the session. -/
  codec : Option VideoCodec
  /-- The feed that dropping it stops, for one on the session. -/
  feed : Option ℕ
  deriving DecidableEq, Repr

structure WindowStreams where
  carriers : AList fun _ : ℕ => Carrier
  /-- Whether its sound was started. -/
  audio : Bool
  deriving DecidableEq

def WindowStreams.default : WindowStreams := ⟨∅, false⟩

/-- The streams of a window without one of its carriers. -/
def WindowStreams.without (self : WindowStreams) (generation : ℕ) : WindowStreams :=
  { self with carriers := self.carriers.erase generation }

/-- A stream that is being started. -/
structure Starting where
  window : WindowId
  generation : ℕ
  kind : BackendKind
  codec : Option VideoCodec
  /-- Its feed and its track, once the track is attached. -/
  fed : Option (ℕ × WindowTrack)
  deriving DecidableEq, Repr

/-- What policy and the host's windows say to a start. -/
structure Offer where
  allowed : Bool
  backends : List BackendKind
  encoders : List VideoCodec
  /-- Whether the window's capture, or the handoff, could be opened. -/
  opened : Except Text Unit

structure Serving where
  /-- What policy says of this account's input. -/
  mayInput : Option Bool
  streams : AList fun _ : WindowId => WindowStreams
  starting : Option Starting
  /-- The window the client's input is going to. -/
  focus : Option WindowId
  /-- What was handed on to the thread that delivers it. -/
  input : List (InputEvent × Option WindowId)
  /-- The windows the pointer is followed in. -/
  streamed : List WindowId
  /-- The session's video tracks. -/
  windows : AList fun _ : WindowId => WindowTrack
  /-- The windows whose sound has a track. -/
  audio : List WindowId
  feeds : List Feed
  /-- How many tracks were attached so far. -/
  attached : ℕ
  sent : List HostMessage

inductive Event
  | streamStart (window : WindowId) (options : StreamOptions) (generation : ℕ) (offer : Offer)
  /-- The track of a stream that is being started is attached, or cannot be. -/
  | attach (answer : Except Text Unit)
  /-- The stream has started, and so has its sound where there is some. -/
  | accept (sound : Bool)
  | streamStop (window : WindowId)
  | carrierStop (window : WindowId) (generation : ℕ)
  | input (event : InputEvent)
  /-- The loop of a feed is over. -/
  | feedEnds (feed : ℕ)
  /-- A feed that has ended by itself goes on. -/
  | feedGoes (feed : ℕ)

namespace Serving

def new (mayInput : Option Bool) : Serving := ⟨mayInput, ∅, none, none, [], [], ∅, [], [], 0, []⟩

def send (self : Serving) (message : HostMessage) : Serving := { self with sent := self.sent ++ [message] }

def carrier (self : Serving) (window : WindowId) (generation : ℕ) : Option Carrier :=
  (self.streams.lookup window).bind fun entry => entry.carriers.lookup generation

/-- Whether the window is carried in that generation, or by that backend. -/
def running (self : Serving) (window : WindowId) (generation : ℕ) (kind : BackendKind) : Bool :=
  (self.streams.lookup window).any fun entry =>
    (entry.carriers.lookup generation).isSome || entry.carriers.entries.any fun carrier => carrier.2.kind = kind

/-- The answer to a start: the stream to start, or why not. -/
def answer (self : Serving) (window : WindowId) (options : StreamOptions) (generation : ℕ) (offer : Offer) :
    Except Text Starting :=
  let kind := serve options.backend offer.backends
  if ¬ offer.allowed then .error "not allowed for this account".toList
  else if self.running window generation kind then
    .error ("this window is already carried by ".toList ++ kind.name)
  else if ¬ sessionTrack kind then
    match offer.opened with
    | .error reason => .error reason
    | .ok () => .ok ⟨window, generation, kind, none, none⟩
  else
    match options.codecs.find? fun codec => codec ∈ offer.encoders, offer.opened with
    | none, _ => .error "no codec both sides support".toList
    | some _, .error reason => .error reason
    | some codec, .ok () => .ok ⟨window, generation, kind, some codec, none⟩

/-- A feed starts on a track. -/
def feed (self : Serving) (starting : Starting) (track : WindowTrack) : Serving :=
  { self with
    starting := some { starting with fed := some (self.feeds.length, track) }
    feeds := self.feeds ++ [⟨starting.window, track, false, .running⟩] }

/-- Attaching a window that is attached gives its track. -/
def attach (self : Serving) (starting : Starting) (codec : VideoCodec) : Except Text Unit → Serving
  | answer =>
    match self.windows.lookup starting.window, answer with
    | some track, _ => self.feed starting track
    | none, .error reason =>
      { self with starting := none }.send (.streamStartResponse starting.window starting.generation (.error reason))
    | none, .ok () =>
      { self with
        windows := self.windows.insert starting.window ⟨self.attached, codec⟩
        attached := self.attached + 1 }.feed starting ⟨self.attached, codec⟩

/-- The stream has started. -/
def accept (self : Serving) (starting : Starting) (sound : Bool) : Serving :=
  let entry := (self.streams.lookup starting.window).getD .default
  { self with
    starting := none
    streamed := if starting.window ∈ self.streamed then self.streamed else self.streamed ++ [starting.window]
    streams := self.streams.insert starting.window {
      carriers := entry.carriers.insert starting.generation
        ⟨starting.kind, starting.codec, starting.fed.map Prod.fst⟩
      audio := true }
    audio :=
      if ¬ entry.audio ∧ sound ∧ starting.window ∉ self.audio then self.audio ++ [starting.window]
      else self.audio }.send (.streamStartResponse starting.window starting.generation
        (.ok ⟨starting.kind, starting.codec, (starting.fed.map Prod.snd).map WindowTrack.id⟩))

/-- The feeds of some carriers are stopped. -/
def drop (self : Serving) (carriers : List Carrier) : Serving :=
  { self with
    feeds := self.feeds.mapIdx fun i feed =>
      if some i ∈ carriers.map Carrier.feed then { feed with stop := true } else feed }

def detachAudio (self : Serving) (window : WindowId) : Serving :=
  { self with audio := self.audio.filter fun w => w ≠ window }

def detachWindow (self : Serving) (window : WindowId) : Serving :=
  match self.windows.lookup window with
  | none => self
  | some _ => { self with windows := self.windows.erase window }.send (.trackEnded window)

def endStream (self : Serving) (window : WindowId) (ended : WindowStreams) : Serving :=
  let carriers : List Carrier := ended.carriers.entries.map Sigma.snd
  let dropped := (self.drop carriers).detachAudio window
  let detached := if carriers.any fun carrier => sessionTrack carrier.kind then dropped.detachWindow window else dropped
  detached.send (.streamStopped window)

/-- A window is streamed no more. -/
def leave (self : Serving) (window : WindowId) : Serving :=
  { self with
    streamed := self.streamed.filter fun w => w ≠ window
    streams := self.streams.erase window }

def streamStop (self : Serving) (window : WindowId) : Serving :=
  match self.streams.lookup window with
  | none => self.leave window
  | some ended => (self.leave window).endStream window ended

def stopCarrier (self : Serving) (window : WindowId) (generation : ℕ) : Serving :=
  match self.streams.lookup window with
  | none => self
  | some entry =>
    let rest := entry.without generation
    let self := { self with streams := self.streams.insert window rest }
    let self :=
      match entry.carriers.lookup generation with
      | none => self
      | some carrier =>
        if sessionTrack carrier.kind then (self.drop [carrier]).detachWindow window else self.drop [carrier]
    if rest.carriers.keys = [] then (self.leave window).endStream window rest else self

/-- Only windows this session streams take input. -/
def takeInput (self : Serving) (event : InputEvent) : Serving :=
  match inputWindow event with
  | some window =>
    if (self.streams.lookup window).isSome then
      { self with focus := some window, input := self.input ++ [(event, some window)] }
    else self
  | none =>
    if self.focus.any fun focus => (self.streams.lookup focus).isSome then
      { self with input := self.input ++ [(event, self.focus)] }
    else self

/-- A feed goes on to some phase. -/
def setPhase (self : Serving) (i : ℕ) (feed : Feed) (phase : FeedPhase) : Serving :=
  { self with feeds := self.feeds.set i { feed with phase := phase } }

def feedGoes (self : Serving) (i : ℕ) (feed : Feed) : Option Serving :=
  match feed.phase with
  | .ending => some ((self.setPhase i feed .detaching).detachAudio feed.window)
  | .detaching => some ((self.setPhase i feed .telling).detachWindow feed.window)
  | .telling => some ((self.setPhase i feed .ended).send (.streamStopped feed.window))
  | _ => none

def step (self : Serving) : Event → Option Serving
  | .streamStart window options generation offer =>
    if self.starting = none then
      match self.answer window options generation offer with
      | .error reason => some (self.send (.streamStartResponse window generation (.error reason)))
      | .ok starting => some { self with starting := some starting }
    else none
  | .attach answer =>
    self.starting.bind fun starting =>
      match starting.codec, starting.fed with
      | some codec, none => some (self.attach starting codec answer)
      | _, _ => none
  | .accept sound =>
    self.starting.bind fun starting =>
      if starting.codec.isSome = starting.fed.isSome then some (self.accept starting sound) else none
  | .streamStop window => if self.starting = none then some (self.streamStop window) else none
  | .carrierStop window generation => if self.starting = none then some (self.stopCarrier window generation) else none
  | .input event =>
    if self.starting = none then some (if self.mayInput = some false then self else self.takeInput event) else none
  | .feedEnds i =>
    self.feeds[i]?.bind fun feed =>
      if feed.phase = .running then some (self.setPhase i feed (if feed.stop then .ended else .ending)) else none
  | .feedGoes i => self.feeds[i]?.bind fun feed => self.feedGoes i feed

/-! ### What the handlers change -/

section

variable {self : Serving} {window w : WindowId}

@[simp] theorem send_streams (message : HostMessage) : (self.send message).streams = self.streams := rfl
@[simp] theorem send_starting (message : HostMessage) : (self.send message).starting = self.starting := rfl
@[simp] theorem send_windows (message : HostMessage) : (self.send message).windows = self.windows := rfl
@[simp] theorem send_feeds (message : HostMessage) : (self.send message).feeds = self.feeds := rfl
@[simp] theorem send_attached (message : HostMessage) : (self.send message).attached = self.attached := rfl
@[simp] theorem send_focus (message : HostMessage) : (self.send message).focus = self.focus := rfl
@[simp] theorem send_mayInput (message : HostMessage) : (self.send message).mayInput = self.mayInput := rfl
@[simp] theorem send_input (message : HostMessage) : (self.send message).input = self.input := rfl

@[simp] theorem lastWord_send (message : HostMessage) :
    lastWord w (self.send message).sent = (message.word w).or (lastWord w self.sent) := latest_concat _ _ _

@[simp] theorem drop_streams (carriers : List Carrier) : (self.drop carriers).streams = self.streams := rfl
@[simp] theorem drop_starting (carriers : List Carrier) : (self.drop carriers).starting = self.starting := rfl
@[simp] theorem drop_windows (carriers : List Carrier) : (self.drop carriers).windows = self.windows := rfl
@[simp] theorem drop_attached (carriers : List Carrier) : (self.drop carriers).attached = self.attached := rfl
@[simp] theorem drop_focus (carriers : List Carrier) : (self.drop carriers).focus = self.focus := rfl
@[simp] theorem drop_mayInput (carriers : List Carrier) : (self.drop carriers).mayInput = self.mayInput := rfl
@[simp] theorem drop_input (carriers : List Carrier) : (self.drop carriers).input = self.input := rfl
@[simp] theorem drop_sent (carriers : List Carrier) : (self.drop carriers).sent = self.sent := rfl

/-- A feed behind a drop. -/
theorem drop_feed (carriers : List Carrier) (i : ℕ) :
    (self.drop carriers).feeds[i]? = self.feeds[i]?.map fun feed =>
      if some i ∈ carriers.map Carrier.feed then { feed with stop := true } else feed := by
  rw [drop, List.getElem?_mapIdx]

@[simp] theorem detachWindow_streams : (self.detachWindow window).streams = self.streams := by
  unfold detachWindow
  split <;> rfl

@[simp] theorem detachWindow_starting : (self.detachWindow window).starting = self.starting := by
  unfold detachWindow
  split <;> rfl

@[simp] theorem detachWindow_feeds : (self.detachWindow window).feeds = self.feeds := by
  unfold detachWindow
  split <;> rfl

@[simp] theorem detachWindow_attached : (self.detachWindow window).attached = self.attached := by
  unfold detachWindow
  split <;> rfl

@[simp] theorem detachWindow_focus : (self.detachWindow window).focus = self.focus := by
  unfold detachWindow
  split <;> rfl

@[simp] theorem detachWindow_mayInput : (self.detachWindow window).mayInput = self.mayInput := by
  unfold detachWindow
  split <;> rfl

@[simp] theorem detachWindow_input : (self.detachWindow window).input = self.input := by
  unfold detachWindow
  split <;> rfl

@[simp] theorem lastWord_detachWindow : lastWord w (self.detachWindow window).sent = lastWord w self.sent := by
  unfold detachWindow
  split
  · rfl
  · exact latest_concat _ _ _

theorem lookup_detachWindow (w : WindowId) :
    (self.detachWindow window).windows.lookup w = if w = window then none else self.windows.lookup w := by
  unfold detachWindow
  split
  case h_1 hnone =>
    split
    case isTrue h => rw [h, hnone]
    case isFalse => rfl
  case h_2 =>
    split
    case isTrue h => rw [h, send_windows, AList.lookup_erase]
    case isFalse h => rw [send_windows, AList.lookup_erase_ne h]

variable {ended : WindowStreams}

@[simp] theorem endStream_streams : (self.endStream window ended).streams = self.streams := by
  simp only [endStream]
  split <;> simp [detachAudio]

@[simp] theorem endStream_starting : (self.endStream window ended).starting = self.starting := by
  simp only [endStream]
  split <;> simp [detachAudio]

@[simp] theorem endStream_feeds :
    (self.endStream window ended).feeds = (self.drop (ended.carriers.entries.map Sigma.snd)).feeds := by
  simp only [endStream]
  split <;> simp [detachAudio]

@[simp] theorem endStream_attached : (self.endStream window ended).attached = self.attached := by
  simp only [endStream]
  split <;> simp [detachAudio]

@[simp] theorem endStream_focus : (self.endStream window ended).focus = self.focus := by
  simp only [endStream]
  split <;> simp [detachAudio]

@[simp] theorem endStream_mayInput : (self.endStream window ended).mayInput = self.mayInput := by
  simp only [endStream]
  split <;> simp [detachAudio]

@[simp] theorem endStream_input : (self.endStream window ended).input = self.input := by
  simp only [endStream]
  split <;> simp [detachAudio]

/-- The end of a stream is told. -/
@[simp] theorem lastWord_endStream :
    lastWord w (self.endStream window ended).sent = if window = w then some false else lastWord w self.sent := by
  simp only [endStream, HostMessage.word, lastWord_send]
  by_cases h : window = w
  · simp [h]
  · rw [if_neg h, if_neg h, Option.none_or]
    split <;> simp [detachAudio]

theorem lookup_endStream (w : WindowId) :
    (self.endStream window ended).windows.lookup w =
      if w = window ∧ (ended.carriers.entries.any fun carrier => sessionTrack carrier.2.kind) = true then none
      else self.windows.lookup w := by
  simp only [endStream, send_windows, List.any_map, Function.comp_def]
  by_cases hany : (ended.carriers.entries.any fun carrier => sessionTrack carrier.2.kind) = true
  · rw [if_pos hany, lookup_detachWindow]
    simp [hany, detachAudio]
  · rw [if_neg hany]
    simp [hany, detachAudio]

/-- What the table holds of a window that is left. -/
theorem lookup_leave (w : WindowId) :
    (self.leave window).streams.lookup w = if w = window then none else self.streams.lookup w := by
  by_cases h : w = window
  · rw [if_pos h, h]
    exact AList.lookup_erase _ _
  · rw [if_neg h]
    exact AList.lookup_erase_ne h

/-- Input changes nothing of the streams. -/
theorem takeInput_eq (self : Serving) (event : InputEvent) :
    ∃ focus input, self.takeInput event = { self with focus := focus, input := input } := by
  unfold takeInput
  split
  · split
    · exact ⟨_, _, rfl⟩
    · exact ⟨_, _, rfl⟩
  · split
    · exact ⟨self.focus, _, rfl⟩
    · exact ⟨_, _, rfl⟩

/-- A feed that goes on stays what it was. -/
theorem setPhase_feed {i : ℕ} {feed : Feed} (hfeed : self.feeds[i]? = some feed) (phase : FeedPhase) {j : ℕ}
    {feed' : Feed} (h : self.feeds[j]? = some feed') :
    ∃ phase', (self.setPhase i feed phase).feeds[j]? = some { feed' with phase := phase' } := by
  rw [setPhase, List.getElem?_set]
  by_cases hij : i = j
  · subst hij
    rw [hfeed] at h
    cases h
    rw [if_pos rfl, if_pos (List.getElem?_eq_some_iff.mp hfeed).1]
    exact ⟨phase, rfl⟩
  · rw [if_neg hij]
    exact ⟨feed'.phase, h⟩

theorem feed_of_setPhase {i : ℕ} {feed : Feed} (hfeed : self.feeds[i]? = some feed) (phase : FeedPhase) {j : ℕ}
    {feed' : Feed} (h : (self.setPhase i feed phase).feeds[j]? = some feed') :
    ∃ feed'', self.feeds[j]? = some feed'' ∧ feed''.stop = feed'.stop ∧ feed''.window = feed'.window := by
  rw [setPhase, List.getElem?_set] at h
  split at h
  case isTrue hij =>
    subst hij
    split at h
    case isTrue =>
      cases h
      exact ⟨feed, hfeed, rfl, rfl⟩
    case isFalse => cases h
  case isFalse => exact ⟨feed', h, rfl, rfl⟩

/-! A stream that starts. -/

/-- A stream is started where the window is not carried so yet. -/
theorem answer_ok {options : StreamOptions} {generation : ℕ} {offer : Offer} {starting : Starting}
    (h : self.answer window options generation offer = .ok starting) :
    starting.window = window ∧ starting.generation = generation ∧ starting.fed = none
      ∧ self.running window generation starting.kind = false ∧ starting.codec.isSome = sessionTrack starting.kind := by
  simp only [answer] at h
  split at h
  case isTrue => cases h
  case isFalse hallowed =>
  split at h
  case isTrue => cases h
  case isFalse hrunning =>
  split at h
  case isTrue hkind =>
    split at h
    case h_1 => cases h
    case h_2 =>
      cases h
      exact ⟨rfl, rfl, rfl, eq_false_of_ne_true hrunning, (eq_false_of_ne_true hkind).symm⟩
  case isFalse hkind =>
    split at h
    case h_1 => cases h
    case h_2 => cases h
    case h_3 =>
      cases h
      exact ⟨rfl, rfl, rfl, eq_false_of_ne_true hrunning, (not_not.mp hkind).symm⟩

theorem carrier_of_running {generation : ℕ} {kind : BackendKind} (h : self.running window generation kind = false) :
    self.carrier window generation = none := by
  unfold running at h
  unfold carrier
  cases hentry : self.streams.lookup window with
  | none => rfl
  | some entry =>
    rw [hentry, Option.any_some, Bool.or_eq_false_iff] at h
    exact Option.isNone_iff_eq_none.mp (by simpa using h.1)

/-- A track is attached, its feed starts. -/
theorem attach_cases (starting : Starting) (codec : VideoCodec) (answer : Except Text Unit) :
    (∃ track, self.windows.lookup starting.window = some track
      ∧ self.attach starting codec answer = self.feed starting track)
    ∨ (∃ reason, self.windows.lookup starting.window = none
      ∧ self.attach starting codec answer = { self with starting := none }.send
        (.streamStartResponse starting.window starting.generation (.error reason)))
    ∨ (self.windows.lookup starting.window = none
      ∧ self.attach starting codec answer = { self with
        windows := self.windows.insert starting.window ⟨self.attached, codec⟩
        attached := self.attached + 1 }.feed starting ⟨self.attached, codec⟩) := by
  unfold attach
  cases hwindow : self.windows.lookup starting.window with
  | some track => exact Or.inl ⟨track, rfl, rfl⟩
  | none =>
    cases answer with
    | error reason => exact Or.inr (Or.inl ⟨reason, rfl, rfl⟩)
    | ok done => exact Or.inr (Or.inr ⟨rfl, rfl⟩)

theorem feed_feed {starting : Starting} {track : WindowTrack} {i : ℕ} {feed : Feed}
    (h : (self.feed starting track).feeds[i]? = some feed) :
    self.feeds[i]? = some feed ∨ (i = self.feeds.length ∧ feed = ⟨starting.window, track, false, .running⟩) := by
  rw [Serving.feed] at h
  rcases Nat.lt_trichotomy i self.feeds.length with hlt | heq | hgt
  · rw [List.getElem?_append_left hlt] at h
    exact Or.inl h
  · subst heq
    rw [List.getElem?_concat_length] at h
    cases h
    exact Or.inr ⟨rfl, rfl⟩
  · rw [List.getElem?_eq_none (by rw [List.length_append, List.length_singleton]; omega)] at h
    cases h

theorem feed_of_feed {starting : Starting} {track : WindowTrack} {i : ℕ} {feed : Feed} (h : self.feeds[i]? = some feed) :
    (self.feed starting track).feeds[i]? = some feed := by
  rw [Serving.feed]
  dsimp only
  rw [List.getElem?_append_left (List.getElem?_eq_some_iff.mp h).1]
  exact h

section

variable {starting : Starting} {sound : Bool}

/-- The entry of a window in the table, or a new one. -/
def entryOf (self : Serving) (window : WindowId) : WindowStreams := (self.streams.lookup window).getD .default

theorem lookup_accept (w : WindowId) :
    (self.accept starting sound).streams.lookup w =
      if w = starting.window then
        some {
          carriers := (self.entryOf starting.window).carriers.insert starting.generation
            ⟨starting.kind, starting.codec, starting.fed.map Prod.fst⟩
          audio := true }
      else self.streams.lookup w := by
  by_cases hw : w = starting.window
  · rw [if_pos hw, hw]
    exact AList.lookup_insert _
  · rw [if_neg hw]
    exact AList.lookup_insert_ne hw

theorem lastWord_accept :
    lastWord w (self.accept starting sound).sent = if starting.window = w then some true else lastWord w self.sent := by
  rw [accept, lastWord_send, HostMessage.word]
  by_cases hw : starting.window = w
  · rw [if_pos hw, if_pos hw]
    rfl
  · rw [if_neg hw, if_neg hw]
    rfl

theorem carrier_accept (w : WindowId) (generation : ℕ) :
    (self.accept starting sound).carrier w generation =
      if w = starting.window ∧ generation = starting.generation then
        some ⟨starting.kind, starting.codec, starting.fed.map Prod.fst⟩
      else self.carrier w generation := by
  unfold carrier
  rw [lookup_accept]
  by_cases hw : w = starting.window
  · rw [if_pos hw]
    by_cases hg : generation = starting.generation
    · rw [if_pos ⟨hw, hg⟩, hg, Option.bind_some]
      exact AList.lookup_insert _
    · rw [if_neg fun h => hg h.2, Option.bind_some]
      refine (AList.lookup_insert_ne hg).trans ?_
      rw [entryOf, hw]
      cases self.streams.lookup starting.window <;> rfl
  · rw [if_neg hw, if_neg fun h => hw h.1]

end

/-! A stream that stops. -/

theorem lookup_streamStop (w : WindowId) :
    (self.streamStop window).streams.lookup w = if w = window then none else self.streams.lookup w := by
  unfold streamStop
  split
  case h_1 => exact lookup_leave w
  case h_2 => rw [endStream_streams, lookup_leave]

theorem carrier_streamStop (w : WindowId) (generation : ℕ) :
    (self.streamStop window).carrier w generation = if w = window then none else self.carrier w generation := by
  unfold carrier
  rw [lookup_streamStop]
  split <;> rfl

theorem streamStop_starting : (self.streamStop window).starting = self.starting := by
  unfold streamStop
  split
  · rfl
  · exact endStream_starting

/-- The carriers of a window. -/
def carriersOf (self : Serving) (window : WindowId) : List Carrier :=
  (self.streams.lookup window).elim [] fun entry => entry.carriers.entries.map Sigma.snd

theorem mem_carriersOf {carrier : Carrier} :
    carrier ∈ self.carriersOf window ↔ ∃ generation, self.carrier window generation = some carrier := by
  unfold carriersOf Serving.carrier
  cases self.streams.lookup window with
  | none => simp
  | some entry =>
    rw [Option.elim_some, List.mem_map]
    constructor
    · rintro ⟨⟨generation, carrier⟩, hmem, rfl⟩
      exact ⟨generation, AList.mem_lookup_iff.mpr hmem⟩
    · rintro ⟨generation, hcarrier⟩
      exact ⟨⟨generation, carrier⟩, AList.mem_lookup_iff.mp hcarrier, rfl⟩

/-- The feeds of a stream that stops are stopped. -/
theorem streamStop_feed (i : ℕ) :
    (self.streamStop window).feeds[i]? = self.feeds[i]?.map fun feed =>
      if some i ∈ (self.carriersOf window).map Carrier.feed then { feed with stop := true } else feed := by
  unfold streamStop carriersOf
  split
  case h_1 hnone =>
    rw [hnone]
    simp only [Option.elim_none, List.map_nil, List.not_mem_nil, if_false, Option.map_id']
    rfl
  case h_2 ended hsome =>
    rw [endStream_feeds, drop_feed, hsome]
    rfl

theorem streamStop_windows (hw : w ≠ window) : (self.streamStop window).windows.lookup w = self.windows.lookup w := by
  unfold streamStop
  split
  · rfl
  · rw [lookup_endStream, if_neg fun h => hw h.1]
    rfl

/-- A stop attaches nothing. -/
theorem windows_of_streamStop {track : WindowTrack} (h : (self.streamStop window).windows.lookup w = some track) :
    self.windows.lookup w = some track := by
  unfold streamStop at h
  split at h
  · exact h
  · rw [lookup_endStream] at h
    exact (Option.ite_none_left_eq_some.mp h).2

theorem streamStop_attached : (self.streamStop window).attached = self.attached := by
  unfold streamStop
  split
  · rfl
  · exact endStream_attached

theorem streamStop_input :
    (self.streamStop window).mayInput = self.mayInput ∧ (self.streamStop window).input = self.input := by
  unfold streamStop
  split
  · exact ⟨rfl, rfl⟩
  · exact ⟨endStream_mayInput, endStream_input⟩

theorem lastWord_streamStop :
    lastWord w (self.streamStop window).sent =
      if window = w ∧ (self.streams.lookup window).isSome = true then some false else lastWord w self.sent := by
  unfold streamStop
  split
  case h_1 hnone =>
    simp only [hnone, Option.isSome_none, Bool.false_eq_true, and_false, if_false]
    rfl
  case h_2 ended hsome =>
    simp only [hsome, Option.isSome_some, and_true, lastWord_endStream]
    rfl

/-! A carrier that stops. -/

variable {entry : WindowStreams} {generation : ℕ}

/-- The session once the carrier is dropped and its track is gone. -/
def unfeed (self : Serving) (window : WindowId) (entry : WindowStreams) (generation : ℕ) : Serving :=
  match entry.carriers.lookup generation with
  | none => self
  | some carrier =>
    if sessionTrack carrier.kind then (self.drop [carrier]).detachWindow window else self.drop [carrier]

theorem stopCarrier_eq (hentry : self.streams.lookup window = some entry) :
    self.stopCarrier window generation =
      let rest := entry.without generation
      let self := { self with streams := self.streams.insert window rest }.unfeed window entry generation
      if rest.carriers.keys = [] then (self.leave window).endStream window rest else self := by
  simp only [stopCarrier, hentry]
  rfl

@[simp] theorem unfeed_streams : (self.unfeed window entry generation).streams = self.streams := by
  unfold unfeed
  split
  · rfl
  · split <;> simp

@[simp] theorem unfeed_starting : (self.unfeed window entry generation).starting = self.starting := by
  unfold unfeed
  split
  · rfl
  · split <;> simp

@[simp] theorem unfeed_attached : (self.unfeed window entry generation).attached = self.attached := by
  unfold unfeed
  split
  · rfl
  · split <;> simp

@[simp] theorem unfeed_focus : (self.unfeed window entry generation).focus = self.focus := by
  unfold unfeed
  split
  · rfl
  · split <;> simp

@[simp] theorem unfeed_mayInput : (self.unfeed window entry generation).mayInput = self.mayInput := by
  unfold unfeed
  split
  · rfl
  · split <;> simp

@[simp] theorem unfeed_input : (self.unfeed window entry generation).input = self.input := by
  unfold unfeed
  split
  · rfl
  · split <;> simp

@[simp] theorem lastWord_unfeed :
    lastWord w (self.unfeed window entry generation).sent = lastWord w self.sent := by
  unfold unfeed
  split
  · rfl
  · split <;> simp

theorem unfeed_feed (i : ℕ) :
    (self.unfeed window entry generation).feeds[i]? = self.feeds[i]?.map fun feed =>
      if (entry.carriers.lookup generation).bind Carrier.feed = some i then { feed with stop := true } else feed := by
  unfold unfeed
  split
  case h_1 hnone => simp [hnone]
  case h_2 carrier hcarrier =>
    have hdrop := @drop_feed self [carrier] i
    rw [List.map_singleton] at hdrop
    simp only [List.mem_singleton, eq_comm] at hdrop
    split
    · rw [detachWindow_feeds, hdrop, hcarrier]
      rfl
    · rw [hdrop, hcarrier]
      rfl

theorem lookup_unfeed (w : WindowId) :
    (self.unfeed window entry generation).windows.lookup w =
      if w = window ∧ ((entry.carriers.lookup generation).any fun carrier => sessionTrack carrier.kind) = true then none
      else self.windows.lookup w := by
  unfold unfeed
  split
  case h_1 hnone => simp [hnone]
  case h_2 carrier hcarrier =>
    simp only [hcarrier, Option.any_some]
    split
    case isTrue hkind =>
      rw [lookup_detachWindow]
      simp [hkind]
    case isFalse hkind => simp [hkind]

theorem lookup_stopCarrier (hentry : self.streams.lookup window = some entry) (w : WindowId) :
    (self.stopCarrier window generation).streams.lookup w =
      if w = window then
        if (entry.without generation).carriers.keys = [] then none
        else some (entry.without generation)
      else self.streams.lookup w := by
  rw [stopCarrier_eq hentry]
  dsimp only
  by_cases hw : w = window
  · subst hw
    split
    · rw [endStream_streams, lookup_leave, if_pos rfl, if_pos rfl]
    · rw [unfeed_streams, if_pos rfl]
      exact AList.lookup_insert _
  · rw [if_neg hw]
    split
    · rw [endStream_streams, lookup_leave, if_neg hw, unfeed_streams]
      exact AList.lookup_insert_ne hw
    · rw [unfeed_streams]
      exact AList.lookup_insert_ne hw

theorem stopCarrier_none (hentry : self.streams.lookup window = none) : self.stopCarrier window generation = self := by
  simp only [stopCarrier, hentry]

theorem carrier_stopCarrier (w : WindowId) (generation' : ℕ) :
    (self.stopCarrier window generation).carrier w generation' =
      if w = window ∧ generation' = generation then none else self.carrier w generation' := by
  cases hentry : self.streams.lookup window with
  | none =>
    rw [stopCarrier_none hentry]
    split
    case isTrue h =>
      rw [carrier, h.1, hentry]
      rfl
    case isFalse => rfl
  | some entry =>
    unfold carrier
    rw [lookup_stopCarrier hentry]
    by_cases hw : w = window
    · subst hw
      rw [if_pos rfl, hentry, Option.bind_some]
      have herase : ∀ g, (entry.without generation).carriers.lookup g
          = if g = generation then none else entry.carriers.lookup g := by
        intro g
        by_cases hg : g = generation
        · rw [if_pos hg, hg]
          exact AList.lookup_erase _ _
        · rw [if_neg hg]
          exact AList.lookup_erase_ne hg
      by_cases hempty : (entry.without generation).carriers.keys = []
      · rw [if_pos hempty, Option.bind_none]
        have hnone := herase generation'
        rw [AList.lookup_eq_none.mpr (by rw [AList.mem_keys, hempty]; exact List.not_mem_nil)] at hnone
        split
        case isTrue => rfl
        case isFalse hg =>
          rw [if_neg fun h => hg ⟨rfl, h⟩] at hnone
          exact hnone
      · rw [if_neg hempty, Option.bind_some, herase]
        exact if_congr (by simp) rfl rfl
    · rw [if_neg hw, if_neg fun h => hw h.1]

theorem stopCarrier_starting : (self.stopCarrier window generation).starting = self.starting := by
  cases hentry : self.streams.lookup window with
  | none => rw [stopCarrier_none hentry]
  | some entry =>
    rw [stopCarrier_eq hentry]
    dsimp only
    split
    · rw [endStream_starting]
      exact unfeed_starting
    · exact unfeed_starting

theorem stopCarrier_input : (self.stopCarrier window generation).mayInput = self.mayInput
    ∧ (self.stopCarrier window generation).input = self.input := by
  cases hentry : self.streams.lookup window with
  | none => rw [stopCarrier_none hentry]; exact ⟨rfl, rfl⟩
  | some entry =>
    rw [stopCarrier_eq hentry]
    dsimp only
    split
    · rw [endStream_mayInput, endStream_input]
      exact ⟨unfeed_mayInput, unfeed_input⟩
    · exact ⟨unfeed_mayInput, unfeed_input⟩

theorem stopCarrier_attached : (self.stopCarrier window generation).attached = self.attached := by
  cases hentry : self.streams.lookup window with
  | none => rw [stopCarrier_none hentry]
  | some entry =>
    rw [stopCarrier_eq hentry]
    dsimp only
    split
    · rw [endStream_attached]
      exact unfeed_attached
    · exact unfeed_attached

theorem lastWord_stopCarrier (hentry : self.streams.lookup window = some entry) :
    lastWord w (self.stopCarrier window generation).sent =
      if window = w ∧ (entry.without generation).carriers.keys = [] then some false
      else lastWord w self.sent := by
  rw [stopCarrier_eq hentry]
  dsimp only
  by_cases hempty : (entry.without generation).carriers.keys = []
  · simp only [hempty, if_true, and_true, lastWord_endStream]
    exact if_congr Iff.rfl rfl lastWord_unfeed
  · rw [if_neg hempty, if_neg (fun h => hempty h.2)]
    exact lastWord_unfeed

/-- A stop that leaves no carrier drops nothing more. -/
theorem stopCarrier_feed (hentry : self.streams.lookup window = some entry) (i : ℕ) :
    (self.stopCarrier window generation).feeds[i]? = self.feeds[i]?.map fun feed =>
      if (entry.carriers.lookup generation).bind Carrier.feed = some i then { feed with stop := true } else feed := by
  rw [stopCarrier_eq hentry]
  dsimp only
  split
  case isTrue hempty =>
    have hnone : (entry.without generation).carriers.entries = [] := List.map_eq_nil_iff.mp hempty
    rw [endStream_feeds, drop_feed, hnone]
    simp only [List.map_nil, List.not_mem_nil, if_false, Option.map_id']
    exact unfeed_feed i
  case isFalse => exact unfeed_feed i

theorem stopCarrier_windows (hentry : self.streams.lookup window = some entry) (w : WindowId) :
    (self.stopCarrier window generation).windows.lookup w =
      if w = window ∧ ((entry.carriers.lookup generation).any fun carrier => sessionTrack carrier.kind) = true then none
      else self.windows.lookup w := by
  rw [stopCarrier_eq hentry]
  dsimp only
  split
  case isTrue hempty =>
    have hnone : (entry.without generation).carriers.entries = [] := List.map_eq_nil_iff.mp hempty
    rw [lookup_endStream, hnone]
    simp only [List.any_nil, Bool.false_eq_true, and_false, if_false]
    exact lookup_unfeed w
  case isFalse => exact lookup_unfeed w

end

end Serving

end WindowCast.Stream
