import WindowCast.GameStream.Control
import WindowCast.GameStream.Windows

/-!
# A stream, and the server behind it

After `/launch` a client announces its stream, and a thread of its own runs it: three
ports one after the other, the client's first ping, the app's picture and where its input
goes, then frame after frame.  Beside it run the thread of the sound, which has the audio
port, that of the control stream, the one that listens to it, and the one that delivers
the input (`stream.rs`, `server.rs`, `compat.rs`).

## Main definitions

* `announce` — what a client asks for.
* `Run.main`, `Run.listens`, `Audio.step`, `Run.step` — a step of one of the threads.
* `Server.step` — a request, a change of the windows, or a step of a stream.
-/

namespace WindowCast.GameStream

open WindowCast.Host (WindowId)

/-- An IP address. -/
abbrev Ip := List UInt8

/-- The code outside: the cipher, and what the input messages are read as. -/
structure Platform where
  gcm : Aes128Gcm
  reading : Reading

/-! ### Launches -/

/-- What a client asked for in its ANNOUNCE. -/
structure StreamConfig where
  width : UInt32
  height : UInt32
  fps : UInt32
  bitrateKbps : UInt32
  /-- The second header and the payload of each video packet. -/
  packetSize : UInt32
  /-- 0 H.264, 1 HEVC, 2 AV1. -/
  codec : UInt32
  videoEncrypted : Bool
  /-- Milliseconds of sound in each audio packet. -/
  audioMs : UInt32
  audioEncrypted : Bool
  deriving DecidableEq

/-- A launched app, waiting for or in its stream. -/
structure Launch where
  app : UInt32
  key : Vector UInt8 16
  width : UInt32
  height : UInt32
  fps : UInt32
  /-- What the client's pings carry. -/
  pingPayload : List UInt8
  /-- What the client's connect carries. -/
  connectData : UInt32
  /-- Set to end the stream. -/
  stop : Bool
  streaming : Bool
  deriving DecidableEq

def ssVideoEncryption : UInt32 := 0x02
def ssAudioEncryption : UInt32 := 0x04
def nvAudioEncryption : UInt32 := 0x20

/-- The stream settings in an ANNOUNCE, whose attributes are read as numbers. -/
def announce (number : String → Option UInt32) (launch : Launch) : Option StreamConfig := do
  let packetSize ← number "x-nv-video[0].packetSize"
  let enabled := (number "x-ss-general.encryptionEnabled").getD 0
  some {
    width := (number "x-nv-video[0].clientViewportWd").getD launch.width
    height := (number "x-nv-video[0].clientViewportHt").getD launch.height
    fps := (number "x-nv-video[0].maxFPS").getD launch.fps
    bitrateKbps := (number "x-nv-vqos[0].bw.maximumBitrateKbps").getD 10000
    packetSize := packetSize
    codec := (number "x-nv-vqos[0].bitStreamFormat").getD 0
    videoEncrypted := enabled &&& ssVideoEncryption ≠ 0
    audioMs := if number "x-nv-aqos.packetDuration" = some 10 then 10 else 5
    audioEncrypted := (number "x-nv-general.featureFlags").getD 0 &&& nvAudioEncryption ≠ 0
      ∨ enabled &&& ssAudioEncryption ≠ 0 }

/-- What a port takes as the client's ping: the launch's payload, or the old `PING`, from
where the RTSP request came from. -/
def isPing (pingPayload : List UInt8) (rtspPeer : Option Ip) (ping : List UInt8) (peer : Ip) : Bool :=
  (16 ≤ ping.length ∧ ping.take 16 = pingPayload ∨ ping = [0x50, 0x49, 0x4E, 0x47]) ∧ rtspPeer.all (· = peer)

/-! ### The thread of the sound -/

inductive AudioPhase
  /-- The port is bound, and the thread not yet there. -/
  | bound
  | waiting
  /-- There is no sound, and pings are taken. -/
  | draining
  | playing
  | ended
  deriving DecidableEq

/-- What the thread of the sound meets. -/
inductive Hears
  /-- A ping or nothing, and whether the encoder would start. -/
  | ping (datagram : Option (List UInt8 × Ip)) (encoder : Bool)
  /-- Samples that are encoded, or none, or an encoder that fails. -/
  | samples (encoded : Bool)

structure Audio where
  /-- The app has a sound. -/
  sound : Bool
  phase : AudioPhase
  deriving DecidableEq

/-- One turn of the thread: it ends once the launch is stopped, and with the sound. -/
def Audio.step (ours : List UInt8 → Ip → Bool) (stop : Bool) (self : Audio) (e : Hears) : Option Audio :=
  match self.phase, e with
  | .waiting, .ping datagram encoder =>
    some (if stop then { self with phase := .ended }
      else if datagram.any fun d => ours d.1 d.2 then
        if ¬self.sound then { self with phase := .draining }
        else { self with phase := if encoder then .playing else .ended }
      else self)
  | .draining, .ping _ _ => some (if stop then { self with phase := .ended } else self)
  | .playing, .samples encoded => some (if stop ∨ ¬encoded then { self with phase := .ended } else self)
  | _, _ => none

/-! ### One stream -/

/-- Where the thread of a stream is. -/
inductive Phase
  | bindVideo
  | bindAudio
  /-- Whether the app is shown, before its sound. -/
  | soundCheck
  | soundFind
  | bindControl
  | pinging
  | openCheck
  | openFind
  | inputCheck
  | inputFind
  | streaming
  /-- The next frame is awaited; a keyframe, if asked. -/
  | grabbing (keyframe : Bool)
  /-- Stopped, and waiting for the listener and the sound to end. -/
  | stopping
  | returned
  /-- The launch is marked as not streaming. -/
  | cleared
  deriving DecidableEq

inductive Listener
  | absent
  | checking
  | receiving
  | ended
  deriving DecidableEq

/-- The ports a stream takes. -/
inductive Port
  | video
  | audio
  | control
  deriving DecidableEq

/-- One stream of a launch, with its threads. -/
structure Run where
  /-- The launch, by its place. -/
  launch : ℕ
  config : StreamConfig
  rtspPeer : Option Ip
  phase : Phase
  /-- The video port is bound. -/
  video : Bool
  audio : Option Audio
  control : Option Control
  /-- Whose picture it is. -/
  source : Option WindowId
  /-- Where the client's input goes, and the thread behind it. -/
  sink : Option (WindowInput × Delivering)
  listener : Listener
  wantsKeyframe : Bool
  left : Bool
  packetizer : Packetizer
  cipher : Option VideoCipher
  /-- The initialization vectors its video packets were sealed with. -/
  ivs : List (List UInt8)

/-- What leaves the host's endpoint. -/
inductive Output
  /-- A video packet, of a window's picture. -/
  | video (window : Option WindowId) (packet : List UInt8)
  | control (packet : List UInt8)
  /-- Input that is delivered. -/
  | input (input : Stream.Input)

/-- The window some output is of. -/
def Output.window : Output → Option WindowId
  | .video window _ => window
  | .control _ => none
  | .input sent => target sent

/-- What the thread of a stream meets. -/
inductive Meets
  | nothing
  /-- A port is bound, unless another program has it. -/
  | bind (taken : Bool)
  /-- A ping or nothing, and whether it has been too long. -/
  | ping (late : Bool) (datagram : Option (List UInt8 × Ip))
  /-- The picture or the sound is opened, or cannot be. -/
  | opens (opened : Bool)
  | frame (data : List UInt8) (idr : Bool) (timestamp : UInt32)
  /-- The picture has ended. -/
  | ends

namespace Run

def new (launch : ℕ) (key : Vector UInt8 16) (config : StreamConfig) (rtspPeer : Option Ip) : Run where
  launch := launch
  config := config
  rtspPeer := rtspPeer
  phase := .bindVideo
  video := false
  audio := none
  control := none
  source := none
  sink := none
  listener := .absent
  wantsKeyframe := true
  left := false
  packetizer := .new config.packetSize.toNat
  cipher := if config.videoEncrypted then some (.new key) else none
  ivs := []

/-- Whether one of its threads has the port. -/
def holds (self : Run) : Port → Bool
  | .video => self.video
  | .audio => self.audio.any fun audio => audio.phase ≠ .ended
  | .control => self.control.any fun control => ¬control.ended

/-- The thread returns: its socket, its picture and its end of the control stream go. -/
def returns (self : Run) : Run :=
  { self with
    phase := .returned
    video := false
    source := none
    control := self.control.map fun control =>
      { control with hungUp := true, deaf := control.deaf ∨ self.listener = .absent } }

/-- The sound is there or not, and its thread begins. -/
def hears (self : Run) (sound : Bool) : Run := { self with audio := some ⟨sound, .waiting⟩, phase := .bindControl }

/-- The thread that listens begins, with where the input goes. -/
def streams (self : Run) (window : Option WindowId) : Run :=
  { self with
    sink := window.map fun window => (.new window self.config.width self.config.height, .new)
    listener := .checking
    phase := .streaming }

/-- Queues the message that ends the client's stream. -/
def terminate (self : Run) : Run :=
  { self with
    control := self.control.map fun control =>
      { control with
        outgoing := control.outgoing
          ++ [⟨Control.termination, BigEndian.toBytes 4 Control.terminationGraceful, Control.channelGeneric, true⟩] }
    phase := .stopping }

/-- Sends one frame. -/
def sends (gcm : Aes128Gcm) (self : Run) (data : List UInt8) (idr : Bool) (timestamp : UInt32) : List Output × Run :=
  let (packets, packetizer) := self.packetizer.packets data idr timestamp
  let (ivs, sent, cipher) := VideoCipher.sealAll gcm self.cipher packets
  (sent.map (.video self.source),
    { self with packetizer := packetizer, cipher := cipher, ivs := self.ivs ++ ivs, phase := .streaming })

/-- A step of the thread of the stream. -/
def main (gcm : Aes128Gcm) (apps : CompatApps) (launch : Launch) (taken : Port → Bool) (self : Run) (e : Meets) :
    Option (List Output × Run) :=
  match self.phase, e with
  | .bindVideo, .bind other =>
    some ([], if taken .video ∨ other then self.returns else { self with video := true, phase := .bindAudio })
  | .bindAudio, .bind other =>
    some ([], if taken .audio ∨ other then self.returns
      else { self with audio := some ⟨false, .bound⟩, phase := .soundCheck })
  | .soundCheck, .nothing => some ([], if apps.shows launch.app then { self with phase := .soundFind } else self.hears false)
  | .soundFind, .opens opened => some ([], self.hears ((apps.window launch.app).isSome ∧ opened))
  | .bindControl, .bind other =>
    some ([], if taken .control ∨ other then self.returns
      else { self with control := some .new, phase := .pinging })
  | .pinging, .ping late datagram =>
    some ([], if launch.stop ∨ late then self.returns
      else if datagram.any fun d => isPing launch.pingPayload self.rtspPeer d.1 d.2 then
        { self with phase := .openCheck }
      else self)
  | .openCheck, .nothing => some ([], if apps.shows launch.app then { self with phase := .openFind } else self.returns)
  | .openFind, .opens opened =>
    some ([], match apps.window launch.app with
      | some window => if opened then { self with source := some window, phase := .inputCheck } else self.returns
      | none => self.returns)
  | .inputCheck, .nothing => some ([], if apps.shows launch.app then { self with phase := .inputFind } else self.streams none)
  | .inputFind, .nothing => some ([], self.streams (apps.window launch.app))
  | .streaming, .nothing =>
    some ([], if launch.stop then self.terminate
      else if self.left then self.returns
      else { self with wantsKeyframe := false, phase := .grabbing self.wantsKeyframe })
  | .grabbing _, .frame data idr timestamp => some (self.sends gcm data idr timestamp)
  | .grabbing _, .ends => some ([], { self with left := true }.returns)
  | .stopping, .nothing =>
    -- joins the listener and the sound
    if self.listener = .ended ∧ self.audio.all fun audio => audio.phase = .ended then some ([], self.returns) else none
  | _, _ => none

/-- The listener ends: the client counts as gone, and the sink goes. -/
def unlisten (self : Run) : Run :=
  { self with
    listener := .ended
    left := true
    sink := self.sink.map fun sink => (sink.1, { sink.2 with closed := true })
    control := self.control.map fun control => { control with deaf := true } }

/-- Some input, into the sink. -/
def input (reading : Reading) (self : Run) (payload : List UInt8) : Run :=
  { self with
    sink := self.sink.map fun sink =>
      let (sent, input) := sink.1.inputs reading (reading.parse payload)
      (input, { sink.2 with queue := sink.2.queue ++ sent }) }

/-- What the listener makes of an event. -/
def hear (reading : Reading) (self : Run) : ControlEvent → Run
  | .connected => self
  | .message kind payload =>
    if kind = Control.requestIdr ∨ kind = Control.invalidateRefs then { self with wantsKeyframe := true }
    else if kind = Control.inputMessage then self.input reading payload
    else self
  | .disconnected => self.unlisten

/-- A step of the listener. -/
def listens (reading : Reading) (stop : Bool) (self : Run) : Option Run :=
  match self.listener, self.control with
  | .checking, _ => some (if stop ∨ self.left then self.unlisten else { self with listener := .receiving })
  | .receiving, some control =>
    match control.events with
    | event :: events =>
      some ({ self with control := some { control with events := events }, listener := .checking }.hear reading event)
    | [] =>
      -- no more events will come, or none came in time
      some (if control.ended then self.unlisten else { self with listener := .checking })
  | _, _ => none

/-- What a thread of the stream does next. -/
inductive Event
  | main (meets : Meets)
  | audio (hears : Hears)
  | control (service : Service)
  | listen
  | deliver

/-- A step of one of its threads. -/
def step (platform : Platform) (apps : CompatApps) (launch : Launch) (taken : Port → Bool) (self : Run) :
    Event → Option (List Output × Run)
  | .main meets => self.main platform.gcm apps launch taken meets
  | .audio hears => do
    let audio ← self.audio
    let audio ← audio.step (isPing launch.pingPayload self.rtspPeer) launch.stop hears
    some ([], { self with audio := some audio })
  | .control service => do
    let control ← self.control
    let (sent, control) ← control.step platform.gcm launch.key launch.connectData service
    some (sent.map .control, { self with control := some control })
  | .listen => do
    let self ← self.listens platform.reading launch.stop
    some ([], self)
  | .deliver => do
    let (input, thread) ← self.sink
    let (out, thread) ← thread.step
    some (out.map .input, { self with sink := some (input, thread) })

end Run

/-! ### The server -/

structure Server where
  apps : CompatApps
  launches : List Launch
  /-- The launched app, if any. -/
  launch : Option ℕ
  runs : List Run
  /-- What the last step sent or delivered. -/
  out : List Output

namespace Server

/-- The windows listed so far, and none in compatibility mode. -/
def new (windows : List WindowId) : Server := ⟨⟨windows, ∅⟩, [], none, [], []⟩

/-- What the server is asked or meets. -/
inductive Event
  /-- A window goes into compatibility mode. -/
  | shows (window : WindowId) (title : Text)
  /-- A window's guard is dropped. -/
  | drops (window : WindowId)
  /-- The host lists other windows. -/
  | lists (windows : List WindowId)
  /-- `/launch` or `/resume`, with the client's key, its mode and the launch's random data. -/
  | launch (resume : Bool) (app : UInt32) (key : Vector UInt8 16) (mode : UInt32 × UInt32 × UInt32)
      (pingPayload : List UInt8) (connectData : UInt32)
  | cancel
  /-- An ANNOUNCE for a launch. -/
  | announce (launch : ℕ) (number : String → Option UInt32) (rtspPeer : Option Ip)
  /-- A step of a stream. -/
  | run (run : ℕ) (event : Run.Event)
  /-- The thread of a stream that has returned clears its launch's mark. -/
  | clears (run : ℕ)

/-- The launched app, unless it is stopped. -/
def running (self : Server) : Option Launch := do
  let launch ← self.launches[← self.launch]?
  if launch.stop then none else some launch

/-- The launched app is told to stop. -/
def stopped (self : Server) : List Launch :=
  match self.launch with
  | some launch => self.launches.modify launch fun launch => { launch with stop := true }
  | none => self.launches

/-- Whether a stream's thread has the port. -/
def taken (self : Server) (port : Port) : Bool := self.runs.any fun run => run.holds port

/-- `/launch`: an app that is shown, unless one runs; `/resume`: the one that runs. -/
def allows (self : Server) (resume : Bool) (app : UInt32) : Option UInt32 :=
  match resume, self.running with
  | true, some running => some running.app
  | true, none => none
  | false, some _ => none
  | false, none => if self.apps.shows app then some app else none

def step (platform : Platform) (self : Server) (e : Event) : Option Server :=
  match e with
  | .shows window title => some { self with apps := self.apps.open window title, out := [] }
  | .drops window => some { self with apps := self.apps.drop window, out := [] }
  | .lists windows => some { self with apps := { self.apps with windows := windows }, out := [] }
  | .launch resume app key mode pingPayload connectData =>
    match self.allows resume app with
    | none => some { self with out := [] }
    | some app =>
      let launch : Launch := ⟨app, key, mode.1, mode.2.1, mode.2.2, pingPayload, connectData, false, false⟩
      some { self with launches := self.stopped ++ [launch], launch := some self.launches.length, out := [] }
  | .cancel => some { self with launches := self.stopped, launch := none, out := [] }
  | .announce i number rtspPeer => do
    let launch ← self.launches[i]?
    match announce number launch with
    | none => some { self with out := [] }
    | some config =>
      if config.codec ≠ 0 ∨ launch.streaming then some { self with out := [] }
      else
        some { self with
          launches := self.launches.modify i fun launch => { launch with streaming := true }
          runs := self.runs ++ [.new i launch.key config rtspPeer]
          out := [] }
  | .run i event => do
    let run ← self.runs[i]?
    let launch ← self.launches[run.launch]?
    let (out, run) ← run.step platform self.apps launch self.taken event
    some { self with runs := self.runs.set i run, out := out }
  | .clears i => do
    let run ← self.runs[i]?
    if run.phase = .returned then
      some { self with
        launches := self.launches.modify run.launch fun launch => { launch with streaming := false }
        runs := self.runs.set i { run with phase := .cleared }
        out := [] }
    else none

end Server

end WindowCast.GameStream
