import WindowCast.Lib.Latest
import WindowCast.Lib.Run
import WindowCast.Stream.Serving

/-!
# The carriers of a window, on the client

`start_window`, `switch_window`, `carrier_shown`, `abandon_switch`, `connect_rdp` and
`stream_start_event` of `client-core/src/lib.rs`.  The application's threads, the task that reads
the host's messages, the timers of the switches and the threads that log in over RDP share the
tables of a session, each behind a lock of its own; a step here is what one of them does under
one lock.

The frame queues and what is sent along with a start (codecs, limits) are left out, and a login
over RDP is its result.

## Main definitions

* `Shared`, `Shared.step` — what the threads share, and a step of one of them.
* `Entry` — what happened: what was shown, announced, and given up.

## Main results

* `Shared.lookup_insert_bind` — what the table of carriers says behind a change.
* `Shared.abandonSwitch_eq` — when a switch is given up.
* `Shared.startSwitch_cases` — when one is started.
-/

namespace WindowCast.Client

open WindowCast.Host (WindowId)
open WindowCast.Stream (BackendKind serve)
open WindowCast.Transport (VideoCodec)

namespace Switching

/-! ### Messages and events -/

inductive StreamBackend
  | native (codec : VideoCodec)
  | passthrough (codec : VideoCodec)
  | desktop (codec : VideoCodec)
  | gameStream
  | rdp
  | vnc
  | other (protocol : Text)
  deriving DecidableEq, Repr

def StreamBackend.kind : StreamBackend → BackendKind
  | .native _ => .native
  | .passthrough _ => .passthrough
  | .desktop _ => .desktop
  | .gameStream => .gameStream
  | .rdp => .rdp
  | .vnc => .vnc
  | .other _ => .other

/-- The codec of the video track this backend sends on the session. -/
def StreamBackend.sessionCodec : StreamBackend → Option VideoCodec
  | .native codec | .passthrough codec | .desktop codec => some codec
  | _ => none

/-- What the host was asked to start: the client's number for a carrier. -/
structure Request where
  window : WindowId
  generation : ℕ
  backend : BackendKind
  deriving DecidableEq, Repr

/-- The answer to a start. -/
structure StreamStartResponse where
  accepted : Bool
  backend : StreamBackend
  /-- It says where to connect. -/
  handoff : Bool
  reason : Option Text
  deriving DecidableEq, Repr

/-- The client has to log in first. -/
def StreamStartResponse.logsIn (self : StreamStartResponse) : Bool :=
  self.accepted && self.backend = .rdp && self.handoff

/-- What the client sends besides its starts. -/
inductive ControlMessage
  | carrierStop (window : WindowId) (generation : ℕ)
  | streamStopRequest (window : WindowId)
  deriving DecidableEq, Repr

inductive Event
  | streamStarted (window : WindowId) (backend : BackendKind) (codec : Option VideoCodec)
  | streamRefused (window : WindowId) (reason : Text)
  | streamStopped (window : WindowId)
  | carrierStarted (window : WindowId) (generation : ℕ) (backend : BackendKind) (codec : Option VideoCodec)
  | carrierRefused (window : WindowId) (generation : ℕ) (reason : Text)
  deriving DecidableEq, Repr

/-- One carrier of a window's stream. -/
structure Carrier where
  generation : ℕ
  backend : BackendKind
  deriving DecidableEq, Repr

/-- What happened in a session. -/
inductive Entry
  /-- A carrier is the one on screen from now on. -/
  | shows (window : WindowId) (carrier : Carrier)
  /-- The window's stream ended, and nothing is on screen. -/
  | forgot (window : WindowId)
  /-- The pending switch to a carrier was ended. -/
  | gaveUp (window : WindowId) (generation : ℕ)
  /-- The application is told, because of a carrier. -/
  | announced (generation : ℕ) (event : Event)
  /-- The host is asked to stop the window's stream, because of a carrier. -/
  | asksStop (window : WindowId) (generation : ℕ)
  | sent (message : ControlMessage)
  deriving DecidableEq, Repr

/-! ### Carriers and threads -/

structure Carriers where
  shown : Option Carrier
  next : Option Carrier
  /-- The timer that gives `next` up if it shows nothing in time. -/
  givingUp : Option ℕ
  deriving DecidableEq, Repr

def Carriers.default : Carriers := ⟨none, none, none⟩

/-- A thread or a task, and how far it has come. -/
inductive Task
  /-- A switch has been asked for; its timer is to be kept. -/
  | recording (window : WindowId) (generation timer : ℕ)
  /-- A carrier was replaced on screen. -/
  | dropping (window : WindowId) (old : Carrier)
  /-- A timer, before its time. -/
  | timer (window : WindowId) (generation : ℕ)
  /-- A login has failed: the switch is to be given up. -/
  | abandoning (window : WindowId) (generation : ℕ) (reason : Text)
  /-- A switch was given up; `cut` if the task was aborted since. -/
  | abandoned (window : WindowId) (next : Carrier) (reason : Text) (cut : Bool)
  | login (window : WindowId) (generation : ℕ)
  /-- A login went well; `switching` is what was seen then. -/
  | loggedIn (window : WindowId) (generation : ℕ) (switching : Bool)
  /-- The connection has been kept. -/
  | inserted (window : WindowId) (generation : ℕ) (switching : Bool)
  | announcing (generation : ℕ) (event : Event)
  /-- The host is to be asked to stop the stream. -/
  | asking (window : WindowId) (generation : ℕ)
  | done
  deriving DecidableEq, Repr

/-- An aborted task ends where it waits next; a timer waits for its time, and for its message to be sent. -/
def Task.abort : Task → Task
  | .timer _ _ => .done
  | .abandoned window next reason _ => .abandoned window next reason true
  | task => task

/-- The task that reads the host's messages. -/
inductive Pump
  | idle
  /-- A refusal of the pending switch was read. -/
  | ending (window : WindowId) (generation : ℕ) (reason : Text)
  /-- The first carrier of a window is up. -/
  | starting (window : WindowId) (generation : ℕ) (backend : StreamBackend)
  | announcing (generation : ℕ) (event : Event)
  /-- A window's stream ended. -/
  | forgetting (window : WindowId)
  deriving DecidableEq, Repr

/-- What the threads of a session share, and the threads. -/
structure Shared where
  /-- Each window's carrier on screen and, during a switch, the next. -/
  carriers : AList fun _ : WindowId => Carriers
  /-- The connections of windows over RDP, by the carrier they were made for. -/
  rdp : AList fun _ : WindowId => ℕ
  /-- The last carrier generation asked for, per window. -/
  generations : AList fun _ : WindowId => ℕ
  /-- The starts that the host has not answered. -/
  asked : List Request
  pump : Pump
  tasks : List Task
  log : List Entry
  deriving DecidableEq

namespace Shared

def new : Shared := ⟨∅, ∅, ∅, [], .idle, [], []⟩

def entry (self : Shared) (window : WindowId) : Carriers := (self.carriers.lookup window).getD .default

def next (self : Shared) (window : WindowId) : Option Carrier := (self.carriers.lookup window).bind Carriers.next

def shown (self : Shared) (window : WindowId) : Option Carrier := (self.carriers.lookup window).bind Carriers.shown

/-- The last generation asked for. -/
def last (self : Shared) (window : WindowId) : ℕ := (self.generations.lookup window).getD 0

/-- The table of carriers changes, and something happens. -/
def enter (self : Shared) (carriers : AList fun _ : WindowId => Carriers) (e : Entry) : Shared :=
  { self with carriers := carriers, log := self.log ++ [e] }

def note (self : Shared) (e : Entry) : Shared := self.enter self.carriers e

def emit (self : Shared) (generation : ℕ) (event : Event) : Shared := self.note (.announced generation event)

def setTask (self : Shared) (i : ℕ) (task : Task) : Shared := { self with tasks := self.tasks.set i task }

def spawn (self : Shared) (task : Task) : Shared := { self with tasks := self.tasks ++ [task] }

def abort (self : Shared) (timer : ℕ) : Shared := { self with tasks := self.tasks.modify timer Task.abort }

def setPump (self : Shared) (pump : Pump) : Shared := { self with pump := pump }

def removeRdp (self : Shared) (window : WindowId) : Shared := { self with rdp := self.rdp.erase window }

/-- Whether `generation` is the carrier a switch of `window` waits for. -/
def switching (self : Shared) (window : WindowId) (generation : ℕ) : Bool :=
  (self.next window).any fun next => next.generation = generation

/-- A window's first carrier is up. -/
def started (self : Shared) (window : WindowId) (generation : ℕ) (backend : BackendKind) : Shared :=
  self.enter (self.carriers.insert window { self.entry window with shown := some ⟨generation, backend⟩ })
    (.shows window ⟨generation, backend⟩)

/-- The timer that would have given a switch up ends with it, unless the timer is the caller. -/
def endTimer (self : Shared) (entry : Carriers) (callerIsTimer : Bool) : Shared :=
  match entry.givingUp with
  | some timer => if callerIsTimer then self else self.abort timer
  | none => self

/-- The pending switch ends, and its carrier is not shown. -/
def endSwitch (self : Shared) (window : WindowId) (entry : Carriers) (callerIsTimer : Bool) : Shared :=
  let carriers := self.carriers.insert window { entry with next := none, givingUp := none }
  match entry.next with
  | some next => (self.endTimer entry callerIsTimer).enter carriers (.gaveUp window next.generation)
  | none => { self.endTimer entry callerIsTimer with carriers := carriers }

/-- Ends a switch that did not happen; the rest of it is in `Task.abandoned`. -/
def abandonSwitch (self : Shared) (window : WindowId) (generation : ℕ) (callerIsTimer : Bool) :
    Option (Carrier × Shared) :=
  (self.carriers.lookup window).bind fun entry =>
    entry.next.bind fun next =>
      if next.generation = generation then some (next, self.endSwitch window entry callerIsTimer) else none

/-- The next carrier generation of a window's stream, a number of 32 bits. -/
def nextGeneration (self : Shared) (window : WindowId) : ℕ × Shared :=
  let next := (self.last window + 1) % 2 ^ 32
  (next, { self with generations := self.generations.insert window next })

/-- A start is sent. -/
def ask (self : Shared) (request : Request) : Shared := { self with asked := self.asked ++ [request] }

/-- What `start_switch` does before it sends its start: the number of the new carrier, or an error. -/
def startSwitch (self : Shared) (window : WindowId) (backend : BackendKind) (pictures : Bool) :
    Except Text ℕ × Shared :=
  if backend = .rdp ∧ pictures = false then
    (.error "RDP needs the host on this network and a client that shows pictures".toList, self)
  else
    let entry := self.entry window
    let self := { self with carriers := self.carriers.insert window entry }
    match entry.shown with
    | none => (.error "that window is not streaming".toList, self)
    | some shown =>
      if entry.next.isSome then (.error "that window is already switching".toList, self)
      else if shown.backend = backend then (.error ("that window is already on ".toList ++ backend.name), self)
      else
        let (generation, self) := self.nextGeneration window
        (.ok generation, { self with
          carriers := self.carriers.insert window { entry with next := some ⟨generation, backend⟩ } })

/-- The start is sent and the timer set; no one meets either before. -/
def sendSwitch (self : Shared) (window : WindowId) (generation : ℕ) (backend : BackendKind) : Shared :=
  ((self.ask ⟨window, generation, backend⟩).spawn (.timer window generation)).spawn
    (.recording window generation self.tasks.length)

/-- The application showed the first picture of a carrier: it replaces the old one. -/
def carrierShown (self : Shared) (window : WindowId) (generation : ℕ) : Shared :=
  match self.carriers.lookup window with
  | none => self
  | some entry =>
    match entry.next with
    | none => self
    | some next =>
      if next.generation = generation then
        let self := (self.endTimer entry false).enter
          (self.carriers.insert window { shown := some next, next := none, givingUp := none }) (.shows window next)
        match entry.shown with
        | some old => self.spawn (.dropping window old)
        | none => self
      else self

/-- The application was told that the carrier is up. -/
def toldStarted (self : Shared) (window : WindowId) (generation : ℕ) : Bool :=
  self.log.any fun e => match e with
    | .announced _ (.carrierStarted window' generation' _ _) => window' = window ∧ generation' = generation
    | _ => false

/-- What an answer means: a switch's outcome, a new stream's start, or its refusal. -/
def answer (self : Shared) (request : Request) (response : StreamStartResponse) : Shared :=
  let window := request.window
  let generation := request.generation
  if response.logsIn then self.spawn (.login window generation)
  else if self.switching window generation then
    if response.accepted then
      self.setPump (.announcing generation
        (.carrierStarted window generation response.backend.kind response.backend.sessionCodec))
    else self.setPump (.ending window generation (response.reason.getD []))
  else if response.accepted then self.setPump (.starting window generation response.backend)
  else self.setPump (.announcing generation (.streamRefused window (response.reason.getD [])))

def pumpStep (self : Shared) : Option Shared :=
  match self.pump with
  | .idle => none
  | .ending window generation reason =>
    let ended := match self.carriers.lookup window with
      | some entry => self.endSwitch window entry false
      | none => self
    some (ended.setPump (.announcing generation (.carrierRefused window generation reason)))
  | .starting window generation backend =>
    some ((self.started window generation backend.kind).setPump
      (.announcing generation (.streamStarted window backend.kind backend.sessionCodec)))
  | .announcing generation event => some ((self.emit generation event).setPump .idle)
  | .forgetting window =>
    some ((self.enter (self.carriers.erase window) (.forgot window)).setPump (.announcing 0 (.streamStopped window)))

/-- A task gives a switch up, if it is still that one's. -/
def abandon (self : Shared) (i : ℕ) (window : WindowId) (generation : ℕ) (reason : Text) (callerIsTimer : Bool) :
    Shared :=
  match self.abandonSwitch window generation callerIsTimer with
  | some (next, self) => self.setTask i (.abandoned window next reason false)
  | none => self.setTask i .done

/-- How long a switch's new carrier has to show its first picture, in seconds. -/
def SWITCH_WITHIN : ℕ := 5

/-- The next step of a task; `failure` is the login's, or says that an aborted task ends. -/
def taskStep (self : Shared) (i : ℕ) (failure : Option Text) : Task → Option Shared
  | .recording window generation timer =>
    match self.carriers.lookup window with
    | none => some (self.setTask i .done)
    | some entry =>
      if entry.next.any fun next => next.generation = generation then
        some ({ self with
          carriers := self.carriers.insert window { entry with givingUp := some timer } }.setTask i .done)
      -- the switch ended before the timer could be kept
      else some ((self.abort timer).setTask i .done)
  | .dropping window old =>
    let self := if old.backend = .rdp then self.removeRdp window else self
    some ((self.note (.sent (.carrierStop window old.generation))).setTask i .done)
  | .timer window generation =>
    some (self.abandon i window generation
      ("no picture within ".toList ++ (toString SWITCH_WITHIN).toList ++ " s".toList) true)
  | .abandoning window generation reason => some (self.abandon i window generation reason false)
  | .abandoned window next reason cut =>
    let self := if next.backend = .rdp then self.removeRdp window else self
    if failure.isSome then if cut then some (self.setTask i .done) else none
    else
      some ((self.note (.sent (.carrierStop window next.generation))).setTask i
        (.announcing next.generation (.carrierRefused window next.generation reason)))
  | .login window generation =>
    let switching := self.switching window generation
    match failure with
    | none => some (self.setTask i (.loggedIn window generation switching))
    | some reason =>
      let reason := "RDP: ".toList ++ reason
      if switching then some (self.setTask i (.abandoning window generation reason))
      else
        some ((self.spawn (.asking window generation)).setTask i
          (.announcing generation (.streamRefused window reason)))
  | .loggedIn window generation switching =>
    some ({ self with rdp := self.rdp.insert window generation }.setTask i (.inserted window generation switching))
  | .inserted window generation switching =>
    if switching then
      some ((self.emit generation (.carrierStarted window generation .rdp none)).setTask i .done)
    else
      some ((self.started window generation .rdp).setTask i
        (.announcing generation (.streamStarted window .rdp none)))
  | .announcing generation event => some ((self.emit generation event).setTask i .done)
  | .asking window generation => some ((self.note (.asksStop window generation)).setTask i .done)
  | .done => none

end Shared

/-- Who does something, and what. -/
inductive Act
  /-- The application starts a window; `sent` if the start goes out. -/
  | startWindow (window : WindowId) (backend : BackendKind) (sent : Bool)
  /-- `pictures` if a window over RDP can be shown here. -/
  | startSwitch (window : WindowId) (backend : BackendKind) (pictures sent : Bool)
  | carrierShown (window : WindowId) (generation : ℕ)
  | stopWindow (window : WindowId)
  /-- The host answers a start, with one of the backends it has. -/
  | answer (i : ℕ) (available : List BackendKind) (response : StreamStartResponse)
  | streamStopped (window : WindowId)
  /-- The task that reads messages goes on. -/
  | pump
  | task (i : ℕ) (failure : Option Text)
  deriving DecidableEq, Repr

namespace Shared

def step (self : Shared) : Act → Option Shared
  | .startWindow window backend sent =>
    let (generation, self) := self.nextGeneration window
    some (if sent then self.ask ⟨window, generation, backend⟩ else self)
  | .startSwitch window backend pictures sent =>
    match self.startSwitch window backend pictures with
    | (.error _, self) => some self
    | (.ok generation, self) => some (if sent then self.sendSwitch window generation backend else self)
  | .carrierShown window generation =>
    if self.toldStarted window generation then some (self.carrierShown window generation) else none
  | .stopWindow window => some ((self.removeRdp window).note (.sent (.streamStopRequest window)))
  | .answer i available response =>
    match self.pump, self.asked[i]? with
    | .idle, some request =>
      if response.accepted = true → response.backend.kind = serve request.backend available then
        some ({ self with asked := self.asked.eraseIdx i }.answer request response)
      else none
    | _, _ => none
  | .streamStopped window =>
    match self.pump with
    | .idle => some ((self.removeRdp window).setPump (.forgetting window))
    | _ => none
  | .pump => self.pumpStep
  | .task i failure => self.tasks[i]?.bind (self.taskStep i failure)

/-! ### The table of carriers -/

variable {self : Shared} {window w : WindowId} {entry : Carriers}

/-- What is asked of an entry of the table, behind a change of one. -/
theorem lookup_insert_bind {β : Type} (carriers : AList fun _ : WindowId => Carriers) (entry : Carriers)
    (f : Carriers → Option β) (window w : WindowId) :
    ((carriers.insert window entry).lookup w).bind f = if w = window then f entry else (carriers.lookup w).bind f := by
  by_cases hw : w = window
  · rw [if_pos hw, hw, AList.lookup_insert]
    rfl
  · rw [if_neg hw, AList.lookup_insert_ne hw]

theorem lookup_erase_bind {β : Type} (carriers : AList fun _ : WindowId => Carriers) (f : Carriers → Option β)
    (window w : WindowId) :
    ((carriers.erase window).lookup w).bind f = if w = window then none else (carriers.lookup w).bind f := by
  by_cases hw : w = window
  · rw [if_pos hw, hw, AList.lookup_erase]
    rfl
  · rw [if_neg hw, AList.lookup_erase_ne hw]

theorem next_eq (h : self.carriers.lookup w = some entry) : self.next w = entry.next := by
  rw [next, h]
  rfl

theorem shown_eq (h : self.carriers.lookup w = some entry) : self.shown w = entry.shown := by
  rw [shown, h]
  rfl

theorem entry_next (self : Shared) (w : WindowId) : (self.entry w).next = self.next w := by
  rw [Shared.entry, next]
  cases self.carriers.lookup w <;> rfl

theorem entry_shown (self : Shared) (w : WindowId) : (self.entry w).shown = self.shown w := by
  rw [Shared.entry, shown]
  cases self.carriers.lookup w <;> rfl

theorem switching_iff {generation : ℕ} :
    self.switching w generation = true ↔ ∃ carrier, self.next w = some carrier ∧ carrier.generation = generation := by
  rw [switching, Option.any_eq_true]
  exact exists_congr fun carrier => and_congr_right fun _ => decide_eq_true_iff

/-- A switch is given up where the window waits for it. -/
theorem abandonSwitch_eq (self : Shared) (window : WindowId) (generation : ℕ) (callerIsTimer : Bool) :
    (self.abandonSwitch window generation callerIsTimer = none ∧ self.switching window generation = false)
      ∨ ∃ entry next, self.carriers.lookup window = some entry ∧ entry.next = some next ∧ next.generation = generation
        ∧ self.abandonSwitch window generation callerIsTimer =
          some (next, self.endSwitch window entry callerIsTimer) := by
  rw [abandonSwitch, switching, next]
  cases hentry : self.carriers.lookup window with
  | none => exact Or.inl ⟨rfl, rfl⟩
  | some entry =>
    rw [Option.bind_some, Option.bind_some]
    cases hnext : entry.next with
    | none => exact Or.inl ⟨rfl, rfl⟩
    | some next =>
      rw [Option.bind_some, Option.any_some]
      by_cases hsame : next.generation = generation
      · exact Or.inr ⟨entry, next, rfl, hnext, hsame, if_pos hsame⟩
      · exact Or.inl ⟨if_neg hsame, decide_eq_false hsame⟩

/-- The end of a switch aborts one task at most. -/
theorem endTimer_eq (self : Shared) (entry : Carriers) (callerIsTimer : Bool) :
    self.endTimer entry callerIsTimer = self ∨ ∃ timer, self.endTimer entry callerIsTimer = self.abort timer := by
  rw [endTimer]
  cases entry.givingUp with
  | none => exact Or.inl rfl
  | some timer =>
    cases callerIsTimer with
    | true => exact Or.inl rfl
    | false => exact Or.inr ⟨timer, rfl⟩

/-- A switch is asked for where the window is on another carrier and waits for none. -/
theorem startSwitch_cases (backend : BackendKind) (pictures : Bool) (hlimit : self.last window + 1 < 2 ^ 32) :
    (∃ error carriers, (carriers = self.carriers ∨ carriers = self.carriers.insert window (self.entry window)) ∧
      self.startSwitch window backend pictures = (.error error, { self with carriers := carriers })) ∨
    (self.next window = none ∧ self.startSwitch window backend pictures = (.ok (self.last window + 1), { self with
      carriers := (self.carriers.insert window (self.entry window)).insert window
        { self.entry window with next := some ⟨self.last window + 1, backend⟩ }
      generations := self.generations.insert window (self.last window + 1) })) := by
  rw [startSwitch]
  by_cases hpictures : backend = .rdp ∧ pictures = false
  · rw [if_pos hpictures]
    exact Or.inl ⟨_, self.carriers, Or.inl rfl, rfl⟩
  rw [if_neg hpictures]
  dsimp only
  cases hshown : (self.entry window).shown with
  | none => exact Or.inl ⟨_, _, Or.inr rfl, rfl⟩
  | some shown =>
    dsimp only
    cases hnext : (self.entry window).next with
    | some next => exact Or.inl ⟨_, _, Or.inr rfl, if_pos rfl⟩
    | none =>
      rw [if_neg (by rw [Option.isSome_none]; exact Bool.false_ne_true)]
      by_cases hbackend : shown.backend = backend
      · rw [if_pos hbackend]
        exact Or.inl ⟨_, _, Or.inr rfl, rfl⟩
      · rw [if_neg hbackend]
        refine Or.inr ⟨(entry_next self window).symm.trans hnext, ?_⟩
        have hlast : Shared.last { self with carriers := self.carriers.insert window (self.entry window) } window =
            self.last window := rfl
        rw [nextGeneration, hlast, Nat.mod_eq_of_lt hlimit]

end Shared

end Switching

end WindowCast.Client
