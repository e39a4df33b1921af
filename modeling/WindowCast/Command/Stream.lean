import WindowCast.Lib.Run
import WindowCast.Lib.Table
import WindowCast.Lib.Text

/-!
# A session's command stream

The client opens channels for commands, and the host runs them.  Both ends have
threads of their own: on the client every call of `open` and the task that carries a
channel's commands to the host, on the host the session's task, and for every command
the readers of its output and the thread that waits for its end.  Control messages
arrive in the order they are sent.

## Main definitions

* `CommandMessage`, `dataMessages` — what goes over the wire.
* `Call.receive` — a message of the host, at the channel it is for.
* `Process.turn` — what the threads of a command do.
* `CommandStream`, `CommandStream.step` — both ends and what is on its way.

## Main results

* `flatten_chunks` — the messages of some bytes carry them.
* `Process.turned` — all that a thread of a command can do.
-/

namespace WindowCast.Command

/-! ### Messages -/

abbrev Bytes := List UInt8

abbrev ChannelId := BitVec 32

/-- The largest chunk of bytes one `data` carries. -/
def MAX_CHUNK : ℕ := 16 * 1024

/-- Channels one session may have open at once. -/
def MAX_CHANNELS : ℕ := 8

/-- How long a host has to answer an open, in milliseconds. -/
def OPEN_WITHIN : ℕ := 15000

/-- How long a host has to answer a launch it may run as a RemoteApp. -/
def REMOTE_APP_WITHIN : ℕ := 100000

inductive ChannelKind
  /-- A shell, a command, files, a watch or chat: a channel that stays open. -/
  | stream
  /-- An application, started detached. -/
  | launch (remoteApp : Bool)
  deriving DecidableEq, Repr

def ChannelKind.within : ChannelKind → ℕ
  | .launch true => REMOTE_APP_WITHIN
  | _ => OPEN_WITHIN

inductive CommandMessage
  | «open» (id : ChannelId) (kind : ChannelKind)
  | opened (id : ChannelId) (pid : Option ℕ)
  | passwordNeeded (id : ChannelId) (username : Text)
  | refused (id : ChannelId) (reason : Text)
  | data (id : ChannelId) (bytes : Bytes)
  | close (id : ChannelId)
  | exited (id : ChannelId) (code : Option ℤ)
  deriving DecidableEq, Repr

def CommandMessage.id : CommandMessage → ChannelId
  | .open id _ | .opened id _ | .passwordNeeded id _ | .refused id _ | .data id _ | .close id
  | .exited id _ => id

/-- Pieces of a size, as many as there are and at most so many. -/
def chunksUpTo {α : Type} (size : ℕ) : ℕ → List α → List (List α)
  | 0, _ => []
  | _, [] => []
  | n + 1, l => l.take size :: chunksUpTo size n (l.drop size)

def chunks {α : Type} (size : ℕ) (l : List α) : List (List α) := chunksUpTo size l.length l

theorem flatten_chunksUpTo {α : Type} {size : ℕ} (hsize : 0 < size) :
    ∀ (n : ℕ) (l : List α), l.length ≤ n → (chunksUpTo size n l).flatten = l := by
  intro n
  induction n with
  | zero =>
    intro l hl
    rw [List.length_eq_zero_iff.mp (Nat.le_zero.mp hl)]
    rfl
  | succ n ih =>
    intro l hl
    cases l with
    | nil => rfl
    | cons a l =>
      have hshort : ((a :: l).drop size).length ≤ n := by
        rw [List.length_drop]
        omega
      rw [chunksUpTo, List.flatten_cons, ih _ hshort, List.take_append_drop]
      exact List.cons_ne_nil _ _

/-- The pieces of a list make it up. -/
theorem flatten_chunks {α : Type} {size : ℕ} (hsize : 0 < size) (l : List α) :
    (chunks size l).flatten = l := flatten_chunksUpTo hsize _ l (Nat.le_refl _)

def dataMessages (id : ChannelId) (bytes : Bytes) : List CommandMessage :=
  (chunks MAX_CHUNK bytes).map (.data id)

/-! ### The client -/

/-- What a channel reports. -/
inductive ChannelEvent
  | data (bytes : Bytes)
  | exited (code : Option ℤ)
  | closed
  deriving DecidableEq, Repr

/-- A host's answer to an open. -/
inductive Opened
  | pid (pid : Option ℕ)
  | passwordNeeded (username : Text)
  deriving DecidableEq, Repr

/-- How far a call of `open` has come. -/
inductive Phase
  /-- It has its number and its route. -/
  | asking
  /-- It has asked the host, and waits. -/
  | waiting (since : ℕ)
  /-- It has returned the channel. -/
  | holding (opened : Opened)
  /-- The channel was closed or dropped; the host is to be told. -/
  | closing
  | closed
  /-- It has returned an error. -/
  | failed (reason : Text)
  deriving DecidableEq, Repr

/-- A call of `open`, and what its channel has reported. -/
structure Call where
  id : ChannelId
  kind : ChannelKind
  phase : Phase
  events : List ChannelEvent
  deriving DecidableEq, Repr

structure Route where
  /-- The call whose channel it leads to. -/
  call : ℕ
  /-- Whether the call still waits for the host's answer. -/
  opened : Bool
  deriving DecidableEq, Repr

def noAnswer : Text := "the host did not answer (it may not support commands)".toList

/-- A message of the host, at the route it is for: whether the route stays, and
waits for the answer, and what becomes of its call.  A call whose route goes while it
waits returns an error. -/
def Call.receive (self : Call) (opened : Bool) : CommandMessage → Option Bool × Call
  | .opened _ pid =>
    if opened then (some false, { self with phase := .holding (.pid pid) }) else (some opened, self)
  | .passwordNeeded _ username =>
    (none, if opened then { self with phase := .holding (.passwordNeeded username) } else self)
  | .refused _ reason => (none, if opened then { self with phase := .failed reason } else self)
  | .data _ bytes => (some opened, { self with events := self.events ++ [.data bytes] })
  | .exited _ code =>
    (none, { self with
      events := self.events ++ [.exited code, .closed]
      phase := if opened then .failed noAnswer else self.phase })
  | .open _ _ | .close _ => (some opened, self)

abbrev Routes := AList fun _ : ChannelId => Route

/-- A route stays, and may wait for the answer no more, or it goes. -/
def reroute (routes : Routes) (id : ChannelId) (call : ℕ) : Option Bool → Routes
  | some opened => routes.insert id ⟨call, opened⟩
  | none => routes.erase id

theorem lookup_reroute (routes : Routes) (id : ChannelId) (call : ℕ) (kept : Option Bool) :
    (reroute routes id call kept).lookup id = kept.map (Route.mk call) := by
  cases kept with
  | none => exact AList.lookup_erase _ _
  | some opened => exact AList.lookup_insert _

theorem lookup_reroute_ne (routes : Routes) {id id' : ChannelId} (h : id' ≠ id) (call : ℕ) (kept : Option Bool) :
    (reroute routes id call kept).lookup id' = routes.lookup id' := by
  cases kept with
  | none => exact AList.lookup_erase_ne h
  | some opened => exact AList.lookup_insert_ne h

/-! ### A command on the host -/

/-- A thread that reads a command's output. -/
structure Reader where
  /-- What it has read and not sent yet. -/
  sending : List Bytes
  ended : Bool
  /-- All that it has read. -/
  read : Bytes
  deriving DecidableEq, Repr

def Reader.new : Reader := ⟨[], false, []⟩

/-- How far the thread has come that waits for a command's end. -/
inductive Waiter
  | waiting
  /-- The channel was open at the end, and the client is to be told. -/
  | reporting
  | reported
  /-- The channel was closed by then. -/
  | silent
  deriving DecidableEq, Repr

/-- A command that was started. -/
structure Process where
  id : ChannelId
  readers : List Reader
  /-- What the command ended with, once it has. -/
  code : Option (Option ℤ)
  /-- Whether its channel is closed, as the table and its thread share it. -/
  closed : Bool
  waiter : Waiter
  /-- The pieces of output that were sent, each with its reader. -/
  sent : List (ℕ × Bytes)
  deriving DecidableEq, Repr

/-- What the threads of a command do. -/
inductive Thread
  | read (reader : ℕ) (bytes : Bytes)
  | send (reader : ℕ)
  /-- The output a reader reads ends. -/
  | eof (reader : ℕ)
  | exit (code : Option ℤ)
  /-- The command has ended, and so have its readers. -/
  | join
  | report
  deriving DecidableEq, Repr

namespace Process

/-- A command that runs. -/
def running (id : ChannelId) (readers : ℕ) : Process :=
  ⟨id, List.replicate readers .new, none, false, .waiting, []⟩

/-- An application that was started: the stream has nothing more. -/
def detached (id : ChannelId) : Process := ⟨id, [], some none, true, .reported, []⟩

def turn (self : Process) : Thread → Option (Process × List CommandMessage)
  | .read i bytes =>
    self.readers[i]?.bind fun reader =>
      if reader.sending = [] ∧ ¬ reader.ended ∧ bytes ≠ [] ∧ bytes.length ≤ MAX_CHUNK then
        some ({ self with
          readers := self.readers.set i ⟨chunks MAX_CHUNK bytes, false, reader.read ++ bytes⟩ }, [])
      else none
  | .send i =>
    self.readers[i]?.bind fun reader =>
      match reader.sending with
      | [] => none
      | chunk :: rest =>
        some ({ self with
          readers := self.readers.set i { reader with sending := rest }
          sent := self.sent ++ [(i, chunk)] }, [.data self.id chunk])
  | .eof i =>
    self.readers[i]?.bind fun reader =>
      if reader.sending = [] ∧ ¬ reader.ended then
        some ({ self with readers := self.readers.set i { reader with ended := true } }, [])
      else none
  | .exit code => if self.code = none then some ({ self with code := some code }, []) else none
  | .join =>
    if self.waiter = .waiting ∧ self.code.isSome ∧ self.readers.all Reader.ended then
      some ({ self with closed := true, waiter := if self.closed then .silent else .reporting }, [])
    else none
  | .report =>
    match self.waiter, self.code with
    | .reporting, some code => some ({ self with waiter := .reported }, [.exited self.id code])
    | _, _ => none

/-- What a thread has done. -/
inductive Turned (p : Process) : Thread → Process × List CommandMessage → Prop
  | read {i : ℕ} {bytes : Bytes} {reader : Reader} (reader_eq : p.readers[i]? = some reader)
    (idle : reader.sending = []) (running : ¬ reader.ended = true) :
    Turned p (.read i bytes)
      ({ p with readers := p.readers.set i ⟨chunks MAX_CHUNK bytes, false, reader.read ++ bytes⟩ }, [])
  | send {i : ℕ} {reader : Reader} {chunk : Bytes} {rest : List Bytes} (reader_eq : p.readers[i]? = some reader)
    (sending : reader.sending = chunk :: rest) :
    Turned p (.send i)
      ({ p with
        readers := p.readers.set i { reader with sending := rest }
        sent := p.sent ++ [(i, chunk)] }, [.data p.id chunk])
  | eof {i : ℕ} {reader : Reader} (reader_eq : p.readers[i]? = some reader) (idle : reader.sending = [])
    (running : ¬ reader.ended = true) :
    Turned p (.eof i) ({ p with readers := p.readers.set i { reader with ended := true } }, [])
  | exit {code : Option ℤ} (running : p.code = none) : Turned p (.exit code) ({ p with code := some code }, [])
  | join (waiting : p.waiter = .waiting) (code : p.code.isSome = true) (ended : p.readers.all Reader.ended = true) :
    Turned p .join ({ p with closed := true, waiter := if p.closed then .silent else .reporting }, [])
  | report {code : Option ℤ} (reporting : p.waiter = .reporting) (code_eq : p.code = some code) :
    Turned p .report ({ p with waiter := .reported }, [.exited p.id code])

theorem turned {p : Process} {thread : Thread} {done : Process × List CommandMessage}
    (h : p.turn thread = some done) : p.Turned thread done := by
  cases thread with
  | read i bytes =>
    obtain ⟨reader, hreader, h⟩ := Option.bind_eq_some_iff.mp h
    obtain ⟨⟨hidle, hrunning, -, -⟩, h⟩ := Option.ite_none_right_eq_some.mp h
    cases h
    exact .read hreader hidle hrunning
  | send i =>
    obtain ⟨reader, hreader, h⟩ := Option.bind_eq_some_iff.mp h
    cases hsending : reader.sending with
    | nil =>
      rw [hsending] at h
      cases h
    | cons chunk rest =>
      rw [hsending] at h
      cases h
      exact .send hreader hsending
  | eof i =>
    obtain ⟨reader, hreader, h⟩ := Option.bind_eq_some_iff.mp h
    obtain ⟨⟨hidle, hrunning⟩, h⟩ := Option.ite_none_right_eq_some.mp h
    cases h
    exact .eof hreader hidle hrunning
  | exit code =>
    obtain ⟨hrunning, h⟩ := Option.ite_none_right_eq_some.mp h
    cases h
    exact .exit hrunning
  | join =>
    obtain ⟨⟨hwaiting, hcode, hended⟩, h⟩ := Option.ite_none_right_eq_some.mp h
    cases h
    exact .join hwaiting hcode hended
  | report =>
    simp only [turn] at h
    split at h
    case h_1 hreporting hcode =>
      cases h
      exact .report hreporting hcode
    case h_2 => cases h

end Process

/-! ### What the host makes of an open -/

inductive RemoteAppRefusal
  | passwordNeeded (username : Text)
  | refused (reason : Text)
  deriving DecidableEq, Repr

/-- What was started. -/
inductive Started
  | detached (pid : Option ℕ)
  | running (readers : ℕ) (pid : Option ℕ)
  deriving DecidableEq, Repr

/-- What the host's RemoteApps or its policy and its starter say to an open. -/
inductive Backend
  | remoteApp (answer : Except RemoteAppRefusal Unit)
  | start (answer : Except Text Started)

/-- What became of an open. -/
inductive Opening
  | refused (reason : Text)
  | passwordNeeded (username : Text)
  | launched (pid : Option ℕ)
  | running (readers : ℕ) (pid : Option ℕ)
  deriving DecidableEq, Repr

namespace Opening

/-- What the session's task sends. -/
def answers (id : ChannelId) : Opening → List CommandMessage
  | .refused reason => [.refused id reason]
  | .passwordNeeded username => [.passwordNeeded id username]
  | .launched pid => [.opened id pid, .exited id none]
  | .running _ pid => [.opened id pid]

/-- The command that was started. -/
def process (id : ChannelId) : Opening → Option Process
  | .refused _ | .passwordNeeded _ => none
  | .launched _ => some (.detached id)
  | .running readers _ => some (.running id readers)

end Opening

abbrev Table := AList fun _ : ChannelId => ℕ

/-- What becomes of an open, where the answer is one that can come. -/
def opening (table : Table) (id : ChannelId) (kind : ChannelKind) : Backend → Option Opening
  | .remoteApp answer =>
    if kind = .launch true then
      match answer with
      | .ok () => some (.launched none)
      | .error (.passwordNeeded username) => some (.passwordNeeded username)
      | .error (.refused reason) => some (.refused reason)
    else none
  | .start answer =>
    if id ∈ table then some (.refused "that channel is already open".toList)
    else if MAX_CHANNELS ≤ table.keys.length then some (.refused "too many channels open".toList)
    else
      match answer, kind with
      | .error reason, _ => some (.refused reason)
      | .ok (.detached pid), .launch _ => some (.launched pid)
      | .ok (.running readers pid), .stream => some (.running readers pid)
      | _, _ => none

/-! ### Both ends -/

structure CommandStream where
  now : ℕ
  next : ChannelId
  routes : Routes
  calls : List Call
  toHost : List CommandMessage
  toClient : List CommandMessage
  /-- The host's open channels, each with its command. -/
  table : Table
  processes : List Process
  /-- What the session's task has still to send. -/
  answering : List CommandMessage
  deriving DecidableEq

inductive Event
  | wait (ms : ℕ)
  /-- `open` is called. -/
  | call (kind : ChannelKind)
  /-- A call sends its open. -/
  | ask (n : ℕ)
  /-- A call cannot send its open. -/
  | unsent (n : ℕ) (error : Text)
  /-- A call has waited for too long. -/
  | timeout (n : ℕ)
  /-- A channel is closed or dropped. -/
  | close (n : ℕ)
  /-- The host is told so. -/
  | forward (n : ℕ)
  /-- The client takes a message. -/
  | deliver
  /-- The session's task takes a message. -/
  | handle (backend : Backend)
  /-- The session's task sends what it has to. -/
  | answer
  | thread (i : ℕ) (thread : Thread)

namespace CommandStream

def new : CommandStream := ⟨0, 0, ∅, [], [], [], ∅, [], []⟩

/-- Whether the channel of a command is still open. -/
def isOpen (self : CommandStream) (i : ℕ) : Bool := self.processes[i]?.any fun p => !p.closed

/-- The table without the channels that are closed. -/
def retained (self : CommandStream) : Table := self.table.retain fun _ i => self.isOpen i

/-- A message of the host arrives. -/
def receive (self : CommandStream) (message : CommandMessage) : CommandStream :=
  match self.routes.lookup message.id with
  | none => self
  | some route =>
    match self.calls[route.call]? with
    | none => self
    | some call =>
      let received := call.receive route.opened message
      { self with
        calls := self.calls.set route.call received.2
        routes := reroute self.routes message.id route.call received.1 }

/-- An open has come to something. -/
def begin (self : CommandStream) (id : ChannelId) (opening : Opening) : CommandStream :=
  { self with
    answering := opening.answers id
    table :=
      match opening with
      | .running _ _ => self.table.insert id self.processes.length
      | _ => self.table
    processes := self.processes ++ (opening.process id).toList }

/-- The session's task takes a message. -/
def handle (self : CommandStream) (backend : Backend) : CommandMessage → Option CommandStream
  | .open id kind =>
    let self := match backend with
      | .remoteApp _ => self
      | .start _ => { self with table := self.retained }
    (opening self.table id kind backend).map (self.begin id)
  | .close id =>
    match self.table.lookup id with
    | none => some self
    | some i =>
      some { self with
        table := self.table.erase id
        processes := self.processes.modify i fun p => { p with closed := true } }
  | _ => some self

def step (self : CommandStream) : Event → Option CommandStream
  | .wait ms => some { self with now := self.now + ms }
  | .call kind =>
    -- after 2 ^ 32 calls a number comes again; its old route is dropped
    some { self with
      next := self.next + 1
      routes := self.routes.insert self.next ⟨self.calls.length, true⟩
      calls := self.calls ++ [⟨self.next, kind, .asking, []⟩] }
  | .ask n =>
    self.calls[n]?.bind fun call =>
      if call.phase = .asking then
        some { self with
          calls := self.calls.set n { call with phase := .waiting self.now }
          toHost := self.toHost ++ [.open call.id call.kind] }
      else none
  | .unsent n error =>
    self.calls[n]?.bind fun call =>
      if call.phase = .asking then
        some { self with
          calls := self.calls.set n { call with phase := .failed error }
          routes := self.routes.erase call.id }
      else none
  | .timeout n =>
    self.calls[n]?.bind fun call =>
      match call.phase with
      | .waiting since =>
        if call.kind.within ≤ self.now - since then
          some { self with
            calls := self.calls.set n { call with phase := .failed noAnswer }
            routes := self.routes.erase call.id }
        else none
      | _ => none
  | .close n =>
    self.calls[n]?.bind fun call =>
      match call.phase with
      | .holding _ => some { self with calls := self.calls.set n { call with phase := .closing } }
      | _ => none
  | .forward n =>
    self.calls[n]?.bind fun call =>
      if call.phase = .closing then
        some { self with
          calls := self.calls.set n { call with phase := .closed }
          toHost := self.toHost ++ [.close call.id]
          routes := self.routes.erase call.id }
      else none
  | .deliver =>
    match self.toClient with
    | [] => none
    | message :: rest => some ({ self with toClient := rest }.receive message)
  | .handle backend =>
    match self.answering, self.toHost with
    | [], message :: rest => { self with toHost := rest }.handle backend message
    | _, _ => none
  | .answer =>
    match self.answering with
    | [] => none
    | message :: rest => some { self with answering := rest, toClient := self.toClient ++ [message] }
  | .thread i thread =>
    self.processes[i]?.bind fun process =>
      (process.turn thread).map fun turn =>
        { self with
          processes := self.processes.set i turn.1
          toClient := self.toClient ++ turn.2 }

end CommandStream

end WindowCast.Command
