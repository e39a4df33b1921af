import WindowCast.Files.Watch
import WindowCast.Lib.Run

/-!
# A watch, from the host's look to the client's folder

A thread of the host looks at the folder and sends the files that are ready, each as an
announcement with its size, its chunks and an end.  The client writes a file under a
temporary name, and renames it when as many bytes have come as were announced.  Between
the look, the opening of a file and every read of it, the file can change or go.  The
watch is one that nobody stops.

## Main definitions

* `Client.receive` — what the client makes of a reply.
* `Watching.step` — the host's thread, the channel and the client, step by step.
* `Steady` — no step at which a change of a file does harm.

## Main results

* `Watching.Inv.step` — what every such step preserves.
* `goes_on` — **where every step is steady the watch goes on, leaves no part behind, files
  what it is sent whole, and sends again what has changed**.
-/

namespace WindowCast.Files

/-! ### Replies and events -/

inductive WatchReply
  /-- The watch is on; so many files were there already. -/
  | started (existing : ℕ)
  | file (path : Text) (size : ℕ)
  | chunk (bytes : List UInt8)
  /-- The file just announced is complete. -/
  | ended
  /-- The watch cannot go on. -/
  | error (reason : Text)
  deriving DecidableEq

/-- Why the client ends a watch. -/
inductive WatchFailure
  | path (error : PathError)
  /-- the host named no file -/
  | unnamed
  /-- the host sent file bytes with no file -/
  | noFile
  /-- … did not arrive intact -/
  | torn (path : Text)
  /-- What the client's system says of a file. -/
  | system (path : Text)
  /-- What the host says. -/
  | host (reason : Text)
  deriving DecidableEq

inductive WatchEvent
  | started (existing : ℕ)
  /-- A file arrived and is in place. -/
  | saved (path : Text) (size : ℕ)
  | failed (reason : WatchFailure)
  | ended
  deriving DecidableEq

/-! ### The client -/

/-- A file that is arriving. -/
structure Incoming where
  path : Text
  size : ℕ
  got : ℕ
  part : PathBuf
  target : PathBuf
  deriving DecidableEq

structure Client where
  platform : Platform
  /-- The folder that the files go to. -/
  dest : PathBuf
  incoming : Option Incoming
  /-- The temporary files that were made and are still there. -/
  parts : List PathBuf
  events : List WatchEvent
  closed : Bool

namespace Client

/-- Where a file that is announced goes: the host is not trusted with that. -/
def target [Casing] (self : Client) (path : Text) : Except WatchFailure PathBuf :=
  match clean path with
  | .error error => .error (.path error)
  | .ok parts => if parts = [] then .error .unnamed else .ok (parts.foldl self.platform.join self.dest)

def removePart (self : Client) (part : PathBuf) : Client :=
  { self with parts := self.parts.filter fun other => other ≠ part }

/-- The watch cannot go on: the channel is closed, and what was arriving is removed. -/
def fail (self : Client) (reason : WatchFailure) : Client :=
  let self := match self.incoming with
    | some file => self.removePart file.part
    | none => self
  { self with events := self.events ++ [.failed reason, .ended], closed := true }

/-- A reply comes in; `ok` is whether the client's disk does what it is to do for it. -/
def receive [Casing] (self : Client) (ok : Bool) : WatchReply → Client
  | .started existing => { self with events := self.events ++ [.started existing] }
  | .file path size =>
    match self.target path with
    | .error reason => self.fail reason
    | .ok target =>
      if ok then
        let part := partPath target
        let self := self.removePart part
        { self with incoming := some ⟨path, size, 0, part, target⟩, parts := part :: self.parts }
      else self.fail (.system path)
  | .chunk bytes =>
    match self.incoming with
    | none => self.fail .noFile
    | some file =>
      let self := { self with incoming := some { file with got := file.got + bytes.length } }
      if file.got + bytes.length > file.size ∨ ok = false then self.fail (.torn file.path) else self
  | .ended =>
    match self.incoming with
    | none => self
    | some file =>
      let self := { self with incoming := none }
      -- a file that changed while it was read is to be sent again
      if file.got ≠ file.size then self.removePart file.part
      else if ok then
        let self := self.removePart file.part
        { self with events := self.events ++ [.saved file.path file.size] }
      else self.fail (.system file.path)
  | .error reason => self.fail (.host reason)

/-- The files that were put in place. -/
def saved (self : Client) : List (Text × ℕ) :=
  self.events.filterMap fun event =>
    match event with
    | .saved path size => some (path, size)
    | _ => none

end Client

/-! ### The watch -/

/-- A file of which something was sent, with its size and how much was sent. -/
structure Sending where
  path : Text
  size : ℕ
  sent : ℕ
  deriving DecidableEq

/-- The host's thread, the channel and the client. -/
structure Watching where
  watcher : Watcher
  /-- The files of the last look that are still to be sent. -/
  queue : List Ready
  sending : Option Sending
  /-- Whether the thread is there. -/
  running : Bool
  channel : List WatchReply
  client : Client
  /-- The file whose reading failed, when nothing was sent since. -/
  broken : Option Sending
  /-- The files that were sent whole. -/
  whole : List (Text × ℕ)
  /-- The stamps of the files sent whole, or there at first and not asked for. -/
  delivered : Text → Option Stamp
  /-- The stamps of those that were taken for sent, and were not. -/
  owed : Text → Option Stamp

inductive Event
  /-- The host looks at the folder. -/
  | poll (found : Found) (opens : RealPath Text → Bool) (now : ℕ)
  /-- It opens the next file. -/
  | «open» (ok : Bool)
  /-- It reads on: some bytes, none at the end, or an error. -/
  | read (result : Option (List UInt8))
  | receive (ok : Bool)

namespace Watching

/-- The stamp that a file was last taken for sent with. -/
def sentStamp (self : Watching) (path : Text) : Option Stamp := (self.watcher.seen path).bind Seen.sent

/-- The watch is on, and nothing was sent but that. -/
def start (watcher : Watcher) (count : ℕ) (platform : Platform) (dest : PathBuf) : Watching where
  watcher := watcher
  queue := []
  sending := none
  running := true
  channel := [.started count]
  client := ⟨platform, dest, none, [], [], false⟩
  broken := none
  whole := []
  delivered path := (watcher.seen path).bind Seen.sent
  owed _ := none

/-- The thread sends a reply, or ends where the channel is gone. -/
def emit (self : Watching) (reply : WatchReply) : Watching :=
  if self.client.closed then { self with running := false, sending := none }
  else { self with channel := self.channel ++ [reply] }

/-- The thread is done with a file. -/
def done (self : Watching) (path : Text) (size : ℕ) (whole : Bool) : Watching :=
  if whole then
    { self with
      whole := self.whole ++ [(path, size)]
      delivered := Function.update self.delivered path (self.sentStamp path)
      owed := Function.update self.owed path none }
  else { self with owed := Function.update self.owed path (self.sentStamp path) }

/-- What happens next; nothing, where it cannot. -/
def step [Casing] (self : Watching) : Event → Option Watching
  | .poll found opens now =>
    if self.running = true ∧ self.queue = [] ∧ self.sending = none ∧ (found.map Prod.fst).Nodup then
      let (watcher, queue) := self.watcher.pollFound found opens now
      some { self with
        watcher := watcher
        queue := queue
        owed := fun path => (found.lookup path).bind fun _ => self.owed path }
    else none
  | .open ok =>
    match self.running, self.sending, self.queue with
    | true, none, ready :: rest =>
      if ok then
        some (({ self with queue := rest, sending := some ⟨ready.path, ready.size, 0⟩, broken := none } : Watching).emit
          (.file ready.path ready.size))
      else some (({ self with queue := rest } : Watching).done ready.path ready.size false)
    | _, _, _ => none
  | .read result =>
    match self.running, self.sending with
    | true, some file =>
      match result with
      | none => some (({ self with sending := none, broken := some file } : Watching).done file.path file.size false)
      | some [] =>
        some ((({ self with sending := none } : Watching).done file.path file.size (file.sent = file.size)).emit .ended)
      | some (b :: bytes) =>
        if (b :: bytes).length ≤ FILE_CHUNK then
          some (({ self with sending := some { file with sent := file.sent + (b :: bytes).length } } : Watching).emit
            (.chunk (b :: bytes)))
        else none
    | _, _ => none
  | .receive ok =>
    match self.channel, self.client.closed with
    | reply :: rest, false => some { self with channel := rest, client := self.client.receive ok reply }
    | _, _ => none

end Watching

/-! ### Steady steps -/

/-- No step at which a change of a file does harm: a look does not find a file as it was
when it was taken for sent and was not; a file that is opened has a path that the client
accepts, and is the one whose reading has failed, if one has; a file that is read has no
more bytes than were announced; and the client's disk does what it is to do. -/
def Steady [Casing] (w : Watching) : Event → Prop
  | .poll found _ _ => ∀ path stamp, w.owed path = some stamp → ∀ file, found.lookup path ≠ some (file, stamp)
  | .open ok => ok = true → ∀ ready ∈ w.queue.head?,
      (∃ target, w.client.target ready.path = .ok target) ∧ ∀ file ∈ w.broken, file.path = ready.path
  | .read result => ∀ file ∈ w.sending, ∀ bytes ∈ result, file.sent + bytes.length ≤ file.size
  | .receive ok => ok = true

/-! ### What is on its way -/

/-- What the client is at behind a reply; nothing, where the watch would not go on. -/
def track : Option Sending → WatchReply → Option (Option Sending)
  | cur, .started _ => some cur
  | cur, .file path size => if cur.all fun file => file.path = path then some (some ⟨path, size, 0⟩) else none
  | some file, .chunk bytes =>
    if file.sent + bytes.length ≤ file.size then some (some { file with sent := file.sent + bytes.length }) else none
  | none, .chunk _ => none
  | _, .ended => some none
  | _, .error _ => none

/-- What it puts in place then. -/
def saves : Option Sending → WatchReply → List (Text × ℕ)
  | some file, .ended => if file.sent = file.size then [(file.path, file.size)] else []
  | _, _ => []

/-- What it puts in place behind replies. -/
def pending : Option Sending → List WatchReply → List (Text × ℕ)
  | _, [] => []
  | cur, reply :: replies =>
    saves cur reply ++
      match track cur reply with
      | some cur => pending cur replies
      | none => []

theorem pending_concat {cur cur' : Option Sending} {replies : List WatchReply} (reply : WatchReply)
    (h : replies.foldlM track cur = some cur') :
    pending cur (replies ++ [reply]) = pending cur replies ++ saves cur' reply := by
  induction replies generalizing cur with
  | nil =>
    obtain rfl := Run.nil.mp h
    rw [List.nil_append, pending, pending, List.nil_append]
    cases track cur reply <;> exact List.append_nil _
  | cons first replies ih =>
    obtain ⟨next, hnext, h⟩ := Run.cons.mp h
    rw [List.cons_append, pending, pending, hnext]
    dsimp only
    rw [ih h, List.append_assoc]

namespace Client

variable [Casing] {self : Client}

/-- The file that is arriving, as the host has it. -/
def cur (self : Client) : Option Sending := self.incoming.map fun file => ⟨file.path, file.size, file.got⟩

/-- The watch goes on, and the one temporary file there is, if any, is that of the file
that is arriving. -/
structure Sound (client : Client) : Prop where
  closed : client.closed = false
  failed : ∀ reason, .failed reason ∉ client.events
  parts : ∀ part ∈ client.parts, ∃ file, client.incoming = some file ∧ file.part = part
  incoming : ∀ file, client.incoming = some file → ∃ target, client.target file.path = .ok target ∧
    file.part = partPath target

/-- The temporary file of what is arriving is the only one there is. -/
theorem Sound.not_mem_removePart (h : self.Sound) {file : Incoming} (hfile : self.incoming = some file) (part : PathBuf) :
    part ∉ (self.removePart file.part).parts := by
  intro hmem
  obtain ⟨hmem, hne⟩ := List.mem_filter.mp hmem
  obtain ⟨other, hother, rfl⟩ := h.parts part hmem
  rw [hfile] at hother
  cases hother
  rw [decide_eq_true_eq] at hne
  exact hne rfl

omit [Casing] in
theorem saved_append (self : Client) (event : WatchEvent) :
    Client.saved { self with events := self.events ++ [event] } =
      self.saved ++ (match event with | .saved path size => [(path, size)] | _ => []) := by
  rw [saved, saved, List.filterMap_append]
  cases event <;> rfl

theorem Sound.not_failed_append (h : self.Sound) {event : WatchEvent} (hevent : ∀ reason, event ≠ .failed reason)
    (reason : WatchFailure) : .failed reason ∉ self.events ++ [event] := by
  intro hmem
  rcases List.mem_append.mp hmem with hmem | hmem
  · exact h.failed reason hmem
  · exact hevent reason (List.mem_singleton.mp hmem).symm

/-- What the client makes of a reply that keeps the watch going. -/
theorem Sound.receive (h : self.Sound) {reply : WatchReply} {cur : Option Sending}
    (htrack : track self.cur reply = some cur)
    (htarget : ∀ path size, reply = .file path size → ∃ target, self.target path = .ok target) :
    (self.receive true reply).Sound ∧ (self.receive true reply).cur = cur ∧
      (self.receive true reply).saved = self.saved ++ saves self.cur reply ∧
        (self.receive true reply).target = self.target := by
  cases reply with
  | started existing =>
    cases htrack
    refine ⟨⟨h.closed, h.not_failed_append nofun, h.parts, h.incoming⟩, rfl, ?_, rfl⟩
    rw [Client.receive, saved_append]
    cases self.cur <;> rfl
  | file path size =>
    obtain ⟨target, hok⟩ := htarget path size rfl
    have hreceive : self.receive true (.file path size) =
        { self.removePart (partPath target) with
          incoming := some ⟨path, size, 0, partPath target, target⟩
          parts := partPath target :: (self.removePart (partPath target)).parts } := by
      rw [Client.receive, hok]
      rfl
    have hsame : (self.cur.all fun file => file.path = path) = true ∧ some ⟨path, size, 0⟩ = cur := by
      have htrack : (if self.cur.all fun file => file.path = path then some (some ⟨path, size, 0⟩) else none) =
          some cur := htrack
      split_ifs at htrack with hall
      exact ⟨hall, Option.some.inj htrack⟩
    obtain ⟨hall, rfl⟩ := hsame
    rw [hreceive]
    refine ⟨⟨h.closed, h.failed, ?_, ?_⟩, rfl, ?_, rfl⟩
    · intro part hpart
      refine ⟨_, rfl, ?_⟩
      rcases List.mem_cons.mp hpart with rfl | hpart
      · rfl
      · -- another part would be that of the file whose reading has failed, which is the same
        obtain ⟨hmem, hne⟩ := List.mem_filter.mp hpart
        obtain ⟨file, hfile, rfl⟩ := h.parts part hmem
        obtain ⟨target', hok', heq⟩ := h.incoming file hfile
        have hpath : file.path = path := by
          rw [cur, hfile] at hall
          exact of_decide_eq_true hall
        rw [hpath, hok] at hok'
        cases hok'
        exact heq.symm
    · rintro _ ⟨⟩
      exact ⟨target, hok, rfl⟩
    · have hnone : saves self.cur (.file path size) = [] := by cases self.cur <;> rfl
      rw [hnone, List.append_nil]
      rfl
  | chunk bytes =>
    cases hfile : self.incoming with
    | none =>
      rw [Client.cur, hfile] at htrack
      cases htrack
    | some file =>
      have hcur : self.cur = some ⟨file.path, file.size, file.got⟩ := by
        rw [Client.cur, hfile]
        rfl
      have hfits : file.got + bytes.length ≤ file.size ∧
          some ⟨file.path, file.size, file.got + bytes.length⟩ = cur := by
        rw [hcur] at htrack
        have htrack : (if file.got + bytes.length ≤ file.size then
            some (some ⟨file.path, file.size, file.got + bytes.length⟩) else none) = some cur := htrack
        split_ifs at htrack with hle
        exact ⟨hle, Option.some.inj htrack⟩
      obtain ⟨hle, rfl⟩ := hfits
      have hreceive : self.receive true (.chunk bytes) =
          { self with incoming := some { file with got := file.got + bytes.length } } := by
        rw [Client.receive, hfile]
        refine if_neg ?_
        rintro (hlt | hfalse)
        · omega
        · cases hfalse
      rw [hreceive, hcur]
      refine ⟨⟨h.closed, h.failed, ?_, ?_⟩, rfl, (List.append_nil _).symm, rfl⟩
      · intro part hpart
        obtain ⟨other, hother, hpart⟩ := h.parts part hpart
        rw [hfile] at hother
        cases hother
        exact ⟨_, rfl, hpart⟩
      · rintro _ ⟨⟩
        exact h.incoming file hfile
  | ended =>
    cases hfile : self.incoming with
    | none =>
      have hcur : self.cur = none := by
        rw [Client.cur, hfile]
        rfl
      have hreceive : self.receive true .ended = self := by
        rw [Client.receive, hfile]
      rw [hcur] at htrack
      cases htrack
      rw [hreceive, hcur]
      exact ⟨h, rfl, (List.append_nil _).symm, rfl⟩
    | some file =>
      have hcur : self.cur = some ⟨file.path, file.size, file.got⟩ := by
        rw [Client.cur, hfile]
        rfl
      rw [hcur] at htrack
      cases htrack
      by_cases hgot : file.got = file.size
      · have hreceive : self.receive true .ended =
            { { self with incoming := none }.removePart file.part with
              events := self.events ++ [.saved file.path file.size] } := by
          rw [Client.receive, hfile]
          dsimp only
          rw [if_neg (not_not_intro hgot)]
          rfl
        have hsaves : saves (some ⟨file.path, file.size, file.got⟩) .ended = [(file.path, file.size)] := if_pos hgot
        rw [hreceive, hcur, hsaves]
        refine ⟨⟨h.closed, h.not_failed_append nofun, ?_, nofun⟩, rfl, saved_append self _, rfl⟩
        exact fun part hpart => absurd hpart (h.not_mem_removePart hfile part)
      · have hreceive : self.receive true .ended = { self with incoming := none }.removePart file.part := by
          rw [Client.receive, hfile]
          dsimp only
          rw [if_pos hgot]
        have hsaves : saves (some ⟨file.path, file.size, file.got⟩) .ended = [] := if_neg hgot
        rw [hreceive, hcur, hsaves]
        refine ⟨⟨h.closed, h.failed, ?_, nofun⟩, rfl, (List.append_nil _).symm, rfl⟩
        exact fun part hpart => absurd hpart (h.not_mem_removePart hfile part)
  | error reason =>
    cases hcur : self.cur <;> rw [hcur] at htrack <;> cases htrack

end Client

namespace Watching

variable [Casing] {w w' : Watching}

/-- Where the client is when all that was sent has come in. -/
def current (self : Watching) : Option Sending :=
  match self.sending with
  | some file => some file
  | none => self.broken

omit [Casing] in
@[simp] theorem channel_done (path : Text) (size : ℕ) (whole : Bool) :
    (w.done path size whole).channel = w.channel := by
  cases whole <;> rfl

omit [Casing] in
@[simp] theorem client_done (path : Text) (size : ℕ) (whole : Bool) : (w.done path size whole).client = w.client := by
  cases whole <;> rfl

omit [Casing] in
@[simp] theorem running_done (path : Text) (size : ℕ) (whole : Bool) :
    (w.done path size whole).running = w.running := by
  cases whole <;> rfl

omit [Casing] in
@[simp] theorem sending_done (path : Text) (size : ℕ) (whole : Bool) :
    (w.done path size whole).sending = w.sending := by
  cases whole <;> rfl

omit [Casing] in
@[simp] theorem broken_done (path : Text) (size : ℕ) (whole : Bool) : (w.done path size whole).broken = w.broken := by
  cases whole <;> rfl

omit [Casing] in
theorem current_done (path : Text) (size : ℕ) (whole : Bool) : (w.done path size whole).current = w.current := by
  rw [current, current, sending_done, broken_done]

omit [Casing] in
theorem whole_done (path : Text) (size : ℕ) (whole : Bool) :
    (w.done path size whole).whole = w.whole ++ if whole then [(path, size)] else [] := by
  cases whole
  · exact (List.append_nil _).symm
  · rfl

/-- What is on its way keeps the watch going. -/
structure Flows (world : Watching) : Prop where
  running : world.running = true
  sound : world.client.Sound
  tracks : world.channel.foldlM track world.client.cur = some world.current
  whole : world.client.saved ++ pending world.client.cur world.channel = world.whole
  paths : ∀ path size, .file path size ∈ world.channel → ∃ target, world.client.target path = .ok target
  broken : world.sending ≠ none → world.broken = none

omit [Casing] in
theorem emit_of_open (h : w.client.closed = false) (reply : WatchReply) :
    w.emit reply = { w with channel := w.channel ++ [reply] } := by
  rw [emit, h]
  rfl

/-- The thread sends a reply that keeps the watch going. -/
theorem Flows.emit (h : w.Flows) {reply : WatchReply} {sent : Watching} (hchannel : sent.channel = w.channel)
    (hclient : sent.client = w.client) (hrunning : sent.running = true)
    (htrack : track w.current reply = some sent.current) (hwhole : sent.whole = w.whole ++ saves w.current reply)
    (htarget : ∀ path size, reply = .file path size → ∃ target, w.client.target path = .ok target)
    (hbroken : sent.broken = none) : (sent.emit reply).Flows := by
  rw [emit_of_open (hclient ▸ h.sound.closed)]
  refine ⟨hrunning, hclient ▸ h.sound, ?_, ?_, ?_, fun _ => hbroken⟩
  · rw [hchannel, hclient]
    exact Run.snoc.mpr ⟨_, h.tracks, htrack⟩
  · rw [hchannel, hclient, pending_concat reply h.tracks, ← List.append_assoc, h.whole, hwhole]
  · intro path size hmem
    rw [hclient]
    rw [hchannel] at hmem
    rcases List.mem_append.mp hmem with hmem | hmem
    · exact h.paths path size hmem
    · exact htarget path size (List.mem_singleton.mp hmem).symm

/-- Nothing is sent. -/
theorem Flows.of_eq (h : w.Flows) (hchannel : w'.channel = w.channel) (hclient : w'.client = w.client)
    (hrunning : w'.running = true) (hcurrent : w'.current = w.current) (hwhole : w'.whole = w.whole)
    (hbroken : w'.sending ≠ none → w'.broken = none) : w'.Flows := by
  refine ⟨hrunning, hclient ▸ h.sound, ?_, ?_, ?_, hbroken⟩
  · rw [hchannel, hclient, hcurrent, h.tracks]
  · rw [hchannel, hclient, hwhole, h.whole]
  · rw [hchannel, hclient]
    exact h.paths

theorem Flows.step (h : w.Flows) {e : Event} (hsteady : Steady w e) (hstep : w.step e = some w') : w'.Flows := by
  cases e with
  | poll found opens now =>
    rw [Watching.step] at hstep
    split at hstep
    · cases hstep
      exact h.of_eq rfl rfl h.running rfl rfl h.broken
    · cases hstep
  | «open» ok =>
    rw [Watching.step] at hstep
    split at hstep
    · rename_i ready rest hrunning hsending hqueue
      cases ok with
      | false =>
        cases hstep
        exact h.of_eq rfl rfl h.running rfl rfl h.broken
      | true =>
        cases hstep
        obtain ⟨htarget, hbroken⟩ := hsteady rfl ready (by rw [hqueue]; rfl)
        have hcurrent : w.current = w.broken := by rw [current, hsending]
        have hall : (w.broken.all fun file => file.path = ready.path) = true := by
          cases hfile : w.broken with
          | none => rfl
          | some file => exact decide_eq_true (hbroken file hfile)
        refine h.emit rfl rfl h.running ?_ ?_ ?_ rfl
        · rw [hcurrent]
          exact if_pos hall
        · rw [hcurrent]
          cases w.broken <;> exact (List.append_nil _).symm
        · rintro path size ⟨⟩
          exact htarget
    · cases hstep
  | read result =>
    rw [Watching.step] at hstep
    split at hstep
    · rename_i file hrunning hsending
      have hcurrent : w.current = some file := by rw [current, hsending]
      have hbroken : w.broken = none := h.broken (by rw [hsending]; nofun)
      split at hstep
      · cases hstep
        refine h.of_eq (channel_done _ _ _) (client_done _ _ _) ?_ ?_ ?_ ?_
        · rw [running_done]
          exact h.running
        · rw [current_done, hcurrent]
          rfl
        · rw [whole_done]
          exact List.append_nil _
        · rw [sending_done]
          exact fun hne => absurd rfl hne
      · cases hstep
        refine h.emit (channel_done _ _ _) (client_done _ _ _) ?_ ?_ ?_ nofun ?_
        · rw [running_done]
          exact h.running
        · rw [current_done, hcurrent, current]
          dsimp only
          rw [hbroken]
          rfl
        · rw [whole_done, hcurrent, saves]
          by_cases heq : file.sent = file.size
          · rw [if_pos heq, decide_eq_true heq]
            rfl
          · rw [if_neg heq, decide_eq_false heq]
            rfl
        · rw [broken_done]
          exact hbroken
      · rename_i b bytes
        split at hstep
        · cases hstep
          have hle := hsteady file hsending (b :: bytes) rfl
          refine h.emit rfl rfl h.running ?_ ?_ nofun hbroken
          · rw [hcurrent]
            exact if_pos hle
          · rw [hcurrent]
            exact (List.append_nil _).symm
        · cases hstep
    · cases hstep
  | receive ok =>
    rw [Watching.step] at hstep
    split at hstep
    · rename_i reply rest hchannel hclosed
      cases hstep
      obtain rfl : ok = true := hsteady
      obtain ⟨cur, htrack, htracks⟩ := Run.cons.mp (hchannel ▸ h.tracks)
      obtain ⟨hsound, hcur, hsaved, htarget⟩ := h.sound.receive htrack fun path size hreply =>
        h.paths path size (by rw [hchannel, hreply]; exact List.mem_cons_self)
      refine ⟨h.running, hsound, ?_, ?_, ?_, h.broken⟩
      · rw [hcur]
        exact htracks
      · rw [hcur, hsaved, ← h.whole, hchannel, pending, htrack, List.append_assoc]
      · intro path size hmem
        rw [htarget]
        exact h.paths path size (by rw [hchannel]; exact List.mem_cons_of_mem _ hmem)
    · cases hstep

/-! ### What is taken for sent -/

/-- What was taken for sent is still to be sent, was sent whole, or is owed. -/
def Accounts (self : Watching) : Prop :=
  ∀ path stamp, self.sentStamp path = some stamp →
    (∃ ready ∈ self.queue, ready.path = path) ∨ (∃ file ∈ self.sending, file.path = path) ∨
      self.delivered path = some stamp ∨ self.owed path = some stamp

omit [Casing] in
/-- The thread is done with a file: where it was taken for sent, that was right, or it is owed. -/
theorem accounts_done {path : Text} {size : ℕ} {whole : Bool} (h : ∀ other stamp, w.sentStamp other = some stamp →
    other = path ∨ (∃ ready ∈ w.queue, ready.path = other) ∨ (∃ file ∈ w.sending, file.path = other) ∨
      w.delivered other = some stamp ∨ w.owed other = some stamp) : (w.done path size whole).Accounts := by
  intro other stamp hsent
  have hold : w.sentStamp other = some stamp := by cases whole <;> exact hsent
  by_cases heq : other = path
  · subst heq
    right
    right
    cases whole with
    | false => exact Or.inr ((Function.update_self _ _ _).trans hold)
    | true => exact Or.inl ((Function.update_self _ _ _).trans hold)
  · rcases (h other stamp hold).resolve_left heq with hqueue | hsending | hdelivered | howed
    · cases whole <;> exact Or.inl hqueue
    · cases whole <;> exact Or.inr (Or.inl hsending)
    · refine Or.inr (Or.inr (Or.inl ?_))
      cases whole with
      | false => exact hdelivered
      | true => exact (Function.update_of_ne heq _ _).trans hdelivered
    · refine Or.inr (Or.inr (Or.inr ?_))
      cases whole <;> exact (Function.update_of_ne heq _ _).trans howed

theorem Accounts.step (h : w.Accounts) (hclosed : w.client.closed = false) {e : Event}
    (hstep : w.step e = some w') : w'.Accounts := by
  cases e with
  | poll found opens now =>
    rw [Watching.step] at hstep
    split at hstep
    · rename_i hidle
      obtain ⟨-, hqueue, hsending, -⟩ := hidle
      cases hstep
      intro path stamp hsent
      obtain ⟨seen, hseen, hstamp⟩ := Option.bind_eq_some_iff.mp hsent
      obtain ⟨⟨file, stamp'⟩, hlookup, rfl⟩ := Option.map_eq_some_iff.mp hseen
      rcases Watcher.sent_visit hstamp with ⟨ready, hready⟩ | hold
      · obtain ⟨hmem, hpath, -⟩ := Watcher.mem_pollFound hlookup hready
        exact Or.inl ⟨ready, hmem, hpath⟩
      · rcases h path stamp hold with ⟨_, hmem, -⟩ | ⟨_, hmem, -⟩ | hdelivered | howed
        · rw [hqueue] at hmem
          cases hmem
        · rw [hsending] at hmem
          cases hmem
        · exact Or.inr (Or.inr (Or.inl hdelivered))
        · refine Or.inr (Or.inr (Or.inr ?_))
          dsimp only
          rw [hlookup]
          exact howed
    · cases hstep
  | «open» ok =>
    rw [Watching.step] at hstep
    split at hstep
    · rename_i ready rest hrunning hsending hqueue
      have hnext : ∀ other stamp, w.sentStamp other = some stamp → other = ready.path ∨
          (∃ ready ∈ rest, ready.path = other) ∨ w.delivered other = some stamp ∨ w.owed other = some stamp := by
        intro other stamp hsent
        rcases h other stamp hsent with ⟨next, hmem, rfl⟩ | ⟨_, hmem, -⟩ | hrest
        · rw [hqueue] at hmem
          rcases List.mem_cons.mp hmem with rfl | hmem
          · exact Or.inl rfl
          · exact Or.inr (Or.inl ⟨next, hmem, rfl⟩)
        · rw [hsending] at hmem
          cases hmem
        · exact Or.inr (Or.inr hrest)
      cases ok with
      | false =>
        cases hstep
        refine accounts_done fun other stamp hsent => ?_
        exact (hnext other stamp hsent).imp_right fun h => h.imp_right Or.inr
      | true =>
        cases hstep
        rw [emit_of_open (by exact hclosed)]
        intro other stamp hsent
        rcases hnext other stamp hsent with rfl | hqueue | hrest
        · exact Or.inr (Or.inl ⟨_, rfl, rfl⟩)
        · exact Or.inl hqueue
        · exact Or.inr (Or.inr hrest)
    · cases hstep
  | read result =>
    rw [Watching.step] at hstep
    split at hstep
    · rename_i file hrunning hsending
      have hnext : ∀ other stamp, w.sentStamp other = some stamp → other = file.path ∨
          (∃ ready ∈ w.queue, ready.path = other) ∨ w.delivered other = some stamp ∨ w.owed other = some stamp := by
        intro other stamp hsent
        rcases h other stamp hsent with hqueue | ⟨_, hmem, rfl⟩ | hrest
        · exact Or.inr (Or.inl hqueue)
        · rw [hsending] at hmem
          cases hmem
          exact Or.inl rfl
        · exact Or.inr (Or.inr hrest)
      split at hstep
      · cases hstep
        refine accounts_done fun other stamp hsent => ?_
        exact (hnext other stamp hsent).imp_right fun h => h.imp_right Or.inr
      · cases hstep
        rw [emit_of_open (by rw [client_done]; exact hclosed)]
        refine accounts_done fun other stamp hsent => ?_
        exact (hnext other stamp hsent).imp_right fun h => h.imp_right Or.inr
      · split at hstep
        · cases hstep
          rw [emit_of_open (by exact hclosed)]
          intro other stamp hsent
          rcases hnext other stamp hsent with rfl | hqueue | hrest
          · exact Or.inr (Or.inl ⟨_, rfl, rfl⟩)
          · exact Or.inl hqueue
          · exact Or.inr (Or.inr hrest)
        · cases hstep
    · cases hstep
  | receive ok =>
    rw [Watching.step] at hstep
    split at hstep
    · cases hstep
      exact h
    · cases hstep

theorem Flows.start (watcher : Watcher) (count : ℕ) (platform : Platform) (dest : PathBuf) :
    (start watcher count platform dest).Flows := by
  refine ⟨rfl, ⟨rfl, fun _ h => ?_, fun _ h => ?_, nofun⟩, rfl, rfl, fun _ _ h => ?_, fun h => absurd rfl h⟩
  · cases h
  · cases h
  · cases List.mem_singleton.mp h

omit [Casing] in
theorem accounts_start (watcher : Watcher) (count : ℕ) (platform : Platform) (dest : PathBuf) :
    (start watcher count platform dest).Accounts := fun _ _ h => Or.inr (Or.inr (Or.inl h))

end Watching

/-- Where every step is steady, the watch goes on, the only temporary file there is, if
any, is that of the file that is arriving, and when all has come in, what was sent whole
is in place; and at every look, a file that has not changed for the debounce is sent,
unless it was sent whole as it is. -/
theorem goes_on [Casing] {watcher : Watcher} {count : ℕ} {platform : Platform} {dest : PathBuf} {es : List Event}
    {w : Watching} (h : Run.Guarded Watching.step Steady es (.start watcher count platform dest) w) :
    (w.running = true ∧ w.client.closed = false ∧ ∀ reason, .failed reason ∉ w.client.events) ∧
      (∀ part ∈ w.client.parts, ∃ file, w.client.incoming = some file ∧ file.part = part) ∧
      (w.channel = [] → w.client.saved = w.whole) ∧
      ∀ found opens now w', Steady w (.poll found opens now) → w.step (.poll found opens now) = some w' →
        ∀ path file stamp seen, found.lookup path = some (file, stamp) → w.watcher.seen path = some seen →
          seen.stamp = stamp → w.watcher.debounce ≤ now - seen.since → opens file = true →
            (∃ ready ∈ w'.queue, ready.path = path ∧ ready.size = stamp.1) ∨ w.delivered path = some stamp := by
  obtain ⟨hflows, haccounts⟩ : w.Flows ∧ w.Accounts := by
    refine h.invariant (I := fun w => w.Flows ∧ w.Accounts) ?_
      ⟨Watching.Flows.start watcher count platform dest, Watching.accounts_start watcher count platform dest⟩
    rintro s e s' ⟨hflows, haccounts⟩ hsteady hstep
    exact ⟨hflows.step hsteady hstep, haccounts.step hflows.sound.closed hstep⟩
  refine ⟨⟨hflows.running, hflows.sound.closed, hflows.sound.failed⟩, hflows.sound.parts, ?_, ?_⟩
  · intro hchannel
    have hwhole := hflows.whole
    rw [hchannel, pending, List.append_nil] at hwhole
    exact hwhole
  · intro found opens now w' hsteady hstep path file stamp seen hlookup hseen hstamp hsettled hopens
    rw [Watching.step] at hstep
    split at hstep
    · rename_i hidle
      obtain ⟨-, hqueue, hsending, -⟩ := hidle
      cases hstep
      rcases Watcher.visit_settled hseen hstamp hsettled hopens with ⟨ready, hready⟩ | hsent
      · obtain ⟨hmem, hpath, hsize⟩ := Watcher.mem_pollFound hlookup hready
        exact Or.inl ⟨ready, hmem, hpath, hsize⟩
      · have hold : w.sentStamp path = some stamp := by
          rw [Watching.sentStamp, hseen]
          exact hsent
        rcases haccounts path stamp hold with ⟨_, hmem, -⟩ | ⟨_, hmem, -⟩ | hdelivered | howed
        · rw [hqueue] at hmem
          cases hmem
        · rw [hsending] at hmem
          cases hmem
        · exact Or.inr hdelivered
        · exact absurd hlookup (hsteady path stamp howed file)
    · cases hstep

/-- A look at a folder with one file, whose stamp is `stamp`. -/
def look (stamp : Stamp) (now : ℕ) : Event :=
  .poll [("a.sav".toList, ⟨[], ["saves".toList, "a.sav".toList]⟩, stamp)] (fun _ => true) now

/-- The folder that a client's files go to. -/
def syncFolder : PathBuf := [.root [], .normal "sync".toList]

/-- What a watch of an empty folder comes to. -/
def watched (es : List Event) : Watching :=
  (es.foldlM (@Watching.step Text.asciiCasing) (.start emptyWatcher 0 .unix syncFolder)).getD
    (.start emptyWatcher 0 .unix syncFolder)

/-- A file of two bytes is announced, and has shrunk to one when it is read. -/
def shrinks : List Event :=
  [look (2, some 1) 0, look (2, some 1) 2000, .open true, .read (some [1]), .read (some []), .receive true,
    .receive true, .receive true, .receive true, look (1, some 2) 2500]

/-- A look at the file that finds it changed. -/
theorem steady_look {w : Watching} {stamp stamp' : Stamp} (howed : w.owed "a.sav".toList = some stamp)
    (hne : stamp ≠ stamp') (now : ℕ) : @Steady Text.asciiCasing w (look stamp' now) := by
  intro path other hother file hlookup
  by_cases hpath : path = "a.sav".toList
  · subst hpath
    rw [howed] at hother
    cases hother
    cases hlookup
    exact hne rfl
  · have hnone : (path == "a.sav".toList) = false := beq_false_of_ne hpath
    rw [List.lookup_cons, hnone] at hlookup
    cases hlookup

theorem goes_on_shrinks : (watched shrinks).client.parts = [] ∧
    ∃ ready ∈ (watched (shrinks ++ [look (1, some 2) 4500])).queue, ready.path = "a.sav".toList ∧ ready.size = 1 := by
  have h : @Run.Guarded _ _ (@Watching.step Text.asciiCasing) (@Steady Text.asciiCasing) shrinks
      (.start emptyWatcher 0 .unix syncFolder) (watched shrinks) := by
    refine ⟨?_, _, rfl, ?_, _, rfl, ?_, _, rfl, ?_, _, rfl, ?_, _, rfl, rfl, _, rfl, rfl, _, rfl, rfl, _, rfl,
      rfl, _, rfl, ?_, _, rfl, rfl⟩
    · intro path stamp howed
      cases howed
    · intro path stamp howed
      obtain ⟨_, -, hnone⟩ := Option.bind_eq_some_iff.mp howed
      cases hnone
    · rintro - ready ⟨⟩
      exact ⟨⟨_, rfl⟩, nofun⟩
    · rintro file ⟨⟩ bytes ⟨⟩
      decide
    · rintro file ⟨⟩ bytes ⟨⟩
      decide
    · exact @steady_look _ (2, some 1) _ rfl (by decide) 2500
  obtain ⟨-, hparts, -, hsent⟩ := @goes_on Text.asciiCasing _ _ _ _ _ _ h
  refine ⟨?_, ?_⟩
  · refine List.eq_nil_iff_forall_not_mem.mpr fun part hpart => ?_
    obtain ⟨file, hfile, -⟩ := hparts part hpart
    cases hfile
  · have hlater := hsent _ _ _ (watched (shrinks ++ [look (1, some 2) 4500]))
      (@steady_look _ (2, some 1) _ rfl (by decide) 4500) rfl "a.sav".toList _ (1, some 2)
      ⟨(1, some 2), 2500, some (2, some 1)⟩ rfl rfl rfl (by decide) rfl
    rcases hlater with hready | hdelivered
    · exact hready
    · cases hdelivered

/-- A file that has grown when it is read. -/
def grows : List Event :=
  [look (1, some 1) 0, look (1, some 1) 2000, .open true, .read (some [1, 2]), .receive true, .receive true,
    .receive true]

/-- Such a file ends the watch. -/
theorem grown_ends : ¬ ∀ (_ : Casing) (watcher : Watcher) (count : ℕ) (platform : Platform) (dest : PathBuf)
    (es : List Event) (w : Watching), es.foldlM Watching.step (.start watcher count platform dest) = some w →
      (∀ e ∈ es, e ≠ .receive false) → w.client.closed = false := by
  intro h
  have hclosed := h Text.asciiCasing emptyWatcher 0 .unix syncFolder grows (watched grows) rfl
    (by simp [grows, look])
  cases hclosed

end WindowCast.Files
