import WindowCast.Command.Channel

/-!
# What a channel yields

A command that the host has started sends its output from threads of its own, while
the session's task has still to send the answer to the open.  Output that comes
before the answer waits in the channel; the report of the end that comes before it
takes the route away, and the call that opened the channel returns an error.

## Main definitions

* `Process.stream` — what was sent of a command, as its channel reports it.
* `Ahead` — what is on its way to a channel comes in order.
* `Story` — how far a channel has come.
* `CommandStream.Orderly` — an end is reported behind the answer, and in time.

## Main results

* `Story.step` — what every step of a channel preserves.
* `CommandStream.opened_and_yields` — **a channel of a command that was started is opened, and
  yields its output and its end, in order and once**.
-/

namespace WindowCast.Command

/-! ### What is sent of a command -/

/-- What a channel reports of a message. -/
def CommandMessage.events : CommandMessage → List ChannelEvent
  | .data _ bytes => [.data bytes]
  | .exited _ code => [.exited code, .closed]
  | _ => []

namespace Process

/-- The end, once it is reported. -/
def ending (self : Process) : List ChannelEvent :=
  match self.waiter, self.code with
  | .reported, some code => [.exited code, .closed]
  | _, _ => []

/-- What was sent of a command, as its channel reports it. -/
def stream (self : Process) : List ChannelEvent :=
  self.sent.map (fun piece => .data piece.2) ++ self.ending

/-- What was sent of a reader. -/
def pieces (self : Process) (i : ℕ) : List Bytes :=
  (self.sent.filter fun piece => piece.1 = i).map Prod.snd

/-- Of each reader everything is sent in order that it has read, and all of it by the
end. -/
structure Sound (p : Process) : Prop where
  pieces : ∀ {i : ℕ} {reader : Reader}, p.readers[i]? = some reader →
    (p.pieces i).flatten ++ reader.sending.flatten = reader.read
  few : ∀ piece ∈ p.sent, piece.1 < p.readers.length
  ended : ∀ reader ∈ p.readers, reader.ended = true → reader.sending = []
  finished : p.waiter ≠ .waiting → p.code.isSome = true ∧ ∀ reader ∈ p.readers, reader.ended = true

/-- The client has not closed the channel: the end is told. -/
structure Heard (p : Process) : Prop where
  waiting : p.waiter = .waiting → p.closed = false
  told : p.waiter ≠ .silent

theorem sound_running (id : ChannelId) (readers : ℕ) : (running id readers).Sound where
  pieces := by
    intro i reader h
    have hnew := (List.mem_replicate.mp (List.mem_of_getElem? h)).2
    subst hnew
    rfl
  few := fun _ hmem => absurd hmem List.not_mem_nil
  ended := by
    intro reader hmem hended
    rw [(List.mem_replicate.mp hmem).2] at hended
    cases hended
  finished := fun h => absurd rfl h

theorem sound_detached (id : ChannelId) : (detached id).Sound where
  pieces := fun h => by cases h
  few := fun _ hmem => absurd hmem List.not_mem_nil
  ended := fun _ hmem => absurd hmem List.not_mem_nil
  finished := fun _ => ⟨rfl, fun _ hmem => absurd hmem List.not_mem_nil⟩

/-- One reader has changed, and some of what it had read was sent. -/
theorem Sound.set_reader {p : Process} (h : p.Sound) {i : ℕ} {reader : Reader} (reader' : Reader)
    (hreader : p.readers[i]? = some reader) (pieces : List Bytes)
    (hread : (p.pieces i).flatten ++ pieces.flatten ++ reader'.sending.flatten = reader'.read)
    (hended : reader'.ended = true → reader'.sending = [])
    (hfinished : reader.ended = true → reader'.ended = true) :
    Sound { p with
      readers := p.readers.set i reader'
      sent := p.sent ++ pieces.map fun piece => (i, piece) } := by
  have hi := (List.getElem?_eq_some_iff.mp hreader).1
  refine { h with pieces := ?_, few := ?_, ended := ?_, finished := ?_ }
  · intro j reader'' hj
    by_cases hij : i = j
    · subst hij
      rw [List.getElem?_set_self hi] at hj
      cases hj
      have hown : ((pieces.map fun piece => (i, piece)).filter fun piece => piece.1 = i).map Prod.snd
          = pieces := by
        rw [List.filter_eq_self.mpr (by simp), List.map_map]
        exact List.map_id _
      change (((p.sent ++ _).filter _).map Prod.snd).flatten ++ _ = _
      rw [List.filter_append, List.map_append, hown, List.flatten_append]
      exact hread
    · rw [List.getElem?_set_ne hij] at hj
      have hother : ((pieces.map fun piece => (i, piece)).filter fun piece => piece.1 = j) = [] :=
        List.filter_eq_nil_iff.mpr (by simp [hij])
      change (((p.sent ++ _).filter _).map Prod.snd).flatten ++ _ = _
      rw [List.filter_append, hother, List.append_nil]
      exact h.pieces hj
  · intro piece hmem
    rw [List.length_set]
    rcases List.mem_append.mp hmem with hmem | hmem
    · exact h.few piece hmem
    · obtain ⟨bytes, -, rfl⟩ := List.mem_map.mp hmem
      exact hi
  · intro reader'' hmem hend
    rcases List.mem_or_eq_of_mem_set hmem with hmem | rfl
    · exact h.ended reader'' hmem hend
    · exact hended hend
  · intro hwaiter
    obtain ⟨hcode, hall⟩ := h.finished hwaiter
    refine ⟨hcode, fun reader'' hmem => ?_⟩
    rcases List.mem_or_eq_of_mem_set hmem with hmem | rfl
    · exact hall reader'' hmem
    · exact hfinished (hall reader (List.mem_of_getElem? hreader))

variable {p : Process} {thread : Thread} {done : Process × List CommandMessage}

theorem Sound.turn (h : p.Sound) (hturn : p.turn thread = some done) : done.1.Sound := by
  cases turned hturn with
  | @read i bytes reader hreader hidle hrunning =>
    have hpieces := h.pieces hreader
    rw [hidle, List.flatten_nil, List.append_nil] at hpieces
    have hset := h.set_reader ⟨chunks MAX_CHUNK bytes, false, reader.read ++ bytes⟩ hreader [] ?_
      (fun hended => by cases hended) (fun hended => absurd hended hrunning)
    · simpa using hset
    · rw [List.flatten_nil, List.append_nil, hpieces, flatten_chunks (by decide)]
  | @send i reader chunk rest hreader hsending =>
    refine h.set_reader { reader with sending := rest } hreader [chunk] ?_ ?_ fun hended => hended
    · have hpieces := h.pieces hreader
      rw [hsending, List.flatten_cons, ← List.append_assoc] at hpieces
      rw [List.flatten_singleton]
      exact hpieces
    · intro hended
      have hnone := h.ended reader (List.mem_of_getElem? hreader) hended
      rw [hsending] at hnone
      cases hnone
  | @eof i reader hreader hidle =>
    have hpieces := h.pieces hreader
    have hset := h.set_reader { reader with ended := true } hreader [] ?_ (fun _ => hidle) fun _ => rfl
    · simpa using hset
    · rw [List.flatten_nil, List.append_nil]
      exact hpieces
  | exit hcode => exact { h with finished := fun hwaiter => ⟨rfl, (h.finished hwaiter).2⟩ }
  | join hwaiting hcode hall =>
    exact { h with finished := fun _ => ⟨hcode, fun reader hmem => List.all_eq_true.mp hall reader hmem⟩ }
  | report hwaiter hcode =>
    exact { h with finished := fun _ => h.finished (by rw [hwaiter]; decide) }

theorem Heard.turn (h : p.Heard) (hturn : p.turn thread = some done) : done.1.Heard := by
  cases turned hturn with
  | join hwaiting =>
    rw [h.waiting hwaiting]
    exact ⟨nofun, nofun⟩
  | report => exact ⟨nofun, nofun⟩
  | _ => exact ⟨h.waiting, h.told⟩

/-- What still goes on goes on before the end is waited for. -/
theorem Sound.waiting (h : p.Sound) {i : ℕ} {reader : Reader} (hreader : p.readers[i]? = some reader)
    (hrunning : ¬ reader.ended = true) : p.waiter = .waiting := by
  by_contra hwaiter
  exact hrunning ((h.finished hwaiter).2 reader (List.mem_of_getElem? hreader))

theorem ending_of_ne (h : p.waiter ≠ .reported) : p.ending = [] := by
  unfold ending
  split
  case h_1 hreported _ => exact absurd hreported h
  case h_2 => rfl

/-- After the report there is no turn. -/
theorem Sound.not_reported (h : p.Sound) (hturn : p.turn thread = some done) : p.waiter ≠ .reported := by
  cases turned hturn with
  | read hreader hidle hrunning => rw [h.waiting hreader hrunning]; decide
  | @send i reader chunk rest hreader hsending =>
    have hrunning : ¬ reader.ended = true := by
      intro hended
      have hnone := h.ended reader (List.mem_of_getElem? hreader) hended
      rw [hsending] at hnone
      cases hnone
    rw [h.waiting hreader hrunning]
    decide
  | eof hreader hidle hrunning => rw [h.waiting hreader hrunning]; decide
  | exit hcode =>
    intro hreported
    have hsome := (h.finished (by rw [hreported]; decide)).1
    rw [hcode] at hsome
    cases hsome
  | join hwaiting => rw [hwaiting]; decide
  | report hwaiter => rw [hwaiter]; decide

theorem stream_of_ne (h : p.waiter ≠ .reported) : p.stream = p.sent.map fun piece => .data piece.2 := by
  rw [stream, ending_of_ne h, List.append_nil]

/-- What a turn sends is what the stream gets. -/
theorem stream_turn (h : p.Sound) (hturn : p.turn thread = some done) :
    done.1.stream = p.stream ++ done.2.flatMap CommandMessage.events := by
  have hne := h.not_reported hturn
  rw [stream_of_ne hne]
  cases turned hturn with
  | send hreader hsending =>
    rw [stream_of_ne (by exact hne), List.map_append]
    rfl
  | join hwaiting =>
    rw [stream_of_ne (by dsimp only; split <;> decide), List.flatMap_nil, List.append_nil]
  | report hwaiter hcode =>
    rw [stream, ending, hcode, List.flatMap_singleton]
    rfl
  | _ => rw [stream_of_ne (by exact hne), List.flatMap_nil, List.append_nil]

/-- A turn sends nothing, or some output, or the end. -/
theorem turn_cases (h : p.Sound) (hturn : p.turn thread = some done) :
    (done.1.waiter ≠ .reported ∧ (done.2 = [] ∨ ∃ bytes, done.2 = [.data p.id bytes]))
      ∨ (thread = .report ∧ done.1.waiter = .reported ∧ ∃ code, done.2 = [.exited p.id code]) := by
  have hne := h.not_reported hturn
  cases turned hturn with
  | @send i reader chunk rest hreader hsending => exact Or.inl ⟨hne, Or.inr ⟨chunk, rfl⟩⟩
  | join =>
    refine Or.inl ⟨?_, Or.inl rfl⟩
    dsimp only
    split <;> decide
  | @report code => exact Or.inr ⟨rfl, rfl, code, rfl⟩
  | _ => exact Or.inl ⟨hne, Or.inl rfl⟩

end Process

/-! ### What is on its way -/

/-- What is on its way to a channel: its output, the answer to the open if it is still
to come, and then the end, if it is reported. -/
inductive Ahead : Bool → Bool → List CommandMessage → Prop
  | nil : Ahead false false []
  | data {pending ended : Bool} {id : ChannelId} {bytes : Bytes} {rest : List CommandMessage} :
      Ahead pending ended rest → Ahead pending ended (.data id bytes :: rest)
  | opened {ended : Bool} {id : ChannelId} {pid : Option ℕ} {rest : List CommandMessage} :
      Ahead false ended rest → Ahead true ended (.opened id pid :: rest)
  | exited {id : ChannelId} {code : Option ℤ} : Ahead false true [.exited id code]

namespace Ahead

variable {pending : Bool} {messages messages' : List CommandMessage}

/-- Output may come in anywhere before the end. -/
theorem insert (h : Ahead pending false (messages ++ messages')) (id : ChannelId) (bytes : Bytes) :
    Ahead pending false (messages ++ .data id bytes :: messages') := by
  induction messages generalizing pending with
  | nil => exact .data h
  | cons message messages ih =>
    cases h with
    | data h => exact .data (ih h)
    | opened h => exact .opened (ih h)

/-- The end comes behind everything. -/
theorem concat (h : Ahead pending false messages) (id : ChannelId) (code : Option ℤ) :
    Ahead pending true (messages ++ [.exited id code]) := by
  induction messages generalizing pending with
  | nil =>
    cases h
    exact .exited
  | cons message messages ih =>
    cases h with
    | data h => exact .data (ih h)
    | opened h => exact .opened (ih h)

end Ahead

/-! ### How far a channel has come -/

/-- Nothing was started. -/
def CommandMessage.Declines (message : CommandMessage) : Prop :=
  (∃ id reason, message = .refused id reason) ∨ ∃ id username, message = .passwordNeeded id username

/-- How far a call has come whose command was started. -/
inductive Stage (channel : Channel) (ended : Bool) : Prop
  | waiting {since : ℕ} (phase : channel.call.phase = .waiting since) (route : channel.route = some true)
    (ahead : Ahead true ended (channel.wire ++ channel.answering))
  | holding {opened : Opened} (phase : channel.call.phase = .holding opened)
    (route : channel.route = some false) (ahead : Ahead false ended (channel.wire ++ channel.answering))
  | done {opened : Opened} (phase : channel.call.phase = .holding opened) (route : channel.route = none)
    (ended : ended = true) (wire : channel.wire = []) (answering : channel.answering = [])

/-- A command was started, and what its channel reports is what was sent of it. -/
structure Running (channel : Channel) (p : Process) : Prop where
  process : channel.process = some p
  sound : p.Sound
  heard : p.Heard
  requests : channel.requests = []
  stream : channel.call.events ++ (channel.wire ++ channel.answering).flatMap CommandMessage.events = p.stream
  answering : p.waiter ≠ .reported →
    ∀ message ∈ channel.answering, ∃ id pid, message = .opened id pid
  stage : Stage channel (p.waiter = .reported)

/-- How far a channel has come. -/
inductive Story (channel : Channel) : Prop
  | asking (phase : channel.call.phase = .asking) (route : channel.route = some true)
    (requests : channel.requests = []) (wire : channel.wire = []) (answering : channel.answering = [])
    (process : channel.process = none) (events : channel.call.events = [])
  | asked {since : ℕ} {id : ChannelId} {kind : ChannelKind} (phase : channel.call.phase = .waiting since)
    (route : channel.route = some true) (requests : channel.requests = [.open id kind])
    (wire : channel.wire = []) (answering : channel.answering = []) (process : channel.process = none)
    (events : channel.call.events = [])
  | declined {since : ℕ} {message : CommandMessage} (phase : channel.call.phase = .waiting since)
    (route : channel.route = some true) (requests : channel.requests = [])
    (wire : channel.wire ++ channel.answering = [message]) (declines : message.Declines)
    (process : channel.process = none)
  | turnedDown
    (phase : (∃ reason, channel.call.phase = .failed reason) ∨ ∃ opened, channel.call.phase = .holding opened)
    (route : channel.route = none) (requests : channel.requests = []) (process : channel.process = none)
  | started {p : Process} (running : Running channel p)
  | left (phase : channel.call.phase = .closing ∨ channel.call.phase = .closed)
    (route : channel.route ≠ some true)

/-- What a channel relies on: the host answers in time, and reports an end behind
the answer. -/
def Channel.Punctual (channel : Channel) : Act → Prop
  | .timeout => False
  | .thread .report => channel.answering = []
  | _ => True

theorem story_new (id : ChannelId) (kind : ChannelKind) : Story (.new id kind) :=
  .asking rfl rfl rfl rfl rfl rfl rfl

section Steps

variable {channel channel' : Channel} {act : Act} {p : Process}

/-- A message arrives at the channel of a command that was started. -/
theorem Running.deliver (h : Running channel p) (hstep : channel.step .deliver = some channel') :
    Running channel' p := by
  have hstream := h.stream
  cases hwire : channel.wire with
  | nil =>
    simp only [Channel.step, hwire] at hstep
    cases hstep
  | cons message rest =>
    rw [hwire, List.cons_append, List.flatMap_cons] at hstream
    cases h.stage with
    | waiting hphase hroute hahead =>
      simp only [Channel.step, hwire, hroute] at hstep
      cases hstep
      rw [hwire, List.cons_append] at hahead
      cases hahead with
      | data hahead =>
        refine { h with stream := ?_, stage := .waiting hphase rfl hahead }
        rw [← hstream, ← List.append_assoc]
        rfl
      | opened hahead =>
        exact { h with stream := hstream, stage := .holding rfl rfl hahead }
    | holding hphase hroute hahead =>
      simp only [Channel.step, hwire, hroute] at hstep
      cases hstep
      rw [hwire, List.cons_append] at hahead
      generalize hlist : rest ++ channel.answering = tail at hahead
      generalize hended : decide (p.waiter = .reported) = ended at hahead
      cases hahead with
      | data hahead =>
        refine { h with stream := ?_, stage := .holding hphase rfl (by rw [hlist, hended]; exact hahead) }
        rw [← hstream, ← List.append_assoc]
        rfl
      | exited =>
        obtain ⟨hrest, hanswering⟩ := List.append_eq_nil_iff.mp hlist
        refine { h with stream := ?_, stage := .done hphase rfl hended hrest hanswering }
        rw [← hstream, ← List.append_assoc]
        rfl
    | done hphase hroute hended hnone hanswering =>
      rw [hnone] at hwire
      cases hwire

/-- A command does something, and its end is reported behind the answer. -/
theorem Running.thread (h : Running channel p) {thread : Thread} {done : Process × List CommandMessage}
    (hturn : p.turn thread = some done) (hpunctual : channel.Punctual (.thread thread)) :
    Running { channel with process := some done.1, wire := channel.wire ++ done.2 } done.1 := by
  have hne := h.sound.not_reported hturn
  have hsent := Process.stream_turn h.sound hturn
  have hsilent : channel.answering.flatMap CommandMessage.events = [] := by
    refine List.flatMap_eq_nil_iff.mpr fun message hmem => ?_
    obtain ⟨id, pid, rfl⟩ := h.answering hne message hmem
    rfl
  have hstream : channel.call.events
      ++ (channel.wire ++ done.2 ++ channel.answering).flatMap CommandMessage.events = done.1.stream := by
    rw [hsent, ← h.stream, List.flatMap_append, List.flatMap_append, List.flatMap_append, hsilent,
      List.append_nil, List.append_nil, List.append_assoc]
  have hnot : decide (p.waiter = .reported) = false := decide_eq_false hne
  have hstage := h.stage
  rw [hnot] at hstage
  -- what the turn sends comes in before what the session's task has still to send
  have hahead : ∀ {pending : Bool}, Ahead pending false (channel.wire ++ channel.answering) →
      Ahead pending (done.1.waiter = .reported) (channel.wire ++ done.2 ++ channel.answering) := by
    intro pending hahead
    rcases Process.turn_cases h.sound hturn with ⟨hne', hnone | ⟨bytes, hdata⟩⟩ | ⟨rfl, hreported, code, hexited⟩
    · rw [decide_eq_false hne', hnone, List.append_nil]
      exact hahead
    · rw [decide_eq_false hne', hdata, List.append_assoc]
      exact hahead.insert p.id bytes
    · have hanswering : channel.answering = [] := hpunctual
      rw [decide_eq_true hreported, hexited, hanswering, List.append_nil]
      rw [hanswering, List.append_nil] at hahead
      exact hahead.concat p.id code
  refine ⟨rfl, h.sound.turn hturn, h.heard.turn hturn, h.requests, hstream, fun _ => h.answering hne, ?_⟩
  cases hstage with
  | waiting hphase hroute ha => exact .waiting hphase hroute (hahead ha)
  | holding hphase hroute ha => exact .holding hphase hroute (hahead ha)
  | done hphase hroute hended hwire hanswering => cases hended

/-- An open is answered. -/
theorem story_handle {since : ℕ} {id : ChannelId} {opening : Opening}
    (hphase : channel.call.phase = .waiting since) (hroute : channel.route = some true)
    (hwire : channel.wire = []) (hprocess : channel.process = none) (hevents : channel.call.events = []) :
    Story { channel with
      requests := []
      answering := opening.answers id
      process := channel.process.or (opening.process id) } := by
  rw [hprocess, Option.none_or]
  cases opening with
  | refused reason =>
    refine .declined hphase hroute rfl ?_ (Or.inl ⟨id, reason, rfl⟩) rfl
    rw [hwire]
    rfl
  | passwordNeeded username =>
    refine .declined hphase hroute rfl ?_ (Or.inr ⟨id, username, rfl⟩) rfl
    rw [hwire]
    rfl
  | launched pid =>
    refine .started ⟨rfl, Process.sound_detached id, ⟨nofun, nofun⟩, rfl, ?_, fun hne => absurd rfl hne, ?_⟩
    · rw [hwire, hevents]
      rfl
    · refine .waiting hphase hroute ?_
      rw [hwire]
      exact .opened .exited
  | running readers pid =>
    refine .started ⟨rfl, Process.sound_running id readers, ⟨fun _ => rfl, nofun⟩, rfl, ?_, ?_, ?_⟩
    · rw [hwire, hevents]
      rfl
    · intro _ message hmem
      cases List.mem_singleton.mp hmem
      exact ⟨id, pid, rfl⟩
    · refine .waiting hphase hroute ?_
      rw [hwire]
      exact .opened .nil

/-- The host's no arrives. -/
theorem story_declined {message : CommandMessage} (hroute : channel.route = some true)
    (hrequests : channel.requests = [])
    (hwire : channel.wire ++ channel.answering = [message]) (hdeclines : message.Declines)
    (hprocess : channel.process = none) (hstep : channel.step .deliver = some channel') : Story channel' := by
  cases hfirst : channel.wire with
  | nil =>
    simp only [Channel.step, hfirst] at hstep
    cases hstep
  | cons first rest =>
    rw [hfirst, List.cons_append, List.cons.injEq] at hwire
    obtain ⟨rfl, -⟩ := hwire
    simp only [Channel.step, hfirst, hroute] at hstep
    cases hstep
    rcases hdeclines with ⟨id, reason, rfl⟩ | ⟨id, username, rfl⟩
    · exact .turnedDown (Or.inl ⟨reason, rfl⟩) rfl hrequests hprocess
    · exact .turnedDown (Or.inr ⟨_, rfl⟩) rfl hrequests hprocess

/-- Once the channel is closed, no answer is waited for. -/
theorem receive_left (call : Call) (message : CommandMessage) :
    (call.receive false message).2.phase = call.phase ∧ (call.receive false message).1 ≠ some true := by
  cases message <;> simp [Call.receive]

/-- A closed channel stays so, whatever comes. -/
theorem story_left (hphase : channel.call.phase = .closing ∨ channel.call.phase = .closed)
    (hroute : channel.route ≠ some true) (hstep : channel.step act = some channel') : Story channel' := by
  cases act with
  | ask _ | unsent _ =>
    obtain ⟨hasking, -⟩ := Option.ite_none_right_eq_some.mp hstep
    rw [hasking] at hphase
    rcases hphase with hphase | hphase <;> cases hphase
  | timeout =>
    simp only [Channel.step] at hstep
    rcases hphase with hphase | hphase <;> rw [hphase] at hstep <;> cases hstep
  | close =>
    simp only [Channel.step] at hstep
    rcases hphase with hphase | hphase <;> rw [hphase] at hstep <;> cases hstep
  | forward =>
    obtain ⟨-, hstep⟩ := Option.ite_none_right_eq_some.mp hstep
    cases hstep
    exact .left (Or.inr rfl) (by simp)
  | deliver =>
    simp only [Channel.step] at hstep
    split at hstep
    case h_1 => cases hstep
    case h_2 hnone =>
      cases hstep
      exact .left hphase hroute
    case h_3 message rest opened _ hopened =>
      cases hstep
      cases opened with
      | true => exact absurd hopened hroute
      | false =>
        obtain ⟨hsame, hne⟩ := receive_left channel.call message
        exact .left (by rw [hsame]; exact hphase) hne
  | handle opening =>
    simp only [Channel.step] at hstep
    split at hstep
    case h_1 =>
      obtain ⟨_, -, rfl⟩ := Option.map_eq_some_iff.mp hstep
      exact .left hphase hroute
    case h_2 =>
      cases hstep
      exact .left hphase hroute
    case h_3 =>
      cases hstep
      exact .left hphase hroute
    case h_4 => cases hstep
  | answer =>
    simp only [Channel.step] at hstep
    split at hstep
    case h_1 => cases hstep
    case h_2 =>
      cases hstep
      exact .left hphase hroute
  | thread thread =>
    obtain ⟨p, -, hstep⟩ := Option.bind_eq_some_iff.mp hstep
    obtain ⟨turn, -, rfl⟩ := Option.map_eq_some_iff.mp hstep
    exact .left hphase hroute

/-- Once the channel is there, no answer is waited for. -/
theorem Story.route_of_holding (h : Story channel) {opened : Opened} (hphase : channel.call.phase = .holding opened) :
    channel.route ≠ some true := by
  cases h with
  | asking hasking => rw [hasking] at hphase; cases hphase
  | asked hwaiting => rw [hwaiting] at hphase; cases hphase
  | declined hwaiting => rw [hwaiting] at hphase; cases hphase
  | turnedDown _ hroute => rw [hroute]; exact nofun
  | started running =>
    cases running.stage with
    | waiting hwaiting => rw [hwaiting] at hphase; cases hphase
    | holding _ hroute => rw [hroute]; decide
    | done _ hroute => rw [hroute]; exact nofun
  | left _ hroute => exact hroute

/-- A call of which the command was started has asked, and holds the channel if it has
an answer. -/
theorem Running.phase (h : Running channel p) :
    (∃ since, channel.call.phase = .waiting since) ∨ ∃ opened, channel.call.phase = .holding opened := by
  cases h.stage with
  | waiting hphase => exact Or.inl ⟨_, hphase⟩
  | holding hphase => exact Or.inr ⟨_, hphase⟩
  | done hphase => exact Or.inr ⟨_, hphase⟩

/-- The session's task sends what it has to. -/
theorem Running.answer (h : Running channel p) {message : CommandMessage} {rest : List CommandMessage}
    (hanswering : channel.answering = message :: rest) :
    Running { channel with answering := rest, wire := channel.wire ++ [message] } p := by
  have hsame : channel.wire ++ [message] ++ rest = channel.wire ++ channel.answering := by
    rw [hanswering, List.append_assoc]
    rfl
  refine ⟨h.process, h.sound, h.heard, h.requests, ?_, ?_, ?_⟩
  · simp only [hsame]
    exact h.stream
  · intro hne message' hmem
    exact h.answering hne message' (hanswering ▸ List.mem_cons_of_mem _ hmem)
  · cases h.stage with
    | waiting hphase hroute hahead => exact .waiting hphase hroute (by simp only [hsame]; exact hahead)
    | holding hphase hroute hahead => exact .holding hphase hroute (by simp only [hsame]; exact hahead)
    | done _ _ _ _ hnone => rw [hnone] at hanswering; cases hanswering

/-- There is nothing to take. -/
theorem handle_nil (h : channel.requests = []) (opening : Option Opening) :
    channel.step (.handle opening) = none := by
  simp only [Channel.step, h]
  split
  case h_1 hopen => cases hopen
  case h_2 hclose => cases hclose
  case h_3 hcons => cases hcons
  case h_4 => rfl

/-- What every step of a channel preserves whose end is reported behind the answer, and
in time. -/
theorem Story.step (h : Story channel) (hpunctual : channel.Punctual act)
    (hstep : channel.step act = some channel') : Story channel' := by
  cases h with
  | asking hphase hroute hrequests hwire hanswering hprocess hevents =>
    cases act with
    | ask now =>
      obtain ⟨-, hstep⟩ := Option.ite_none_right_eq_some.mp hstep
      cases hstep
      have hasked : channel.requests ++ [.open channel.call.id channel.call.kind]
          = [.open channel.call.id channel.call.kind] := by rw [hrequests, List.nil_append]
      exact .asked rfl hroute hasked hwire hanswering hprocess hevents
    | unsent error =>
      obtain ⟨-, hstep⟩ := Option.ite_none_right_eq_some.mp hstep
      cases hstep
      exact .turnedDown (Or.inl ⟨error, rfl⟩) rfl hrequests hprocess
    | timeout => exact hpunctual.elim
    | close => simp only [Channel.step, hphase] at hstep; cases hstep
    | forward => simp only [Channel.step, hphase] at hstep; cases hstep
    | deliver => simp only [Channel.step, hwire] at hstep; cases hstep
    | handle opening => rw [handle_nil hrequests] at hstep; cases hstep
    | answer => simp only [Channel.step, hanswering] at hstep; cases hstep
    | thread thread => simp only [Channel.step, hprocess] at hstep; cases hstep
  | asked hphase hroute hrequests hwire hanswering hprocess hevents =>
    cases act with
    | ask now => simp only [Channel.step, hphase] at hstep; cases hstep
    | unsent error => simp only [Channel.step, hphase] at hstep; cases hstep
    | timeout => exact hpunctual.elim
    | close => simp only [Channel.step, hphase] at hstep; cases hstep
    | forward => simp only [Channel.step, hphase] at hstep; cases hstep
    | deliver => simp only [Channel.step, hwire] at hstep; cases hstep
    | handle opening =>
      simp only [Channel.step, hanswering, hrequests] at hstep
      obtain ⟨opening', -, rfl⟩ := Option.map_eq_some_iff.mp hstep
      exact story_handle hphase hroute hwire hprocess hevents
    | answer => simp only [Channel.step, hanswering] at hstep; cases hstep
    | thread thread => simp only [Channel.step, hprocess] at hstep; cases hstep
  | declined hphase hroute hrequests hwire hdeclines hprocess =>
    cases act with
    | ask now => simp only [Channel.step, hphase] at hstep; cases hstep
    | unsent error => simp only [Channel.step, hphase] at hstep; cases hstep
    | timeout => exact hpunctual.elim
    | close => simp only [Channel.step, hphase] at hstep; cases hstep
    | forward => simp only [Channel.step, hphase] at hstep; cases hstep
    | deliver => exact story_declined hroute hrequests hwire hdeclines hprocess hstep
    | handle opening =>
      rw [handle_nil hrequests] at hstep
      cases hstep
    | answer =>
      cases hanswering : channel.answering with
      | nil => simp only [Channel.step, hanswering] at hstep; cases hstep
      | cons first rest =>
        simp only [Channel.step, hanswering] at hstep
        cases hstep
        refine .declined hphase hroute hrequests ?_ hdeclines hprocess
        rw [← hwire, hanswering, List.append_assoc]
        rfl
    | thread thread => simp only [Channel.step, hprocess] at hstep; cases hstep
  | turnedDown hphase hroute hrequests hprocess =>
    cases act with
    | ask now =>
      obtain ⟨hasking, -⟩ := Option.ite_none_right_eq_some.mp hstep
      rcases hphase with ⟨_, hphase⟩ | ⟨_, hphase⟩ <;> rw [hasking] at hphase <;> cases hphase
    | unsent error =>
      obtain ⟨hasking, -⟩ := Option.ite_none_right_eq_some.mp hstep
      rcases hphase with ⟨_, hphase⟩ | ⟨_, hphase⟩ <;> rw [hasking] at hphase <;> cases hphase
    | timeout => exact hpunctual.elim
    | close =>
      simp only [Channel.step] at hstep
      split at hstep
      case h_1 =>
        cases hstep
        refine .left (Or.inl rfl) fun hopen => ?_
        simp only [hroute] at hopen
        cases hopen
      case h_2 => cases hstep
    | forward =>
      obtain ⟨hclosing, -⟩ := Option.ite_none_right_eq_some.mp hstep
      rcases hphase with ⟨_, hphase⟩ | ⟨_, hphase⟩ <;> rw [hclosing] at hphase <;> cases hphase
    | deliver =>
      cases hwire : channel.wire with
      | nil => simp only [Channel.step, hwire] at hstep; cases hstep
      | cons message rest =>
        simp only [Channel.step, hwire, hroute] at hstep
        cases hstep
        exact .turnedDown hphase rfl hrequests hprocess
    | handle opening =>
      rw [handle_nil hrequests] at hstep
      cases hstep
    | answer =>
      simp only [Channel.step] at hstep
      split at hstep
      case h_1 => cases hstep
      case h_2 =>
        cases hstep
        exact .turnedDown hphase hroute hrequests hprocess
    | thread thread => simp only [Channel.step, hprocess] at hstep; cases hstep
  | @started p running =>
    cases act with
    | ask now =>
      obtain ⟨hasking, -⟩ := Option.ite_none_right_eq_some.mp hstep
      rcases running.phase with ⟨_, hphase⟩ | ⟨_, hphase⟩ <;> rw [hasking] at hphase <;> cases hphase
    | unsent error =>
      obtain ⟨hasking, -⟩ := Option.ite_none_right_eq_some.mp hstep
      rcases running.phase with ⟨_, hphase⟩ | ⟨_, hphase⟩ <;> rw [hasking] at hphase <;> cases hphase
    | timeout => exact hpunctual.elim
    | close =>
      have hstory : Story channel := .started running
      simp only [Channel.step] at hstep
      split at hstep
      case h_1 hphase =>
        cases hstep
        exact .left (Or.inl rfl) (hstory.route_of_holding hphase)
      case h_2 => cases hstep
    | forward =>
      obtain ⟨hclosing, -⟩ := Option.ite_none_right_eq_some.mp hstep
      rcases running.phase with ⟨_, hphase⟩ | ⟨_, hphase⟩ <;> rw [hclosing] at hphase <;> cases hphase
    | deliver => exact .started (running.deliver hstep)
    | handle opening =>
      rw [handle_nil running.requests] at hstep
      cases hstep
    | answer =>
      cases hanswering : channel.answering with
      | nil => simp only [Channel.step, hanswering] at hstep; cases hstep
      | cons first rest =>
        simp only [Channel.step, hanswering] at hstep
        cases hstep
        exact .started (running.answer hanswering)
    | thread thread =>
      obtain ⟨p', hp', hstep⟩ := Option.bind_eq_some_iff.mp hstep
      obtain ⟨done, hturn, rfl⟩ := Option.map_eq_some_iff.mp hstep
      rw [running.process] at hp'
      cases hp'
      exact .started (running.thread hturn hpunctual)
  | left hphase hroute => exact story_left hphase hroute hstep

end Steps

/-! ### Runs -/

namespace CommandStream

variable {s s' : CommandStream} {event : Event}

/-- What an event relies on: numbers that are new, answers in time, and an end that is
reported behind the answer to the open. -/
def Orderly (s : CommandStream) : Event → Prop
  | .call _ => s.calls.length < 2 ^ 32
  | .timeout _ => False
  | .thread i .report => ∀ p ∈ s.processes[i]?, about p.id s.answering = []
  | _ => True

theorem Orderly.few (h : s.Orderly event) (kind : ChannelKind) (hcall : event = .call kind) :
    s.calls.length < 2 ^ 32 := by
  subst hcall
  exact h

/-- What is in order for the session is so for each of its channels. -/
theorem Orderly.punctual (h : s.Orderly event) (htables : s.Tables) {n : ℕ} {channel : Channel} {act : Act}
    (hview : s.view n = some channel) (hact : s.actAt n event = some act) : channel.Punctual act := by
  obtain ⟨call, hcall, rfl⟩ := Option.map_eq_some_iff.mp hview
  cases act with
  | timeout =>
    cases actAt_timeout hact
    exact h.elim
  | thread thread =>
    obtain ⟨i, p, rfl, hp, hid⟩ := actAt_thread hact
    cases thread with
    | report =>
      have hnone : about p.id s.answering = [] := h p hp
      rw [(htables.id_eq_iff hcall p.id).mp hid] at hnone
      exact hnone
    | _ => trivial
  | _ => trivial

/-- What holds of an orderly session. -/
structure Told (s : CommandStream) : Prop where
  inv : s.Inv
  story : ∀ n channel, s.view n = some channel → Story channel

theorem Told.new : Told CommandStream.new where
  inv := Inv.new
  story := fun _ _ h => by cases h

theorem Told.step (h : s.Told) (horderly : s.Orderly event) (hstep : s.step event = some s') : s'.Told where
  inv := h.inv.step horderly.few hstep
  story :=
    forall_view_step h.inv.tables horderly.few hstep h.story story_new
      fun _ _ _ _ hview hact hstory hlocal => hstory.step (horderly.punctual h.inv.tables hview hact) hlocal

/-- Nothing is on its way under a number. -/
def Quiet (s : CommandStream) (id : ChannelId) : Prop := about id s.toClient = [] ∧ about id s.answering = []

/-- A call returns the channel and no error, and the channel yields what was sent of the
command, in order and once: all that its readers have read, and its end. -/
structure Yields (s : CommandStream) (call : Call) (p : Process) : Prop where
  /-- The call does not return an error. -/
  returned : ∀ reason, call.phase ≠ .failed reason
  /-- What the channel has reported comes in the order it was sent in. -/
  ordered : call.events <+: p.stream
  /-- Of each reader everything is sent in order that it has read. -/
  sound : p.Sound
  /-- The end is not kept back. -/
  told : p.waiter ≠ .silent
  /-- Once nothing is on its way, the call has returned, and the channel has reported
  all that was sent. -/
  all : s.Quiet call.id → (∃ opened, call.phase = .holding opened) ∧ call.events = p.stream

theorem Told.yields (h : s.Told) {n : ℕ} {call : Call} {p : Process} (hcall : s.calls[n]? = some call)
    (hp : p ∈ s.processes) (hid : p.id = call.id) (hclosing : call.phase ≠ .closing)
    (hclosed : call.phase ≠ .closed) : s.Yields call p := by
  obtain ⟨i, hi⟩ := List.mem_iff_getElem?.mp hp
  have hprocess := h.inv.tables.processOf_eq hi
  rw [hid] at hprocess
  have hstory := h.story n _ (view_of hcall)
  rw [hprocess] at hstory
  cases hstory with
  | asking _ _ _ _ _ hnone => cases hnone
  | asked _ _ _ _ _ hnone => cases hnone
  | declined _ _ _ _ _ hnone => cases hnone
  | turnedDown _ _ _ hnone => cases hnone
  | left hleft => exact absurd hleft (not_or.mpr ⟨hclosing, hclosed⟩)
  | @started p' running =>
    have hsame := running.process
    cases hsame
    have hstream := running.stream
    refine ⟨?_, ⟨_, hstream⟩, running.sound, running.heard.told, ?_⟩
    · intro reason hfailed
      rcases running.phase with ⟨_, hphase⟩ | ⟨_, hphase⟩ <;> rw [hfailed] at hphase <;> cases hphase
    · rintro ⟨hwire, hanswering⟩
      simp only [hwire, hanswering, List.append_nil, List.flatMap_nil] at hstream
      refine ⟨?_, hstream⟩
      cases running.stage with
      | waiting _ _ hahead =>
        simp only [hwire, hanswering, List.append_nil] at hahead
        cases hahead
      | holding hphase => exact ⟨_, hphase⟩
      | done hphase => exact ⟨_, hphase⟩

/-! What is on its way can always arrive. -/

theorem answers_sent : ∀ (messages : List CommandMessage) (s : CommandStream), s.answering = messages →
    ∃ es, Run.Guarded step Orderly es s { s with answering := [], toClient := s.toClient ++ messages } := by
  intro messages
  induction messages with
  | nil =>
    intro s h
    refine ⟨[], ?_⟩
    rw [List.append_nil, ← h]
    rfl
  | cons message rest ih =>
    intro s h
    obtain ⟨es, hes⟩ := ih { s with answering := rest, toClient := s.toClient ++ [message] } rfl
    refine ⟨.answer :: es, trivial, { s with answering := rest, toClient := s.toClient ++ [message] }, ?_, ?_⟩
    · simp only [step, h]
    · simpa using hes

theorem messages_taken : ∀ (messages : List CommandMessage) (s : CommandStream), s.toClient = messages →
    s.answering = [] → ∃ es s', Run.Guarded step Orderly es s s' ∧ s'.toClient = [] ∧ s'.answering = []
      ∧ s'.processes = s.processes := by
  intro messages
  induction messages with
  | nil => exact fun s h hanswering => ⟨[], s, rfl, h, hanswering, rfl⟩
  | cons message rest ih =>
    intro s h hanswering
    obtain ⟨-, -, -, hclient, hanswering', -, hprocesses⟩ := receive_fields { s with toClient := rest } message
    obtain ⟨es, s', hes, htaken, hsent, hsame⟩ := ih _ hclient (hanswering'.trans hanswering)
    refine ⟨.deliver :: es, s', ⟨trivial, _, ?_, hes⟩, htaken, hsent, hsame.trans hprocesses⟩
    simp only [step, h]

/-- Nothing need happen but that messages arrive for all of them to have arrived. -/
theorem quiets (s : CommandStream) :
    ∃ es s', Run.Guarded step Orderly es s s' ∧ (∀ id, s'.Quiet id) ∧ s'.processes = s.processes := by
  obtain ⟨es, hes⟩ := answers_sent _ s rfl
  obtain ⟨es', s', hes', hclient, hanswering, hprocesses⟩ := messages_taken _ _ rfl (rfl : CommandStream.answering
    { s with answering := [], toClient := s.toClient ++ s.answering } = [])
  have hquiet : ∀ id, s'.Quiet id := by
    intro id
    rw [Quiet, hclient, hanswering]
    exact ⟨rfl, rfl⟩
  exact ⟨es ++ es', s', hes.append hes', hquiet, hprocesses⟩

/-- A channel of a command that was started is opened, and yields its output and its
end, in order and once. -/
theorem opened_and_yields {es : List Event} (h : Run.Guarded step Orderly es .new s) {n : ℕ} {call : Call} {p : Process}
    (hcall : s.calls[n]? = some call) (hp : p ∈ s.processes) (hid : p.id = call.id)
    (hclosing : call.phase ≠ .closing) (hclosed : call.phase ≠ .closed) : s.Yields call p := by
  have htold : s.Told := h.invariant (fun _ _ _ htold horderly hstep => htold.step horderly hstep) Told.new
  exact htold.yields hcall hp hid hclosing hclosed

/-- A command that says hello and ends. -/
def hello : List Event :=
  [.call .stream, .ask 0, .handle (.start (.ok (.running 1 (some 7)))), .thread 0 (.read 0 [104, 105]),
    .thread 0 (.send 0), .deliver, .answer, .thread 0 (.eof 0), .thread 0 (.exit (some 0)), .thread 0 .join,
    .thread 0 .report, .deliver, .deliver]

/-- Its channel is opened, though its output comes before the answer, and yields both. -/
theorem opened_and_yields_hello :
    ∃ s call p, hello.foldlM step .new = some s ∧ s.calls[0]? = some call ∧ p ∈ s.processes ∧ p.id = call.id
      ∧ call.phase = .holding (.pid (some 7))
      ∧ call.events = [.data [104, 105], .exited (some 0), .closed] ∧ s.Yields call p := by
  have hrun : Run.Guarded step Orderly hello .new _ :=
    ⟨(by decide : (0 : ℕ) < 2 ^ 32), _, rfl, trivial, _, rfl, trivial, _, rfl, trivial, _, rfl, trivial, _, rfl,
      trivial, _, rfl, trivial, _, rfl, trivial, _, rfl, trivial, _, rfl, trivial, _, rfl,
      (fun p hp => by cases hp; decide), _, rfl, trivial, _, rfl, trivial, _, rfl, rfl⟩
  let call : Call := ⟨0, .stream, .holding (.pid (some 7)), [.data [104, 105], .exited (some 0), .closed]⟩
  exact ⟨_, call, _, hrun.run, rfl, List.mem_singleton_self _, rfl, rfl, rfl,
    opened_and_yields (n := 0) hrun rfl (List.mem_singleton_self _) rfl nofun nofun⟩

/-- The host answers every open in time. -/
def Timely (_ : CommandStream) : Event → Prop
  | .timeout _ => False
  | _ => True

/-- The command is over before the session's task has sent the answer to its open. -/
def overtaken : List Event :=
  [.call .stream, .ask 0, .handle (.start (.ok (.running 1 (some 7)))), .thread 0 (.eof 0),
    .thread 0 (.exit (some 0)), .thread 0 .join, .thread 0 .report, .deliver, .answer, .deliver]

/-- **A command's end can come before the answer to its open, and the call returns an
error though the command was started.** -/
theorem overtaken_fails :
    ¬ ∀ (es : List Event) (s : CommandStream), Run.Guarded step Timely es .new s →
      ∀ (n : ℕ) (call : Call) (p : Process), s.calls[n]? = some call → p ∈ s.processes → p.id = call.id → call.phase ≠ .closing → call.phase ≠ .closed → s.Yields call p := by
  intro h
  have hrun : Run.Guarded step Timely overtaken .new _ :=
    ⟨trivial, _, rfl, trivial, _, rfl, trivial, _, rfl, trivial, _, rfl, trivial, _, rfl,
      trivial, _, rfl, trivial, _, rfl, trivial, _, rfl, trivial, _, rfl, trivial, _, rfl, rfl⟩
  let call : Call := ⟨0, .stream, .failed noAnswer, [.exited (some 0), .closed]⟩
  have hyields := h _ _ hrun 0 call _ rfl (List.mem_singleton_self _) rfl nofun nofun
  exact hyields.returned noAnswer rfl

end CommandStream

end WindowCast.Command
