import WindowCast.Command.Stream

/-!
# One channel of a command stream

Seen from one channel, a session is a smaller machine: its call, its route, what is
on its way under its number, and the command the host has started for it.  As long
as no number comes twice, every step of the session is at most one step of each of
its channels, so what holds of the small machine holds of every channel.

## Main definitions

* `Channel`, `Channel.step` — the small machine.
* `CommandStream.view` — a channel of the session.
* `CommandStream.actAt` — what an event is for a channel.

## Main results

* `CommandStream.Inv.step` — numbers, tables and commands stay in agreement.
* `CommandStream.view_step` — **a step of the session is one of each channel**.
* `CommandStream.forall_view_step` — what the steps of a channel preserve, those of
  the session preserve.
-/

namespace WindowCast.Command

/-! ### The small machine -/

/-- The messages of a channel. -/
def about (id : ChannelId) (messages : List CommandMessage) : List CommandMessage :=
  messages.filter fun message => message.id = id

def CommandMessage.asks : CommandMessage → Bool
  | .open _ _ => true
  | _ => false

section About

variable {id : ChannelId} {messages messages' : List CommandMessage} {message : CommandMessage}

theorem about_append (id : ChannelId) (messages messages' : List CommandMessage) :
    about id (messages ++ messages') = about id messages ++ about id messages' := List.filter_append _ _

theorem about_cons_self (h : message.id = id) :
    about id (message :: messages) = message :: about id messages :=
  List.filter_cons_of_pos (decide_eq_true h)

theorem about_cons_ne (h : message.id ≠ id) : about id (message :: messages) = about id messages :=
  List.filter_cons_of_neg (by simpa using h)

theorem about_all (h : ∀ message ∈ messages, message.id = id) : about id messages = messages :=
  List.filter_eq_self.mpr fun message hmem => decide_eq_true (h message hmem)

theorem about_none (h : ∀ message ∈ messages, message.id ≠ id) : about id messages = [] :=
  List.filter_eq_nil_iff.mpr fun message hmem hid => h message hmem (of_decide_eq_true hid)

theorem about_concat_self (id : ChannelId) (messages : List CommandMessage) (message : CommandMessage) (h : message.id = id) :
    about id (messages ++ [message]) = about id messages ++ [message] := by
  rw [about_append, about_cons_self h]
  rfl

theorem about_concat_ne (id : ChannelId) (messages : List CommandMessage) (message : CommandMessage) (h : message.id ≠ id) :
    about id (messages ++ [message]) = about id messages := by
  rw [about_append, about_cons_ne h, about, about, List.filter_nil, List.append_nil]

theorem mem_about : message ∈ about id messages ↔ message ∈ messages ∧ message.id = id := by
  rw [about, List.mem_filter, decide_eq_true_iff]

end About

/-- What there is of one channel at both ends. -/
structure Channel where
  call : Call
  /-- Whether its route still waits for the host's answer, if there is one. -/
  route : Option Bool
  requests : List CommandMessage
  wire : List CommandMessage
  answering : List CommandMessage
  process : Option Process

/-- What an event is for a channel. -/
inductive Act
  | ask (now : ℕ)
  | unsent (error : Text)
  | timeout
  | close
  | forward
  | deliver
  | handle (opening : Option Opening)
  | answer
  | thread (thread : Thread)

namespace Channel

def new (id : ChannelId) (kind : ChannelKind) : Channel :=
  ⟨⟨id, kind, .asking, []⟩, some true, [], [], [], none⟩

def step (self : Channel) : Act → Option Channel
  | .ask now =>
    if self.call.phase = .asking then
      some { self with
        call := { self.call with phase := .waiting now }
        requests := self.requests ++ [.open self.call.id self.call.kind] }
    else none
  | .unsent error =>
    if self.call.phase = .asking then
      some { self with call := { self.call with phase := .failed error }, route := none }
    else none
  | .timeout =>
    match self.call.phase with
    | .waiting _ => some { self with call := { self.call with phase := .failed noAnswer }, route := none }
    | _ => none
  | .close =>
    match self.call.phase with
    | .holding _ => some { self with call := { self.call with phase := .closing } }
    | _ => none
  | .forward =>
    if self.call.phase = .closing then
      some { self with
        call := { self.call with phase := .closed }
        requests := self.requests ++ [.close self.call.id]
        route := none }
    else none
  | .deliver =>
    match self.wire, self.route with
    | [], _ => none
    | _ :: rest, none => some { self with wire := rest }
    | message :: rest, some opened =>
      some { self with
        call := (self.call.receive opened message).2
        route := (self.call.receive opened message).1
        wire := rest }
  | .handle opening =>
    match self.answering, self.requests with
    | [], .open id _ :: rest =>
      opening.map fun opening =>
        { self with
          requests := rest
          answering := opening.answers id
          process := self.process.or (opening.process id) }
    | [], .close _ :: rest =>
      some { self with
        requests := rest
        process := self.process.map fun p => { p with closed := true } }
    | [], _ :: rest => some { self with requests := rest }
    | _, _ => none
  | .answer =>
    match self.answering with
    | [] => none
    | message :: rest => some { self with answering := rest, wire := self.wire ++ [message] }
  | .thread thread =>
    self.process.bind fun process =>
      (process.turn thread).map fun turn =>
        { self with process := some turn.1, wire := self.wire ++ turn.2 }

/-- How many opens of the channel are still to be taken. -/
def opens (self : Channel) : ℕ := self.requests.countP CommandMessage.asks

/-- A channel is asked for once, and started once. -/
def Once (self : Channel) : Prop :=
  self.opens + (if self.process.isSome then 1 else 0) + (if self.call.phase = .asking then 1 else 0) ≤ 1

end Channel

/-! ### The channels of a session -/

namespace CommandStream

def processOf (self : CommandStream) (id : ChannelId) : Option Process :=
  self.processes.find? fun p => p.id = id

/-- A channel of the session. -/
def view (self : CommandStream) (n : ℕ) : Option Channel :=
  self.calls[n]?.map fun call =>
    ⟨call, (self.routes.lookup call.id).map Route.opened, about call.id self.toHost,
      about call.id self.toClient, about call.id self.answering, self.processOf call.id⟩

/-- What becomes of a message that is an open. -/
def openingOf (self : CommandStream) (backend : Backend) : CommandMessage → Option Opening
  | .open id kind =>
    match backend with
    | .remoteApp _ => opening self.table id kind backend
    | .start _ => opening self.retained id kind backend
  | _ => none

/-- What an event is for a channel, if it is for that one. -/
def actAt (self : CommandStream) (n : ℕ) : Event → Option Act
  | .wait _ | .call _ => none
  | .ask m => if m = n then some (.ask self.now) else none
  | .unsent m error => if m = n then some (.unsent error) else none
  | .timeout m => if m = n then some .timeout else none
  | .close m => if m = n then some .close else none
  | .forward m => if m = n then some .forward else none
  | .deliver =>
    match self.toClient with
    | [] => none
    | message :: _ => if message.id = BitVec.ofNat 32 n then some .deliver else none
  | .handle backend =>
    match self.toHost with
    | [] => none
    | message :: _ =>
      if message.id = BitVec.ofNat 32 n then some (.handle (self.openingOf backend message)) else none
  | .answer =>
    match self.answering with
    | [] => none
    | message :: _ => if message.id = BitVec.ofNat 32 n then some .answer else none
  | .thread i thread =>
    match self.processes[i]? with
    | none => none
    | some process => if process.id = BitVec.ofNat 32 n then some (.thread thread) else none

/-- A number of the session's. -/
def Known (self : CommandStream) (id : ChannelId) : Prop :=
  ∃ n < self.calls.length, id = BitVec.ofNat 32 n

/-- Numbers, tables and commands agree. -/
structure Tables (s : CommandStream) : Prop where
  next : s.next = BitVec.ofNat 32 s.calls.length
  few : s.calls.length ≤ 2 ^ 32
  ids : ∀ {n : ℕ} {call : Call}, s.calls[n]? = some call → call.id = BitVec.ofNat 32 n
  routes : ∀ {id : ChannelId} {route : Route}, s.routes.lookup id = some route →
    route.call < s.calls.length ∧ id = BitVec.ofNat 32 route.call
  table : ∀ {id : ChannelId} {i : ℕ}, s.table.lookup id = some i →
    ∃ p, s.processes[i]? = some p ∧ p.id = id
  opened : ∀ {i : ℕ} {p : Process}, s.processes[i]? = some p → p.closed = false →
    s.table.lookup p.id = some i
  distinct : ∀ {i j : ℕ} {p q : Process}, s.processes[i]? = some p → s.processes[j]? = some q →
    p.id = q.id → i = j
  toHost : ∀ message ∈ s.toHost, s.Known message.id
  toClient : ∀ message ∈ s.toClient, s.Known message.id
  answering : ∀ message ∈ s.answering, s.Known message.id
  processes : ∀ p ∈ s.processes, s.Known p.id

variable {s s' : CommandStream} {event : Event}

theorem ofNat_inj {n m : ℕ} (hn : n < 2 ^ 32) (hm : m < 2 ^ 32)
    (h : BitVec.ofNat 32 n = BitVec.ofNat 32 m) : n = m := by
  have hnat := congrArg BitVec.toNat h
  rw [BitVec.toNat_ofNat, BitVec.toNat_ofNat, Nat.mod_eq_of_lt hn, Nat.mod_eq_of_lt hm] at hnat
  exact hnat

namespace Tables

/-- Calls of one number are one. -/
theorem call_eq (h : s.Tables) {n m : ℕ} {call call' : Call} (hcall : s.calls[n]? = some call)
    (hcall' : s.calls[m]? = some call') (hid : call.id = call'.id) : n = m := by
  have hn := (List.getElem?_eq_some_iff.mp hcall).1
  have hm := (List.getElem?_eq_some_iff.mp hcall').1
  have hfew := h.few
  rw [h.ids hcall, h.ids hcall'] at hid
  exact ofNat_inj (by omega) (by omega) hid

theorem id_ne (h : s.Tables) {n m : ℕ} {call call' : Call} (hcall : s.calls[n]? = some call)
    (hcall' : s.calls[m]? = some call') (hne : m ≠ n) : call'.id ≠ call.id :=
  fun hid => hne (h.call_eq hcall' hcall hid)

/-- The number of a call is that of no other. -/
theorem id_eq_iff (h : s.Tables) {n : ℕ} {call : Call} (hcall : s.calls[n]? = some call) (id : ChannelId) :
    id = BitVec.ofNat 32 n ↔ id = call.id := by rw [h.ids hcall]

end Tables

theorem mem_of_processOf {id : ChannelId} {p : Process} (h : s.processOf id = some p) :
    p ∈ s.processes ∧ p.id = id := by
  refine ⟨List.mem_of_find?_eq_some h, ?_⟩
  have hid := List.find?_some (p := fun p : Process => decide (p.id = id)) h
  exact of_decide_eq_true hid

theorem Tables.processOf_eq (h : s.Tables) {i : ℕ} {p : Process} (hp : s.processes[i]? = some p) :
    s.processOf p.id = some p := by
  cases hfind : s.processOf p.id with
  | none =>
    have hnone := List.find?_eq_none.mp hfind p (List.mem_of_getElem? hp)
    exact absurd (decide_eq_true rfl) hnone
  | some q =>
    obtain ⟨hmem, hid⟩ := mem_of_processOf hfind
    obtain ⟨j, hq⟩ := List.mem_iff_getElem?.mp hmem
    have hij := h.distinct hq hp hid
    subst hij
    rw [hp] at hq
    exact hq.symm

/-- One command replaced by another of its number. -/
theorem find?_set {processes : List Process} {i : ℕ} {p : Process} (p' : Process) (id : ChannelId)
    (hp : processes[i]? = some p) (hid : p'.id = p.id)
    (hdistinct : ∀ j q, processes[j]? = some q → q.id = p.id → j = i) :
    (processes.set i p').find? (fun q => q.id = id)
      = if p.id = id then some p' else processes.find? fun q => q.id = id := by
  induction processes generalizing i with
  | nil => cases hp
  | cons q processes ih =>
    cases i with
    | zero =>
      cases hp
      rw [List.set_cons_zero, List.find?_cons, List.find?_cons, hid]
      by_cases hsame : p.id = id
      · rw [decide_eq_true hsame, if_pos hsame]
      · rw [decide_eq_false hsame, if_neg hsame]
    | succ i =>
      rw [List.set_cons_succ, List.find?_cons, List.find?_cons]
      by_cases hq : q.id = id
      · have hne : p.id ≠ id := by
          intro hsame
          exact absurd (hdistinct 0 q rfl (hq.trans hsame.symm)) (Nat.succ_ne_zero i).symm
        rw [decide_eq_true hq, if_neg hne]
      · rw [decide_eq_false hq]
        refine ih hp fun j q' hq' hsame => ?_
        exact Nat.succ_inj.mp (hdistinct (j + 1) q' hq' hsame)

theorem modify_eq_set {processes : List Process} {i : ℕ} {p : Process} (hp : processes[i]? = some p)
    (f : Process → Process) : processes.modify i f = processes.set i (f p) := by
  rw [List.modify_eq_set_getElem?, hp]
  rfl

/-! ### A step of the session, seen from a channel -/

theorem view_of {n : ℕ} {call : Call} (hcall : s.calls[n]? = some call) :
    s.view n = some ⟨call, (s.routes.lookup call.id).map Route.opened, about call.id s.toHost,
      about call.id s.toClient, about call.id s.answering, s.processOf call.id⟩ := by
  rw [view, hcall]
  rfl

theorem receive_id (call : Call) (opened : Bool) (message : CommandMessage) :
    (call.receive opened message).2.id = call.id := by
  cases message <;> cases opened <;> rfl

theorem turn_id {p : Process} {thread : Thread} {turn : Process × List CommandMessage}
    (h : p.turn thread = some turn) : turn.1.id = p.id ∧ ∀ message ∈ turn.2, message.id = p.id := by
  cases Process.turned h with
  | send hreader hsending =>
    refine ⟨rfl, fun message hmem => ?_⟩
    cases List.mem_singleton.mp hmem
    rfl
  | report hreporting hcode =>
    refine ⟨rfl, fun message hmem => ?_⟩
    cases List.mem_singleton.mp hmem
    rfl
  | _ => exact ⟨rfl, fun message hmem => absurd hmem List.not_mem_nil⟩

theorem answers_id (id : ChannelId) (opening : Opening) :
    ∀ message ∈ opening.answers id, message.id = id := by
  cases opening <;> simp [Opening.answers, CommandMessage.id]

theorem process_id {id : ChannelId} {opening : Opening} {p : Process}
    (h : opening.process id = some p) : p.id = id := by
  cases opening with
  | refused reason => cases h
  | passwordNeeded username => cases h
  | launched pid =>
    cases h
    rfl
  | running readers pid =>
    cases h
    rfl

/-- A message that arrives, seen from a channel. -/
theorem view_receive (h : s.Tables) {message : CommandMessage} {rest : List CommandMessage}
    (hwire : s.toClient = message :: rest) {n : ℕ} {call : Call} (hcall : s.calls[n]? = some call) :
    ({ s with toClient := rest }.receive message).view n =
      if message.id = call.id then
        (⟨call, (s.routes.lookup call.id).map Route.opened, about call.id s.toHost,
          about call.id s.toClient, about call.id s.answering, s.processOf call.id⟩ : Channel).step .deliver
      else s.view n := by
  cases hroute : s.routes.lookup message.id with
  | none =>
    have hreceive : { s with toClient := rest }.receive message = { s with toClient := rest } := by
      simp only [receive, hroute]
    rw [hreceive]
    split
    case isTrue hid =>
      rw [view_of (s := { s with toClient := rest }) hcall, hwire, about_cons_self hid, ← hid, hroute]
      rfl
    case isFalse hid =>
      rw [view_of (s := { s with toClient := rest }) hcall, view_of hcall, hwire, about_cons_ne hid]
      rfl
  | some route =>
    obtain ⟨hlt, hnumber⟩ := h.routes hroute
    obtain ⟨call', hcall'⟩ : ∃ call', s.calls[route.call]? = some call' :=
      ⟨_, List.getElem?_eq_getElem hlt⟩
    have hid' : call'.id = message.id := (h.ids hcall').trans hnumber.symm
    have hreceive : { s with toClient := rest }.receive message =
        { s with
          toClient := rest
          calls := s.calls.set route.call (call'.receive route.opened message).2
          routes := reroute s.routes message.id route.call (call'.receive route.opened message).1 } := by
      simp only [receive, hroute, hcall']
    rw [hreceive]
    by_cases hid : message.id = call.id
    · have hn : route.call = n := h.call_eq hcall' hcall (hid'.trans hid)
      subst hn
      rw [hcall] at hcall'
      cases hcall'
      have hset : (s.calls.set route.call (call.receive route.opened message).2)[route.call]?
          = some (call.receive route.opened message).2 := List.getElem?_set_self hlt
      rw [if_pos hid, view_of hset, receive_id]
      simp only
      rw [← hid, lookup_reroute, hroute, hwire, about_cons_self rfl, Option.map_map]
      have hkept : (call.receive route.opened message).1.map (Route.opened ∘ Route.mk route.call)
          = (call.receive route.opened message).1 := by
        cases (call.receive route.opened message).1 <;> rfl
      rw [hkept]
      rfl
    · have hne : route.call ≠ n := by
        rintro rfl
        rw [hcall] at hcall'
        cases hcall'
        exact hid hid'.symm
      have hset : (s.calls.set route.call (call'.receive route.opened message).2)[n]? = some call := by
        rw [List.getElem?_set_ne hne]
        exact hcall
      rw [if_neg hid, view_of hset, view_of hcall]
      simp only
      rw [lookup_reroute_ne _ (Ne.symm hid), hwire, about_cons_ne hid]
      rfl

/-- What the session's task makes of an open, seen from a channel. -/
theorem view_begin {n : ℕ} {call : Call} (hcall : s.calls[n]? = some call) (id : ChannelId)
    (opening : Opening) :
    (s.begin id opening).view n = some
      ⟨call, (s.routes.lookup call.id).map Route.opened, about call.id s.toHost, about call.id s.toClient,
        if id = call.id then opening.answers id else [],
        if id = call.id then (s.processOf call.id).or (opening.process id) else s.processOf call.id⟩ := by
  have hprocess : (s.begin id opening).processOf call.id
      = (s.processOf call.id).or ((opening.process id).toList.find? fun p => p.id = call.id) :=
    List.find?_append
  rw [view_of (s := s.begin id opening) hcall, hprocess]
  by_cases hid : id = call.id
  · rw [if_pos hid, if_pos hid]
    have habout : about call.id (opening.answers id) = opening.answers id :=
      about_all fun message hmem => (answers_id id opening message hmem).trans hid
    have hfind : ((opening.process id).toList.find? fun p => p.id = call.id) = opening.process id := by
      cases hopening : opening.process id with
      | none => rfl
      | some p =>
        rw [Option.toList_some, List.find?_cons, decide_eq_true ((process_id hopening).trans hid)]
    rw [hfind]
    change some (Channel.mk call _ _ _ (about call.id (opening.answers id)) _) = _
    rw [habout]
    rfl
  · rw [if_neg hid, if_neg hid]
    have habout : about call.id (opening.answers id) = [] :=
      about_none fun message hmem hsame => hid ((answers_id id opening message hmem).symm.trans hsame)
    have hfind : ((opening.process id).toList.find? fun p => p.id = call.id) = none := by
      cases hopening : opening.process id with
      | none => rfl
      | some p =>
        have hne : p.id ≠ call.id := fun hsame => hid ((process_id hopening).symm.trans hsame)
        rw [Option.toList_some, List.find?_cons, decide_eq_false hne]
        rfl
    rw [hfind, Option.or_none]
    change some (Channel.mk call _ _ _ (about call.id (opening.answers id)) _) = _
    rw [habout]
    rfl

/-- A channel is closed on the host, seen from a channel. -/
theorem view_close {n i : ℕ} {call : Call} {p : Process} (hcall : s.calls[n]? = some call)
    (hp : s.processes[i]? = some p)
    (hdistinct : ∀ j q, s.processes[j]? = some q → q.id = p.id → j = i) :
    view { s with
        table := s.table.erase p.id
        processes := s.processes.modify i fun p => { p with closed := true } } n = some
      ⟨call, (s.routes.lookup call.id).map Route.opened, about call.id s.toHost, about call.id s.toClient,
        about call.id s.answering,
        if p.id = call.id then some { p with closed := true } else s.processOf call.id⟩ := by
  have hprocess := find?_set { p with closed := true } call.id hp rfl hdistinct
  change Option.map _ s.calls[n]? = _
  rw [hcall, modify_eq_set hp, Option.map_some]
  exact congrArg (fun process => some (Channel.mk call _ _ _ _ process)) hprocess

/-- The table an open is looked up in. -/
def tableFor (self : CommandStream) : Backend → Table
  | .remoteApp _ => self.table
  | .start _ => self.retained

theorem actAt_timeout {n : ℕ} (h : s.actAt n event = some .timeout) : event = .timeout n := by
  cases event <;> simp only [actAt] at h <;> try split at h
  all_goals simp_all

theorem actAt_thread {n : ℕ} {thread : Thread} (h : s.actAt n event = some (.thread thread)) :
    ∃ i p, event = .thread i thread ∧ s.processes[i]? = some p ∧ p.id = BitVec.ofNat 32 n := by
  cases event <;> simp only [actAt] at h <;> try split at h
  all_goals simp_all

theorem actAt_handle {n : ℕ} {opening : Option Opening} (h : s.actAt n event = some (.handle opening)) :
    ∃ backend message, event = .handle backend ∧ s.toHost.head? = some message
      ∧ message.id = BitVec.ofNat 32 n ∧ s.openingOf backend message = opening := by
  cases event <;> simp only [actAt] at h <;> try split at h
  all_goals simp_all

theorem handle_step {backend : Backend} (h : s.step (.handle backend) = some s') :
    ∃ message rest, s.answering = [] ∧ s.toHost = message :: rest
      ∧ { s with toHost := rest }.handle backend message = some s' := by
  simp only [step] at h
  split at h
  case h_1 message rest hidle hqueue => exact ⟨message, rest, hidle, hqueue, h⟩
  case h_2 => cases h

/-- What the session's task makes of a message. -/
theorem handle_cases {backend : Backend} {message : CommandMessage} (h : s.handle backend message = some s') :
    (∃ id kind opening, message = .open id kind ∧ s.openingOf backend message = some opening
      ∧ s' = begin { s with table := s.tableFor backend } id opening)
    ∨ (∃ id i, message = .close id ∧ s.table.lookup id = some i
      ∧ s' = { s with
        table := s.table.erase id
        processes := s.processes.modify i fun p => { p with closed := true } })
    ∨ (s' = s ∧ (∀ id kind, message ≠ .open id kind)
      ∧ ∀ id, message = .close id → s.table.lookup id = none) := by
  cases message with
  | «open» id kind =>
    cases backend with
    | remoteApp answer =>
      obtain ⟨opening, hopening, rfl⟩ := Option.map_eq_some_iff.mp h
      exact Or.inl ⟨id, kind, opening, rfl, hopening, rfl⟩
    | start answer =>
      obtain ⟨opening, hopening, rfl⟩ := Option.map_eq_some_iff.mp h
      exact Or.inl ⟨id, kind, opening, rfl, hopening, rfl⟩
  | close id =>
    cases hlookup : s.table.lookup id with
    | none =>
      simp only [handle, hlookup] at h
      cases h
      refine Or.inr (Or.inr ⟨rfl, (fun _ _ h => by cases h), ?_⟩)
      rintro _ ⟨⟩
      exact hlookup
    | some i =>
      simp only [handle, hlookup] at h
      cases h
      exact Or.inr (Or.inl ⟨id, i, rfl, hlookup, rfl⟩)
  | opened _ _ | passwordNeeded _ _ | refused _ _ | data _ _ | exited _ _ =>
    cases h
    exact Or.inr (Or.inr ⟨rfl, (fun _ _ h => by cases h), (fun _ h => by cases h)⟩)

theorem calls_set_ne {m n : ℕ} {call : Call} (hcall : s.calls[n]? = some call) (hm : m ≠ n) (call' : Call) :
    (s.calls.set m call')[n]? = some call := by
  rw [List.getElem?_set_ne hm]
  exact hcall

/-- A step of the session is a step of the channel it is about, and none of the others. -/
theorem view_step (h : s.Tables) (hfew : ∀ kind, event = .call kind → s.calls.length < 2 ^ 32)
    (hstep : s.step event = some s') {n : ℕ} {channel : Channel} (hview : s.view n = some channel) :
    match s.actAt n event with
    | none => s'.view n = some channel
    | some act => ∃ channel', channel.step act = some channel' ∧ s'.view n = some channel' := by
  obtain ⟨call, hcall, rfl⟩ := Option.map_eq_some_iff.mp hview
  have hn := (List.getElem?_eq_some_iff.mp hcall).1
  cases event with
  | wait ms =>
    cases hstep
    exact hview
  | call kind =>
    cases hstep
    have hnext : call.id ≠ s.next := by
      intro hid
      rw [h.ids hcall, h.next] at hid
      have hroom := hfew kind rfl
      exact absurd (ofNat_inj (by omega) hroom hid) (Nat.ne_of_lt hn)
    have hcall' : (s.calls ++ [(⟨s.next, kind, .asking, []⟩ : Call)])[n]? = some call := by
      rw [List.getElem?_append_left hn]
      exact hcall
    change view _ n = _
    rw [view_of hcall']
    simp only
    rw [AList.lookup_insert_ne hnext]
    rfl
  | ask m =>
    obtain ⟨call', hcall', hs'⟩ := Option.bind_eq_some_iff.mp hstep
    obtain ⟨hphase, hs'⟩ := Option.ite_none_right_eq_some.mp hs'
    cases hs'
    by_cases hm : m = n
    · subst hm
      rw [hcall] at hcall'
      cases hcall'
      simp only [actAt, if_true]
      refine ⟨_, if_pos hphase, ?_⟩
      rw [view_of (List.getElem?_set_self hn)]
      simp only
      rw [about_concat_self call.id _ (.open call.id call.kind) rfl]
      rfl
    · simp only [actAt, hm, if_false]
      rw [view_of (calls_set_ne hcall hm _)]
      simp only
      rw [about_concat_ne call.id _ (.open call'.id call'.kind) (h.id_ne hcall hcall' hm)]
      rfl
  | unsent m error =>
    obtain ⟨call', hcall', hs'⟩ := Option.bind_eq_some_iff.mp hstep
    obtain ⟨hphase, hs'⟩ := Option.ite_none_right_eq_some.mp hs'
    cases hs'
    by_cases hm : m = n
    · subst hm
      rw [hcall] at hcall'
      cases hcall'
      simp only [actAt, if_true]
      refine ⟨_, if_pos hphase, ?_⟩
      rw [view_of (List.getElem?_set_self hn)]
      simp only
      rw [AList.lookup_erase]
      rfl
    · simp only [actAt, hm, if_false]
      rw [view_of (calls_set_ne hcall hm _)]
      simp only
      rw [AList.lookup_erase_ne (h.id_ne hcall hcall' hm).symm]
      rfl
  | timeout m =>
    obtain ⟨call', hcall', hs'⟩ := Option.bind_eq_some_iff.mp hstep
    cases hphase : call'.phase <;> simp only [hphase] at hs' <;> try cases hs'
    obtain ⟨-, hs'⟩ := Option.ite_none_right_eq_some.mp hs'
    cases hs'
    by_cases hm : m = n
    · subst hm
      rw [hcall] at hcall'
      cases hcall'
      simp only [actAt, if_true]
      refine ⟨_, by simp only [Channel.step, hphase]; rfl, ?_⟩
      rw [view_of (List.getElem?_set_self hn)]
      simp only
      rw [AList.lookup_erase]
      rfl
    · simp only [actAt, hm, if_false]
      rw [view_of (calls_set_ne hcall hm _)]
      simp only
      rw [AList.lookup_erase_ne (h.id_ne hcall hcall' hm).symm]
      rfl
  | close m =>
    obtain ⟨call', hcall', hs'⟩ := Option.bind_eq_some_iff.mp hstep
    cases hphase : call'.phase <;> simp only [hphase] at hs' <;> cases hs'
    by_cases hm : m = n
    · subst hm
      rw [hcall] at hcall'
      cases hcall'
      simp only [actAt, if_true]
      refine ⟨_, by simp only [Channel.step, hphase]; rfl, ?_⟩
      rw [view_of (List.getElem?_set_self hn)]
      rfl
    · simp only [actAt, hm, if_false]
      rw [view_of (calls_set_ne hcall hm _)]
      rfl
  | forward m =>
    obtain ⟨call', hcall', hs'⟩ := Option.bind_eq_some_iff.mp hstep
    obtain ⟨hphase, hs'⟩ := Option.ite_none_right_eq_some.mp hs'
    cases hs'
    by_cases hm : m = n
    · subst hm
      rw [hcall] at hcall'
      cases hcall'
      simp only [actAt, if_true]
      refine ⟨_, if_pos hphase, ?_⟩
      rw [view_of (List.getElem?_set_self hn)]
      simp only
      rw [about_concat_self call.id _ (.close call.id) rfl, AList.lookup_erase]
      rfl
    · simp only [actAt, hm, if_false]
      have hid := h.id_ne hcall hcall' hm
      rw [view_of (calls_set_ne hcall hm _)]
      simp only
      rw [about_concat_ne call.id _ (.close call'.id) hid, AList.lookup_erase_ne hid.symm]
      rfl
  | deliver =>
    cases hwire : s.toClient with
    | nil =>
      simp only [step, hwire] at hstep
      cases hstep
    | cons message rest =>
      simp only [step, hwire] at hstep
      cases hstep
      have hreceive := view_receive h hwire hcall
      simp only [actAt, hwire]
      rw [if_congr (h.id_eq_iff hcall message.id) rfl rfl]
      by_cases hid : message.id = call.id
      · rw [if_pos hid] at hreceive ⊢
        rw [hreceive, hwire, about_cons_self hid]
        cases (s.routes.lookup call.id).map Route.opened with
        | none => exact ⟨_, rfl, rfl⟩
        | some opened => exact ⟨_, rfl, rfl⟩
      · rw [if_neg hid] at hreceive ⊢
        rw [hreceive, hview, hwire]
  | handle backend =>
    obtain ⟨message, rest, hidle, hqueue, hs'⟩ := handle_step hstep
    have hidle' : about call.id s.answering = [] := by rw [hidle]; rfl
    simp only [actAt, hqueue]
    rw [if_congr (h.id_eq_iff hcall message.id) rfl rfl]
    rcases handle_cases hs' with ⟨id, kind, opening, rfl, hopening, rfl⟩ | ⟨id, i, rfl, hlookup, rfl⟩ |
      ⟨rfl, hopen, hclose⟩
    · have hbegin : view (begin { s with
            toHost := rest
            table := s.tableFor backend } id opening) n = _ :=
        view_begin (s := { s with toHost := rest, table := s.tableFor backend }) hcall id opening
      have hopening' : s.openingOf backend (.open id kind) = some opening := hopening
      by_cases hid : id = call.id
      · rw [if_pos (show CommandMessage.id (.open id kind) = call.id from hid),
          about_cons_self (show CommandMessage.id (.open id kind) = call.id from hid), hidle', hopening']
        refine ⟨_, rfl, hbegin.trans ?_⟩
        rw [if_pos hid, if_pos hid, hid]
        rfl
      · rw [if_neg (show ¬ CommandMessage.id (.open id kind) = call.id from hid),
          about_cons_ne (show CommandMessage.id (.open id kind) ≠ call.id from hid), hidle']
        change view _ n = _
        refine hbegin.trans ?_
        rw [if_neg hid, if_neg hid]
        rfl
    · obtain ⟨p, hp, rfl⟩ := h.table hlookup
      have hclose := view_close (s := { s with toHost := rest }) hcall hp
        fun j q hq hid => h.distinct hq hp hid
      by_cases hid : p.id = call.id
      · rw [if_pos (show CommandMessage.id (.close p.id) = call.id from hid),
          about_cons_self (show CommandMessage.id (.close p.id) = call.id from hid), hidle']
        have hown : s.processOf call.id = some p := hid ▸ h.processOf_eq hp
        refine ⟨_, rfl, hclose.trans ?_⟩
        rw [if_pos hid, hown]
        simp only [hidle']
        rfl
      · rw [if_neg (show ¬ CommandMessage.id (.close p.id) = call.id from hid),
          about_cons_ne (show CommandMessage.id (.close p.id) ≠ call.id from hid), hidle']
        change view _ n = _
        refine hclose.trans ?_
        rw [if_neg hid]
        simp only [hidle']
        rfl
    · by_cases hid : message.id = call.id
      · rw [if_pos hid, about_cons_self hid, hidle']
        cases message with
        | «open» id kind => exact absurd rfl (hopen id kind)
        | close id =>
          -- what the table has no channel for is closed
          have hclosed : (s.processOf call.id).map (fun p => { p with closed := true })
              = s.processOf call.id := by
            cases hprocess : s.processOf call.id with
            | none => rfl
            | some p =>
              obtain ⟨hmem, hown⟩ := mem_of_processOf hprocess
              obtain ⟨i, hp⟩ := List.mem_iff_getElem?.mp hmem
              cases hpclosed : p.closed with
              | true => rw [Option.map_some, ← hpclosed]
              | false =>
                have hlookup := h.opened hp hpclosed
                rw [hown.trans hid.symm] at hlookup
                exact absurd (hlookup.symm.trans (hclose id rfl)) (by simp)
          refine ⟨_, rfl, ?_⟩
          rw [hclosed, view_of (s := { s with toHost := rest }) hcall]
          simp only [hidle']
          rfl
        | opened _ _ | passwordNeeded _ _ | refused _ _ | data _ _ | exited _ _ =>
          refine ⟨_, rfl, ?_⟩
          rw [view_of (s := { s with toHost := rest }) hcall]
          simp only [hidle']
          rfl
      · rw [if_neg hid, about_cons_ne hid]
        exact view_of hcall
  | answer =>
    cases hanswering : s.answering with
    | nil =>
      simp only [step, hanswering] at hstep
      cases hstep
    | cons message rest =>
      simp only [step, hanswering] at hstep
      cases hstep
      simp only [actAt, hanswering]
      rw [if_congr (h.id_eq_iff hcall message.id) rfl rfl]
      by_cases hid : message.id = call.id
      · rw [if_pos hid, about_cons_self hid]
        refine ⟨_, rfl, ?_⟩
        rw [view_of (s := { s with answering := rest, toClient := s.toClient ++ [message] }) hcall]
        simp only
        rw [about_concat_self call.id _ message hid]
        rfl
      · rw [if_neg hid, about_cons_ne hid]
        change view _ n = _
        rw [view_of (s := { s with answering := rest, toClient := s.toClient ++ [message] }) hcall]
        simp only
        rw [about_concat_ne call.id _ message hid]
        rfl
  | thread i thread =>
    obtain ⟨p, hp, hs'⟩ := Option.bind_eq_some_iff.mp hstep
    obtain ⟨turn, hturn, rfl⟩ := Option.map_eq_some_iff.mp hs'
    obtain ⟨hsame, hmessages⟩ := turn_id hturn
    have hprocess : (processOf { s with
          processes := s.processes.set i turn.1
          toClient := s.toClient ++ turn.2 } call.id)
        = if p.id = call.id then some turn.1 else s.processOf call.id :=
      find?_set turn.1 call.id hp hsame fun j q hq hid => h.distinct hq hp hid
    simp only [actAt, hp]
    rw [if_congr (h.id_eq_iff hcall p.id) rfl rfl]
    by_cases hid : p.id = call.id
    · rw [if_pos hid]
      have hown : s.processOf call.id = some p := hid ▸ h.processOf_eq hp
      refine ⟨_, by rw [hown]; simp only [Channel.step, Option.bind_some, hturn, Option.map_some]; rfl, ?_⟩
      rw [view_of (s := { s with
          processes := s.processes.set i turn.1
          toClient := s.toClient ++ turn.2 }) hcall, hprocess, if_pos hid]
      simp only
      rw [about_append, about_all fun message hmem => (hmessages message hmem).trans hid]
    · rw [if_neg hid]
      change view _ n = _
      rw [view_of (s := { s with
          processes := s.processes.set i turn.1
          toClient := s.toClient ++ turn.2 }) hcall, hprocess, if_neg hid]
      simp only
      rw [about_append, about_none fun message hmem hsame => hid ((hmessages message hmem).symm.trans hsame),
        List.append_nil]

/-! ### What every step preserves -/

theorem Known.mono {id : ChannelId} (h : s.Known id) (hlength : s.calls.length ≤ s'.calls.length) :
    s'.Known id := by
  obtain ⟨n, hn, hid⟩ := h
  exact ⟨n, Nat.lt_of_lt_of_le hn hlength, hid⟩

theorem receive_fields (s : CommandStream) (message : CommandMessage) :
    (s.receive message).calls.length = s.calls.length ∧ (s.receive message).next = s.next
      ∧ (s.receive message).toHost = s.toHost ∧ (s.receive message).toClient = s.toClient
      ∧ (s.receive message).answering = s.answering ∧ (s.receive message).table = s.table
      ∧ (s.receive message).processes = s.processes := by
  unfold receive
  split
  · exact ⟨rfl, rfl, rfl, rfl, rfl, rfl, rfl⟩
  · split
    · exact ⟨rfl, rfl, rfl, rfl, rfl, rfl, rfl⟩
    · exact ⟨List.length_set, rfl, rfl, rfl, rfl, rfl, rfl⟩

namespace Tables

theorem known (h : s.Tables) {n : ℕ} {call : Call} (hcall : s.calls[n]? = some call) : s.Known call.id :=
  ⟨n, (List.getElem?_eq_some_iff.mp hcall).1, h.ids hcall⟩

/-- A call has changed, but not its number. -/
theorem ids_set (h : s.Tables) {m : ℕ} {call' : Call}
    (hid : ∀ call, s.calls[m]? = some call → call'.id = call.id) {n : ℕ} {call : Call}
    (hcall : (s.calls.set m call')[n]? = some call) : call.id = BitVec.ofNat 32 n := by
  by_cases hm : m = n
  · subst hm
    have hlt : m < s.calls.length := by
      have := (List.getElem?_eq_some_iff.mp hcall).1
      rwa [List.length_set] at this
    rw [List.getElem?_set_self hlt] at hcall
    cases hcall
    rw [hid _ (List.getElem?_eq_getElem hlt)]
    exact h.ids (List.getElem?_eq_getElem hlt)
  · rw [List.getElem?_set_ne hm] at hcall
    exact h.ids hcall

/-- Calls and what is on its way change, and routes may go. -/
theorem set_call (h : s.Tables) {m : ℕ} {call : Call} (call' : Call) (hcall : s.calls[m]? = some call)
    (hid : call'.id = call.id) {routes : Routes}
    (hroutes : ∀ id route, routes.lookup id = some route → s.routes.lookup id = some route)
    {requests : List CommandMessage} (hrequests : ∀ message ∈ requests, message.id = call.id) :
    Tables { s with
      calls := s.calls.set m call'
      routes := routes
      toHost := s.toHost ++ requests } := by
  have hlength : (s.calls.set m call').length = s.calls.length := List.length_set
  have hmono : ∀ {id}, s.Known id → Known { s with
      calls := s.calls.set m call'
      routes := routes
      toHost := s.toHost ++ requests } id := fun hid => hid.mono (Nat.le_of_eq hlength.symm)
  refine { h with
    next := h.next.trans (by rw [hlength])
    few := Nat.le_trans (Nat.le_of_eq hlength) h.few
    ids := h.ids_set fun call'' hcall'' => by
      rw [hcall] at hcall''
      cases hcall''
      exact hid
    routes := ?_
    toHost := ?_
    toClient := fun message hmem => hmono (h.toClient message hmem)
    answering := fun message hmem => hmono (h.answering message hmem)
    processes := fun p hmem => hmono (h.processes p hmem) }
  · intro id route hlookup
    have := h.routes (hroutes id route hlookup)
    exact ⟨Nat.lt_of_lt_of_le this.1 (Nat.le_of_eq hlength.symm), this.2⟩
  · intro message hmem
    rcases List.mem_append.mp hmem with hmem | hmem
    · exact hmono (h.toHost message hmem)
    · rw [hrequests message hmem]
      exact hmono (h.known hcall)

theorem new : Tables CommandStream.new where
  next := rfl
  few := Nat.zero_le _
  ids := fun h => by cases h
  routes := fun h => by
    rw [show CommandStream.new.routes = ∅ from rfl, AList.lookup_empty] at h
    cases h
  table := fun h => by
    rw [show CommandStream.new.table = ∅ from rfl, AList.lookup_empty] at h
    cases h
  opened := fun h => by cases h
  distinct := fun h => by cases h
  toHost := fun _ hmem => absurd hmem List.not_mem_nil
  toClient := fun _ hmem => absurd hmem List.not_mem_nil
  answering := fun _ hmem => absurd hmem List.not_mem_nil
  processes := fun _ hmem => absurd hmem List.not_mem_nil

/-- A new call has the next number. -/
theorem call (h : s.Tables) (kind : ChannelKind) (hfew : s.calls.length < 2 ^ 32) :
    Tables { s with
      next := s.next + 1
      routes := s.routes.insert s.next ⟨s.calls.length, true⟩
      calls := s.calls ++ [⟨s.next, kind, .asking, []⟩] } := by
  have hlength : (s.calls ++ [(⟨s.next, kind, .asking, []⟩ : Call)]).length = s.calls.length + 1 :=
    List.length_append
  have hmono : ∀ {id}, s.Known id → Known { s with
      next := s.next + 1
      routes := s.routes.insert s.next ⟨s.calls.length, true⟩
      calls := s.calls ++ [⟨s.next, kind, .asking, []⟩] } id :=
    fun hid => hid.mono (Nat.le_trans (Nat.le_succ _) (Nat.le_of_eq hlength.symm))
  refine { h with
    next := ?_
    few := Nat.le_trans (Nat.le_of_eq hlength) hfew
    ids := ?_
    routes := ?_
    toHost := fun message hmem => hmono (h.toHost message hmem)
    toClient := fun message hmem => hmono (h.toClient message hmem)
    answering := fun message hmem => hmono (h.answering message hmem)
    processes := fun p hmem => hmono (h.processes p hmem) }
  · change s.next + 1 = _
    rw [hlength, h.next, BitVec.ofNat_add]
    rfl
  · intro n call hcall
    rcases Nat.lt_or_ge n s.calls.length with hn | hn
    · rw [List.getElem?_append_left hn] at hcall
      exact h.ids hcall
    · have hlt := (List.getElem?_eq_some_iff.mp hcall).1
      rw [hlength] at hlt
      have heq : n = s.calls.length := by omega
      subst heq
      rw [List.getElem?_concat_length] at hcall
      cases hcall
      exact h.next
  · intro id route hlookup
    by_cases hid : id = s.next
    · subst hid
      rw [AList.lookup_insert] at hlookup
      cases hlookup
      exact ⟨Nat.lt_of_lt_of_le (Nat.lt_succ_self _) (Nat.le_of_eq hlength.symm), h.next⟩
    · rw [AList.lookup_insert_ne hid] at hlookup
      have := h.routes hlookup
      exact ⟨Nat.lt_of_lt_of_le this.1 (Nat.le_trans (Nat.le_succ _) (Nat.le_of_eq hlength.symm)), this.2⟩

/-- A message is taken off the wire. -/
theorem receive (h : s.Tables) {message : CommandMessage} {rest : List CommandMessage}
    (hwire : s.toClient = message :: rest) : ({ s with toClient := rest }.receive message).Tables := by
  have hrest : Tables { s with toClient := rest } :=
    { h with toClient := fun message' hmem => h.toClient message' (hwire ▸ List.mem_cons_of_mem _ hmem) }
  cases hroute : s.routes.lookup message.id with
  | none =>
    have hsame : { s with toClient := rest }.receive message = { s with toClient := rest } := by
      simp only [CommandStream.receive, hroute]
    rw [hsame]
    exact hrest
  | some route =>
    obtain ⟨hlt, hnumber⟩ := h.routes hroute
    have hcall := List.getElem?_eq_getElem hlt
    have hreceive : { s with toClient := rest }.receive message =
        { s with
          toClient := rest
          calls := s.calls.set route.call (s.calls[route.call].receive route.opened message).2
          routes := reroute s.routes message.id route.call
            (s.calls[route.call].receive route.opened message).1 } := by
      simp only [CommandStream.receive, hroute, hcall]
    rw [hreceive]
    have hlength : (s.calls.set route.call (s.calls[route.call].receive route.opened message).2).length
        = s.calls.length := List.length_set
    have hmono : ∀ {id}, s.Known id → Known { s with
        toClient := rest
        calls := s.calls.set route.call (s.calls[route.call].receive route.opened message).2
        routes := reroute s.routes message.id route.call
          (s.calls[route.call].receive route.opened message).1 } id :=
      fun hid => hid.mono (Nat.le_of_eq hlength.symm)
    refine { hrest with
      next := h.next.trans (by rw [hlength])
      few := Nat.le_trans (Nat.le_of_eq hlength) h.few
      ids := h.ids_set fun call hcall' => by
        rw [hcall] at hcall'
        cases hcall'
        exact receive_id _ _ _
      routes := ?_
      toHost := fun message hmem => hmono (h.toHost message hmem)
      toClient := fun message hmem => hmono (hrest.toClient message hmem)
      answering := fun message hmem => hmono (h.answering message hmem)
      processes := fun p hmem => hmono (h.processes p hmem) }
    intro id route' hlookup
    by_cases hid : id = message.id
    · subst hid
      rw [lookup_reroute] at hlookup
      obtain ⟨opened, -, rfl⟩ := Option.map_eq_some_iff.mp hlookup
      exact ⟨Nat.lt_of_lt_of_le hlt (Nat.le_of_eq hlength.symm), hnumber⟩
    · rw [lookup_reroute_ne _ hid] at hlookup
      have := h.routes hlookup
      exact ⟨Nat.lt_of_lt_of_le this.1 (Nat.le_of_eq hlength.symm), this.2⟩

theorem getElem?_set_process {processes : List Process} {i : ℕ} {p p' : Process}
    (hp : processes[i]? = some p) {j : ℕ} {q : Process} (hq : (processes.set i p')[j]? = some q) :
    (j = i ∧ q = p') ∨ (j ≠ i ∧ processes[j]? = some q) := by
  by_cases hj : i = j
  · subst hj
    rw [List.getElem?_set_self (List.getElem?_eq_some_iff.mp hp).1] at hq
    cases hq
    exact Or.inl ⟨rfl, rfl⟩
  · rw [List.getElem?_set_ne hj] at hq
    exact Or.inr ⟨Ne.symm hj, hq⟩

/-- A command has changed, but not its number. -/
theorem set_distinct (h : s.Tables) {i : ℕ} {p p' : Process} (hp : s.processes[i]? = some p)
    (hid : p'.id = p.id) {j k : ℕ} {q r : Process} (hq : (s.processes.set i p')[j]? = some q)
    (hr : (s.processes.set i p')[k]? = some r) (hsame : q.id = r.id) : j = k := by
  rcases getElem?_set_process hp hq with ⟨hj, hq'⟩ | ⟨-, hq'⟩
  · rcases getElem?_set_process hp hr with ⟨hk, -⟩ | ⟨-, hr'⟩
    · exact hj.trans hk.symm
    · rw [hq'] at hsame
      exact hj.trans (h.distinct hp hr' (hid.symm.trans hsame))
  · rcases getElem?_set_process hp hr with ⟨hk, hr'⟩ | ⟨-, hr'⟩
    · rw [hr'] at hsame
      exact (h.distinct hq' hp (hsame.trans hid)).trans hk.symm
    · exact h.distinct hq' hr' hsame

theorem set_known (h : s.Tables) {i : ℕ} {p p' : Process} (hp : s.processes[i]? = some p)
    (hid : p'.id = p.id) : ∀ q ∈ s.processes.set i p', s.Known q.id := by
  intro q hmem
  rcases List.mem_or_eq_of_mem_set hmem with hmem | rfl
  · exact h.processes q hmem
  · rw [hid]
    exact h.processes p (List.mem_of_getElem? hp)

/-- What the threads of a command do leaves its channel open, or closes it. -/
theorem turn_closed {p : Process} {thread : Thread} {turn : Process × List CommandMessage}
    (h : p.turn thread = some turn) (hopen : turn.1.closed = false) : p.closed = false := by
  cases Process.turned h with
  | join => cases hopen
  | _ => exact hopen

theorem thread (h : s.Tables) {i : ℕ} {p : Process} (hp : s.processes[i]? = some p) {thread : Thread}
    {turn : Process × List CommandMessage} (hturn : p.turn thread = some turn) :
    Tables { s with
      processes := s.processes.set i turn.1
      toClient := s.toClient ++ turn.2 } := by
  obtain ⟨hsame, hmessages⟩ := turn_id hturn
  refine { h with table := ?_, opened := ?_, distinct := ?_, toClient := ?_, processes := ?_ }
  · intro id j hlookup
    obtain ⟨q, hq, hid⟩ := h.table hlookup
    by_cases hj : i = j
    · subst hj
      rw [hp] at hq
      cases hq
      exact ⟨turn.1, List.getElem?_set_self (List.getElem?_eq_some_iff.mp hp).1, hsame.trans hid⟩
    · exact ⟨q, (List.getElem?_set_ne hj).trans hq, hid⟩
  · intro j q hq hopen
    rcases getElem?_set_process hp hq with ⟨rfl, rfl⟩ | ⟨-, hq⟩
    · rw [hsame]
      exact h.opened hp (turn_closed hturn hopen)
    · exact h.opened hq hopen
  · intro j k q r hq hr
    exact h.set_distinct hp hsame hq hr
  · intro message hmem
    rcases List.mem_append.mp hmem with hmem | hmem
    · exact h.toClient message hmem
    · rw [hmessages message hmem]
      exact h.processes p (List.mem_of_getElem? hp)
  · exact h.set_known hp hsame

/-- A channel is closed on the host. -/
theorem close (h : s.Tables) {i : ℕ} {p : Process} (hp : s.processes[i]? = some p) :
    Tables { s with
      table := s.table.erase p.id
      processes := s.processes.modify i fun p => { p with closed := true } } := by
  rw [modify_eq_set hp]
  have hsame : ({ p with closed := true } : Process).id = p.id := rfl
  refine { h with table := ?_, opened := ?_, distinct := ?_, processes := ?_ }
  · intro id j hlookup
    have hne : id ≠ p.id := by
      rintro rfl
      rw [AList.lookup_erase] at hlookup
      cases hlookup
    rw [AList.lookup_erase_ne hne] at hlookup
    obtain ⟨q, hq, hid⟩ := h.table hlookup
    have hj : i ≠ j := by
      rintro rfl
      rw [hp] at hq
      cases hq
      exact hne hid.symm
    exact ⟨q, (List.getElem?_set_ne hj).trans hq, hid⟩
  · intro j q hq hopen
    rcases getElem?_set_process hp hq with ⟨rfl, rfl⟩ | ⟨hj, hq⟩
    · cases hopen
    · have hne : q.id ≠ p.id := fun hid => hj (h.distinct hq hp hid)
      rw [AList.lookup_erase_ne hne]
      exact h.opened hq hopen
  · intro j k q r hq hr
    exact h.set_distinct hp hsame hq hr
  · exact h.set_known hp hsame

/-- The closed channels go. -/
theorem tableFor (h : s.Tables) (backend : Backend) : Tables { s with table := s.tableFor backend } := by
  cases backend with
  | remoteApp answer => exact h
  | start answer =>
    refine { h with table := ?_, opened := ?_ }
    · intro id i hlookup
      change (s.table.retain _).lookup id = some i at hlookup
      rw [AList.lookup_retain, Option.filter_eq_some_iff] at hlookup
      exact h.table hlookup.1
    · intro i p hp hopen
      change (s.table.retain _).lookup p.id = some i
      rw [AList.lookup_retain, Option.filter_eq_some_iff]
      refine ⟨h.opened hp hopen, ?_⟩
      rw [isOpen, hp, Option.any_some, hopen]
      rfl

/-- An open has come to something, and nothing was started for its number before. -/
theorem begin (h : s.Tables) {id : ChannelId} (hid : s.Known id) (hnew : s.processOf id = none)
    (opening : Opening) : Tables (s.begin id opening) := by
  have hfresh : ∀ p ∈ s.processes, p.id ≠ id := by
    intro p hmem hsame
    exact List.find?_eq_none.mp hnew p hmem (decide_eq_true hsame)
  have hanswering : ∀ message ∈ opening.answers id, s.Known message.id := by
    intro message hmem
    rw [answers_id id opening message hmem]
    exact hid
  cases hprocess : opening.process id with
  | none =>
    have hbegin : s.begin id opening = { s with answering := opening.answers id } := by
      cases opening with
      | refused reason => simp only [CommandStream.begin, Opening.process, Option.toList_none, List.append_nil]
      | passwordNeeded username =>
        simp only [CommandStream.begin, Opening.process, Option.toList_none, List.append_nil]
      | launched pid => cases hprocess
      | running readers pid => cases hprocess
    rw [hbegin]
    exact { h with answering := hanswering }
  | some p =>
    have hown := process_id hprocess
    have hbegin : (s.begin id opening).processes = s.processes ++ [p] := by
      change s.processes ++ (opening.process id).toList = _
      rw [hprocess]
      rfl
    have hlast : (s.processes ++ [p])[s.processes.length]? = some p := List.getElem?_concat_length
    have hcases : ∀ {i : ℕ} {q : Process}, (s.begin id opening).processes[i]? = some q →
        s.processes[i]? = some q ∨ (i = s.processes.length ∧ q = p) := by
      intro i q hq
      rw [hbegin] at hq
      rcases Nat.lt_or_ge i s.processes.length with hi | hi
      · rw [List.getElem?_append_left hi] at hq
        exact Or.inl hq
      · have hlt := (List.getElem?_eq_some_iff.mp hq).1
        rw [List.length_append, List.length_singleton] at hlt
        have heq : i = s.processes.length := by omega
        subst heq
        rw [hlast] at hq
        cases hq
        exact Or.inr ⟨rfl, rfl⟩
    have hkept : ∀ {i : ℕ} {q : Process}, s.processes[i]? = some q →
        (s.begin id opening).processes[i]? = some q := by
      intro i q hq
      rw [hbegin]
      exact (List.getElem?_append_left (List.getElem?_eq_some_iff.mp hq).1).trans hq
    refine { h with
      answering := hanswering
      table := ?_
      opened := ?_
      distinct := ?_
      processes := ?_ }
    · intro id' i hlookup
      cases opening with
      | refused reason => cases hprocess
      | passwordNeeded username => cases hprocess
      | launched pid =>
        obtain ⟨q, hq, hid'⟩ := h.table hlookup
        exact ⟨q, hkept hq, hid'⟩
      | running readers pid =>
        change (s.table.insert id s.processes.length).lookup id' = some i at hlookup
        by_cases hsame : id' = id
        · subst hsame
          rw [AList.lookup_insert] at hlookup
          cases hlookup
          refine ⟨p, ?_, hown⟩
          rw [hbegin]
          exact hlast
        · rw [AList.lookup_insert_ne hsame] at hlookup
          obtain ⟨q, hq, hid'⟩ := h.table hlookup
          exact ⟨q, hkept hq, hid'⟩
    · intro i q hq hopen
      rcases hcases hq with hq | ⟨rfl, rfl⟩
      · have hne := hfresh q (List.mem_of_getElem? hq)
        have hlookup := h.opened hq hopen
        cases opening with
        | refused reason => cases hprocess
        | passwordNeeded username => cases hprocess
        | launched pid => exact hlookup
        | running readers pid => exact (AList.lookup_insert_ne hne).trans hlookup
      · cases opening with
        | refused reason => cases hprocess
        | passwordNeeded username => cases hprocess
        | launched pid =>
          cases hprocess
          cases hopen
        | running readers pid =>
          rw [hown]
          exact AList.lookup_insert _
    · intro i j q r hq hr hsame
      rcases hcases hq with hq | ⟨rfl, rfl⟩
      · rcases hcases hr with hr | ⟨rfl, rfl⟩
        · exact h.distinct hq hr hsame
        · exact absurd (hsame.trans hown) (hfresh q (List.mem_of_getElem? hq))
      · rcases hcases hr with hr | ⟨rfl, rfl⟩
        · exact absurd (hsame.symm.trans hown) (hfresh r (List.mem_of_getElem? hr))
        · rfl
    · intro q hmem
      obtain ⟨i, hq⟩ := List.mem_iff_getElem?.mp hmem
      rcases hcases hq with hq | ⟨-, rfl⟩
      · exact h.processes q (List.mem_of_getElem? hq)
      · rw [hown]
        exact hid

end Tables

theorem handle_tables {backend : Backend} (h : s.Tables)
    (honce : ∀ {n : ℕ} {channel : Channel}, s.view n = some channel → channel.Once)
    (hstep : s.step (.handle backend) = some s') : s'.Tables := by
  obtain ⟨message, rest, hidle, hqueue, hs'⟩ := handle_step hstep
  have hrest : Tables { s with toHost := rest } :=
    { h with toHost := fun message' hmem => h.toHost message' (hqueue ▸ List.mem_cons_of_mem _ hmem) }
  have hknown : s.Known message.id := h.toHost message (hqueue ▸ List.mem_cons_self)
  rcases handle_cases hs' with ⟨id, kind, opening, rfl, -, rfl⟩ | ⟨id, i, rfl, hlookup, rfl⟩ | ⟨rfl, -, -⟩
  · -- the open was not taken before, so nothing was started for it
    obtain ⟨n, hn, hnumber⟩ := hknown
    have hcall := List.getElem?_eq_getElem hn
    have hid : id = s.calls[n].id := hnumber.trans (h.ids hcall).symm
    have hthis := honce (view_of hcall)
    have hnew : s.processOf id = none := by
      rw [← Option.not_isSome_iff_eq_none]
      intro hsome
      unfold Channel.Once Channel.opens at hthis
      rw [hqueue, about_cons_self (show CommandMessage.id (.open id kind) = _ from hid),
        List.countP_cons_of_pos (show CommandMessage.asks (.open id kind) = true from rfl), ← hid,
        if_pos hsome] at hthis
      omega
    exact (hrest.tableFor backend).begin ⟨n, hn, hnumber⟩ hnew opening
  · obtain ⟨p, hp, rfl⟩ := h.table hlookup
    exact hrest.close hp
  · exact hrest

theorem Tables.step (h : s.Tables)
    (honce : ∀ {n : ℕ} {channel : Channel}, s.view n = some channel → channel.Once)
    (hfew : ∀ kind, event = .call kind → s.calls.length < 2 ^ 32)
    (hstep : s.step event = some s') : s'.Tables := by
  have hnone : ∀ {call : Call}, ∀ message ∈ ([] : List CommandMessage), message.id = call.id :=
    fun _ hmem => absurd hmem List.not_mem_nil
  have herase : ∀ (id id' : ChannelId) (route : Route),
      (s.routes.erase id).lookup id' = some route → s.routes.lookup id' = some route := by
    intro id id' route hlookup
    by_cases hid : id' = id
    · subst hid
      rw [AList.lookup_erase] at hlookup
      cases hlookup
    · rwa [AList.lookup_erase_ne hid] at hlookup
  cases event with
  | wait ms =>
    cases hstep
    exact { h with }
  | call kind =>
    cases hstep
    exact h.call kind (hfew kind rfl)
  | ask m =>
    obtain ⟨call, hcall, hs'⟩ := Option.bind_eq_some_iff.mp hstep
    obtain ⟨-, hs'⟩ := Option.ite_none_right_eq_some.mp hs'
    cases hs'
    refine h.set_call { call with phase := .waiting s.now } hcall rfl (fun _ _ hlookup => hlookup) ?_
    intro message hmem
    cases List.mem_singleton.mp hmem
    rfl
  | unsent m error =>
    obtain ⟨call, hcall, hs'⟩ := Option.bind_eq_some_iff.mp hstep
    obtain ⟨-, hs'⟩ := Option.ite_none_right_eq_some.mp hs'
    cases hs'
    have hset := h.set_call { call with phase := .failed error } hcall rfl (herase call.id) hnone
    rw [List.append_nil] at hset
    exact hset
  | timeout m =>
    obtain ⟨call, hcall, hs'⟩ := Option.bind_eq_some_iff.mp hstep
    cases hphase : call.phase <;> simp only [hphase] at hs' <;> try cases hs'
    obtain ⟨-, hs'⟩ := Option.ite_none_right_eq_some.mp hs'
    cases hs'
    have hset := h.set_call { call with phase := .failed noAnswer } hcall rfl (herase call.id) hnone
    rw [List.append_nil] at hset
    exact hset
  | close m =>
    obtain ⟨call, hcall, hs'⟩ := Option.bind_eq_some_iff.mp hstep
    cases hphase : call.phase <;> simp only [hphase] at hs' <;> cases hs'
    have hset := h.set_call { call with phase := .closing } hcall rfl (fun _ _ hlookup => hlookup) hnone
    rw [List.append_nil] at hset
    exact hset
  | forward m =>
    obtain ⟨call, hcall, hs'⟩ := Option.bind_eq_some_iff.mp hstep
    obtain ⟨-, hs'⟩ := Option.ite_none_right_eq_some.mp hs'
    cases hs'
    refine h.set_call { call with phase := .closed } hcall rfl (herase call.id) ?_
    intro message hmem
    cases List.mem_singleton.mp hmem
    rfl
  | deliver =>
    cases hwire : s.toClient with
    | nil =>
      simp only [CommandStream.step, hwire] at hstep
      cases hstep
    | cons message rest =>
      simp only [CommandStream.step, hwire] at hstep
      cases hstep
      exact h.receive hwire
  | handle backend => exact handle_tables h honce hstep
  | answer =>
    cases hanswering : s.answering with
    | nil =>
      simp only [CommandStream.step, hanswering] at hstep
      cases hstep
    | cons message rest =>
      simp only [CommandStream.step, hanswering] at hstep
      cases hstep
      have hmem := h.answering
      rw [hanswering] at hmem
      refine { h with toClient := ?_, answering := fun message hrest => hmem message (List.mem_cons_of_mem _ hrest) }
      intro message' hmem'
      rcases List.mem_append.mp hmem' with hmem' | hmem'
      · exact h.toClient message' hmem'
      · cases List.mem_singleton.mp hmem'
        exact hmem message List.mem_cons_self
  | thread i thread =>
    obtain ⟨p, hp, hs'⟩ := Option.bind_eq_some_iff.mp hstep
    obtain ⟨turn, hturn, rfl⟩ := Option.map_eq_some_iff.mp hs'
    exact h.thread hp hturn

end CommandStream

/-! ### What every step of a channel preserves -/

namespace Channel

variable {channel channel' : Channel} {act : Act}

theorem receive_asking {call : Call} {opened : Bool} {message : CommandMessage}
    (h : (call.receive opened message).2.phase = .asking) : call.phase = .asking := by
  cases message <;> cases opened <;> simp_all [Call.receive]

theorem once_new (id : ChannelId) (kind : ChannelKind) : (new id kind).Once := by
  unfold Once opens new
  simp

/-- A channel is asked for once, and started once. -/
theorem Once.step (h : channel.Once) (hstep : channel.step act = some channel') : channel'.Once := by
  unfold Once at *
  cases act with
  | ask now =>
    obtain ⟨hphase, hs'⟩ := Option.ite_none_right_eq_some.mp hstep
    cases hs'
    rw [if_pos hphase] at h
    unfold opens at *
    simp only [List.countP_append, List.countP_singleton, CommandMessage.asks, if_true,
      reduceCtorEq, if_false] at *
    omega
  | unsent error =>
    obtain ⟨hphase, hs'⟩ := Option.ite_none_right_eq_some.mp hstep
    cases hs'
    rw [if_pos hphase] at h
    unfold opens at *
    simp only [reduceCtorEq, if_false] at *
    omega
  | timeout | close =>
    simp only [Channel.step] at hstep
    split at hstep
    · cases hstep
      unfold opens at *
      simp only [reduceCtorEq, if_false] at *
      omega
    · cases hstep
  | forward =>
    obtain ⟨hphase, hs'⟩ := Option.ite_none_right_eq_some.mp hstep
    cases hs'
    unfold opens at *
    simp only [List.countP_append, List.countP_singleton, CommandMessage.asks, Bool.false_eq_true,
      reduceCtorEq, if_false] at *
    omega
  | deliver =>
    simp only [Channel.step] at hstep
    split at hstep
    · cases hstep
    · cases hstep
      exact h
    · cases hstep
      refine Nat.le_trans (Nat.add_le_add_left ?_ _) h
      split
      case isTrue hasking => rw [if_pos (receive_asking hasking)]
      case isFalse => exact Nat.zero_le _
  | handle opening =>
    simp only [Channel.step] at hstep
    split at hstep
    case h_1 id kind rest hidle hrequests =>
      obtain ⟨opening, -, rfl⟩ := Option.map_eq_some_iff.mp hstep
      unfold opens at *
      rw [hrequests, List.countP_cons_of_pos (by rfl)] at h
      have hprocess : channel.process = none := by
        rw [← Option.not_isSome_iff_eq_none]
        intro hsome
        rw [if_pos hsome] at h
        omega
      simp only [hprocess, Option.none_or] at *
      have hone : (if (Opening.process id opening).isSome = true then 1 else 0) ≤ 1 := by
        split
        · exact Nat.le_refl _
        · exact Nat.zero_le _
      simp only [Option.isSome_none, Bool.false_eq_true, if_false] at h
      omega
    case h_2 id rest hidle hrequests =>
      cases hstep
      unfold opens at *
      rw [hrequests, List.countP_cons_of_neg (by simp [CommandMessage.asks])] at h
      rw [Option.isSome_map]
      exact h
    case h_3 message rest hopen hclose hidle hrequests =>
      cases hstep
      unfold opens at *
      rw [hrequests] at h
      refine Nat.le_trans (Nat.add_le_add_right (Nat.add_le_add_right ?_ _) _) h
      exact (List.sublist_cons_self _ _).countP_le
    case h_4 => cases hstep
  | answer =>
    simp only [Channel.step] at hstep
    split at hstep
    · cases hstep
    · cases hstep
      exact h
  | thread thread =>
    obtain ⟨p, hp, hs'⟩ := Option.bind_eq_some_iff.mp hstep
    obtain ⟨turn, -, rfl⟩ := Option.map_eq_some_iff.mp hs'
    unfold opens at *
    rw [hp] at h
    exact h

end Channel

namespace CommandStream

variable {s s' : CommandStream} {event : Event}

/-! ### Runs -/

structure Inv (s : CommandStream) : Prop where
  tables : s.Tables
  once : ∀ {n : ℕ} {channel : Channel}, s.view n = some channel → channel.Once

theorem length_step (hstep : s.step event = some s') :
    (∃ kind, event = .call kind) ∨ s'.calls.length = s.calls.length := by
  cases event with
  | wait ms =>
    cases hstep
    exact Or.inr rfl
  | call kind => exact Or.inl ⟨kind, rfl⟩
  | ask m | unsent m error =>
    obtain ⟨call, -, hs'⟩ := Option.bind_eq_some_iff.mp hstep
    obtain ⟨-, hs'⟩ := Option.ite_none_right_eq_some.mp hs'
    cases hs'
    exact Or.inr List.length_set
  | timeout m =>
    obtain ⟨call, -, hs'⟩ := Option.bind_eq_some_iff.mp hstep
    cases hphase : call.phase <;> simp only [hphase] at hs' <;> try cases hs'
    obtain ⟨-, hs'⟩ := Option.ite_none_right_eq_some.mp hs'
    cases hs'
    exact Or.inr List.length_set
  | close m =>
    obtain ⟨call, -, hs'⟩ := Option.bind_eq_some_iff.mp hstep
    cases hphase : call.phase <;> simp only [hphase] at hs' <;> cases hs'
    exact Or.inr List.length_set
  | forward m =>
    obtain ⟨call, -, hs'⟩ := Option.bind_eq_some_iff.mp hstep
    obtain ⟨-, hs'⟩ := Option.ite_none_right_eq_some.mp hs'
    cases hs'
    exact Or.inr List.length_set
  | deliver =>
    cases hwire : s.toClient with
    | nil =>
      simp only [step, hwire] at hstep
      cases hstep
    | cons message rest =>
      simp only [step, hwire] at hstep
      cases hstep
      exact Or.inr (receive_fields _ message).1
  | handle backend =>
    obtain ⟨message, rest, -, -, hs'⟩ := handle_step hstep
    rcases handle_cases hs' with ⟨id, kind, opening, -, -, rfl⟩ | ⟨id, i, -, -, rfl⟩ | ⟨rfl, -, -⟩
    · exact Or.inr rfl
    · exact Or.inr rfl
    · exact Or.inr rfl
  | answer =>
    cases hanswering : s.answering with
    | nil =>
      simp only [step, hanswering] at hstep
      cases hstep
    | cons message rest =>
      simp only [step, hanswering] at hstep
      cases hstep
      exact Or.inr rfl
  | thread i thread =>
    obtain ⟨p, -, hs'⟩ := Option.bind_eq_some_iff.mp hstep
    obtain ⟨turn, -, rfl⟩ := Option.map_eq_some_iff.mp hs'
    exact Or.inr rfl

/-- A new call is a new channel. -/
theorem view_call (h : s.Tables) (kind : ChannelKind) (hfew : s.calls.length < 2 ^ 32)
    (hstep : s.step (.call kind) = some s') : s'.view s.calls.length = some (.new s.next kind) := by
  cases hstep
  have hknown : ∀ {id}, s.Known id → id ≠ s.next := by
    rintro id ⟨n, hn, rfl⟩ hid
    rw [h.next] at hid
    exact absurd (ofNat_inj (by omega) hfew hid) (Nat.ne_of_lt hn)
  have hcall : (s.calls ++ [(⟨s.next, kind, .asking, []⟩ : Call)])[s.calls.length]?
      = some ⟨s.next, kind, .asking, []⟩ := List.getElem?_concat_length
  change view _ s.calls.length = _
  rw [view_of hcall]
  simp only
  have hprocess : s.processOf s.next = none :=
    List.find?_eq_none.mpr fun p hmem hid => hknown (h.processes p hmem) (of_decide_eq_true hid)
  rw [AList.lookup_insert, about_none fun message hmem => hknown (h.toHost message hmem),
    about_none fun message hmem => hknown (h.toClient message hmem),
    about_none fun message hmem => hknown (h.answering message hmem)]
  exact congrArg (fun process => some (Channel.mk _ _ _ _ _ process)) hprocess

/-- What the steps of a channel preserve, the steps of the session preserve for all of
them. -/
theorem forall_view_step {P : Channel → Prop} (h : s.Tables)
    (hfew : ∀ kind, event = .call kind → s.calls.length < 2 ^ 32) (hstep : s.step event = some s')
    (hP : ∀ n channel, s.view n = some channel → P channel) (hnew : ∀ id kind, P (.new id kind))
    (hlocal : ∀ n channel act channel', s.view n = some channel → s.actAt n event = some act →
      P channel → channel.step act = some channel' → P channel') :
    ∀ n channel, s'.view n = some channel → P channel := by
  intro n channel' hview'
  cases hview : s.view n with
  | some channel =>
    have hsim := view_step h hfew hstep hview
    cases hact : s.actAt n event with
    | none =>
      rw [hact] at hsim
      have hsame : channel = channel' := Option.some.inj (hsim.symm.trans hview')
      exact hsame ▸ hP n channel hview
    | some act =>
      rw [hact] at hsim
      obtain ⟨channel'', hlocalStep, hsame⟩ := hsim
      have hsame' : channel'' = channel' := Option.some.inj (hsame.symm.trans hview')
      exact hlocal n channel act channel' hview hact (hP n channel hview) (hsame' ▸ hlocalStep)
  | none =>
    -- the call is new
    have hn : s.calls.length ≤ n := List.getElem?_eq_none_iff.mp (Option.map_eq_none_iff.mp hview)
    obtain ⟨call, hcall', -⟩ := Option.map_eq_some_iff.mp hview'
    have hn' := (List.getElem?_eq_some_iff.mp hcall').1
    rcases length_step hstep with ⟨kind, rfl⟩ | hlength
    · have hlength : s'.calls.length = s.calls.length + 1 := by
        cases hstep
        exact List.length_append
      have heq : n = s.calls.length := by omega
      subst heq
      rw [view_call h kind (hfew kind rfl) hstep] at hview'
      cases hview'
      exact hnew _ _
    · omega

theorem Inv.new : Inv CommandStream.new where
  tables := Tables.new
  once := fun h => by cases h

/-- Numbers, tables and commands stay in agreement. -/
theorem Inv.step (h : s.Inv) (hfew : ∀ kind, event = .call kind → s.calls.length < 2 ^ 32)
    (hstep : s.step event = some s') : s'.Inv where
  tables := h.tables.step h.once hfew hstep
  once := fun hview =>
    forall_view_step h.tables hfew hstep (fun _ _ hview => h.once hview) Channel.once_new
      (fun _ _ _ _ _ _ honce hlocal => Channel.Once.step honce hlocal) _ _ hview

end CommandStream

end WindowCast.Command
