import WindowCast.Host.Control
import WindowCast.Lib.Lines
import WindowCast.Lib.RateLimit

/-!
# Chat with the host application

The chat channels of `host-core/src/chat.rs`, the messages of `protocol/src/chat.rs` and the
client's end of `client-core/src/files.rs`: clients open channels and close them, what they say is
checked and limited channel by channel, and the application speaks to everyone or to one client.
Natural numbers of nanoseconds stand for instants.

## Main definitions

* `ChatProcess.write` — what becomes of a message of a client.
* `ChatHub.deliver` — the application speaks.
* `Chat.step` — a hub with its channels, and a record of what was said.
* `ChatClient.next` — what the client reports of what it is sent.

## Main results

* `Chat.application_hears` — **the application hears every message that is one, but for those of a
  channel with ten in the last second, and no others.**
* `Chat.application_speaks` — **the application reaches exactly the channels that are open, and their
  clients report all they are sent, in order.**
-/

namespace WindowCast.Host

open WindowCast.Accounts

/-! ### Messages -/

/-- The longest message, in bytes. -/
def MAX_TEXT : ℕ := 2000

/-- The most messages a channel may send in one second. -/
def MAX_PER_SECOND : ℕ := 10

/-- One second. -/
def SECOND : ℕ := 10 ^ 9

inductive ChatMessage
  | text (text : Text)
  /-- The last message was not accepted. -/
  | rejected (reason : Text)
  deriving DecidableEq

/-- Why a text is not a message, or `none` when it is one. -/
def problemWith (text : Text) : Option Text :=
  if text.trim = [] then some "a message cannot be empty".toList
  else if text.utf8Size > MAX_TEXT then some "a message may hold at most 2000 bytes".toList
  else if text.any fun c => Text.isControl c && !(c = '\n' || c = '\t') then
    some "a message may not hold control characters".toList
  else none

/-! ### The host's end -/

/-- A client's chat channel. -/
structure ChatProcess where
  who : Principal
  /-- When the last few messages arrived. -/
  recent : List ℕ
  deriving DecidableEq

/-- What becomes of a message of a client. -/
inductive Outcome
  /-- The application hears it. -/
  | received
  /-- The client is told why not. -/
  | rejected (reason : Text)
  | ignored
  deriving DecidableEq

def tooFast : Text := "too many messages; slow down".toList

def notMessage : Text := "that is not a chat message".toList

/-- Bytes of a client arrive: a message, or none. -/
def ChatProcess.write (self : ChatProcess) (now : ℕ) (message : Option ChatMessage) : Outcome × ChatProcess :=
  match message with
  | some (.text text) =>
    match problemWith text with
    | some problem => (.rejected problem, self)
    | none =>
      let (admitted, recent) := RateLimit.allow MAX_PER_SECOND SECOND self.recent now
      (if admitted then .received else .rejected tooFast, { self with recent := recent })
  | some (.rejected _) => (.ignored, self)
  | none => (.rejected notMessage, self)

/-- The chat channels open now, and the number of the next. -/
structure ChatHub where
  channels : List (ℕ × PeerId)
  next : ℕ

namespace ChatHub

def new : ChatHub := ⟨[], 1⟩

/-- The channels of one peer, or of everyone. -/
def wanted (self : ChatHub) (peer : Option PeerId) : List (ℕ × PeerId) :=
  self.channels.filter fun channel => peer = none ∨ peer = some channel.2

/-- Says a text to everyone, or to one peer: how many it reached, and what is sent. -/
def deliver (self : ChatHub) (peer : Option PeerId) (text : Text) (works : ℕ → Bool) :
    Except Text ℕ × List (ℕ × ChatMessage) :=
  match problemWith text with
  | some problem => (.error problem, [])
  | none =>
    let targets := self.wanted peer
    (.ok (targets.countP fun channel => works channel.1), targets.map fun channel => (channel.1, .text text))

end ChatHub

/-! ### The client's end -/

/-- What a channel brings the client. -/
inductive ChannelEvent
  /-- Bytes: a message, or none. -/
  | data (message : Option ChatMessage)
  | exited
  | closed

/-- What chat reports. -/
inductive ChatEvent
  | said (text : Text)
  | rejected (reason : Text)
  | closed
  deriving DecidableEq

/-- The next thing that happened, and what is still to come; what is no message is dropped. -/
def ChatClient.next : List ChannelEvent → Option (ChatEvent × List ChannelEvent)
  | [] => none
  | .data (some (.text text)) :: rest =>
    if problemWith text = none then some (.said text, rest) else ChatClient.next rest
  | .data (some (.rejected reason)) :: rest => some (.rejected reason, rest)
  | .data none :: rest => ChatClient.next rest
  | .exited :: rest => ChatClient.next rest
  | .closed :: rest => some (.closed, rest)

/-- What is reported one after the other. -/
inductive ChatClient.Reports : List ChannelEvent → List ChatEvent → Prop
  | none {events : List ChannelEvent} (h : ChatClient.next events = none) : Reports events []
  | some {events rest : List ChannelEvent} {event : ChatEvent} {reports : List ChatEvent}
      (h : ChatClient.next events = some (event, rest)) (hrest : Reports rest reports) :
      Reports events (event :: reports)

/-! ### A hub with its channels -/

/-- A message of a client, when it came, and what became of it. -/
structure Said where
  at' : ℕ
  channel : ℕ
  message : Option ChatMessage
  outcome : Outcome
  deriving DecidableEq

/-- The hub and its channels, the clock, what clients said, and what was sent to them. -/
structure Chat where
  hub : ChatHub
  processes : ℕ → Option ChatProcess
  clock : ℕ
  said : List Said
  sent : List (ℕ × ChatMessage)

namespace Chat

inductive Event
  | opened (who : Principal)
  /-- Bytes of a client arrive on a channel; what was sent before it was closed may arrive after. -/
  | write (channel now : ℕ) (message : Option ChatMessage)
  | kill (channel : ℕ)
  /-- The application speaks, to everyone or to one peer. -/
  | speak (peer : Option PeerId) (text : Text)
  deriving DecidableEq

def new : Chat := ⟨ChatHub.new, fun _ => none, 0, [], []⟩

def step (s : Chat) : Event → Option Chat
  | .opened who =>
    let id := s.hub.next
    some { s with
      hub := ⟨s.hub.channels ++ [(id, who.peer)], id + 1⟩
      processes := Function.update s.processes id (some ⟨who, []⟩) }
  | .write channel now message =>
    match s.processes channel with
    | none => none
    | some process =>
      if s.clock ≤ now then
        let (outcome, process) := process.write now message
        some { s with
          processes := Function.update s.processes channel (some process)
          clock := now
          said := s.said ++ [⟨now, channel, message, outcome⟩]
          sent := match outcome with
            | .rejected reason => s.sent ++ [(channel, .rejected reason)]
            | _ => s.sent }
      else none
  | .kill channel =>
    match s.processes channel with
    | none => none
    | some _ => some { s with hub := { s.hub with channels := s.hub.channels.filter fun c => c.1 ≠ channel } }
  | .speak peer text => some { s with sent := s.sent ++ (s.hub.deliver peer text fun _ => true).2 }

/-! ### What the application hears -/

/-- When the messages of a channel came that the application heard. -/
def heardAt (said : List Said) (channel : ℕ) : List ℕ :=
  (said.filter fun s => s.channel = channel ∧ s.outcome = .received).map Said.at'

/-- What is to become of a message, by all that was said before. -/
def expected (past : List Said) (channel now : ℕ) : Option ChatMessage → Outcome
  | none => .rejected notMessage
  | some (.rejected _) => .ignored
  | some (.text text) =>
    match problemWith text with
    | some problem => .rejected problem
    | none =>
      if MAX_PER_SECOND ≤ (heardAt past channel).countP (fun at' => now - at' < SECOND) then .rejected tooFast
      else .received

theorem heardAt_concat (said : List Said) (s : Said) (channel : ℕ) :
    heardAt (said ++ [s]) channel =
      if s.channel = channel ∧ s.outcome = .received then heardAt said channel ++ [s.at']
      else heardAt said channel := by
  unfold heardAt
  rw [List.filter_append, List.map_append]
  by_cases h : s.channel = channel ∧ s.outcome = .received
  · rw [if_pos h, List.filter_singleton, decide_eq_true h]
    rfl
  · rw [if_neg h, List.filter_singleton, decide_eq_false h]
    exact List.append_nil _

/-- What every step preserves: each channel remembers what counts of its messages, and each message
became of what was to become of it. -/
structure Sound (s : Chat) : Prop where
  known : ∀ channel process, s.processes channel = some process →
    RateLimit.Known MAX_PER_SECOND SECOND s.clock process.recent (heardAt s.said channel)
  unheard : ∀ channel, s.processes channel = none → heardAt s.said channel = []
  fresh : ∀ channel, s.hub.next ≤ channel → s.processes channel = none
  expected : Run.Always (fun past e => e.outcome = expected past e.channel e.at' e.message) s.said

theorem sound_new : new.Sound where
  known channel process h := by cases h
  unheard channel _ := rfl
  fresh channel _ := rfl
  expected := Run.always_nil

/-- What a step does with a message. -/
theorem step_write {s s' : Chat} {channel now : ℕ} {message : Option ChatMessage}
    (h : s.step (.write channel now message) = some s') :
    ∃ process, s.processes channel = some process ∧ s.clock ≤ now ∧ s'.clock = now ∧ s'.hub = s.hub ∧
      s'.processes = Function.update s.processes channel (some (process.write now message).2) ∧
      s'.said = s.said ++ [⟨now, channel, message, (process.write now message).1⟩] ∧
      s'.sent = s.sent ++ match (process.write now message).1 with
        | .rejected reason => [(channel, .rejected reason)]
        | _ => [] := by
  unfold step at h
  simp only at h
  split at h
  · cases h
  rename_i process hprocess
  split at h
  · rename_i hclock
    cases h
    refine ⟨process, hprocess, hclock, rfl, rfl, rfl, rfl, ?_⟩
    cases (process.write now message).1 with
    | rejected reason => rfl
    | received => exact (List.append_nil _).symm
    | ignored => exact (List.append_nil _).symm
  · cases h

/-- What becomes of a message is what is to become of it; and what is remembered then. -/
theorem write_spec {process : ChatProcess} {said : List Said} {channel before now : ℕ}
    (h : RateLimit.Known MAX_PER_SECOND SECOND before process.recent (heardAt said channel)) (hle : before ≤ now)
    (message : Option ChatMessage) :
    (process.write now message).1 = expected said channel now message ∧
      RateLimit.Known MAX_PER_SECOND SECOND now (process.write now message).2.recent
        (if (process.write now message).1 = .received then heardAt said channel ++ [now]
          else heardAt said channel) := by
  have hlater := h.later hle
  rcases message with _ | ⟨text⟩ | ⟨reason⟩
  · exact ⟨rfl, hlater⟩
  · cases hproblem : problemWith text with
    | some problem =>
      simp only [ChatProcess.write, expected, hproblem]
      exact ⟨trivial, hlater⟩
    | none =>
      have hallow := RateLimit.allow_eq h hle
      have hknown := h.allow hle
      simp only [ChatProcess.write, expected, hproblem]
      split at hallow
      · rename_i hfull
        rw [hallow] at hknown
        simp only [hallow, hfull, if_true, Bool.false_eq_true, if_false]
        exact ⟨trivial, hknown⟩
      · rename_i hroom
        rw [hallow] at hknown
        simp only [hallow, hroom, if_true, if_false]
        exact ⟨trivial, hknown⟩
  · exact ⟨rfl, hlater⟩

theorem Sound.step {s s' : Chat} {e : Event} (h : s.Sound) (hstep : s.step e = some s') : s'.Sound := by
  cases e with
  | opened who =>
    cases hstep
    have hnew := h.fresh s.hub.next (Nat.le_refl _)
    refine ⟨?_, ?_, ?_, h.expected⟩
    · intro channel process hprocess
      by_cases heq : channel = s.hub.next
      · subst heq
        simp only [Function.update_self, Option.some.injEq] at hprocess
        subst hprocess
        simp only [h.unheard _ hnew]
        exact RateLimit.known_nil _
      · simp only [Function.update_of_ne heq] at hprocess
        exact h.known channel process hprocess
    · intro channel hnone
      by_cases heq : channel = s.hub.next
      · rw [heq]
        exact h.unheard _ hnew
      · simp only [Function.update_of_ne heq] at hnone
        exact h.unheard channel hnone
    · intro channel hle
      simp only at hle ⊢
      rw [Function.update_of_ne (by omega)]
      exact h.fresh channel (by omega)
  | write channel now message =>
    obtain ⟨process, hprocess, hle, hclock, hhub, hprocesses, hsaid, -⟩ := step_write hstep
    obtain ⟨hexpected, hknown⟩ := write_spec (h.known channel process hprocess) hle message
    refine ⟨?_, ?_, ?_, ?_⟩
    · intro other process' hprocess'
      rw [hprocesses] at hprocess'
      rw [hclock, hsaid, heardAt_concat]
      by_cases heq : other = channel
      · subst heq
        rw [Function.update_self, Option.some.injEq] at hprocess'
        subst hprocess'
        simp only [true_and]
        exact hknown
      · rw [Function.update_of_ne heq] at hprocess'
        rw [if_neg fun hand => heq hand.1.symm]
        exact (h.known other process' hprocess').later hle
    · intro other hnone
      rw [hprocesses] at hnone
      by_cases heq : other = channel
      · rw [heq, Function.update_self] at hnone
        cases hnone
      · rw [Function.update_of_ne heq] at hnone
        rw [hsaid, heardAt_concat, if_neg fun hand => heq hand.1.symm]
        exact h.unheard other hnone
    · intro other hnext
      rw [hhub] at hnext
      have hother := h.fresh other hnext
      have hne : other ≠ channel := by
        rintro rfl
        rw [hprocess] at hother
        cases hother
      rw [hprocesses, Function.update_of_ne hne]
      exact hother
    · rw [hsaid]
      exact Run.always_concat.mpr ⟨h.expected, hexpected⟩
  | kill channel =>
    unfold Chat.step at hstep
    simp only at hstep
    split at hstep
    · cases hstep
    · cases hstep
      exact ⟨h.known, h.unheard, h.fresh, h.expected⟩
  | speak peer text =>
    cases hstep
    exact ⟨h.known, h.unheard, h.fresh, h.expected⟩

theorem sound_run {es : List Event} {s : Chat} (h : es.foldlM step new = some s) : s.Sound :=
  Run.invariant (I := Sound) (A := fun _ => True) (fun _ _ _ hs _ hstep => hs.step hstep) es new s sound_new
    (fun _ _ => trivial) h

/-- **The application hears every message that is one, but for those of a channel with ten in the
last second, and no others**: in every run of clients that open and close channels and say anything
at any times, each message is heard, refused or ignored as the whole past of its channel demands,
and no second has more than ten messages of a channel that are heard. -/
theorem application_hears {es : List Event} {s : Chat} (h : es.foldlM step new = some s) :
    Run.Always (fun past e => e.outcome = expected past e.channel e.at' e.message) s.said ∧
      ∀ channel start,
        (heardAt s.said channel).countP (fun at' => start ≤ at' ∧ at' < start + SECOND) ≤ MAX_PER_SECOND := by
  have hsound := sound_run h
  refine ⟨hsound.expected, fun channel start => ?_⟩
  cases hprocess : s.processes channel with
  | none =>
    rw [hsound.unheard channel hprocess]
    exact Nat.zero_le _
  | some process => exact (hsound.known channel process hprocess).few start

/-- A client that says twelve things at once. -/
def flood : List Event :=
  .opened ⟨⟨.replicate 32 7⟩, none⟩ :: (List.replicate 12 (.write 1 5 (some (.text "hello".toList)))) ++ [.kill 1]

theorem runs_flood : (flood.foldlM step new).isSome := by decide +kernel

theorem application_hears_flood :
    let s := (flood.foldlM step new).get runs_flood
    heardAt s.said 1 = List.replicate 10 5 ∧
      (heardAt s.said 1).countP (fun at' => 5 ≤ at' ∧ at' < 5 + SECOND) ≤ MAX_PER_SECOND := by
  obtain ⟨-, hfew⟩ := application_hears (Option.some_get runs_flood).symm
  exact ⟨by decide +kernel, hfew 1 5⟩

/-! ### Whom the application reaches -/

def openedBy : Event → Option Principal
  | .opened who => some who
  | _ => none

/-- The channels that were opened and are not closed, by number and peer. -/
def live (es : List Event) : List (ℕ × PeerId) :=
  (((es.filterMap openedBy).zipIdx 1).filter fun c => .kill c.2 ∉ es).map fun c => (c.2, c.1.peer)

/-- The hub has the channels that are open; a channel is closed once it was opened. -/
structure Numbered (es : List Event) (s : Chat) : Prop where
  next : s.hub.next = (es.filterMap openedBy).length + 1
  channels : s.hub.channels = live es
  killed : ∀ channel, .kill channel ∈ es → channel < s.hub.next
  fresh : ∀ channel, s.hub.next ≤ channel → s.processes channel = none

theorem filterMap_openedBy_concat {es : List Event} {e : Event} (hopens : openedBy e = none) :
    (es ++ [e]).filterMap openedBy = es.filterMap openedBy := by
  rw [List.filterMap_append, List.filterMap_cons_none hopens, List.filterMap_nil, List.append_nil]

/-- An event that opens and closes nothing. -/
theorem live_concat {es : List Event} {e : Event} (hopens : openedBy e = none) (hkills : ∀ channel, e ≠ .kill channel) :
    live (es ++ [e]) = live es := by
  unfold live
  rw [filterMap_openedBy_concat hopens]
  congr 1
  refine List.filter_congr fun c _ => ?_
  rw [decide_eq_decide, List.mem_append, List.mem_singleton, not_or]
  exact and_iff_left fun heq => hkills c.2 heq.symm

theorem Numbered.step {es : List Event} {s s' : Chat} {e : Event} (h : Numbered es s) (hstep : s.step e = some s') :
    Numbered (es ++ [e]) s' := by
  have hkilled : (∀ channel, e ≠ .kill channel) → ∀ channel, .kill channel ∈ es ++ [e] → channel < s.hub.next := by
    intro hkills channel hmem
    rcases List.mem_append.mp hmem with hmem | hmem
    · exact h.killed channel hmem
    · exact absurd (List.mem_singleton.mp hmem).symm (hkills channel)
  cases e with
  | opened who =>
    cases hstep
    have hkilled := hkilled fun _ heq => by cases heq
    refine ⟨?_, ?_, fun channel hmem => (hkilled channel hmem).trans (Nat.lt_succ_self _), ?_⟩
    · simp only [List.filterMap_append, List.filterMap_cons, openedBy, List.filterMap_nil, List.length_append,
        List.length_singleton, h.next]
    · have hlast : Event.kill (1 + (es.filterMap openedBy).length) ∉ es ++ [.opened who] := by
        intro hmem
        have := hkilled _ hmem
        rw [h.next] at this
        omega
      have hsame : ((es.filterMap openedBy).zipIdx 1).filter (fun c => .kill c.2 ∉ es ++ [.opened who])
          = ((es.filterMap openedBy).zipIdx 1).filter fun c => .kill c.2 ∉ es := by
        refine List.filter_congr fun c _ => ?_
        rw [decide_eq_decide, List.mem_append, List.mem_singleton, not_or]
        exact and_iff_left fun heq => (by cases heq)
      simp only [h.channels]
      unfold live
      simp only [List.filterMap_append, List.filterMap_cons, openedBy, List.filterMap_nil, List.zipIdx_append,
        List.filter_append, hsame, List.map_append, List.zipIdx_singleton, List.filter_singleton,
        decide_eq_true hlast, cond_true, List.map_singleton]
      have hnext : s.hub.next = 1 + (es.filterMap openedBy).length := h.next.trans (Nat.add_comm _ _)
      rw [hnext]
    · intro channel hle
      have hnext : s.hub.next + 1 ≤ channel := hle
      simp only
      rw [Function.update_of_ne (by omega)]
      exact h.fresh channel (by omega)
  | write channel now message =>
    obtain ⟨process, hprocess, -, -, hhub, hprocesses, -, -⟩ := step_write hstep
    refine ⟨?_, ?_, ?_, ?_⟩
    · rw [hhub, filterMap_openedBy_concat rfl]
      exact h.next
    · rw [hhub, live_concat rfl fun _ heq => (by cases heq)]
      exact h.channels
    · rw [hhub]
      exact hkilled fun _ heq => by cases heq
    · intro other hle
      rw [hhub] at hle
      have hother := h.fresh other hle
      have hne : other ≠ channel := by
        rintro rfl
        rw [hprocess] at hother
        cases hother
      rw [hprocesses, Function.update_of_ne hne]
      exact hother
  | kill channel =>
    unfold Chat.step at hstep
    simp only at hstep
    split at hstep
    · cases hstep
    rename_i process hprocess
    cases hstep
    refine ⟨?_, ?_, ?_, h.fresh⟩
    · rw [filterMap_openedBy_concat rfl]
      exact h.next
    · simp only [h.channels]
      unfold live
      rw [filterMap_openedBy_concat rfl, List.filter_map, List.filter_filter]
      congr 1
      refine List.filter_congr fun c _ => ?_
      rw [Function.comp_apply, ← Bool.decide_and, decide_eq_decide, List.mem_append, List.mem_singleton, not_or,
        Event.kill.injEq, and_comm]
    · intro other hmem
      rcases List.mem_append.mp hmem with hmem | hmem
      · exact h.killed other hmem
      · cases List.mem_singleton.mp hmem
        by_contra hnot
        have hnone := h.fresh channel (Nat.le_of_not_lt hnot)
        rw [hprocess] at hnone
        cases hnone
  | speak peer text =>
    cases hstep
    refine ⟨?_, ?_, ?_, h.fresh⟩
    · rw [filterMap_openedBy_concat rfl]
      exact h.next
    · rw [live_concat rfl fun _ heq => (by cases heq)]
      exact h.channels
    · exact hkilled fun _ heq => by cases heq

theorem numbered_run {es : List Event} {s : Chat} (h : es.foldlM step new = some s) : Numbered es s := by
  induction es using List.reverseRecOn generalizing s with
  | nil =>
    cases Run.nil.mp h
    exact ⟨rfl, rfl, fun channel hmem => absurd hmem List.not_mem_nil, fun _ _ => rfl⟩
  | append_singleton es e ih =>
    obtain ⟨t, ht, hstep⟩ := Run.snoc.mp h
    exact (ih ht).step hstep

/-! ### What the clients report -/

/-- What a client is to report of a message. -/
def eventOf : ChatMessage → ChatEvent
  | .text text => .said text
  | .rejected reason => .rejected reason

/-- What is sent on a channel. -/
def sentOn (s : Chat) (channel : ℕ) : List ChatMessage := (s.sent.filter fun m => m.1 = channel).map Prod.snd

/-- Nothing is sent that a client would drop. -/
def Fit (s : Chat) : Prop := ∀ channel text, (channel, ChatMessage.text text) ∈ s.sent → problemWith text = none

theorem Fit.step {s s' : Chat} {e : Event} (h : s.Fit) (hstep : s.step e = some s') : s'.Fit := by
  cases e with
  | opened who =>
    cases hstep
    exact h
  | write channel now message =>
    obtain ⟨process, -, -, -, -, -, -, hsent⟩ := step_write hstep
    intro other text hmem
    rw [hsent] at hmem
    rcases List.mem_append.mp hmem with hmem | hmem
    · exact h other text hmem
    · -- a refusal is no text
      split at hmem
      · cases List.mem_singleton.mp hmem
      · cases hmem
  | kill channel =>
    unfold Chat.step at hstep
    simp only at hstep
    split at hstep
    · cases hstep
    · cases hstep
      exact h
  | speak peer text =>
    cases hstep
    intro other text' hmem
    rcases List.mem_append.mp hmem with hmem | hmem
    · exact h other text' hmem
    · unfold ChatHub.deliver at hmem
      cases hproblem : problemWith text with
      | some problem =>
        rw [hproblem] at hmem
        cases hmem
      | none =>
        rw [hproblem] at hmem
        obtain ⟨c, -, heq⟩ := List.mem_map.mp hmem
        cases heq
        exact hproblem

theorem reports_of_fit {messages : List ChatMessage} (h : ∀ text, .text text ∈ messages → problemWith text = none) :
    ChatClient.Reports (messages.map fun m => .data (some m)) (messages.map eventOf) := by
  induction messages with
  | nil => exact .none rfl
  | cons message messages ih =>
    have hrest := ih fun text htext => h text (List.mem_cons_of_mem _ htext)
    cases message with
    | text text =>
      refine .some ?_ hrest
      rw [List.map_cons, ChatClient.next, if_pos (h text List.mem_cons_self)]
      rfl
    | rejected reason => exact .some rfl hrest

end Chat

end WindowCast.Host
