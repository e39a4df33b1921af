import WindowCast.Command.Channel

/-!
# Channels that were given up

A client gives a channel up when its call returns an error or when it drops the
channel.  A dropped channel is closed on the host; a call that fails tells the host
nothing, so nothing closes what the host has started for it, or starts later.

## Main definitions

* `Phase.GivenUp` — a call that has no channel any more.
* `CommandStream.Released` — what was given up does not stay open.
* `CommandStream.Careful` — no call fails of which the host runs the command.

## Main results

* `Channel.Kept.step` — what every step of a channel preserves.
* `CommandStream.given_up_is_released` — **a channel that was given up does not stay open**, where
  none is started for a call that fails.
-/

namespace WindowCast.Command

/-- The client has no channel any more. -/
inductive Phase.GivenUp : Phase → Prop
  | failed (reason : Text) : GivenUp (.failed reason)
  | closing : GivenUp .closing
  | closed : GivenUp .closed

/-- Whether a command was started that runs on. -/
def Opening.runs : Opening → Bool
  | .running _ _ => true
  | _ => false

theorem Opening.closed_of_process {opening : Opening} {id : ChannelId} (h : opening.runs = false) :
    ∀ p ∈ opening.process id, p.closed = true := by
  cases opening with
  | refused reason => exact fun _ hp => by cases hp
  | passwordNeeded username => exact fun _ hp => by cases hp
  | launched pid =>
    intro p hp
    cases hp
    rfl
  | running readers pid => cases h

namespace Channel

/-- A close is on its way. -/
def Closing (self : Channel) : Prop := self.call.phase = .closing ∨ .close self.call.id ∈ self.requests

/-- What was given up is not open, or a close is on its way. -/
def Released (self : Channel) : Prop :=
  self.call.phase.GivenUp → (∀ p ∈ self.process, p.closed = true) ∨ self.Closing

/-- What holds of a channel at both ends. -/
structure Kept (channel : Channel) : Prop where
  /-- Before the host takes the open, there is nothing. -/
  fresh : (channel.call.phase = .asking ∨ ∃ message ∈ channel.requests, message.asks = true) →
    channel.process = none ∧ channel.wire = [] ∧ channel.answering = []
  unasked : channel.call.phase = .asking → channel.requests = []
  asked : (∃ message ∈ channel.requests, message.asks = true) →
    (∃ since, channel.call.phase = .waiting since) ∨ ∃ reason, channel.call.phase = .failed reason
  refused : ∀ id reason, .refused id reason ∈ channel.wire ++ channel.answering → channel.process = none
  exited : ∀ id code, .exited id code ∈ channel.wire ++ channel.answering → ∀ p ∈ channel.process, p.closed = true
  ended : ∀ p ∈ channel.process, p.waiter ≠ .waiting → p.closed = true
  released : channel.Released

/-- What a channel relies on: no call fails of which the host runs the command, or is
still to run it. -/
def Careful (channel : Channel) : Act → Prop
  | .timeout => ∀ p ∈ channel.process, p.closed = true
  | .handle (some opening) => (∃ reason, channel.call.phase = .failed reason) → opening.runs = false
  | _ => True

theorem kept_new (id : ChannelId) (kind : ChannelKind) : (new id kind).Kept where
  fresh := fun _ => ⟨rfl, rfl, rfl⟩
  unasked := fun _ => rfl
  asked := by
    rintro ⟨message, hmem, -⟩
    cases hmem
  refused := fun _ _ hmem => by cases hmem
  exited := fun _ _ hmem => by cases hmem
  ended := fun _ hp => by cases hp
  released := fun h => by cases h

/-- What a thread sends is output, or the end of a command whose channel is closed. -/
theorem turn_sends {p : Process} {thread : Thread} {done : Process × List CommandMessage}
    (h : p.turn thread = some done) {message : CommandMessage} (hmem : message ∈ done.2) :
    (∃ bytes, message = .data p.id bytes) ∨ ((∃ code, message = .exited p.id code) ∧ p.waiter ≠ .waiting) := by
  cases Process.turned h with
  | @send i reader chunk =>
    cases List.mem_singleton.mp hmem
    exact Or.inl ⟨chunk, rfl⟩
  | @report code hreporting =>
    cases List.mem_singleton.mp hmem
    rw [hreporting]
    exact Or.inr ⟨⟨code, rfl⟩, nofun⟩
  | _ => cases hmem

theorem turn_ended {p : Process} {thread : Thread} {done : Process × List CommandMessage}
    (h : p.turn thread = some done) (hended : p.waiter ≠ .waiting → p.closed = true) :
    done.1.waiter ≠ .waiting → done.1.closed = true := by
  cases Process.turned h with
  | join => exact fun _ => rfl
  | report hreporting => exact fun _ => hended (by rw [hreporting]; nofun)
  | _ => exact hended

/-- A message lets a call fail if it is the host's no, or the end. -/
theorem receive_givenUp {call : Call} {opened : Bool} {message : CommandMessage}
    (h : (call.receive opened message).2.phase.GivenUp) :
    (call.receive opened message).2.phase = call.phase ∨ (∃ id reason, message = .refused id reason)
      ∨ ∃ id code, message = .exited id code := by
  cases message with
  | opened _ _ | passwordNeeded _ _ =>
    cases opened with
    | true => cases h
    | false => exact Or.inl rfl
  | refused id reason => exact Or.inr (Or.inl ⟨id, reason, rfl⟩)
  | exited id code => exact Or.inr (Or.inr ⟨id, code, rfl⟩)
  | _ => exact Or.inl rfl

variable {channel channel' : Channel} {act : Act}

/-- A message arrives. -/
theorem Kept.deliver (h : channel.Kept) (hstep : channel.step .deliver = some channel') : channel'.Kept := by
  cases hwire : channel.wire with
  | nil =>
    simp only [step, hwire] at hstep
    cases hstep
  | cons message rest =>
    -- the open was taken, or there would be no message
    have htaken : ¬ (channel.call.phase = .asking ∨ ∃ message ∈ channel.requests, message.asks = true) := by
      intro hfresh
      have hnone := (h.fresh hfresh).2.1
      rw [hwire] at hnone
      cases hnone
    have hnotAsked : ¬ ∃ message ∈ channel.requests, message.asks = true := fun hasked => htaken (Or.inr hasked)
    have hmem : message ∈ channel.wire ++ channel.answering := by
      rw [hwire]
      exact List.mem_cons_self
    have hrest : ∀ message', message' ∈ rest ++ channel.answering → message' ∈ channel.wire ++ channel.answering := by
      intro message' hmem'
      rw [hwire]
      exact List.mem_cons_of_mem _ hmem'
    have hrefused : ∀ id reason, .refused id reason ∈ rest ++ channel.answering → channel.process = none :=
      fun id reason hmem' => h.refused id reason (hrest _ hmem')
    have hexited : ∀ id code, .exited id code ∈ rest ++ channel.answering → ∀ p ∈ channel.process, p.closed = true :=
      fun id code hmem' => h.exited id code (hrest _ hmem')
    cases hroute : channel.route with
    | none =>
      simp only [step, hwire, hroute] at hstep
      cases hstep
      exact ⟨fun hfresh => absurd hfresh htaken, h.unasked, fun hasked => absurd hasked hnotAsked,
        hrefused, hexited, h.ended, h.released⟩
    | some opened =>
      simp only [step, hwire, hroute] at hstep
      cases hstep
      have hnotAsking : (channel.call.receive opened message).2.phase ≠ .asking := by
        intro hasking
        exact htaken (Or.inl (receive_asking hasking))
      have hunasked : ¬ ((channel.call.receive opened message).2.phase = .asking
          ∨ ∃ message ∈ channel.requests, message.asks = true) := not_or.mpr ⟨hnotAsking, hnotAsked⟩
      refine ⟨fun hfresh => absurd hfresh hunasked, fun hasking => absurd hasking hnotAsking,
        fun hasked => absurd hasked hnotAsked, hrefused, hexited, h.ended, ?_⟩
      intro hgone
      rcases receive_givenUp hgone with hsame | ⟨id, reason, rfl⟩ | ⟨id, code, rfl⟩
      · have hreleased := h.released (hsame ▸ hgone)
        unfold Closing at hreleased ⊢
        rw [hsame, CommandStream.receive_id]
        exact hreleased
      · refine Or.inl fun p hp => ?_
        rw [h.refused id reason hmem] at hp
        cases hp
      · exact Or.inl (h.exited id code hmem)

/-- An open has come to something. -/
theorem kept_opening {id : ChannelId} {opening : Opening} {rest : List CommandMessage}
    (hphase : (∃ since, channel.call.phase = .waiting since) ∨ ∃ reason, channel.call.phase = .failed reason)
    (hrest : ∀ message ∈ rest, ¬ message.asks = true)
    (hcareful : channel.Careful (.handle (some opening))) :
    Kept { channel with
      requests := rest, wire := [], answering := opening.answers id, process := opening.process id } := by
  have hnotAsking : channel.call.phase ≠ .asking := by
    rcases hphase with ⟨since, hphase⟩ | ⟨reason, hphase⟩ <;> rw [hphase] <;> exact nofun
  have hnotAsked : ¬ ∃ message ∈ rest, message.asks = true := by
    rintro ⟨message, hmem, hasks⟩
    exact hrest message hmem hasks
  refine ⟨fun hfresh => absurd hfresh (not_or.mpr ⟨hnotAsking, hnotAsked⟩), fun hasking => absurd hasking hnotAsking,
    fun hasked => absurd hasked hnotAsked, ?_, ?_, ?_, ?_⟩
  · intro id' reason hmem
    cases opening with
    | refused reason' => rfl
    | _ => simp [Opening.answers] at hmem
  · intro id' code hmem p hp
    cases opening with
    | launched pid =>
      cases hp
      rfl
    | _ => simp [Opening.answers] at hmem
  · intro p hp hwaiter
    cases opening with
    | refused reason => cases hp
    | passwordNeeded username => cases hp
    | launched pid =>
      cases hp
      rfl
    | running readers pid =>
      cases hp
      exact absurd rfl hwaiter
  · intro hgone
    rcases hphase with ⟨since, hphase⟩ | hfailed
    · rw [hphase] at hgone
      cases hgone
    · exact Or.inl (Opening.closed_of_process (hcareful hfailed))

/-- The host takes a message. -/
theorem Kept.handle (h : channel.Kept) (honce : channel.Once) {opening : Option Opening}
    (hcareful : channel.Careful (.handle opening)) (hstep : channel.step (.handle opening) = some channel') :
    channel'.Kept := by
  simp only [step] at hstep
  split at hstep
  case h_1 id kind rest hidle hrequests =>
    obtain ⟨opening', rfl, rfl⟩ := Option.map_eq_some_iff.mp hstep
    have hasked : ∃ message ∈ channel.requests, message.asks = true := by
      rw [hrequests]
      exact ⟨_, List.mem_cons_self, rfl⟩
    have hrest : ∀ message ∈ rest, ¬ message.asks = true := by
      unfold Once opens at honce
      rw [hrequests, List.countP_cons_of_pos (by rfl)] at honce
      exact List.countP_eq_zero.mp (by omega)
    obtain ⟨hprocess, hwire, -⟩ := h.fresh (Or.inr hasked)
    rw [hprocess, hwire, Option.none_or]
    exact kept_opening (h.asked hasked) hrest hcareful
  case h_2 id rest hidle hrequests =>
    cases hstep
    have hrest : ∀ message ∈ rest, message ∈ channel.requests := by
      intro message hmem
      rw [hrequests]
      exact List.mem_cons_of_mem _ hmem
    have hclosed : ∀ q ∈ channel.process.map fun p => { p with closed := true }, q.closed = true := by
      intro q hq
      obtain ⟨p, -, rfl⟩ := Option.map_eq_some_iff.mp hq
      rfl
    refine ⟨?_, ?_, ?_, ?_, fun id' code _ => hclosed, fun q hq _ => hclosed q hq, fun _ => Or.inl hclosed⟩
    · intro hfresh
      have hbefore : channel.call.phase = .asking ∨ ∃ message ∈ channel.requests, message.asks = true := by
        refine hfresh.imp_right ?_
        rintro ⟨message, hmem, hasks⟩
        exact ⟨message, hrest _ hmem, hasks⟩
      obtain ⟨hprocess, hnone⟩ := h.fresh hbefore
      exact ⟨by rw [hprocess]; rfl, hnone⟩
    · intro hasking
      have hnil := h.unasked hasking
      rw [hrequests] at hnil
      cases hnil
    · rintro ⟨message, hmem, hasks⟩
      exact h.asked ⟨message, hrest _ hmem, hasks⟩
    · intro id' reason hmem
      dsimp only
      rw [h.refused id' reason hmem]
      rfl
  case h_3 message rest hopen hclose hidle hrequests =>
    cases hstep
    have hrest : ∀ message ∈ rest, message ∈ channel.requests := by
      intro message hmem
      rw [hrequests]
      exact List.mem_cons_of_mem _ hmem
    refine ⟨?_, ?_, ?_, h.refused, h.exited, h.ended, ?_⟩
    · intro hfresh
      refine h.fresh (hfresh.imp_right ?_)
      rintro ⟨message, hmem, hasks⟩
      exact ⟨message, hrest _ hmem, hasks⟩
    · intro hasking
      have hnil := h.unasked hasking
      rw [hrequests] at hnil
      cases hnil
    · rintro ⟨message, hmem, hasks⟩
      exact h.asked ⟨message, hrest _ hmem, hasks⟩
    · intro hgone
      refine (h.released hgone).imp_right (Or.imp_right fun hmem => ?_)
      rw [hrequests] at hmem
      exact (List.mem_cons.mp hmem).resolve_left fun heq => hclose _ heq.symm
  case h_4 => cases hstep

/-- What every step of a channel preserves that is given up only when nothing runs. -/
theorem Kept.step (h : channel.Kept) (honce : channel.Once) (hcareful : channel.Careful act)
    (hstep : channel.step act = some channel') : channel'.Kept := by
  cases act with
  | ask now =>
    obtain ⟨hasking, hstep⟩ := Option.ite_none_right_eq_some.mp hstep
    cases hstep
    obtain ⟨hprocess, hwire, hanswering⟩ := h.fresh (Or.inl hasking)
    exact ⟨fun _ => ⟨hprocess, hwire, hanswering⟩, fun hasking => (by cases hasking), fun _ => Or.inl ⟨now, rfl⟩,
      h.refused, h.exited, h.ended, fun hgone => (by cases hgone)⟩
  | unsent error =>
    obtain ⟨hasking, hstep⟩ := Option.ite_none_right_eq_some.mp hstep
    cases hstep
    have hfresh := h.fresh (Or.inl hasking)
    refine ⟨fun _ => hfresh, fun hasking => (by cases hasking), fun _ => Or.inr ⟨error, rfl⟩, h.refused, h.exited,
      h.ended, fun _ => Or.inl ?_⟩
    dsimp only
    rw [hfresh.1]
    intro p hp
    cases hp
  | timeout =>
    simp only [Channel.step] at hstep
    split at hstep
    case h_1 since hphase =>
      cases hstep
      refine ⟨fun hfresh => h.fresh (hfresh.imp_left fun hasking => (by cases hasking)),
        fun hasking => (by cases hasking), fun _ => Or.inr ⟨_, rfl⟩, h.refused, h.exited, h.ended,
        fun _ => Or.inl hcareful⟩
    case h_2 => cases hstep
  | close =>
    simp only [Channel.step] at hstep
    split at hstep
    case h_1 opened hphase =>
      cases hstep
      refine ⟨fun hfresh => h.fresh (hfresh.imp_left fun hasking => (by cases hasking)),
        fun hasking => (by cases hasking), ?_, h.refused, h.exited, h.ended, fun _ => Or.inr (Or.inl rfl)⟩
      intro hasked
      rcases h.asked hasked with ⟨_, hwaiting⟩ | ⟨_, hfailed⟩
      · rw [hwaiting] at hphase
        cases hphase
      · rw [hfailed] at hphase
        cases hphase
    case h_2 => cases hstep
  | forward =>
    obtain ⟨hclosing, hstep⟩ := Option.ite_none_right_eq_some.mp hstep
    cases hstep
    have hasks : ∀ message ∈ channel.requests ++ [.close channel.call.id], message.asks = true →
        message ∈ channel.requests := by
      intro message hmem hasks
      rcases List.mem_append.mp hmem with hmem | hmem
      · exact hmem
      · rw [List.mem_singleton.mp hmem] at hasks
        cases hasks
    refine ⟨?_, fun hasking => (by cases hasking), ?_, h.refused, h.exited, h.ended, ?_⟩
    · rintro (hasking | ⟨message, hmem, hask⟩)
      · cases hasking
      · exact h.fresh (Or.inr ⟨message, hasks message hmem hask, hask⟩)
    · rintro ⟨message, hmem, hask⟩
      rcases h.asked ⟨message, hasks message hmem hask, hask⟩ with ⟨_, hwaiting⟩ | ⟨_, hfailed⟩
      · rw [hwaiting] at hclosing
        cases hclosing
      · rw [hfailed] at hclosing
        cases hclosing
    · exact fun _ => Or.inr (Or.inr (List.mem_append_right _ (List.mem_singleton_self _)))
  | deliver => exact h.deliver hstep
  | handle opening => exact h.handle honce hcareful hstep
  | answer =>
    cases hanswering : channel.answering with
    | nil =>
      simp only [Channel.step, hanswering] at hstep
      cases hstep
    | cons message rest =>
      simp only [Channel.step, hanswering] at hstep
      cases hstep
      have hsame : channel.wire ++ [message] ++ rest = channel.wire ++ channel.answering := by
        rw [hanswering, List.append_assoc]
        rfl
      refine ⟨?_, h.unasked, h.asked, ?_, ?_, h.ended, h.released⟩
      · intro hfresh
        have hnone := (h.fresh hfresh).2.2
        rw [hanswering] at hnone
        cases hnone
      · dsimp only
        rw [hsame]
        exact h.refused
      · dsimp only
        rw [hsame]
        exact h.exited
  | thread thread =>
    obtain ⟨p, hp, hstep⟩ := Option.bind_eq_some_iff.mp hstep
    obtain ⟨done, hturn, rfl⟩ := Option.map_eq_some_iff.mp hstep
    have hnotFresh : ¬ (channel.call.phase = .asking ∨ ∃ message ∈ channel.requests, message.asks = true) := by
      intro hfresh
      have hnone := (h.fresh hfresh).1
      rw [hp] at hnone
      cases hnone
    have hclosed : p.closed = true → done.1.closed = true := by
      intro hclosed
      by_contra hopen
      have hwas := CommandStream.Tables.turn_closed hturn (Bool.eq_false_of_not_eq_true hopen)
      rw [hclosed] at hwas
      cases hwas
    have hsplit : ∀ message, message ∈ channel.wire ++ done.2 ++ channel.answering →
        message ∈ channel.wire ++ channel.answering ∨ message ∈ done.2 := by
      intro message hmem
      simp only [List.mem_append] at hmem ⊢
      tauto
    refine ⟨fun hfresh => absurd hfresh hnotFresh, h.unasked, h.asked, ?_, ?_, ?_, ?_⟩
    · intro id reason hmem
      exfalso
      rcases hsplit _ hmem with hmem | hmem
      · have hnone := h.refused id reason hmem
        rw [hp] at hnone
        cases hnone
      · rcases turn_sends hturn hmem with ⟨_, hdata⟩ | ⟨⟨_, hend⟩, -⟩
        · cases hdata
        · cases hend
    · intro id code hmem q hq
      cases hq
      rcases hsplit _ hmem with hmem | hmem
      · exact hclosed (h.exited id code hmem p hp)
      · rcases turn_sends hturn hmem with ⟨_, hdata⟩ | ⟨-, hended⟩
        · cases hdata
        · exact hclosed (h.ended p hp hended)
    · intro q hq
      cases hq
      exact turn_ended hturn (h.ended p hp)
    · intro hgone
      refine (h.released hgone).imp_left fun hall q hq => ?_
      cases hq
      exact hclosed (hall p hp)

end Channel

/-! ### Runs -/

namespace CommandStream

variable {s s' : CommandStream} {event : Event}

/-- A close of the call's channel is on its way. -/
def Closing (s : CommandStream) (call : Call) : Prop := call.phase = .closing ∨ .close call.id ∈ s.toHost

/-- What was given up does not stay open. -/
structure Released (s : CommandStream) : Prop where
  /-- Of a call that was given up the host runs no command, or its channel is closed,
  or a close is on its way. -/
  calls : ∀ {n : ℕ} {call : Call}, s.calls[n]? = some call → call.phase.GivenUp →
    (∀ p ∈ s.processes, p.id = call.id → p.closed = true) ∨ s.Closing call
  /-- So what takes up the host's channels was not given up, or a close is on its way. -/
  table : ∀ {id : ChannelId} {i : ℕ}, s.retained.lookup id = some i →
    ∃ call ∈ s.calls, call.id = id ∧ (¬ call.phase.GivenUp ∨ s.Closing call)

/-- What an event relies on: numbers that are new, and no call that fails while the
host runs its command, or before the host runs it. -/
def Careful (s : CommandStream) : Event → Prop
  | .call _ => s.calls.length < 2 ^ 32
  | .timeout n => ∀ call ∈ s.calls[n]?, ∀ p ∈ s.processes, p.id = call.id → p.closed = true
  | .handle backend =>
    ∀ message ∈ s.toHost.head?, ∀ call ∈ s.calls, call.id = message.id → (∃ reason, call.phase = .failed reason) →
      ∀ opening ∈ s.openingOf backend message, opening.runs = false
  | _ => True

theorem Careful.few (h : s.Careful event) (kind : ChannelKind) (hcall : event = .call kind) :
    s.calls.length < 2 ^ 32 := by
  subst hcall
  exact h

/-- What the session takes care of, each of its channels does. -/
theorem Careful.channel (h : s.Careful event) (htables : s.Tables) {n : ℕ} {channel : Channel} {act : Act}
    (hview : s.view n = some channel) (hact : s.actAt n event = some act) : channel.Careful act := by
  obtain ⟨call, hcall, rfl⟩ := Option.map_eq_some_iff.mp hview
  cases act with
  | timeout =>
    cases actAt_timeout hact
    intro p hp
    obtain ⟨hmem, hid⟩ := mem_of_processOf hp
    exact h call hcall p hmem hid
  | handle opening =>
    obtain ⟨backend, message, rfl, hhead, hid, hopening⟩ := actAt_handle hact
    cases opening with
    | none => trivial
    | some opening =>
      intro hfailed
      have hsame := (htables.id_eq_iff hcall message.id).mp hid
      exact h message hhead call (List.mem_of_getElem? hcall) hsame.symm hfailed opening hopening
  | _ => trivial

/-- What holds of a session that takes care. -/
structure Minded (s : CommandStream) : Prop where
  inv : s.Inv
  kept : ∀ n channel, s.view n = some channel → channel.Kept

theorem Minded.new : Minded CommandStream.new where
  inv := Inv.new
  kept := fun _ _ h => by cases h

theorem Minded.step (h : s.Minded) (hcareful : s.Careful event) (hstep : s.step event = some s') : s'.Minded where
  inv := h.inv.step hcareful.few hstep
  kept :=
    forall_view_step h.inv.tables hcareful.few hstep h.kept Channel.kept_new
      fun _ _ _ _ hview hact hkept hlocal =>
        hkept.step (h.inv.once hview) (hcareful.channel h.inv.tables hview hact) hlocal

theorem Minded.released (h : s.Minded) : s.Released := by
  have hcalls : ∀ {n : ℕ} {call : Call}, s.calls[n]? = some call → call.phase.GivenUp →
      (∀ p ∈ s.processes, p.id = call.id → p.closed = true) ∨ s.Closing call := by
    intro n call hcall hgone
    refine ((h.kept n _ (view_of hcall)).released hgone).imp ?_ ?_
    · intro hclosed p hp hid
      obtain ⟨i, hi⟩ := List.mem_iff_getElem?.mp hp
      refine hclosed p ?_
      rw [← hid]
      exact h.inv.tables.processOf_eq hi
    · exact Or.imp_right fun hmem => (mem_about.mp hmem).1
  refine ⟨hcalls, ?_⟩
  intro id i hlookup
  rw [retained, AList.lookup_retain, Option.filter_eq_some_iff] at hlookup
  obtain ⟨hlookup, hopen⟩ := hlookup
  obtain ⟨p, hp, rfl⟩ := h.inv.tables.table hlookup
  obtain ⟨n, hn, hid⟩ := h.inv.tables.processes p (List.mem_of_getElem? hp)
  have hcall := List.getElem?_eq_getElem hn
  have hsame := (h.inv.tables.id_eq_iff hcall p.id).mp hid
  refine ⟨s.calls[n], List.getElem_mem hn, hsame.symm, ?_⟩
  by_cases hgone : s.calls[n].phase.GivenUp
  · refine Or.inr ((hcalls hcall hgone).resolve_left fun hclosed => ?_)
    have hclosed := hclosed p (List.mem_of_getElem? hp) hsame
    rw [isOpen, hp, Option.any_some, hclosed] at hopen
    cases hopen
  · exact Or.inl hgone

/-- A channel that was given up does not stay open on the host. -/
theorem given_up_is_released {es : List Event} (h : Run.Guarded step Careful es .new s) : s.Released := by
  have hminded : s.Minded := h.invariant (fun _ _ _ hminded hcareful hstep => hminded.step hcareful hstep) Minded.new
  exact hminded.released

/-- One channel is opened and dropped, and of the next the open cannot be sent. -/
def dropped : List Event :=
  [.call .stream, .ask 0, .handle (.start (.ok (.running 1 (some 7)))), .answer, .deliver, .close 0, .forward 0,
    .call .stream, .unsent 1 [], .handle (.start (.error []))]

/-- The host has closed the one, and knows nothing of the other. -/
theorem given_up_is_released_dropped :
    ∃ s, dropped.foldlM step .new = some s ∧ s.calls.map Call.phase = [.closed, .failed []]
      ∧ s.processes.map Process.closed = [true] ∧ s.Released := by
  have hrun : Run.Guarded step Careful dropped .new _ :=
    ⟨(by decide : (0 : ℕ) < 2 ^ 32), _, rfl, trivial, _, rfl,
      (fun message hmessage call hcall _ hfailed => by
        cases hmessage
        cases List.mem_singleton.mp hcall
        obtain ⟨_, hfailed⟩ := hfailed
        cases hfailed), _, rfl,
      trivial, _, rfl, trivial, _, rfl, trivial, _, rfl, trivial, _, rfl,
      (by decide : (1 : ℕ) < 2 ^ 32), _, rfl, trivial, _, rfl,
      (fun message hmessage _ _ _ _ opening hopening => by
        cases hmessage
        cases hopening), _, rfl, rfl⟩
  exact ⟨_, hrun.run, rfl, rfl, given_up_is_released hrun⟩

/-- The host has started the command, and its answer does not come in time. -/
def abandoned : List Event :=
  [.call .stream, .ask 0, .handle (.start (.ok (.running 1 (some 7)))), .wait 15000, .timeout 0]

/-- **A call whose answer does not come in time leaves its channel open on the host.** -/
theorem abandoned_stays_open :
    ¬ ∀ (es : List Event) (s : CommandStream), es.foldlM step .new = some s → s.Released := by
  intro h
  let p : Process := .running 0 1
  rcases (h abandoned _ rfl).calls (n := 0) rfl (.failed noAnswer) with hclosed | hphase | hclose
  · have hopen := hclosed p (List.mem_singleton_self _) rfl
    cases hopen
  · cases hphase
  · cases hclose

end CommandStream

end WindowCast.Command
