import WindowCast.SecureHelper.Helper

/-!
# A request to the secure helper

A client keeps its connection to the helper for the next request.  Where an exchange
fails, it connects and asks once more, whatever the failure: the connection may have been
an old one, or the helper may have carried the request out and only its answer is lost.

## Main definitions

* `Call` — one request of a client, which it attempts twice at most.
* `System.step` — clients, the pipe and the helper, with failures at any point.
* `System.times` — how often the helper has carried a call's request out.

## Main results

* `System.Inv.step` — what every step preserves.
* `System.once_per_attempt` — **an attempt is carried out once at most, and there is a
  second one only where the exchange of the first has failed**.
-/

namespace WindowCast.SecureHelper

/-! ### A call -/

/-- One attempt of one call. -/
structure Attempt where
  call : ℕ
  number : ℕ
  deriving DecidableEq

inductive CallPhase
  /-- A connection is needed, if there is none. -/
  | connect
  | write
  | read
  | over
  deriving DecidableEq

/-- A call of `Client::request`. -/
structure Call where
  phase : CallPhase
  attempt : ℕ
  /-- The client's connection, one that it has kept or a new one. -/
  slot : Option ℕ
  deriving DecidableEq

namespace Call

/-- The first attempt, with the connection that the client has kept. -/
def new (slot : Option ℕ) : Call := ⟨.connect, 0, slot⟩

/-- The client connects, if it has to; `connected` is what comes of that. -/
def connect (self : Call) (connected : Option ℕ) : Call :=
  match self.slot, connected with
  | some _, _ => { self with phase := .write }
  | none, some connection => { self with phase := .write, slot := some connection }
  | none, none => { self with phase := .over }

/-- An exchange has failed: the connection is given up, and the second time the call. -/
def fail (self : Call) : Call :=
  if self.attempt = 1 then ⟨.over, self.attempt, none⟩ else ⟨.connect, self.attempt + 1, none⟩

end Call

/-! ### Clients, the pipe and the helper -/

/-- What comes of reading the answer. -/
inductive Reading
  /-- An answer, be it a refusal. -/
  | response
  /-- The helper has closed the pipe. -/
  | closed
  | error
  deriving DecidableEq

inductive Event
  /-- A call begins. -/
  | begin (call : ℕ) (slot : Option ℕ)
  | connect (call : ℕ) (connected : Option ℕ)
  /-- The request is written, `whole` or in part, and that is `ok` or an error. -/
  | write (call : ℕ) (whole ok : Bool)
  | read (call : ℕ) (reading : Reading)
  /-- The helper is given an answer; where it is a client at the pipe, it is the one with
  this connection. -/
  | helper (answer : Answer) (connection : ℕ)
  /-- A new helper is started. -/
  | start
  /-- A connection is lost, with all that is on it. -/
  | lose (connection : ℕ)

structure System where
  calls : ℕ → Option Call
  /-- The whole requests that are on the connections, and not read. -/
  inFlight : List (ℕ × Attempt)
  helper : Helper
  /-- The connection that the helper has let in last. -/
  current : Option ℕ
  /-- The request that it has read last, until it is carried out. -/
  hand : Option Attempt
  /-- All that was carried out. -/
  executed : List Attempt
  /-- The attempts whose exchange has failed at the client. -/
  failed : List Attempt

namespace System

def new : System := ⟨fun _ => none, [], .new, none, none, [], []⟩

/-- A call goes on. -/
def set (self : System) (call : ℕ) (c : Call) : System :=
  { self with calls := Function.update self.calls call (some c) }

/-- The exchange of a call has failed. -/
def fail (self : System) (call : ℕ) (c : Call) : System :=
  { self.set call c.fail with failed := self.failed ++ [⟨call, c.attempt⟩] }

/-- The helper is given an answer.  What it reads are the requests on its connection. -/
def answer (installRoot : Text) (operation : ℕ → Operation) (self : System) (answer : Answer) (connection : ℕ) :
    Option System :=
  (self.helper.step installRoot answer).bind fun helper =>
    let self := { self with helper := helper }
    match answer with
    | .accepted (.ok (some _)) => some { self with current := some connection }
    | .request (.ok (some read)) =>
      match self.inFlight.find? fun request => some request.1 = self.current with
      | some request =>
        if operation request.2.call = read then
          some { self with inFlight := self.inFlight.erase request, hand := some request.2 }
        else none
      | none => none
    | .done => some { self with executed := self.executed ++ self.hand.toList, hand := none }
    | _ => some self

/-- What can happen next; nothing, where it cannot. -/
def step (installRoot : Text) (operation : ℕ → Operation) (self : System) : Event → Option System
  | .begin call slot => if (self.calls call).isSome then none else some (self.set call (.new slot))
  | .connect call connected =>
    (self.calls call).bind fun c =>
      if c.phase = .connect then some (self.set call (c.connect connected)) else none
  | .write call whole ok =>
    match self.calls call with
    | some ⟨.write, attempt, some slot⟩ =>
      let c : Call := ⟨.write, attempt, some slot⟩
      let self := if whole then { self with inFlight := self.inFlight ++ [(slot, ⟨call, attempt⟩)] } else self
      if ¬ ok then some (self.fail call c)
      else if whole then some (self.set call { c with phase := .read })
      else none
    | _ => none
  | .read call reading =>
    (self.calls call).bind fun c =>
      if c.phase = .read then
        match reading with
        | .response => some (self.set call { c with phase := .over })
        | .closed | .error => some (self.fail call c)
      else none
  | .helper answer connection => self.answer installRoot operation answer connection
  | .start => some { self with helper := .new, current := none }
  | .lose connection => some { self with inFlight := self.inFlight.filter fun request => request.1 ≠ connection }

/-- How often the helper has carried out what a call has asked for. -/
def times (self : System) (call : ℕ) : ℕ := self.executed.countP fun attempt => attempt.call = call

/-! ### What every step preserves -/

/-- The requests that have been written as a whole: those carried out, the one in the
helper's hand and those on their way. -/
def traces (self : System) : List Attempt := self.executed ++ self.hand.toList ++ self.inFlight.map Prod.snd

end System

namespace Call

/-- The call has an attempt behind it, or has written its request. -/
def Past (self : Call) (number : ℕ) : Prop :=
  number < self.attempt ∨ number = self.attempt ∧ (self.phase = .read ∨ self.phase = .over)

variable {c : Call} {number : ℕ}

/-- Behind a failure, the attempt that has failed is past. -/
theorem past_fail (h : number ≤ c.attempt) : c.fail.Past number := by
  unfold fail Past
  split_ifs with hlast
  · rcases Nat.lt_or_eq_of_le h with hlt | heq
    · exact Or.inl hlt
    · exact Or.inr ⟨heq, Or.inr rfl⟩
  · exact Or.inl (Nat.lt_succ_of_le h)

theorem Past.le (h : c.Past number) : number ≤ c.attempt :=
  h.elim Nat.le_of_lt fun heq => Nat.le_of_eq heq.1

theorem attempt_fail_le (hattempt : c.attempt ≤ 1) : c.fail.attempt ≤ 1 := by
  unfold fail
  split_ifs with hlast
  · exact hattempt
  · show c.attempt + 1 ≤ 1
    omega

theorem lt_attempt_fail (h : number < c.fail.attempt) :
    number < c.attempt ∨ number = c.attempt := by
  unfold fail at h
  split_ifs at h
  · exact Or.inl h
  · exact Nat.lt_or_eq_of_le (Nat.le_of_lt_succ h)

end Call

namespace System

variable {installRoot : Text} {operation : ℕ → Operation} {s s' : System}

/-- What holds at any time. -/
structure Inv (s : System) : Prop where
  /-- An attempt writes its request once, and it is read once and carried out once. -/
  nodup : s.traces.Nodup
  past : ∀ attempt ∈ s.traces, ∃ c, s.calls attempt.call = some c ∧ c.Past attempt.number
  attempts : ∀ call c, s.calls call = some c → c.attempt ≤ 1
  /-- There is a second attempt only where the first has failed. -/
  failed : ∀ call c, s.calls call = some c → ∀ number < c.attempt, ⟨call, number⟩ ∈ s.failed

theorem Inv.new : Inv new where
  nodup := List.nodup_nil
  past := by
    intro attempt hmem
    cases hmem
  attempts := by
    intro call c h
    cases h
  failed := by
    intro call c h
    cases h

/-- The helper reads requests and carries them out, and the pipe loses some. -/
theorem Inv.shrink (h : Inv s) (hcalls : s'.calls = s.calls) (hfailed : s'.failed = s.failed)
    (htraces : s'.traces.Subperm s.traces) : Inv s' where
  nodup := by
    obtain ⟨l, hperm, hsub⟩ := htraces
    exact hperm.nodup_iff.mp (h.nodup.sublist hsub)
  past := by
    rw [hcalls]
    exact fun attempt hmem => h.past attempt (htraces.subset hmem)
  attempts := by
    rw [hcalls]
    exact h.attempts
  failed := by
    rw [hcalls, hfailed]
    exact h.failed

/-- A call goes on; it may write its request, if it has not. -/
theorem Inv.go (h : Inv s) {call : ℕ} {c' : Call} {fresh : List Attempt}
    (hcalls : s'.calls = Function.update s.calls call (some c')) (htraces : s'.traces = s.traces ++ fresh)
    (hpast : ∀ c, s.calls call = some c → ∀ number, c.Past number → c'.Past number)
    (hnodup : fresh.Nodup) (hfresh : ∀ attempt ∈ fresh, attempt.call = call ∧ c'.Past attempt.number ∧
      ∀ c, s.calls call = some c → ¬ c.Past attempt.number)
    (hattempt : c'.attempt ≤ 1) (hfailed : ∀ number < c'.attempt, ⟨call, number⟩ ∈ s'.failed)
    (hsub : s.failed ⊆ s'.failed) : Inv s' where
  nodup := by
    rw [htraces]
    refine h.nodup.append hnodup ?_
    intro attempt hold hnew
    obtain ⟨hcall, -, hnot⟩ := hfresh attempt hnew
    obtain ⟨c, hc, hcPast⟩ := h.past attempt hold
    exact hnot c (hcall ▸ hc) hcPast
  past := by
    intro attempt hmem
    rw [hcalls]
    rw [htraces, List.mem_append] at hmem
    rcases hmem with hmem | hmem
    · obtain ⟨c, hc, hcPast⟩ := h.past attempt hmem
      by_cases hcall : attempt.call = call
      · subst hcall
        exact ⟨c', Function.update_self _ _ _, hpast c hc _ hcPast⟩
      · exact ⟨c, (Function.update_of_ne hcall _ _).trans hc, hcPast⟩
    · obtain ⟨rfl, hcPast, -⟩ := hfresh attempt hmem
      exact ⟨c', Function.update_self _ _ _, hcPast⟩
  attempts := by
    intro other c hc
    rw [hcalls] at hc
    by_cases hcall : other = call
    · subst hcall
      rw [Function.update_self] at hc
      cases hc
      exact hattempt
    · rw [Function.update_of_ne hcall] at hc
      exact h.attempts other c hc
  failed := by
    intro other c hc number hlt
    rw [hcalls] at hc
    by_cases hcall : other = call
    · subst hcall
      rw [Function.update_self] at hc
      cases hc
      exact hfailed number hlt
    · rw [Function.update_of_ne hcall] at hc
      exact hsub (h.failed other c hc number hlt)

/-- A call goes on without writing. -/
theorem Inv.set (h : Inv s) {call : ℕ} {c c' : Call} (hc : s.calls call = some c)
    (hpast : ∀ number, c.Past number → c'.Past number) (hattempt : c'.attempt = c.attempt) : Inv (s.set call c') := by
  refine h.go rfl (List.append_nil _).symm ?_ List.nodup_nil (fun _ hmem => by cases hmem)
    (hattempt ▸ h.attempts call c hc) (hattempt ▸ h.failed call c hc) (List.Subset.refl _)
  intro d hd
  rw [hc] at hd
  cases hd
  exact hpast

/-- An exchange fails. -/
theorem Inv.fail (h : Inv s) {call : ℕ} {c : Call} (hc : s.calls call = some c) : Inv (s.fail call c) := by
  refine h.go rfl (List.append_nil _).symm ?_ List.nodup_nil (fun _ hmem => by cases hmem)
    (Call.attempt_fail_le (h.attempts call c hc)) ?_ (List.subset_append_left _ _)
  · intro d hd number hpast
    rw [hc] at hd
    cases hd
    exact Call.past_fail hpast.le
  · intro number hlt
    rcases Call.lt_attempt_fail hlt with hlt | rfl
    · exact List.mem_append_left _ (h.failed call c hc number hlt)
    · exact List.mem_append_right _ (List.mem_singleton_self _)

/-- A request is written as a whole. -/
theorem Inv.write (h : Inv s) {call attempt slot : ℕ} (hc : s.calls call = some ⟨.write, attempt, some slot⟩) :
    Inv (({ s with inFlight := s.inFlight ++ [(slot, ⟨call, attempt⟩)] } : System).set call
      ⟨.read, attempt, some slot⟩) := by
  have htraces : ({ s with inFlight := s.inFlight ++ [(slot, ⟨call, attempt⟩)] } : System).traces =
      s.traces ++ [⟨call, attempt⟩] := by
    rw [traces, traces, List.map_append, ← List.append_assoc]
    rfl
  refine h.go rfl htraces ?_ (List.nodup_singleton _) ?_ (h.attempts call ⟨.write, attempt, some slot⟩ hc)
    (h.failed call ⟨.write, attempt, some slot⟩ hc) (List.Subset.refl _)
  · intro d hd number hpast
    rw [hc] at hd
    cases hd
    exact hpast.imp_right fun heq => ⟨heq.1, Or.inl rfl⟩
  · intro written hmem
    cases List.mem_singleton.mp hmem
    refine ⟨rfl, Or.inr ⟨rfl, Or.inl rfl⟩, fun d hd hpast => ?_⟩
    -- it has not written before
    rw [hc] at hd
    cases hd
    rcases hpast with hlt | ⟨-, hphase⟩
    · exact Nat.lt_irrefl _ hlt
    · rcases hphase with hphase | hphase <;> cases hphase

/-- The helper is given an answer. -/
theorem Inv.answer (h : Inv s) {answer : Answer} {connection : ℕ}
    (hstep : s.answer installRoot operation answer connection = some s') : Inv s' := by
  obtain ⟨helper, -, hstep⟩ := Option.bind_eq_some_iff.mp hstep
  split at hstep
  · cases hstep
    exact h.shrink rfl rfl (List.Subperm.refl _)
  · dsimp only at hstep
    split at hstep
    · rename_i request hfind
      split_ifs at hstep
      cases hstep
      refine h.shrink rfl rfl ?_
      -- the request goes from the connection into the helper's hand
      have hperm : ([request.2] ++ (s.inFlight.erase request).map Prod.snd).Perm (s.inFlight.map Prod.snd) :=
        ((List.perm_cons_erase (List.mem_of_find?_eq_some hfind)).map Prod.snd).symm
      have hsub : (s.executed ++ s.inFlight.map Prod.snd).Sublist s.traces := by
        rw [traces, List.append_assoc]
        exact List.Sublist.append_left (List.sublist_append_right _ _) _
      rw [traces, List.append_assoc]
      exact ((List.Perm.append_left _ hperm).subperm).trans hsub.subperm
    · cases hstep
  · cases hstep
    refine h.shrink rfl rfl ?_
    rw [traces, traces, Option.toList_none, List.append_nil]
  · cases hstep
    exact h.shrink rfl rfl (List.Subperm.refl _)

/-- What every step preserves. -/
theorem Inv.step (h : Inv s) {event : Event} (hstep : s.step installRoot operation event = some s') : Inv s' := by
  cases event with
  | begin call slot =>
    rw [System.step] at hstep
    split_ifs at hstep with hbegun
    cases hstep
    rw [Bool.not_eq_true, Option.isSome_eq_false_iff, Option.isNone_iff_eq_none] at hbegun
    refine h.go rfl (List.append_nil _).symm ?_ List.nodup_nil (fun _ hmem => by cases hmem) (Nat.zero_le 1)
      (fun _ hlt => absurd hlt (Nat.not_lt_zero _)) (List.Subset.refl _)
    intro c hc
    rw [hbegun] at hc
    cases hc
  | connect call connected =>
    obtain ⟨c, hc, hstep⟩ := Option.bind_eq_some_iff.mp hstep
    split_ifs at hstep with hphase
    cases hstep
    have hpast : ∀ number, c.Past number → (c.connect connected).Past number := by
      intro number hpast
      have hlt : number < c.attempt := by
        refine hpast.resolve_right ?_
        rw [hphase]
        rintro ⟨-, hread | hover⟩
        · cases hread
        · cases hover
      unfold Call.connect
      split <;> exact Or.inl hlt
    refine h.set hc hpast ?_
    unfold Call.connect
    split <;> rfl
  | write call whole ok =>
    rw [System.step] at hstep
    split at hstep
    · rename_i attempt slot hc
      cases whole <;> cases ok
      · cases hstep
        exact h.fail hc
      · cases hstep
      · cases hstep
        have hfail := (h.write hc).fail (Function.update_self _ _ _)
        rw [System.fail, System.set, System.set, Function.update_idem] at hfail
        exact hfail
      · cases hstep
        exact h.write hc
    · cases hstep
  | read call reading =>
    obtain ⟨c, hc, hstep⟩ := Option.bind_eq_some_iff.mp hstep
    split_ifs at hstep with hphase
    cases reading with
    | response =>
      cases hstep
      exact h.set hc (fun _ hpast => hpast.imp_right fun heq => ⟨heq.1, Or.inr rfl⟩) rfl
    | closed | error =>
      cases hstep
      exact h.fail hc
  | helper answer connection => exact h.answer hstep
  | start =>
    cases hstep
    exact h.shrink rfl rfl (List.Subperm.refl _)
  | lose connection =>
    cases hstep
    refine h.shrink rfl rfl ?_
    exact (List.Sublist.append_left ((List.filter_sublist).map _) _).subperm

/-- An attempt that was carried out is one of two. -/
theorem Inv.eq_of_executed (h : Inv s) {attempt : Attempt} (hmem : attempt ∈ s.executed) :
    attempt = ⟨attempt.call, 0⟩ ∨ attempt = ⟨attempt.call, 1⟩ ∧ ⟨attempt.call, 0⟩ ∈ s.failed := by
  obtain ⟨call, number⟩ := attempt
  obtain ⟨c, hc, hpast⟩ := h.past _ (List.mem_append_left _ (List.mem_append_left _ hmem))
  have hle : number ≤ c.attempt := hpast.le
  have hattempt := h.attempts call c hc
  rcases Nat.eq_zero_or_pos number with rfl | hpos
  · exact Or.inl rfl
  · have hone : number = 1 := by omega
    subst hone
    exact Or.inr ⟨rfl, h.failed call c hc 0 (by omega)⟩

/-- How often one of two is in a list. -/
theorem countP_eq_add {α : Type} [DecidableEq α] {l : List α} {a b : α} {p : α → Bool} (hab : a ≠ b)
    (hp : ∀ x ∈ l, p x = true ↔ x = a ∨ x = b) : l.countP p = l.count a + l.count b := by
  induction l with
  | nil => rfl
  | cons x l ih =>
    rw [List.countP_cons, List.count_cons, List.count_cons, ih fun y hy => hp y (List.mem_cons_of_mem _ hy)]
    have hx := hp x List.mem_cons_self
    by_cases hxa : x = a
    · subst hxa
      simp [hx, hab]
      omega
    · by_cases hxb : x = b
      · subst hxb
        simp [hx, hxa]
        omega
      · simp [hx, hxa, hxb]

/-- How often a call was carried out, from which of its attempts were. -/
theorem Inv.times_eq (h : Inv s) (call : ℕ) :
    s.times call = (if ⟨call, 0⟩ ∈ s.executed then 1 else 0) + if ⟨call, 1⟩ ∈ s.executed then 1 else 0 := by
  have hnodup : s.executed.Nodup := h.nodup.sublist
    ((List.sublist_append_left _ _).trans (List.sublist_append_left _ _))
  have hone : ∀ attempt ∈ s.executed, decide (attempt.call = call) = true ↔ attempt = ⟨call, 0⟩ ∨ attempt = ⟨call, 1⟩ := by
    intro attempt hmem
    rw [decide_eq_true_eq]
    constructor
    · rintro rfl
      exact (h.eq_of_executed hmem).imp_right And.left
    · rintro (rfl | rfl) <;> rfl
  rw [times, countP_eq_add (by simp) hone, hnodup.count, hnodup.count]

end System

/-- Whatever fails, at whichever step: an attempt is carried out at most once.  A call is
carried out at most twice, and more than once only where the exchange of its first attempt
has failed at the client, although the helper has carried that attempt out. -/
theorem once_per_attempt {installRoot : Text} {operation : ℕ → Operation} {events : List Event} {s : System}
    (hrun : events.foldlM (System.step installRoot operation) .new = some s) :
    s.executed.Nodup ∧ ∀ call, s.times call ≤ 2 ∧
      (1 < s.times call → ⟨call, 0⟩ ∈ s.executed ∧ ⟨call, 0⟩ ∈ s.failed) := by
  have h : s.Inv := Run.invariant (A := fun _ => True) (fun _ _ _ h _ hstep => h.step hstep) events .new s System.Inv.new
    (fun _ _ => trivial) hrun
  refine ⟨h.nodup.sublist ((List.sublist_append_left _ _).trans (List.sublist_append_left _ _)), fun call => ?_⟩
  rw [h.times_eq call]
  refine ⟨by split_ifs <;> decide, fun htwice => ?_⟩
  have hzero : ⟨call, 0⟩ ∈ s.executed := by
    by_contra hzero
    rw [if_neg hzero] at htwice
    split_ifs at htwice <;> omega
  have hone : ⟨call, 1⟩ ∈ s.executed := by
    by_contra hone
    rw [if_neg hone, if_pos hzero] at htwice
    omega
  refine ⟨hzero, ?_⟩
  rcases h.eq_of_executed hone with heq | ⟨-, hfailed⟩
  · cases heq
  · exact hfailed

/-- What the helper is told from the top of its loop until it serves a client. -/
def letIn (connection : ℕ) : List Event :=
  [.grant (some 1) (some grantedSid), .inConsole true, .consoleUser (.ok (some grantedSid)), .accepted (.ok (some 4)),
    .grant (some 1) (some grantedSid), .session 1,
    .identity (.ok ⟨grantedSid, "C:\\windowcast\\windowcast-app.exe".toList, 1⟩)].map fun answer =>
      .helper answer connection

/-- A request is read and carried out. -/
def carriedOut (operation : Operation) (connection : ℕ) : List Event :=
  [.ready (.ok true), .request (.ok (some operation)), .grant (some 1) (some grantedSid), .inConsole true,
    .consoleUser (.ok (some grantedSid)), .done, .written true].map fun answer => .helper answer connection

/-- A password is typed: the helper types it, and its answer does not reach the client,
which connects again and asks again. -/
def typedTwice : List Event :=
  ([.grant (some 1) (some grantedSid), .processUser (some "S-1-5-18".toList), .inConsole true,
      .grant (some 1) (some grantedSid), .consoleUser (.ok (some grantedSid)), .created true].map fun answer =>
        Event.helper answer 0)
    ++ [.begin 0 none, .connect 0 (some 7)] ++ letIn 7
    ++ [.write 0 true true] ++ carriedOut (.sendInput (some "secret".toList) none none) 7
    ++ [.read 0 .error, .helper (.ready (.error [])) 7, .connect 0 (some 8)] ++ letIn 8
    ++ [.write 0 true true] ++ carriedOut (.sendInput (some "secret".toList) none none) 8

theorem times_typedTwice :
    ∃ s : System, typedTwice.foldlM (System.step "C:\\windowcast".toList
      fun _ => .sendInput (some "secret".toList) none none) .new = some s ∧ s.times 0 = 2 := by
  have hrun : (typedTwice.foldlM (System.step "C:\\windowcast".toList
      fun _ => .sendInput (some "secret".toList) none none) .new).map (System.times · 0) = some 2 := by
    decide
  exact Option.map_eq_some_iff.mp hrun

theorem once_per_attempt_typedTwice :
    ∃ s : System, s.times 0 = 2 ∧ s.executed.Nodup ∧ ∀ call, s.times call ≤ 2 ∧
      (1 < s.times call → ⟨call, 0⟩ ∈ s.executed ∧ ⟨call, 0⟩ ∈ s.failed) := by
  obtain ⟨s, hs, htimes⟩ := times_typedTwice
  exact ⟨s, htimes, once_per_attempt hs⟩

/-- One call, and the password is typed twice. -/
theorem carried_out_twice :
    ¬ ∀ (installRoot : Text) (operation : ℕ → Operation) (events : List Event) (s : System),
      events.foldlM (System.step installRoot operation) .new = some s → ∀ call, s.times call ≤ 1 := by
  intro h
  obtain ⟨s, hs, htimes⟩ := times_typedTwice
  have hle := h _ _ _ s hs 0
  omega

end WindowCast.SecureHelper
