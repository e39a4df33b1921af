import WindowCast.Lib.Run
import WindowCast.SecureHelper.Permission

/-!
# The secure helper

The helper runs as the system and shows and controls the secure desktop for one account.
It asks the system one thing after another (who has the grant, who is at the console,
who is at the pipe, what is asked for) and anything may change between two answers.

## Main definitions

* `Phase` — what the helper asks next.
* `Helper.step` — what it makes of the answer.
* `admits` — the pipe lets in the account it was made for alone.
* `Helper.Checked` — what was checked before an operation.

## Main results

* `Helper.Inv.step` — what every answer preserves.
* `Helper.checked_of_executed` — **each operation was read from a verified client, and
  the grant that was read last names that client's account**.
-/

namespace WindowCast.SecureHelper

/-! ### What is asked for -/

inductive MouseButton
  | left
  | right
  | middle
  deriving DecidableEq

inductive MouseAction
  | move (x y : Int32)
  | button (button : MouseButton) (pressed : Bool)
  deriving DecidableEq

inductive SecureKey
  | enter
  | backspace
  | tab
  | escape
  | up
  | down
  | left
  | right
  deriving DecidableEq

structure KeyAction where
  key : SecureKey
  pressed : Bool
  deriving DecidableEq

/-- A request. -/
inductive Operation
  | captureFrame
  | sendInput (text : Option Text) (mouse : Option MouseAction) (key : Option KeyAction)
  | secureDesktopState
  deriving DecidableEq

/-! ### The helper -/

/-- What the helper asks the client's connection, and the system for it. -/
inductive Serving
  /-- The top of the loop: the grant, the console's session and user, and a client. -/
  | grant
  | session
  | user
  | accept
  /-- A process is at the pipe: the grant, the console's session and who it is. -/
  | permission
  | consoleSession (grantSid : Text)
  | inspect (grantSid : Text) (session : UInt32)
  /-- The client is served: whether a request is there, and if not, for how long there was
  none, and the grant and the console again. -/
  | ready
  | elapsed
  | idleGrant
  | idleSession
  | idleUser
  | request
  /-- A request has come: the grant and the console once more. -/
  | operationGrant (operation : Operation)
  | operationSession (operation : Operation)
  | operationUser (operation : Operation)
  | execute (operation : Operation)
  | respond
  deriving DecidableEq

/-- How the helper comes to an end. -/
inductive Exit
  /-- The helper was started in the console's session instead. -/
  | relaunched
  | panicked
  /-- The permission is denied. -/
  | denied (message : String)
  | aborted (message : String)
  /-- What the system has answered. -/
  | failed
  deriving DecidableEq

/-- What the helper asks next. -/
inductive Phase
  /-- At the start: whether there is a grant, who the helper runs as, whether it is in the
  console's session, the grant, the console's user and the pipe. -/
  | anyGrant
  | localSystem
  | console
  | initialGrant
  | initialUser (initialSid : Text)
  | create (initialSid : Text)
  /-- The pipe is there, for one account. -/
  | serving (initialSid : Text) (phase : Serving)
  | exited (how : Exit)
  deriving DecidableEq

/-- What the system answers. -/
inductive Answer
  /-- What the registry holds: whether the grant is on, and its SID. -/
  | grant (enabled : Option UInt32) (sid : Option Text)
  | processUser (sid : Option Text)
  | inConsole (inside : Bool)
  | consoleUser (sid : Except Text (Option Text))
  | created (ok : Bool)
  | accepted (processId : Except Text (Option UInt32))
  | session (id : UInt32)
  | identity (identity : Except Text ClientIdentity)
  | ready (ready : Except Text Bool)
  | elapsed (long : Bool)
  | request (operation : Except Text (Option Operation))
  /-- The operation is carried out, well or not. -/
  | done
  | written (ok : Bool)

/-- A client that was verified: on which connection, and against what. -/
structure Verified where
  connection : ℕ
  client : ClientIdentity
  grantSid : Text
  session : UInt32
  deriving DecidableEq

/-- An operation that was carried out: which connection it was read from, and the grant
that was read last. -/
structure Executed where
  connection : ℕ
  operation : Operation
  grant : Option Permission
  deriving DecidableEq

structure Helper where
  phase : Phase
  /-- The number of the connection there is, or was last. -/
  connection : ℕ
  /-- The grant that was read last. -/
  lastGrant : Option Permission
  verified : List Verified
  executed : List Executed
  deriving DecidableEq

namespace Helper

def new : Helper := ⟨.anyGrant, 0, none, [], []⟩

/-- The helper goes on, or comes to an end. -/
def «at» (self : Helper) (initialSid : Text) (phase : Serving) : Helper :=
  { self with phase := .serving initialSid phase }

def exit (self : Helper) (how : Exit) : Helper := { self with phase := .exited how }

/-- The console has nobody, or the account that the helper is for. -/
def consoleFits (initialSid : Text) (user : Option Text) : Bool := user.all fun sid => eqIgnoreAsciiCase sid initialSid

/-- The grant is read. -/
def readGrant (self : Helper) (enabled : Option UInt32) (sid : Option Text) : Helper :=
  { self with lastGrant := Permission.fromValues enabled sid }

/-- What the helper makes of an answer, while it serves. -/
def serve (installRoot : Text) (self : Helper) (initialSid : Text) : Serving → Answer → Option Helper
  | .grant, .grant enabled sid =>
    let self := self.readGrant enabled sid
    if named self.lastGrant ≠ some initialSid then some (self.exit (.denied "permission was removed or changed"))
    else some (self.at initialSid .session)
  | .session, .inConsole inside =>
    if ¬ inside then some (self.exit (.aborted "console session changed"))
    else some (self.at initialSid .user)
  | .user, .consoleUser (.error _) => some (self.exit .failed)
  | .user, .consoleUser (.ok user) =>
    if ¬ consoleFits initialSid user then
      some (self.exit (.denied "active console changed to a different account"))
    else some (self.at initialSid .accept)
  | .accept, .accepted (.error _) => some (self.exit .failed)
  | .accept, .accepted (.ok none) => some (self.at initialSid .grant)
  | .accept, .accepted (.ok (some _)) =>
    some { self with phase := .serving initialSid .permission, connection := self.connection + 1 }
  | .permission, .grant enabled sid =>
    let self := self.readGrant enabled sid
    match named self.lastGrant with
    | some grantSid => some (self.at initialSid (.consoleSession grantSid))
    | none =>
      -- the client is told that it was refused, and disconnected
      some (self.at initialSid .grant)
  | .consoleSession grantSid, .session id => some (self.at initialSid (.inspect grantSid id))
  | .inspect grantSid session, .identity identity =>
    if verifyClientWith identity grantSid installRoot session then
      match identity with
      | .ok client =>
        some { self with
          phase := .serving initialSid .ready
          verified := self.verified ++ [⟨self.connection, client, grantSid, session⟩] }
      | .error _ => none
    else some (self.at initialSid .grant)
  | .ready, .ready (.ok true) => some (self.at initialSid .request)
  | .ready, .ready (.ok false) => some (self.at initialSid .elapsed)
  | .ready, .ready (.error _) => some (self.at initialSid .grant)
  | .elapsed, .elapsed long => some (self.at initialSid (if long then .grant else .idleGrant))
  | .idleGrant, .grant enabled sid =>
    let self := self.readGrant enabled sid
    if named self.lastGrant ≠ some initialSid then some (self.exit (.denied "permission was removed or changed"))
    else some (self.at initialSid .idleSession)
  | .idleSession, .inConsole inside =>
    if ¬ inside then some (self.exit (.denied "active console session no longer belongs to the grant"))
    else some (self.at initialSid .idleUser)
  | .idleUser, .consoleUser (.error _) => some (self.exit .failed)
  | .idleUser, .consoleUser (.ok user) =>
    if ¬ consoleFits initialSid user then
      some (self.exit (.denied "active console session no longer belongs to the grant"))
    else some (self.at initialSid .ready)
  | .request, .request (.ok (some operation)) => some (self.at initialSid (.operationGrant operation))
  | .request, .request (.ok none) => some (self.at initialSid .grant)
  | .request, .request (.error _) => some (self.at initialSid .grant)
  | .operationGrant operation, .grant enabled sid =>
    let self := self.readGrant enabled sid
    if named self.lastGrant ≠ some initialSid then some (self.exit (.denied "permission was removed or changed"))
    else some (self.at initialSid (.operationSession operation))
  | .operationSession operation, .inConsole inside =>
    if ¬ inside then some (self.exit (.denied "active console session no longer belongs to the grant"))
    else some (self.at initialSid (.operationUser operation))
  | .operationUser _, .consoleUser (.error _) => some (self.exit .failed)
  | .operationUser operation, .consoleUser (.ok user) =>
    if ¬ consoleFits initialSid user then
      some (self.exit (.denied "active console session no longer belongs to the grant"))
    else some (self.at initialSid (.execute operation))
  | .execute operation, .done =>
    some { self with
      phase := .serving initialSid .respond
      executed := self.executed ++ [⟨self.connection, operation, self.lastGrant⟩] }
  | .respond, .written ok => some (if ok then self.at initialSid .ready else self.exit .failed)
  | _, _ => none

/-- What the helper makes of an answer; nothing, if it has asked for something else. -/
def step (installRoot : Text) (self : Helper) (answer : Answer) : Option Helper :=
  match self.phase, answer with
  | .anyGrant, .grant enabled sid =>
    let self := self.readGrant enabled sid
    if self.lastGrant.isNone then some (self.exit (.denied "permission is absent or disabled"))
    else some { self with phase := .localSystem }
  | .localSystem, .processUser none => some (self.exit .failed)
  | .localSystem, .processUser (some sid) =>
    if sid ≠ "S-1-5-18".toList then some (self.exit (.denied "helper must run as LocalSystem"))
    else some { self with phase := .console }
  | .console, .inConsole inside =>
    if ¬ inside then some (self.exit .relaunched) else some { self with phase := .initialGrant }
  | .initialGrant, .grant enabled sid =>
    let self := self.readGrant enabled sid
    match named self.lastGrant with
    | some initialSid => some { self with phase := .initialUser initialSid }
    | none => some (self.exit .panicked)
  | .initialUser _, .consoleUser (.error _) => some (self.exit .failed)
  | .initialUser initialSid, .consoleUser (.ok user) =>
    if ¬ consoleFits initialSid user then
      some (self.exit (.denied "active console belongs to a different account"))
    else some { self with phase := .create initialSid }
  | .create initialSid, .created ok =>
    some (if ok then self.at initialSid .grant else self.exit .failed)
  | .serving initialSid phase, answer => self.serve installRoot initialSid phase answer
  | _, _ => none

/-! ### What was checked before an operation -/

end Helper

/-- The phases in which a client is served. -/
def Serving.OfClient : Serving → Prop
  | .grant | .session | .user | .accept | .permission | .consoleSession _ | .inspect _ _ => False
  | _ => True

/-- The phases between the last look at the grant and the operation. -/
def Serving.Granted : Serving → Prop
  | .operationSession _ | .operationUser _ | .execute _ => True
  | _ => False

/-- The pipe lets in the account that it was made for alone: a client whose identity is
looked up is one of its processes. -/
def admits (self : Helper) (answer : Answer) : Bool :=
  match self.phase, answer with
  | .serving initialSid (.inspect _ _), .identity (.ok client) => eqIgnoreAsciiCase client.sid initialSid
  | _, _ => true

/-- A client was verified: its user is that of the grant, its session the console's, and
its program one of those that are installed. -/
structure Verified.Genuine (installRoot : Text) (self : Verified) : Prop where
  sid : eqIgnoreAsciiCase self.client.sid self.grantSid = true
  session : self.client.sessionId = self.session
  image : allowedClientImage self.client.image installRoot = true

namespace Helper

variable {installRoot : Text} {s s' : Helper}

/-- What was checked before an operation: the client of the connection that it was read
from was verified, and the grant that was read last names the client's account. -/
def Checked (installRoot : Text) (self : Helper) (e : Executed) : Prop :=
  ∃ v ∈ self.verified, v.connection = e.connection ∧ v.Genuine installRoot ∧
    ∃ sid, named e.grant = some sid ∧ eqIgnoreAsciiCase v.client.sid sid = true

/-- What holds between any two answers. -/
structure Inv (installRoot : Text) (s : Helper) : Prop where
  checked : ∀ e ∈ s.executed, s.Checked installRoot e
  /-- A client that is served was verified, and is of the account that the pipe is for. -/
  served : ∀ initialSid phase, s.phase = .serving initialSid phase → phase.OfClient →
    ∃ v ∈ s.verified, v.connection = s.connection ∧ v.Genuine installRoot ∧
      eqIgnoreAsciiCase v.client.sid initialSid = true
  granted : ∀ initialSid phase, s.phase = .serving initialSid phase → phase.Granted →
    named s.lastGrant = some initialSid

theorem Inv.new : Inv installRoot new where
  checked := by
    intro e he
    cases he
  served := by
    intro initialSid phase h
    cases h
  granted := by
    intro initialSid phase h
    cases h

/-- An answer that makes nothing of clients and operations: it leaves off serving the
client there is, or goes on with it, having looked at the grant. -/
theorem Inv.move (h : Inv installRoot s) (hverified : s'.verified = s.verified) (hexecuted : s'.executed = s.executed)
    (hclient : ∀ initialSid phase, s'.phase = .serving initialSid phase → phase.OfClient →
      s'.connection = s.connection ∧ ∃ before, s.phase = .serving initialSid before ∧ before.OfClient)
    (hgranted : ∀ initialSid phase, s'.phase = .serving initialSid phase → phase.Granted →
      named s'.lastGrant = some initialSid) : Inv installRoot s' where
  checked := by
    rw [hexecuted]
    unfold Checked
    rw [hverified]
    exact h.checked
  served := by
    intro initialSid phase hphase hof
    obtain ⟨hconnection, before, hbefore, hofBefore⟩ := hclient initialSid phase hphase hof
    rw [hverified, hconnection]
    exact h.served initialSid before hbefore hofBefore
  granted := hgranted

/-- An answer that brings the helper to a place without a client. -/
theorem Inv.leave (h : Inv installRoot s) (hverified : s'.verified = s.verified) (hexecuted : s'.executed = s.executed)
    (hphase : ∀ initialSid phase, s'.phase = .serving initialSid phase → ¬ phase.OfClient ∧ ¬ phase.Granted) :
    Inv installRoot s' :=
  h.move hverified hexecuted (fun _ _ heq hof => absurd hof (hphase _ _ heq).1)
    fun _ _ heq hgranted => absurd hgranted (hphase _ _ heq).2

theorem Inv.exit (h : Inv installRoot s) (how : Exit) : Inv installRoot (s.exit how) :=
  h.leave rfl rfl fun _ _ heq => by cases heq

theorem Inv.at (h : Inv installRoot s) {initialSid : Text} {phase : Serving} (hof : ¬ phase.OfClient)
    (hnot : ¬ phase.Granted) : Inv installRoot (s.at initialSid phase) :=
  h.leave rfl rfl fun _ _ heq => by
    cases heq
    exact ⟨hof, hnot⟩

/-- The helper goes on with the client it serves. -/
theorem Inv.goOn (h : Inv installRoot s) {initialSid : Text} {before phase : Serving}
    (hphase : s.phase = .serving initialSid before) (hof : before.OfClient)
    (hgranted : phase.Granted → named s.lastGrant = some initialSid) : Inv installRoot (s.at initialSid phase) := by
  refine h.move rfl rfl ?_ ?_
  · intro _ _ heq _
    cases heq
    exact ⟨rfl, before, hphase, hof⟩
  · intro _ _ heq hphaseGranted
    cases heq
    exact hgranted hphaseGranted

/-- A grant is read, between two operations or before one. -/
theorem Inv.readGrant (h : Inv installRoot s) {initialSid : Text} {phase : Serving}
    (hphase : s.phase = .serving initialSid phase) (hnot : ¬ phase.Granted) (enabled : Option UInt32)
    (sid : Option Text) : Inv installRoot (s.readGrant enabled sid) := by
  refine h.move rfl rfl (fun _ before heq hof => ⟨rfl, before, heq, hof⟩) ?_
  intro _ before heq hgranted
  rw [show (s.readGrant enabled sid).phase = s.phase from rfl, hphase] at heq
  cases heq
  exact absurd hgranted hnot

/-- A client is verified. -/
theorem Inv.verify (h : Inv installRoot s) {initialSid grantSid : Text} {session : UInt32} {client : ClientIdentity}
    (hverify : verifyClientWith (.ok client) grantSid installRoot session = true)
    (hadmits : eqIgnoreAsciiCase client.sid initialSid = true) :
    Inv installRoot { s with
      phase := .serving initialSid .ready
      verified := s.verified ++ [⟨s.connection, client, grantSid, session⟩] } where
  checked := by
    intro e he
    obtain ⟨v, hv, hchecked⟩ := h.checked e he
    exact ⟨v, List.mem_append_left _ hv, hchecked⟩
  served := by
    intro _ phase heq _
    cases heq
    obtain ⟨_, heq, hsid, hsession, himage⟩ := verifyClientWith_iff.mp hverify
    cases heq
    exact ⟨_, List.mem_append_right _ (List.mem_singleton_self _), rfl, ⟨hsid, hsession, himage⟩, hadmits⟩
  granted := by
    intro _ phase heq hgranted
    cases heq
    exact hgranted.elim

/-- An operation is carried out: its client was verified and the grant was just read. -/
theorem Inv.execute (h : Inv installRoot s) {initialSid : Text} {operation : Operation}
    (hphase : s.phase = .serving initialSid (.execute operation)) :
    Inv installRoot { s with
      phase := .serving initialSid .respond
      executed := s.executed ++ [⟨s.connection, operation, s.lastGrant⟩] } where
  checked := by
    intro e he
    rcases List.mem_append.mp he with he | he
    · exact h.checked e he
    · rw [List.mem_singleton] at he
      subst he
      obtain ⟨v, hv, hconnection, hgenuine, hsid⟩ := h.served _ _ hphase trivial
      exact ⟨v, hv, hconnection, hgenuine, initialSid, h.granted _ _ hphase trivial, hsid⟩
  served := by
    intro _ phase heq _
    cases heq
    exact h.served _ _ hphase trivial
  granted := by
    intro _ phase heq hgranted
    cases heq
    exact hgranted.elim

/-- What an answer makes of a helper that serves. -/
theorem Inv.serve (h : Inv installRoot s) {initialSid : Text} {phase : Serving} {answer : Answer}
    (hphase : s.phase = .serving initialSid phase) (hadmits : admits s answer = true)
    (hstep : s.serve installRoot initialSid phase answer = some s') : Inv installRoot s' := by
  cases phase with
  | grant =>
    cases answer with
    | grant enabled sid =>
      have hread := h.readGrant hphase not_false enabled sid
      rw [Helper.serve] at hstep
      split_ifs at hstep <;> cases hstep
      · exact hread.exit _
      · exact hread.at not_false not_false
    | _ => cases hstep
  | session =>
    cases answer with
    | inConsole inside =>
      rw [Helper.serve] at hstep
      split_ifs at hstep <;> cases hstep
      · exact h.at not_false not_false
      · exact h.exit _
    | _ => cases hstep
  | user =>
    cases answer with
    | consoleUser sid =>
      cases sid with
      | error e =>
        cases hstep
        exact h.exit _
      | ok user =>
        rw [Helper.serve] at hstep
        split_ifs at hstep <;> cases hstep
        · exact h.at not_false not_false
        · exact h.exit _
    | _ => cases hstep
  | accept =>
    cases answer with
    | accepted processId =>
      cases processId with
      | error e =>
        cases hstep
        exact h.exit _
      | ok processId =>
        cases processId with
        | none =>
          cases hstep
          exact h.at not_false not_false
        | some processId =>
          cases hstep
          exact h.leave rfl rfl fun _ _ heq => by
            cases heq
            exact ⟨not_false, not_false⟩
    | _ => cases hstep
  | permission =>
    cases answer with
    | grant enabled sid =>
      have hread := h.readGrant hphase not_false enabled sid
      rw [Helper.serve] at hstep
      split at hstep <;> cases hstep <;> exact hread.at not_false not_false
    | _ => cases hstep
  | consoleSession grantSid =>
    cases answer with
    | session id =>
      cases hstep
      exact h.at not_false not_false
    | _ => cases hstep
  | inspect grantSid session =>
    cases answer with
    | identity identity =>
      change (if verifyClientWith identity grantSid installRoot session = true then _ else _) = _ at hstep
      split_ifs at hstep with hverify
      · cases identity with
        | error e => cases hstep
        | ok client =>
          cases hstep
          simp only [admits, hphase] at hadmits
          exact h.verify hverify hadmits
      · cases hstep
        exact h.at not_false not_false
    | _ => cases hstep
  | ready =>
    cases answer with
    | ready ready =>
      rcases ready with e | ready
      · cases hstep
        exact h.at not_false not_false
      · cases ready <;> cases hstep <;> exact h.goOn hphase trivial False.elim
    | _ => cases hstep
  | elapsed =>
    cases answer with
    | elapsed long =>
      cases long <;> cases hstep
      · exact h.goOn hphase trivial False.elim
      · exact h.at not_false not_false
    | _ => cases hstep
  | idleGrant =>
    cases answer with
    | grant enabled sid =>
      have hread := h.readGrant hphase not_false enabled sid
      rw [Helper.serve] at hstep
      split_ifs at hstep <;> cases hstep
      · exact hread.exit _
      · exact hread.goOn hphase trivial False.elim
    | _ => cases hstep
  | idleSession =>
    cases answer with
    | inConsole inside =>
      rw [Helper.serve] at hstep
      split_ifs at hstep <;> cases hstep
      · exact h.goOn hphase trivial False.elim
      · exact h.exit _
    | _ => cases hstep
  | idleUser =>
    cases answer with
    | consoleUser sid =>
      cases sid with
      | error e =>
        cases hstep
        exact h.exit _
      | ok user =>
        rw [Helper.serve] at hstep
        split_ifs at hstep <;> cases hstep
        · exact h.goOn hphase trivial False.elim
        · exact h.exit _
    | _ => cases hstep
  | request =>
    cases answer with
    | request operation =>
      rcases operation with e | operation
      · cases hstep
        exact h.at not_false not_false
      · cases operation <;> cases hstep
        · exact h.at not_false not_false
        · exact h.goOn hphase trivial False.elim
    | _ => cases hstep
  | operationGrant operation =>
    cases answer with
    | grant enabled sid =>
      have hread := h.readGrant hphase not_false enabled sid
      rw [Helper.serve] at hstep
      split_ifs at hstep with hnamed <;> cases hstep
      · exact hread.exit _
      · exact hread.goOn hphase trivial fun _ => not_not.mp hnamed
    | _ => cases hstep
  | operationSession operation =>
    cases answer with
    | inConsole inside =>
      rw [Helper.serve] at hstep
      split_ifs at hstep <;> cases hstep
      · exact h.goOn hphase trivial fun _ => h.granted _ _ hphase trivial
      · exact h.exit _
    | _ => cases hstep
  | operationUser operation =>
    cases answer with
    | consoleUser sid =>
      cases sid with
      | error e =>
        cases hstep
        exact h.exit _
      | ok user =>
        rw [Helper.serve] at hstep
        split_ifs at hstep <;> cases hstep
        · exact h.goOn hphase trivial fun _ => h.granted _ _ hphase trivial
        · exact h.exit _
    | _ => cases hstep
  | execute operation =>
    cases answer with
    | done =>
      cases hstep
      exact h.execute hphase
    | _ => cases hstep
  | respond =>
    cases answer with
    | written ok =>
      cases ok <;> cases hstep
      · exact h.exit _
      · exact h.goOn hphase trivial False.elim
    | _ => cases hstep

/-- An answer at the start, before there is a pipe. -/
theorem Inv.start (h : Inv installRoot s) (hverified : s'.verified = s.verified) (hexecuted : s'.executed = s.executed)
    (hphase : ∀ initialSid phase, s'.phase ≠ .serving initialSid phase) : Inv installRoot s' :=
  h.leave hverified hexecuted fun _ _ heq => absurd heq (hphase _ _)

/-- What an answer makes of a helper. -/
theorem Inv.step (h : Inv installRoot s) {answer : Answer} (hadmits : admits s answer = true)
    (hstep : s.step installRoot answer = some s') : Inv installRoot s' := by
  unfold Helper.step at hstep
  split at hstep
  case h_1 =>
    dsimp only at hstep
    split_ifs at hstep <;> cases hstep <;> exact h.start rfl rfl fun _ _ heq => by cases heq
  case h_2 | h_6 =>
    cases hstep
    exact h.exit _
  case h_3 | h_4 =>
    split_ifs at hstep <;> cases hstep <;> exact h.start rfl rfl fun _ _ heq => by cases heq
  case h_5 =>
    dsimp only at hstep
    split at hstep <;> cases hstep <;> exact h.start rfl rfl fun _ _ heq => by cases heq
  case h_7 =>
    split_ifs at hstep <;> cases hstep <;> exact h.start rfl rfl fun _ _ heq => by cases heq
  case h_8 =>
    cases hstep
    split_ifs
    · exact h.at not_false not_false
    · exact h.exit _
  case h_9 initialSid phase answer hphase => exact h.serve hphase hadmits hstep
  case h_10 => cases hstep

end Helper

/-- Whatever the system answers, and in whatever order: where the pipe lets in the account
that it was made for alone, each operation that is carried out was read from a connection
whose client was verified, and the grant that was read last before it names the client's
account. -/
theorem checked_of_executed {installRoot : Text} {answers : List Answer} {s : Helper}
    (hrun : Run.Guarded (Helper.step installRoot) (fun s answer => admits s answer = true) answers Helper.new s) :
    ∀ e ∈ s.executed, s.Checked installRoot e :=
  (hrun.invariant (fun _ _ _ h hadmits hstep => h.step hadmits hstep) Helper.Inv.new).checked

def grantedSid : Text := "S-1-5-21-7".toList

/-- A client with the grant asks for the picture of the desktop. -/
def captured : List Answer :=
  [.grant (some 1) (some grantedSid), .processUser (some "S-1-5-18".toList), .inConsole true,
   .grant (some 1) (some grantedSid), .consoleUser (.ok (some grantedSid)), .created true,
   .grant (some 1) (some grantedSid), .inConsole true, .consoleUser (.ok (some grantedSid)), .accepted (.ok (some 4)),
   .grant (some 1) (some grantedSid), .session 1,
   .identity (.ok ⟨grantedSid, "C:\\windowcast\\windowcast-app.exe".toList, 1⟩),
   .ready (.ok true), .request (.ok (some .captureFrame)), .grant (some 1) (some grantedSid), .inConsole true,
   .consoleUser (.ok (some grantedSid)), .done]

theorem checked_of_executed_frame :
    ∃ s : Helper, s.executed.length = 1 ∧ ∀ e ∈ s.executed, s.Checked "C:\\windowcast".toList e := by
  have hrun : ∃ s : Helper, s.executed.length = 1 ∧ Run.Guarded (Helper.step "C:\\windowcast".toList)
      (fun s answer => admits s answer = true) captured Helper.new s :=
    ⟨⟨.serving grantedSid .respond, 1, some ⟨true, some grantedSid⟩,
      [⟨1, ⟨grantedSid, "C:\\windowcast\\windowcast-app.exe".toList, 1⟩, grantedSid, 1⟩],
      [⟨1, .captureFrame, some ⟨true, some grantedSid⟩⟩]⟩, rfl, by decide⟩
  obtain ⟨s, hlength, hrun⟩ := hrun
  exact ⟨s, hlength, checked_of_executed hrun⟩

end WindowCast.SecureHelper
