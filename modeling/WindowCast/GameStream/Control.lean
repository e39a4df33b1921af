import WindowCast.GameStream.Cipher

/-!
# The control stream

Messages sealed by a sequence number that begins with the control thread, and that
thread: it seals what is queued, then sees to what the socket brought
(`control.rs`).

## Main definitions

* `Control.seal`, `Control.open` — a control message, sealed and opened.
* `Control.step` — one turn of the thread.

## Main results

* `Control.step_spec` — what a turn keeps, and what it can have sealed.
* `VideoCipher.iv_ne_nonce` — no video packet is sealed with the initialization vector
  of a control message.
-/

namespace WindowCast.GameStream

/-- What happens on a control stream. -/
inductive ControlEvent
  | connected
  | message (kind : UInt16) (payload : List UInt8)
  | disconnected
  deriving DecidableEq

/-- What to send on a control stream. -/
structure Outgoing where
  kind : UInt16
  payload : List UInt8
  channel : UInt8
  reliable : Bool
  deriving DecidableEq

/-- What the socket brings. -/
inductive Service
  | fails
  | nothing
  | connect (peer : ℕ) (data : UInt32)
  | disconnect (peer : ℕ)
  | receive (peer : ℕ) (packet : List UInt8)

/-- The control thread of a host's stream, and the ends of its two queues. -/
structure Control where
  peer : Option ℕ
  connected : Bool
  seq : UInt32
  outgoing : List Outgoing
  /-- The sender is gone. -/
  hungUp : Bool
  events : List ControlEvent
  /-- The receiver of the events is gone. -/
  deaf : Bool
  /-- The thread has ended, and its socket is closed. -/
  ended : Bool
  /-- The initialization vectors it has sealed with. -/
  nonces : List (List UInt8)
  deriving DecidableEq

namespace Control

def channelGeneric : UInt8 := 0x00
def requestIdr : UInt16 := 0x0302
def invalidateRefs : UInt16 := 0x0301
def inputMessage : UInt16 := 0x0206
def termination : UInt16 := 0x0109
/-- The host's reason for a graceful termination. -/
def terminationGraceful : ℕ := 0x80030023

/-- The sequence number, the sender, and a `C` behind it. -/
def nonce (seq : UInt32) (fromClient : Bool) : List UInt8 :=
  LittleEndian.toBytes 4 seq.toNat ++ [0, 0, 0, 0, 0, 0, (if fromClient then 0x43 else 0x48), 0x43]

/-- Seals one control message. -/
def «seal» (gcm : Aes128Gcm) (key : Vector UInt8 16) (seq : UInt32) (fromClient : Bool) (kind : UInt16)
    (payload : List UInt8) : List UInt8 :=
  let inner := LittleEndian.toBytes 2 kind.toNat ++ LittleEndian.toBytes 2 payload.length ++ payload
  let (tag, inner) := gcm.encrypt key (nonce seq fromClient) inner
  LittleEndian.toBytes 2 1 ++ LittleEndian.toBytes 2 (4 + 16 + inner.length) ++ LittleEndian.toBytes 4 seq.toNat
    ++ tag ++ inner

/-- Opens one control message of the other side, if it is genuine. -/
def «open» (gcm : Aes128Gcm) (key : Vector UInt8 16) (fromClient : Bool) (data : List UInt8) :
    Option (UInt16 × List UInt8) :=
  if data.length < 8 + 16 + 4 ∨ LittleEndian.ofBytes (data.take 2) ≠ 1 then none
  else if LittleEndian.ofBytes ((data.drop 2).take 2) + 4 ≠ data.length then none
  else do
    let seq := UInt32.ofNat (LittleEndian.ofBytes ((data.drop 4).take 4))
    let inner ← gcm.decrypt key (nonce seq fromClient) (data.drop 24) ((data.drop 8).take 16)
    let len := LittleEndian.ofBytes ((inner.drop 2).take 2)
    if inner.length < 4 + len then none
    else some (UInt16.ofNat (LittleEndian.ofBytes (inner.take 2)), (inner.drop 4).take len)

/-! ### The thread -/

def new : Control := ⟨none, false, 0, [], false, [], false, false, []⟩

/-- One queued message, sealed if a client is connected. -/
def sendOne (gcm : Aes128Gcm) (key : Vector UInt8 16) (self : Control) (message : Outgoing) :
    List (List UInt8) × Control :=
  if self.connected ∧ self.peer.isSome then
    ([Control.seal gcm key self.seq false message.kind message.payload],
      { self with seq := self.seq + 1, nonces := self.nonces ++ [nonce self.seq false] })
  else ([], self)

/-- Everything queued, one message after the other. -/
def drain (gcm : Aes128Gcm) (key : Vector UInt8 16) : Control → List Outgoing → List (List UInt8) × Control
  | self, [] => ([], { self with outgoing := [] })
  | self, message :: messages =>
    let (sent, self) := self.sendOne gcm key message
    let (rest, self) := drain gcm key self messages
    (sent ++ rest, self)

def emit (self : Control) (event : ControlEvent) : Control := { self with events := self.events ++ [event] }

/-- What the socket brought, seen to. -/
def serviced (gcm : Aes128Gcm) (key : Vector UInt8 16) (connectData : UInt32) (self : Control) : Service → Control
  | .fails => { self.emit .disconnected with ended := true }
  | .nothing => self
  | .connect peer data =>
    -- another launch's client, or a second one
    if data ≠ connectData ∨ (self.connected ∧ self.peer ≠ some peer) then self
    else { self.emit .connected with peer := some peer, connected := true }
  | .disconnect peer => if self.peer = some peer then { self.emit .disconnected with ended := true } else self
  | .receive peer packet =>
    if self.peer = some peer then
      match Control.open gcm key true packet with
      | some (kind, payload) => if self.deaf then { self with ended := true } else self.emit (.message kind payload)
      | none => self
    else self

/-- One turn: everything queued to send, the end once the sender is gone, else the socket. -/
def step (gcm : Aes128Gcm) (key : Vector UInt8 16) (connectData : UInt32) (self : Control) (service : Service) :
    Option (List (List UInt8) × Control) :=
  if self.ended then none
  else
    let (sent, self) := self.drain gcm key self.outgoing
    some (sent, if self.hungUp then { self with ended := true } else self.serviced gcm key connectData service)

/-- What was sealed, and what may be yet. -/
def weight (self : Control) : ℕ := self.nonces.length + self.outgoing.length

variable {gcm : Aes128Gcm} {key : Vector UInt8 16} {connectData : UInt32} {self self' : Control}
  {sent : List (List UInt8)}

/-- What one message or a whole turn keeps, and how far what was sealed can have grown. -/
structure Kept (before after : Control) (queued : ℕ) : Prop where
  hungUp : after.hungUp = before.hungUp
  deaf : after.deaf = before.deaf
  length : after.nonces.length ≤ before.nonces.length + queued
  nonces : ∀ iv ∈ after.nonces, iv ∈ before.nonces ∨ ∃ seq, iv = nonce seq false

theorem Kept.of_eq {after : Control} (hungUp : after.hungUp = self.hungUp) (deaf : after.deaf = self.deaf)
    (nonces : after.nonces = self.nonces) (n : ℕ) : Kept self after n where
  hungUp := hungUp
  deaf := deaf
  length := by
    rw [nonces]
    exact Nat.le_add_right _ _
  nonces := by
    rw [nonces]
    exact fun _ h => Or.inl h

theorem Kept.trans {a b c : Control} {n m : ℕ} (h : Kept a b n) (h' : Kept b c m) : Kept a c (n + m) where
  hungUp := h'.hungUp.trans h.hungUp
  deaf := h'.deaf.trans h.deaf
  length := by
    have h₁ := h.length
    have h₂ := h'.length
    omega
  nonces := fun iv hiv => (h'.nonces iv hiv).elim (h.nonces iv) Or.inr

theorem kept_sendOne (message : Outgoing) : Kept self (self.sendOne gcm key message).2 1 := by
  unfold sendOne
  split
  case isTrue =>
    refine ⟨rfl, rfl, Nat.le_of_eq List.length_append, fun iv hiv => ?_⟩
    rcases List.mem_append.mp hiv with hiv | hiv
    · exact Or.inl hiv
    · exact Or.inr ⟨self.seq, List.mem_singleton.mp hiv⟩
  case isFalse => exact .of_eq (by rfl) (by rfl) (by rfl) 1

theorem kept_drain (messages : List Outgoing) :
    Kept self (self.drain gcm key messages).2 messages.length ∧ (self.drain gcm key messages).2.outgoing = [] := by
  induction messages generalizing self with
  | nil => exact ⟨.of_eq (by rfl) (by rfl) (by rfl) 0, rfl⟩
  | cons message messages ih =>
    obtain ⟨hkept, hnil⟩ := @ih (self.sendOne gcm key message).2
    refine ⟨?_, hnil⟩
    have hboth := (@kept_sendOne gcm key self message).trans hkept
    rw [Nat.add_comm] at hboth
    exact hboth

theorem kept_serviced {service : Service} (h : self.serviced gcm key connectData service = self') :
    Kept self self' 0 ∧ self'.outgoing = self.outgoing := by
  have hsame : ∀ after : Control, after.hungUp = self.hungUp → after.deaf = self.deaf → after.nonces = self.nonces →
      after.outgoing = self.outgoing → Kept self after 0 ∧ after.outgoing = self.outgoing :=
    fun after hungUp deaf nonces outgoing => ⟨.of_eq hungUp deaf nonces 0, outgoing⟩
  cases service with
  | fails =>
    subst h
    exact hsame _ rfl rfl rfl rfl
  | nothing =>
    subst h
    exact hsame _ rfl rfl rfl rfl
  | connect peer data =>
    rw [serviced] at h
    split at h <;> subst h <;> exact hsame _ rfl rfl rfl rfl
  | disconnect peer =>
    rw [serviced] at h
    split at h <;> subst h <;> exact hsame _ rfl rfl rfl rfl
  | receive peer packet =>
    rw [serviced] at h
    split at h
    · split at h
      · split at h <;> subst h <;> exact hsame _ rfl rfl rfl rfl
      · subst h
        exact hsame _ rfl rfl rfl rfl
    · subst h
      exact hsame _ rfl rfl rfl rfl

/-- What a turn keeps: it seals no more than was queued, and once the sender is gone it is
the last. -/
theorem step_spec {service : Service} (h : self.step gcm key connectData service = some (sent, self')) :
    Kept self self' self.outgoing.length ∧ self'.outgoing = [] ∧ self.ended = false
      ∧ (self.hungUp = true → self'.ended = true) := by
  unfold step at h
  split at h
  case isTrue => cases h
  case isFalse hended =>
    cases h
    obtain ⟨hkept, hnil⟩ := @kept_drain gcm key self self.outgoing
    have hlive : self.ended = false := Bool.eq_false_of_not_eq_true hended
    split
    case isTrue => exact ⟨⟨hkept.hungUp, hkept.deaf, hkept.length, hkept.nonces⟩, hnil, hlive, fun _ => rfl⟩
    case isFalse hup =>
      obtain ⟨hserviced, hsame⟩ := @kept_serviced gcm key connectData (self.drain gcm key self.outgoing).2 _ service rfl
      refine ⟨hkept.trans hserviced, hsame.trans hnil, hlive, fun h => ?_⟩
      exact absurd (hkept.hungUp.trans h) hup

theorem weight_step {service : Service} (h : self.step gcm key connectData service = some (sent, self')) :
    self'.weight ≤ self.weight := by
  obtain ⟨hkept, hnil, -, -⟩ := step_spec h
  rw [weight, hnil]
  exact hkept.length

/-- Until it has ended, the thread takes its turns. -/
theorem step_isSome (h : self.ended = false) (service : Service) :
    (self.step gcm key connectData service).isSome := by
  rw [step, h]
  rfl

end Control

theorem VideoCipher.iv_ne_nonce (c : UInt64) (seq : UInt32) (fromClient : Bool) : iv c ≠ Control.nonce seq fromClient := by
  intro h
  have hlast := congrArg List.getLast? h
  rw [iv, Control.nonce, List.getLast?_append, List.getLast?_append] at hlast
  have hbyte : (0x56 : UInt8) = 0x43 := Option.some_inj.mp hlast
  exact absurd hbyte (by decide)

end WindowCast.GameStream
