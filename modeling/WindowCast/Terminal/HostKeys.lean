import WindowCast.Lib.Beside
import WindowCast.Lib.Run
import WindowCast.Lib.Text

/-!
# Pinned SSH server identities

The first connection to a server records its key's fingerprint, and later ones must
present the same key.  Each store keeps the fingerprints in memory; it reads their file
once, when it is opened, and writes all of them when it pins or forgets one.  A
connection checks the key and pins it in two steps, and may ask the user in between.

## Main definitions

* `HostKeyStore` — one store, with the save it is at.
* `World.step` — connections and stores on one file, step by step.
* `Current` — a store that knows of what is recorded all that it is about to go by.

## Main results

* `World.Inv.step` — what every step preserves, where stores are current.
* `World.Kept.step` — and what that does to one recorded fingerprint.
* `recorded_kept` — **a recorded fingerprint is kept until it is forgotten, and other
  keys are refused, in every run in which the stores are current**.
-/

namespace WindowCast.Terminal

/-- The fingerprints, by server. -/
abbrev Pins := Text → Option Text

/-! ### Stores -/

/-- What a store knows about a server. -/
inductive Known
  | unknown
  /-- Pinned, and the key matches. -/
  | same
  /-- Pinned to another key. -/
  | changed (pinned : Text)
  deriving DecidableEq

/-- How an unknown server is dealt with. -/
inductive HostKeyPolicy
  /-- Record the key the server presents. -/
  | trustOnFirstUse
  /-- Accept only this fingerprint, and record it. -/
  | fingerprint (wanted : Text)
  /-- Ask the user. -/
  | ask
  /-- Refuse servers not pinned already. -/
  | pinned
  deriving DecidableEq

/-- A save that is under way: the file is to be written beside, or renamed over. -/
structure Saving where
  written : Bool
  /-- The connection that has pinned a key; none, where a server is forgotten. -/
  connection : Option ℕ
  deriving DecidableEq

/-- A store on the file. -/
structure HostKeyStore where
  pins : Pins
  /-- While it saves, its lock is taken. -/
  saving : Option Saving

namespace HostKeyStore

def check (self : HostKeyStore) (server fingerprint : Text) : Known :=
  match self.pins server with
  | none => .unknown
  | some pinned => if pinned = fingerprint then .same else .changed pinned

/-- A fingerprint is pinned in memory, and the save begins. -/
def pin (self : HostKeyStore) (server fingerprint : Text) (connection : ℕ) : HostKeyStore :=
  ⟨Function.update self.pins server (some fingerprint), some ⟨false, some connection⟩⟩

/-- A server is forgotten in memory, and the save begins. -/
def forget (self : HostKeyStore) (server : Text) : HostKeyStore :=
  ⟨Function.update self.pins server none, some ⟨false, none⟩⟩

end HostKeyStore

/-! ### Connections -/

inductive SshError
  | hostKeyChanged (server pinned presented : Text)
  | hostKeyRefused (server fingerprint : Text)
  deriving DecidableEq

/-- Where the check of a server's key is. -/
inductive ConnectionPhase
  /-- The user is asked. -/
  | asking
  /-- The key is trusted, and is to be pinned. -/
  | trusted
  | pinning
  | accepted
  | refused (error : Option SshError)
  deriving DecidableEq

/-- A connection that checks a server's key. -/
structure Connection where
  store : ℕ
  server : Text
  /-- The fingerprint of the key; none, where the server presents a certificate. -/
  presented : Option Text
  phase : ConnectionPhase
  deriving DecidableEq

/-- What comes of the check of a key, before it is pinned. -/
def checkServerKey (store : HostKeyStore) (policy : HostKeyPolicy) (server : Text) : Option Text → ConnectionPhase
  | none => .refused none
  | some presented =>
    match store.check server presented with
    | .same => .accepted
    | .changed pinned => .refused (some (.hostKeyChanged server pinned presented))
    | .unknown =>
      match policy with
      | .trustOnFirstUse => .trusted
      | .fingerprint wanted => if wanted = presented then .trusted else .refused (some (.hostKeyRefused server presented))
      | .ask => .asking
      | .pinned => .refused (some (.hostKeyRefused server presented))

/-! ### Connections and stores on one file -/

inductive Event
  /-- A store is opened on the file. -/
  | «open» (store : ℕ)
  /-- A server presents its key to a new connection. -/
  | check (connection store : ℕ) (policy : HostKeyPolicy) (server : Text) (presented : Option Text)
  /-- The user answers. -/
  | answer (connection : ℕ) (trusts : Bool)
  | pin (connection : ℕ)
  | forget (store : ℕ) (server : Text)
  /-- The two steps of a store's save. -/
  | write (store : ℕ) (writing : Writing)
  | rename (store : ℕ) (ok : Bool)

structure World where
  disk : Beside Pins
  stores : ℕ → Option HostKeyStore
  connections : ℕ → Option Connection
  /-- What was recorded: on the disk at first, then by each save that reported no error,
  without what was forgotten since. -/
  recorded : Pins

namespace World

/-- The fingerprints on the disk. -/
def onDisk (self : World) : Pins := fun server => self.disk.text.bind fun pins => pins server

/-- A file with pins in it, or none. -/
def new (pins : Option Pins) : World :=
  ⟨⟨pins.map .whole, none⟩, fun _ => none, fun _ => none, fun server => pins.bind fun pins => pins server⟩

def setStore (self : World) (k : ℕ) (store : HostKeyStore) : World :=
  { self with stores := Function.update self.stores k (some store) }

def setPhase (self : World) (c : ℕ) (connection : Connection) (phase : ConnectionPhase) : World :=
  { self with connections := Function.update self.connections c (some { connection with phase := phase }) }

/-- A save is over: the lock is released, and a connection that has pinned its key is
accepted, whatever came of the save. -/
def saved (self : World) (k : ℕ) (store : HostKeyStore) (saving : Saving) : World :=
  let self := self.setStore k { store with saving := none }
  match saving.connection with
  | none => self
  | some c =>
    match self.connections c with
    | none => self
    | some connection => self.setPhase c connection .accepted

/-- A store that is free, with no one at its lock. -/
def free (self : World) (k : ℕ) : Option HostKeyStore := (self.stores k).filter fun store => store.saving.isNone

/-- What happens next; nothing, where it cannot. -/
def step (self : World) : Event → Option World
  | .open k =>
    match self.stores k, self.disk.file with
    | none, none => some (self.setStore k ⟨fun _ => none, none⟩)
    | none, some (.whole pins) => some (self.setStore k ⟨pins, none⟩)
    | _, _ => none
  | .check c k policy server presented =>
    match self.connections c, self.free k with
    | none, some store =>
      some (self.setPhase c ⟨k, server, presented, .asking⟩ (checkServerKey store policy server presented))
    | _, _ => none
  | .answer c trusts =>
    match self.connections c with
    | some ⟨k, server, some presented, .asking⟩ =>
      some (self.setPhase c ⟨k, server, some presented, .asking⟩
        (if trusts then .trusted else .refused (some (.hostKeyRefused server presented))))
    | _ => none
  | .pin c =>
    match self.connections c with
    | some ⟨k, server, some presented, .trusted⟩ =>
      (self.free k).map fun store =>
        (self.setStore k (store.pin server presented c)).setPhase c ⟨k, server, some presented, .trusted⟩ .pinning
    | _ => none
  | .forget k server =>
    (self.free k).map fun store =>
      { self.setStore k (store.forget server) with recorded := Function.update self.recorded server none }
  | .write k writing =>
    match self.stores k with
    | some ⟨pins, some ⟨false, connection⟩⟩ =>
      let self := { self with disk := self.disk.write pins writing }
      match writing with
      | .ok => some (self.setStore k ⟨pins, some ⟨true, connection⟩⟩)
      | .cut | .refused => some (self.saved k ⟨pins, none⟩ ⟨false, connection⟩)
    | _ => none
  | .rename k ok =>
    match self.stores k with
    | some ⟨pins, some ⟨true, connection⟩⟩ =>
      match if ok then self.disk.rename else none with
      | some disk => some ({ self with disk := disk, recorded := pins }.saved k ⟨pins, none⟩ ⟨true, connection⟩)
      | none => some (self.saved k ⟨pins, none⟩ ⟨true, connection⟩)
    | _ => none

end World

/-! ### Stores that are current -/

/-- Whether a policy may trust an unknown server's key. -/
def HostKeyPolicy.mayTrust (self : HostKeyPolicy) (presented : Text) : Prop :=
  match self with
  | .trustOnFirstUse | .ask => True
  | .fingerprint wanted => wanted = presented
  | .pinned => False

/-- A store may begin a save: no other is at one, and it knows all that is recorded of
the servers it is not changing. -/
def World.MaySave (self : World) (store : HostKeyStore) (server : Text) : Prop :=
  (∀ j other, self.stores j = some other → other.saving = none) ∧
    ∀ other, other ≠ server → ∀ f, self.recorded other = some f → store.pins other = some f

/-- The step goes by a store that is current: where a key is checked while another is
recorded, the store does not have that key pinned, nor the server unknown if the key may
be trusted; where a key is pinned, no other is recorded by then; and where a store is to
save, it may. -/
def Current (w : World) : Event → Prop
  | .check _ k policy server presented => ∀ store ∈ w.free k, ∀ key ∈ presented,
      ∀ f, w.recorded server = some f → f ≠ key →
        store.pins server ≠ some key ∧ (policy.mayTrust key → store.pins server ≠ none)
  | .pin c => ∀ connection ∈ w.connections c, ∀ store ∈ w.free connection.store, ∀ key ∈ connection.presented,
      w.MaySave store connection.server ∧
        ∀ f, w.recorded connection.server = some f → f = key
  | .forget k server => ∀ store ∈ w.free k, w.MaySave store server
  | _ => True

namespace World

variable {w w' : World}

/-! ### What a save leaves as it is -/

@[simp] theorem stores_setStore (k : ℕ) (store : HostKeyStore) :
    (w.setStore k store).stores = Function.update w.stores k (some store) := rfl

@[simp] theorem disk_saved (k : ℕ) (store : HostKeyStore) (saving : Saving) :
    (w.saved k store saving).disk = w.disk := by
  rw [saved]
  split
  · rfl
  · split <;> rfl

@[simp] theorem recorded_saved (k : ℕ) (store : HostKeyStore) (saving : Saving) :
    (w.saved k store saving).recorded = w.recorded := by
  rw [saved]
  split
  · rfl
  · split <;> rfl

@[simp] theorem stores_saved (k : ℕ) (store : HostKeyStore) (saving : Saving) :
    (w.saved k store saving).stores = Function.update w.stores k (some { store with saving := none }) := by
  rw [saved]
  split
  · rfl
  · split <;> rfl

/-- The one connection that a save can change is the one that has pinned a key. -/
theorem connections_saved {k : ℕ} {store : HostKeyStore} {saving : Saving} {c : ℕ}
    (h : saving.connection ≠ some c) : (w.saved k store saving).connections c = w.connections c := by
  rw [saved]
  split
  · rfl
  · rename_i c' hc'
    have hne : c ≠ c' := by
      rintro rfl
      exact h hc'
    split
    · rfl
    · exact Function.update_of_ne hne _ _

theorem step_open {k : ℕ} (h : w.step (.open k) = some w') : ∃ pins, w' = w.setStore k ⟨pins, none⟩ := by
  rw [step] at h
  split at h
  · exact ⟨_, (Option.some.inj h).symm⟩
  · exact ⟨_, (Option.some.inj h).symm⟩
  · cases h

/-! ### What every step preserves -/

/-- What holds of a store at a save: it is alone at one, it knows all that is recorded, it
has written that beside the file, and the connection it saves for waits for it. -/
structure Saves (world : World) (k : ℕ) (store : HostKeyStore) (saving : Saving) : Prop where
  alone : ∀ j other, world.stores j = some other → other.saving ≠ none → j = k
  knows : ∀ server f, world.recorded server = some f → store.pins server = some f
  beside : saving.written = true → world.disk.temp = some (.whole store.pins)
  waits : ∀ c, saving.connection = some c →
    ∃ connection, world.connections c = some connection ∧ connection.phase = .pinning

/-- What is recorded is on the disk, and every save that is under way keeps it there. -/
structure Inv (world : World) : Prop where
  onDisk : ∀ server f, world.recorded server = some f → world.onDisk server = some f
  saves : ∀ k store saving, world.stores k = some store → store.saving = some saving → world.Saves k store saving

theorem Inv.new (pins : Option Pins) : (World.new pins).Inv := by
  refine ⟨?_, fun k store saving h => nomatch h⟩
  intro server f h
  cases pins with
  | none => exact h
  | some pins => exact h

/-- A step that begins no save, and leaves the file and those who wait for a save alone. -/
theorem Inv.of_eq (h : w.Inv) (hdisk : w'.disk = w.disk) (hrecorded : w'.recorded = w.recorded)
    (hstores : ∀ k store, w'.stores k = some store → store.saving ≠ none → w.stores k = some store)
    (hwaits : ∀ c connection, w.connections c = some connection → connection.phase = .pinning →
      w'.connections c = some connection) : w'.Inv := by
  constructor
  · intro server f hf
    rw [hrecorded] at hf
    rw [World.onDisk, hdisk]
    exact h.onDisk server f hf
  · intro k store saving hk hsaving
    have hsome : store.saving ≠ none := by
      rw [hsaving]
      nofun
    have hold := h.saves k store saving (hstores k store hk hsome) hsaving
    refine ⟨?_, ?_, ?_, ?_⟩
    · exact fun j other hj hother => hold.alone j other (hstores j other hj hother) hother
    · rw [hrecorded]
      exact hold.knows
    · rw [hdisk]
      exact hold.beside
    · intro c hc
      obtain ⟨connection, hconnection, hphase⟩ := hold.waits c hc
      exact ⟨connection, hwaits c connection hconnection hphase, hphase⟩

/-- One store is at a save, and no other. -/
theorem Inv.one {k : ℕ} {store : HostKeyStore} {saving : Saving} (hsaving : store.saving = some saving)
    (hstores : w'.stores = Function.update w.stores k (some store))
    (hfree : ∀ j other, j ≠ k → w.stores j = some other → other.saving = none)
    (honDisk : ∀ server f, w'.recorded server = some f → w'.onDisk server = some f)
    (hknows : ∀ server f, w'.recorded server = some f → store.pins server = some f)
    (hbeside : saving.written = true → w'.disk.temp = some (.whole store.pins))
    (hwaits : ∀ c, saving.connection = some c →
      ∃ connection, w'.connections c = some connection ∧ connection.phase = .pinning) : w'.Inv := by
  have halone : ∀ j other, w'.stores j = some other → other.saving ≠ none → j = k := by
    intro j other hj hother
    by_contra hne
    rw [hstores, Function.update_of_ne hne] at hj
    exact hother (hfree j other hne hj)
  refine ⟨honDisk, ?_⟩
  intro j store' saving' hj hsaving'
  obtain rfl : j = k := halone j store' hj (by rw [hsaving']; nofun)
  rw [hstores, Function.update_self, Option.some.injEq] at hj
  subst hj
  rw [hsaving] at hsaving'
  cases hsaving'
  exact ⟨halone, hknows, hbeside, hwaits⟩

/-- The one save there is comes to its end. -/
theorem Inv.ended (h : w.Inv) {k : ℕ} {store : HostKeyStore} {saving : Saving} {pins : Pins}
    (hk : w.stores k = some store) (hsaving : store.saving = some saving)
    (hstores : w'.stores = Function.update w.stores k (some ⟨pins, none⟩))
    (honDisk : ∀ server f, w'.recorded server = some f → w'.onDisk server = some f) : w'.Inv := by
  refine ⟨honDisk, ?_⟩
  intro j other saving' hj hsaving'
  have hne : j ≠ k := by
    rintro rfl
    rw [hstores, Function.update_self, Option.some.injEq] at hj
    subst hj
    cases hsaving'
  rw [hstores, Function.update_of_ne hne] at hj
  exact absurd ((h.saves k store saving hk hsaving).alone j other hj (by rw [hsaving']; nofun)) hne

theorem Inv.step (h : w.Inv) {e : Event} (hcurrent : Current w e) (hstep : w.step e = some w') : w'.Inv := by
  cases e with
  | «open» k =>
    obtain ⟨pins, rfl⟩ := step_open hstep
    refine h.of_eq rfl rfl ?_ fun c connection hc _ => hc
    intro j store hj hsaving
    by_cases hne : j = k
    · subst hne
      rw [stores_setStore, Function.update_self, Option.some.injEq] at hj
      exact absurd (hj ▸ rfl) hsaving
    · rwa [stores_setStore, Function.update_of_ne hne] at hj
  | check c k policy server presented =>
    rw [World.step] at hstep
    split at hstep
    · rename_i hc _
      cases hstep
      refine h.of_eq rfl rfl (fun j store hj _ => hj) ?_
      intro c' connection hc' _
      have hne : c' ≠ c := by
        rintro rfl
        rw [hc] at hc'
        cases hc'
      exact (Function.update_of_ne hne _ _).trans hc'
    · cases hstep
  | answer c trusts =>
    rw [World.step] at hstep
    split at hstep
    · rename_i hc
      cases hstep
      refine h.of_eq rfl rfl (fun j store hj _ => hj) ?_
      intro c' connection hc' hphase
      have hne : c' ≠ c := by
        rintro rfl
        rw [hc, Option.some.injEq] at hc'
        subst hc'
        cases hphase
      exact (Function.update_of_ne hne _ _).trans hc'
    · cases hstep
  | pin c =>
    rw [World.step] at hstep
    split at hstep
    · rename_i k server presented hc
      obtain ⟨store, hstore, rfl⟩ := Option.map_eq_some_iff.mp hstep
      obtain ⟨⟨hfree, hknows⟩, hkey⟩ := hcurrent _ hc store hstore presented rfl
      refine Inv.one (w := w) (k := k) rfl rfl (fun j other _ hj => hfree j other hj) h.onDisk ?_ nofun ?_
      · intro other f hf
        by_cases hne : other = server
        · subst hne
          rw [hkey f hf]
          exact Function.update_self _ _ _
        · exact (Function.update_of_ne hne _ _).trans (hknows other hne f hf)
      · rintro _ ⟨⟩
        exact ⟨_, Function.update_self _ _ _, rfl⟩
    · cases hstep
  | forget k server =>
    rw [World.step] at hstep
    obtain ⟨store, hstore, rfl⟩ := Option.map_eq_some_iff.mp hstep
    obtain ⟨hfree, hknows⟩ := hcurrent store hstore
    have hkept : ∀ other f, Function.update w.recorded server none other = some f →
        other ≠ server ∧ w.recorded other = some f := by
      intro other f hf
      by_cases hne : other = server
      · subst hne
        exact absurd ((Function.update_self _ _ _).symm.trans hf) nofun
      · exact ⟨hne, (Function.update_of_ne hne _ _).symm.trans hf⟩
    refine Inv.one (w := w) (k := k) rfl rfl (fun j other _ hj => hfree j other hj) ?_ ?_ nofun nofun
    · intro other f hf
      exact h.onDisk other f (hkept other f hf).2
    · intro other f hf
      obtain ⟨hne, hf⟩ := hkept other f hf
      exact (Function.update_of_ne hne _ _).trans (hknows other hne f hf)
  | write k writing =>
    rw [World.step] at hstep
    split at hstep
    · rename_i pins connection hk
      have hsaves := h.saves k _ _ hk rfl
      have honDisk : ∀ server f, w.recorded server = some f →
          (w.disk.write pins writing).text.bind (fun pins => pins server) = some f := by
        intro server f hf
        rw [Beside.text_write]
        exact h.onDisk server f hf
      have hended : ∀ s, s = (({ w with disk := w.disk.write pins writing } : World).saved k ⟨pins, none⟩
          ⟨false, connection⟩) → s.Inv := by
        rintro _ rfl
        refine h.ended (k := k) hk rfl (stores_saved _ _ _) ?_
        intro server f hf
        rw [recorded_saved] at hf
        rw [World.onDisk, disk_saved]
        exact honDisk server f hf
      cases writing with
      | ok =>
        cases hstep
        refine @Inv.one w _ k _ ⟨true, connection⟩ rfl rfl ?_ honDisk hsaves.knows (fun _ => rfl) hsaves.waits
        intro j other hne hj
        by_contra hother
        exact hne (hsaves.alone j other hj hother)
      | cut => exact hended w' (Option.some.inj hstep).symm
      | refused => exact hended w' (Option.some.inj hstep).symm
    · cases hstep
  | rename k ok =>
    rw [World.step] at hstep
    split at hstep
    · rename_i pins connection hk
      have hsaves := h.saves k _ _ hk rfl
      have hrename : w.disk.rename = some ⟨some (.whole pins), none⟩ := Beside.rename_of_whole (hsaves.beside rfl)
      split at hstep
      · rename_i disk hdisk
        cases hstep
        refine h.ended (k := k) hk rfl (stores_saved _ _ _) ?_
        intro server f hf
        rw [recorded_saved] at hf
        rw [World.onDisk, disk_saved]
        split at hdisk
        · rw [hrename, Option.some.injEq] at hdisk
          subst hdisk
          exact hf
        · cases hdisk
      · cases hstep
        refine h.ended (k := k) hk rfl (stores_saved _ _ _) ?_
        intro server f hf
        rw [recorded_saved] at hf
        rw [World.onDisk, disk_saved]
        exact h.onDisk server f hf
    · cases hstep

/-! ### One recorded fingerprint -/

/-- A fingerprint is recorded, and of the connections to its server all that present
another key are refused, except those that there were before. -/
structure Kept (server f : Text) (before : ℕ → Option Connection) (world : World) : Prop where
  recorded : world.recorded server = some f
  refused : ∀ c connection, before c = none → world.connections c = some connection →
    connection.server = server → connection.presented ≠ some f → ∃ error, connection.phase = .refused error

variable {server f : Text} {before : ℕ → Option Connection}

/-- A step that changes the phase of no connection that is refused. -/
theorem Kept.of_eq (h : w.Kept server f before) (hrecorded : w'.recorded server = some f)
    (hconnections : ∀ c connection, w'.connections c = some connection → w.connections c ≠ some connection →
      connection.server = server → connection.presented ≠ some f →
      before c ≠ none ∨ ∃ error, connection.phase = .refused error) : w'.Kept server f before := by
  refine ⟨hrecorded, ?_⟩
  intro c connection hnew hc hserver hpresented
  by_cases hold : w.connections c = some connection
  · exact h.refused c connection hnew hold hserver hpresented
  · rcases hconnections c connection hc hold hserver hpresented with h | h
    · exact absurd hnew h
    · exact h

/-- One connection gets to another phase. -/
theorem Kept.setPhase (h : w.Kept server f before) (hrecorded : w'.recorded server = some f) {c : ℕ}
    {connection : Connection} (hconnections : w'.connections = Function.update w.connections c (some connection))
    (hc : connection.server = server → connection.presented ≠ some f →
      before c ≠ none ∨ ∃ error, connection.phase = .refused error) : w'.Kept server f before := by
  refine h.of_eq hrecorded ?_
  intro c' connection' hc' hne
  rw [hconnections] at hc'
  by_cases hsame : c' = c
  · subst hsame
    rw [Function.update_self, Option.some.injEq] at hc'
    subst hc'
    exact hc
  · rw [Function.update_of_ne hsame] at hc'
    exact absurd hc' hne

/-- A connection that is at work on another key was there before. -/
theorem Kept.old (h : w.Kept server f before) {c : ℕ} {connection : Connection}
    (hc : w.connections c = some connection) (hserver : connection.server = server)
    (hpresented : connection.presented ≠ some f) (hphase : ∀ error, connection.phase ≠ .refused error) :
    before c ≠ none := by
  intro hnew
  obtain ⟨error, herror⟩ := h.refused c connection hnew hc hserver hpresented
  exact hphase error herror

/-- What is checked against a store that is current is refused. -/
theorem refused_of_current {k c : ℕ} {policy : HostKeyPolicy} {store : HostKeyStore} {presented : Option Text}
    (hcurrent : Current w (.check c k policy server presented)) (hstore : w.free k = some store)
    (hf : w.recorded server = some f) (hpresented : presented ≠ some f) :
    ∃ error, checkServerKey store policy server presented = .refused error := by
  cases presented with
  | none => exact ⟨none, rfl⟩
  | some key =>
    have hne : f ≠ key := fun h => hpresented (h ▸ rfl)
    obtain ⟨hother, hknown⟩ := hcurrent store hstore key rfl f hf hne
    rw [checkServerKey.eq_def]
    dsimp only [HostKeyStore.check]
    cases hpin : store.pins server with
    | some pinned =>
      have hpinned : pinned ≠ key := fun h => hother (h ▸ hpin)
      dsimp only
      rw [if_neg hpinned]
      exact ⟨_, rfl⟩
    | none =>
      -- then the policy does not trust the key
      have htrust : ¬ policy.mayTrust key := fun h => hknown h hpin
      cases policy with
      | trustOnFirstUse => exact absurd trivial htrust
      | ask => exact absurd trivial htrust
      | pinned => exact ⟨_, rfl⟩
      | fingerprint wanted =>
        have hwanted : ¬ wanted = key := htrust
        exact ⟨_, if_neg hwanted⟩

/-- The end of a save changes no connection but the one that waits for it. -/
theorem Kept.saved (h : w.Kept server f before) {k : ℕ} {store store' : HostKeyStore} {saving : Saving}
    (hsaves : w.Saves k store saving) (hconnections : w'.connections = w.connections)
    (hrecorded : w'.recorded server = some f) : (w'.saved k store' saving).Kept server f before := by
  refine h.of_eq ?_ ?_
  · rw [recorded_saved]
    exact hrecorded
  · intro c connection hc hne hserver hpresented
    left
    by_cases hwaits : saving.connection = some c
    · obtain ⟨old, hold, hphase⟩ := hsaves.waits c hwaits
      have hnew : (w'.saved k store' saving).connections c = some { old with phase := .accepted } := by
        rw [World.saved, hwaits]
        dsimp only [setStore]
        rw [hconnections, hold]
        exact Function.update_self _ _ _
      rw [hnew, Option.some.injEq] at hc
      subst hc
      refine h.old hold hserver hpresented fun error => ?_
      rw [hphase]
      nofun
    · rw [connections_saved hwaits, hconnections] at hc
      exact absurd hc hne

theorem Kept.step (h : w.Kept server f before) (hw : w.Inv) {e : Event} (hcurrent : Current w e)
    (hforget : ∀ k, e ≠ .forget k server) (hstep : w.step e = some w') : w'.Kept server f before := by
  cases e with
  | «open» k =>
    obtain ⟨pins, rfl⟩ := step_open hstep
    exact h.of_eq h.recorded fun c connection hc hne => absurd hc hne
  | check c k policy server' presented =>
    rw [World.step] at hstep
    split at hstep
    · rename_i store hc hstore
      cases hstep
      refine h.setPhase h.recorded rfl ?_
      intro hserver hpresented
      obtain rfl : server' = server := hserver
      exact Or.inr (refused_of_current hcurrent hstore h.recorded hpresented)
    · cases hstep
  | answer c trusts =>
    rw [World.step] at hstep
    split at hstep
    · rename_i hc
      cases hstep
      exact h.setPhase h.recorded rfl fun hserver hpresented => Or.inl (h.old hc hserver hpresented nofun)
    · cases hstep
  | pin c =>
    rw [World.step] at hstep
    split at hstep
    · rename_i hc
      obtain ⟨store, -, rfl⟩ := Option.map_eq_some_iff.mp hstep
      exact h.setPhase h.recorded rfl fun hserver hpresented => Or.inl (h.old hc hserver hpresented nofun)
    · cases hstep
  | forget k server' =>
    rw [World.step] at hstep
    obtain ⟨store, -, rfl⟩ := Option.map_eq_some_iff.mp hstep
    have hother : server ≠ server' := fun heq => hforget k (heq ▸ rfl)
    refine h.of_eq ?_ fun c connection hc hne => absurd hc hne
    exact (Function.update_of_ne hother _ _).trans h.recorded
  | write k writing =>
    rw [World.step] at hstep
    split at hstep
    · rename_i pins connection hk
      have hsaves := hw.saves k _ _ hk rfl
      cases writing with
      | ok =>
        cases hstep
        exact h.of_eq h.recorded fun c connection hc hne => absurd hc hne
      | cut =>
        cases hstep
        exact h.saved hsaves rfl h.recorded
      | refused =>
        cases hstep
        exact h.saved hsaves rfl h.recorded
    · cases hstep
  | rename k ok =>
    rw [World.step] at hstep
    split at hstep
    · rename_i pins connection hk
      have hsaves := hw.saves k _ _ hk rfl
      split at hstep
      · cases hstep
        exact h.saved hsaves rfl (hsaves.knows server f h.recorded)
      · cases hstep
        exact h.saved hsaves rfl h.recorded
    · cases hstep

end World

/-- Once a fingerprint is recorded, it is on the disk and stays recorded until it is
forgotten, and whoever presents another key from then on is refused, in every run in which
the stores are current. -/
theorem recorded_kept {pins : Option Pins} {es es' : List Event} {w w' : World} {server f : Text}
    (h : Run.Guarded World.step Current es (World.new pins) w) (hf : w.recorded server = some f)
    (h' : Run.Guarded World.step Current es' w w') (hforget : ∀ k, .forget k server ∉ es') :
    w'.recorded server = some f ∧ w'.onDisk server = some f ∧
      ∀ c connection, w.connections c = none → w'.connections c = some connection → connection.server = server →
        connection.presented ≠ some f → ∃ error, connection.phase = .refused error := by
  have hw : w.Inv := h.invariant (fun _ _ _ hI hA hstep => World.Inv.step hI hA hstep) (World.Inv.new pins)
  have hkept : w.Kept server f w.connections := by
    refine ⟨hf, fun c connection hnew hc => ?_⟩
    rw [hnew] at hc
    cases hc
  -- along the second run
  have hboth : w'.Inv ∧ w'.Kept server f w.connections := by
    have hforgets : Run.Guarded World.step (fun _ e => ∀ k, e ≠ .forget k server) es' w w' := by
      refine Run.Guarded.of_run h'.run fun e he _ k heq => ?_
      exact hforget k (heq ▸ he)
    refine (h'.and hforgets).invariant (I := fun s => s.Inv ∧ s.Kept server f w.connections) ?_ ⟨hw, hkept⟩
    rintro s e s' ⟨hI, hK⟩ ⟨hcurrent, hother⟩ hstep
    exact ⟨hI.step hcurrent hstep, hK.step hI hcurrent hother hstep⟩
  obtain ⟨hI, hK⟩ := hboth
  exact ⟨hK.recorded, hI.onDisk server f hK.recorded, hK.refused⟩

/-- What a run leads to, from no file. -/
def World.after (es : List Event) : World := (es.foldlM World.step (World.new none)).getD (World.new none)

/-- A first connection records a server's key. -/
def firstUse : List Event :=
  [.open 0, .check 0 0 .trustOnFirstUse "a:22".toList (some "one".toList), .pin 0, .write 0 .ok, .rename 0 true]

/-- The server's other key comes to another store, opened on the file. -/
def otherKey : List Event := [.open 1, .check 1 1 .ask "a:22".toList (some "two".toList)]

theorem recorded_kept_firstUse : (World.after (firstUse ++ otherKey)).onDisk "a:22".toList = some "one".toList ∧
    ∃ error, (World.after (firstUse ++ otherKey)).connections 1 =
      some ⟨1, "a:22".toList, some "two".toList, .refused error⟩ := by
  have h : Run.Guarded World.step Current firstUse (World.new none) (World.after firstUse) := by
    refine ⟨trivial, _, rfl, ?_, _, rfl, ?_, _, rfl, trivial, _, rfl, trivial, _, rfl, rfl⟩
    · intro store hstore key hkey f hf
      cases hf
    · rintro connection ⟨⟩ store ⟨⟩ key ⟨⟩
      refine ⟨⟨?_, fun other _ f hf => nomatch hf⟩, fun f hf => nomatch hf⟩
      intro j other hj
      by_cases h0 : j = 0
      · subst h0
        cases hj
        rfl
      · cases (Function.update_of_ne h0 _ _).symm.trans hj
  have h' : Run.Guarded World.step Current otherKey (World.after firstUse) (World.after (firstUse ++ otherKey)) := by
    refine ⟨trivial, _, rfl, ?_, _, rfl, rfl⟩
    rintro store ⟨⟩ key ⟨⟩ f ⟨⟩ -
    exact ⟨nofun, fun _ => nofun⟩
  have hkept := @recorded_kept none _ _ _ _ "a:22".toList "one".toList h rfl h' (by simp [otherKey])
  obtain ⟨error, herror⟩ := hkept.2.2 1 _ rfl rfl rfl (by decide)
  exact ⟨hkept.2.1, error, by rw [← herror]; rfl⟩

/-- Two connections ask the user about a server that is unknown, and the first key is
trusted and recorded. -/
def asked : List Event :=
  [.open 0, .check 0 0 .ask "a:22".toList (some "one".toList), .check 1 0 .ask "a:22".toList (some "two".toList),
    .answer 0 true, .pin 0, .write 0 .ok, .rename 0 true]

/-- Then the user trusts the second key: it replaces the first. -/
theorem recorded_replaced : ¬ ∀ (pins : Option Pins) (es es' : List Event) (w w' : World) (server f : Text),
    es.foldlM World.step (World.new pins) = some w → w.recorded server = some f →
      es'.foldlM World.step w = some w' → (∀ k, .forget k server ∉ es') → w'.recorded server = some f := by
  intro h
  have hf := h none asked [.answer 1 true, .pin 1, .write 0 .ok, .rename 0 true] _ _ "a:22".toList "one".toList
    rfl rfl rfl (by simp)
  revert hf
  decide

end WindowCast.Terminal
