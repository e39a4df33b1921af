import WindowCast.Command.Stream
import WindowCast.Lib.Run
import WindowCast.Terminal.Screen

/-!
# Redrawing a terminal

The screen, the version that counts its changes, and the end of the command are each behind
a lock of their own.  The reader, and whoever resizes or scrolls, change the screen, then the
version, and then notify; a viewer reads the version, then the screen, and then waits for
another version.

## Main definitions

* `Emulator` — what the screen is kept by.
* `Phase`, `Viewer` — where a writer and the viewer are in their code.
* `State.step` — all of them, one lock at a time.
* `State.Quiet`, `State.Shows` — no change is in progress; the viewer has drawn all there is.

## Main results

* `State.Inv.step` — what every step preserves.
* `no_redraw_lost` — **no redraw is lost**.
-/

namespace WindowCast.Terminal.Redraw

open Command (Bytes)

structure TerminalSize where
  cols : ℕ
  rows : ℕ
  deriving DecidableEq, Repr

def TerminalSize.MAX : ℕ := 1000

/-- What a pseudo-terminal can be: at least one cell, and no larger than the maximum. -/
def TerminalSize.clamped (size : TerminalSize) : TerminalSize where
  cols := min (max size.cols 1) MAX
  rows := min (max size.rows 1) MAX

/-- The emulator, by what it keeps. -/
structure Emulator (σ : Type) where
  process : σ → Bytes → σ
  setSize : σ → (rows cols : ℕ) → σ
  setScrollback : σ → ℕ → σ
  screen : σ → Screen

/-- What a new version tells of. -/
inductive Change
  | output
  | exited
  | closed
  | resized
  | scrolled
  deriving DecidableEq, Repr

/-- Who changes the screen: the reader, and the callers of `resize` and `scroll_to`. -/
inductive Writer
  | reader
  | caller (id : ℕ)
  deriving DecidableEq, Repr

/-- Where a writer is. -/
inductive Phase
  | idle
  /-- The screen has the size, and the channel is to be told. -/
  | resized (size : TerminalSize)
  /-- The version is to be changed. -/
  | changed (change : Change)
  /-- The viewer is to be notified. -/
  | counted (change : Change)
  | returned
  deriving DecidableEq, Repr

/-- Where the viewer is. -/
inductive Viewer
  | looking
  /-- In `snapshot`, with the version read. -/
  | versioned (version : ℕ)
  /-- In `wait_change`, about to take the version's lock; whether the wait it comes from timed out. -/
  | waits (shown : Snapshot) (timedOut : Bool)
  | asleep (shown : Snapshot)
  /-- `wait_change` has timed out. -/
  | timedOut (shown : Snapshot)
  deriving DecidableEq, Repr

structure State (σ : Type) where
  parser : σ
  /-- With the exit code, if there is one. -/
  ended : Option (Option ℤ)
  version : ℕ
  /-- What each version after the first told of. -/
  changes : List Change
  /-- The sizes that the channel was told. -/
  sizes : List TerminalSize
  writers : Writer → Phase
  viewer : Viewer

inductive Event
  /-- The reader takes an event of the channel. -/
  | data (bytes : Bytes)
  | exited (code : Option ℤ)
  | closed
  | resize (id : ℕ) (size : TerminalSize)
  | scroll (id : ℕ) (lines : ℕ)
  /-- A caller of `resize` tells the channel. -/
  | tell (id : ℕ)
  | count (writer : Writer)
  | notify (writer : Writer)
  | readVersion
  | readScreen
  /-- The viewer wakes by itself. -/
  | wake (timedOut : Bool)
  /-- It compares versions, at its deadline or before it. -/
  | compare (expired : Bool)
  deriving DecidableEq, Repr

namespace State

variable {σ : Type} (emulator : Emulator σ)

def start (parser : σ) : State σ := ⟨parser, none, 1, [], [], fun _ => .idle, .looking⟩

/-- A writer goes on. -/
def at' (s : State σ) (writer : Writer) (phase : Phase) : State σ :=
  { s with writers := Function.update s.writers writer phase }

def step (s : State σ) : Event → Option (State σ)
  | .data bytes =>
    if s.writers .reader = .idle then
      -- what it answers to queries is sent behind this, without a lock
      some { s.at' .reader (.changed .output) with parser := emulator.process s.parser bytes }
    else none
  | .exited code =>
    if s.writers .reader = .idle then
      some { s.at' .reader (.changed .exited) with ended := some (s.ended.getD code) }
    else none
  | .closed =>
    if s.writers .reader = .idle then
      some { s.at' .reader (.changed .closed) with ended := some (s.ended.getD none) }
    else none
  | .resize id size =>
    if s.writers (.caller id) = .idle then
      let size := size.clamped
      some { s.at' (.caller id) (.resized size) with parser := emulator.setSize s.parser size.rows size.cols }
    else none
  | .scroll id lines =>
    if s.writers (.caller id) = .idle then
      some { s.at' (.caller id) (.changed .scrolled) with parser := emulator.setScrollback s.parser lines }
    else none
  | .tell id =>
    match s.writers (.caller id) with
    | .resized size => some { s.at' (.caller id) (.changed .resized) with sizes := s.sizes ++ [size] }
    | _ => none
  | .count writer =>
    match s.writers writer with
    | .changed change =>
      some { s.at' writer (.counted change) with version := s.version + 1, changes := s.changes ++ [change] }
    | _ => none
  | .notify writer =>
    match s.writers writer with
    | .counted change =>
      let viewer := match s.viewer with
        | .asleep shown => .waits shown false
        | viewer => viewer
      some { s.at' writer (if change = .closed then .returned else .idle) with viewer }
    | _ => none
  | .readVersion =>
    match s.viewer with
    | .looking | .timedOut _ => some { s with viewer := .versioned s.version }
    | _ => none
  | .readScreen =>
    match s.viewer with
    | .versioned version => some { s with viewer := .waits (snapshot version (emulator.screen s.parser)) false }
    | _ => none
  | .wake timedOut =>
    match s.viewer with
    | .asleep shown => some { s with viewer := .waits shown timedOut }
    | _ => none
  | .compare expired =>
    match s.viewer with
    | .waits shown timedOut =>
      if s.version ≠ shown.version then some { s with viewer := .looking }
      else if timedOut ∨ expired then some { s with viewer := .timedOut shown }
      else some { s with viewer := .asleep shown }
    | _ => none

end State

/-- The screen is changed, and the version does not tell yet. -/
def Phase.Changing : Phase → Prop
  | .resized _ | .changed _ => True
  | _ => False

/-- What the viewer shows. -/
def Viewer.shown : Viewer → Option Snapshot
  | .waits shown _ | .asleep shown | .timedOut shown => some shown
  | _ => none

/-- The version that the viewer goes by. -/
def Viewer.seen : Viewer → Option ℕ
  | .versioned version => some version
  | viewer => viewer.shown.map Snapshot.version

theorem Viewer.version_mem_seen {viewer : Viewer} {shown : Snapshot} (h : shown ∈ viewer.shown) :
    shown.version ∈ viewer.seen := by
  cases viewer with
  | looking => cases h
  | versioned version => cases h
  | _ => exact congrArg (Option.map Snapshot.version) h

namespace State

variable {σ : Type} (emulator : Emulator σ)

/-- No change is in progress. -/
def Quiet (s : State σ) : Prop := ∀ writer, s.writers writer = .idle ∨ s.writers writer = .returned

/-- The viewer shows the screen as it is; and the end, once the channel is closed. -/
structure Shows (s : State σ) (shown : Snapshot) : Prop where
  current : shown = snapshot s.version (emulator.screen s.parser)
  ended : s.writers .reader = .returned → s.ended.isSome = true ∧ .closed ∈ s.changes.take (shown.version - 1)

structure Inv (s : State σ) : Prop where
  counted : s.version = s.changes.length + 1
  behind : ∀ version ∈ s.viewer.seen, version ≤ s.version
  fresh : ∀ shown ∈ s.viewer.shown, shown.version = s.version → (∀ writer, ¬ (s.writers writer).Changing) →
    shown = snapshot s.version (emulator.screen s.parser)
  pending : ∀ shown, s.viewer = .asleep shown → shown.version ≠ s.version → ∃ writer change, s.writers writer = .counted change
  closed : ∀ writer, (s.writers writer = .changed .closed → s.ended.isSome = true) ∧
    (s.writers writer = .counted .closed ∨ s.writers writer = .returned → s.ended.isSome = true ∧ .closed ∈ s.changes)

section

variable {emulator} {s s' : State σ} {e : Event} {writer : Writer} {phase : Phase}

theorem writers_at (s : State σ) (writer : Writer) (phase : Phase) : (s.at' writer phase).writers writer = phase :=
  Function.update_self _ _ _

theorem writers_at_ne {other : Writer} (h : other ≠ writer) (s : State σ) (phase : Phase) :
    (s.at' writer phase).writers other = s.writers other := Function.update_of_ne h _ _

theorem inv_start (parser : σ) : (start parser).Inv emulator :=
  ⟨rfl, nofun, nofun, nofun, fun _ => ⟨nofun, fun h => h.elim nofun nofun⟩⟩

/-- A writer changes the screen, or is about to change the version. -/
theorem Inv.changing (hs : s.Inv emulator) (hwriters : s'.writers = (s.at' writer phase).writers)
    (hphase : phase.Changing) (hold : ∀ change, s.writers writer ≠ .counted change) (hviewer : s'.viewer = s.viewer)
    (hversion : s'.version = s.version) (hchanges : s'.changes = s.changes)
    (hended : s.ended.isSome = true → s'.ended.isSome = true)
    (hclosed : phase = .changed .closed → s'.ended.isSome = true) : s'.Inv emulator where
  counted := by rw [hversion, hchanges, hs.counted]
  behind := by rw [hviewer, hversion]; exact hs.behind
  fresh := fun shown _ _ hquiet => by
    have hnot := hquiet writer
    rw [hwriters, writers_at] at hnot
    exact absurd hphase hnot
  pending := fun shown hasleep hne => by
    rw [hviewer] at hasleep
    rw [hversion] at hne
    obtain ⟨other, change, hother⟩ := hs.pending shown hasleep hne
    have hne : other ≠ writer := by
      rintro rfl
      exact hold change hother
    exact ⟨other, change, by rw [hwriters, writers_at_ne hne, hother]⟩
  closed := fun other => by
    rw [hwriters, hchanges]
    by_cases hother : other = writer
    · subst hother
      rw [writers_at]
      refine ⟨hclosed, fun h => ?_⟩
      rcases h with rfl | rfl <;> cases hphase
    · rw [writers_at_ne hother]
      exact ⟨fun h => hended ((hs.closed other).1 h), fun h => ((hs.closed other).2 h).imp_left hended⟩

/-- The viewer goes on. -/
theorem Inv.viewing {viewer : Viewer} (hs : s.Inv emulator) (hbehind : ∀ version ∈ viewer.seen, version ≤ s.version)
    (hfresh : ∀ shown ∈ viewer.shown, shown.version = s.version → (∀ writer, ¬ (s.writers writer).Changing) →
      shown = snapshot s.version (emulator.screen s.parser))
    (hpending : ∀ shown, viewer = .asleep shown → shown.version = s.version) :
    State.Inv emulator { s with viewer } where
  counted := hs.counted
  behind := hbehind
  fresh := hfresh
  pending := fun shown hasleep hne => absurd (hpending shown hasleep) hne
  closed := hs.closed

/-- The version is changed. -/
theorem Inv.count (hs : s.Inv emulator) {change : Change} (hwriter : s.writers writer = .changed change) :
    State.Inv emulator { s.at' writer (.counted change) with
      version := s.version + 1, changes := s.changes ++ [change] } where
  counted := by rw [List.length_append, hs.counted]; rfl
  behind := fun version hversion => Nat.le_succ_of_le (hs.behind version hversion)
  fresh := fun shown hshown hversion => by
    have hle := hs.behind _ (Viewer.version_mem_seen hshown)
    have hversion : shown.version = s.version + 1 := hversion
    omega
  pending := fun shown _ _ => ⟨writer, change, writers_at s writer _⟩
  closed := fun other => by
    by_cases hother : other = writer
    · subst hother
      rw [writers_at]
      refine ⟨nofun, fun h => ?_⟩
      rcases h with h | h
      · obtain rfl := Phase.counted.inj h
        exact ⟨(hs.closed other).1 hwriter, List.mem_append_right _ (List.mem_singleton_self _)⟩
      · cases h
    · rw [writers_at_ne hother]
      exact ⟨(hs.closed other).1, fun h => ((hs.closed other).2 h).imp_right (List.mem_append_left _)⟩

/-- Whoever waits is notified. -/
theorem Inv.notify (hs : s.Inv emulator) {change : Change} (hwriter : s.writers writer = .counted change)
    {viewer : Viewer} (hshown : viewer.shown = s.viewer.shown) (hseen : viewer.seen = s.viewer.seen)
    (hawake : ∀ shown, viewer ≠ .asleep shown) :
    State.Inv emulator { s.at' writer (if change = .closed then .returned else .idle) with viewer } where
  counted := hs.counted
  behind := by rw [hseen]; exact hs.behind
  fresh := fun shown hmem hversion hquiet => by
    refine hs.fresh shown (hshown ▸ hmem) hversion fun other hchanging => ?_
    by_cases hother : other = writer
    · subst hother
      rw [hwriter] at hchanging
      exact hchanging
    · refine hquiet other ?_
      rw [writers_at_ne hother]
      exact hchanging
  pending := fun shown hasleep => absurd hasleep (hawake shown)
  closed := fun other => by
    by_cases hother : other = writer
    · subst hother
      rw [writers_at]
      split
      · rename_i hclosed
        subst hclosed
        exact ⟨nofun, fun _ => (hs.closed other).2 (.inl hwriter)⟩
      · exact ⟨nofun, fun h => h.elim nofun nofun⟩
    · rw [writers_at_ne hother]
      exact hs.closed other

/-- **What every step preserves**: a viewer whose version is the current one shows the screen, unless a
change is in progress; and one that sleeps though its version is not is about to be notified. -/
theorem Inv.step (hs : s.Inv emulator) (h : s.step emulator e = some s') : s'.Inv emulator := by
  have hidle {writer : Writer} (hwriter : s.writers writer = .idle) (change : Change) :
      s.writers writer ≠ .counted change := by
    rw [hwriter]
    nofun
  cases e with
  | data bytes =>
    dsimp only [State.step] at h
    split at h
    · rename_i hreader
      obtain rfl := Option.some.inj h
      exact hs.changing rfl trivial (hidle hreader) rfl rfl rfl id nofun
    · cases h
  | exited code =>
    dsimp only [State.step] at h
    split at h
    · rename_i hreader
      obtain rfl := Option.some.inj h
      exact hs.changing rfl trivial (hidle hreader) rfl rfl rfl (fun _ => rfl) nofun
    · cases h
  | closed =>
    dsimp only [State.step] at h
    split at h
    · rename_i hreader
      obtain rfl := Option.some.inj h
      exact hs.changing rfl trivial (hidle hreader) rfl rfl rfl (fun _ => rfl) fun _ => rfl
    · cases h
  | resize id _ | scroll id _ =>
    dsimp only [State.step] at h
    split at h
    · rename_i hcaller
      obtain rfl := Option.some.inj h
      exact hs.changing rfl trivial (hidle hcaller) rfl rfl rfl (fun h => h) nofun
    · cases h
  | tell id =>
    dsimp only [State.step] at h
    split at h
    · rename_i size hcaller
      obtain rfl := Option.some.inj h
      exact hs.changing rfl trivial (fun change => by rw [hcaller]; nofun) rfl rfl rfl (fun h => h) nofun
    · cases h
  | count writer =>
    dsimp only [State.step] at h
    split at h
    · rename_i change hwriter
      obtain rfl := Option.some.inj h
      exact hs.count hwriter
    · cases h
  | notify writer =>
    dsimp only [State.step] at h
    split at h
    · rename_i change hwriter
      obtain rfl := Option.some.inj h
      cases hviewer : s.viewer <;> refine hs.notify hwriter ?_ ?_ nofun <;> rw [hviewer] <;> rfl
    · cases h
  | readVersion =>
    dsimp only [State.step] at h
    split at h
    · obtain rfl := Option.some.inj h
      exact hs.viewing (fun version hversion => (Option.some.inj hversion).ge) nofun nofun
    · obtain rfl := Option.some.inj h
      exact hs.viewing (fun version hversion => (Option.some.inj hversion).ge) nofun nofun
    · cases h
  | readScreen =>
    dsimp only [State.step] at h
    split at h
    · rename_i version hviewer
      obtain rfl := Option.some.inj h
      have hle := hs.behind version (by rw [hviewer]; rfl)
      refine hs.viewing (fun seen hseen => Option.some.inj hseen ▸ hle) (fun shown hshown hversion _ => ?_) nofun
      -- the screen is read behind the version
      obtain rfl := Option.some.inj hshown
      have hversion : version = s.version := hversion
      rw [hversion]
    · cases h
  | wake timedOut =>
    dsimp only [State.step] at h
    split at h
    · rename_i shown hviewer
      obtain rfl := Option.some.inj h
      have hbehind := hs.behind
      have hfresh := hs.fresh
      rw [hviewer] at hbehind hfresh
      exact hs.viewing hbehind hfresh nofun
    · cases h
  | compare expired =>
    dsimp only [State.step] at h
    split at h
    · rename_i shown timedOut hviewer
      have hbehind := hs.behind
      have hfresh := hs.fresh
      rw [hviewer] at hbehind hfresh
      split at h
      · obtain rfl := Option.some.inj h
        exact hs.viewing nofun nofun nofun
      · rename_i hversion
        split at h
        · obtain rfl := Option.some.inj h
          exact hs.viewing hbehind hfresh nofun
        · obtain rfl := Option.some.inj h
          exact hs.viewing hbehind hfresh fun asleep hasleep =>
            Viewer.asleep.inj hasleep ▸ (of_not_not hversion).symm
    · cases h

end

end State

section

variable {σ : Type} {emulator : Emulator σ} {s s' : State σ} {es : List Event} {parser : σ} {shown : Snapshot}

theorem State.Inv.run (h : es.foldlM (State.step emulator) (State.start parser) = some s) : s.Inv emulator :=
  Run.invariant (fun _ _ _ hs _ h => State.Inv.step hs h) es _ s (State.inv_start parser) (fun _ _ => trivial) h

/-- What is shown with the current version is all there is, where no change is in progress. -/
theorem State.Inv.shows (hs : s.Inv emulator) (hquiet : s.Quiet) (hshown : shown ∈ s.viewer.shown)
    (hversion : shown.version = s.version) : s.Shows emulator shown where
  current := hs.fresh shown hshown hversion fun writer hchanging => by
    rcases hquiet writer with h | h <;> rw [h] at hchanging <;> exact hchanging
  ended := fun hreturned => by
    refine ((hs.closed .reader).2 (.inr hreturned)).imp_right fun hclosed => ?_
    rwa [hversion, hs.counted, Nat.add_sub_cancel, List.take_length]

end

/-- One line of text, as an emulator keeps it while it has room. -/
def lineEmulator : Emulator (Text × TerminalSize × ℕ) where
  process s bytes := (s.1 ++ bytes.map fun byte => Char.ofNat byte.toNat, s.2)
  setSize s rows cols := (s.1, ⟨cols, rows⟩, s.2.2)
  setScrollback s lines := (s.1, s.2.1, lines)
  screen s :=
    { rows := s.2.1.rows
      cols := s.2.1.cols
      cell := fun row col =>
        some ⟨if row = 0 then (s.1[col]?).toList else [], false, .default, .default, false, false, false, false⟩
      hideCursor := false
      cursorPosition := (0, s.1.length)
      alternateScreen := false
      scrollback := s.2.2 }

/-- Output, a new size and the end, each between two looks of the viewer. -/
def lastWords : List Event :=
  [.readVersion, .data [0x68, 0x69], .readScreen, .compare false, .count .reader, .resize 0 ⟨20, 2⟩, .notify .reader,
    .compare false, .closed, .readVersion, .tell 0, .readScreen, .count (.caller 0), .compare false, .count .reader,
    .readVersion, .notify .reader, .readScreen, .notify (.caller 0), .compare false]

end WindowCast.Terminal.Redraw
