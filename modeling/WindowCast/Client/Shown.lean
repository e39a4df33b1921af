import WindowCast.Lib.Latest
import WindowCast.Lib.Run
import WindowCast.Lib.Table
import WindowCast.Lib.Walk
import WindowCast.Host.Limits
import WindowCast.Transport.RemoteWindow

/-!
# The windows a client shows

`follow`, `start_window`, `stop_window` and `next_event` of `client-core/src/lib.rs`: the
windows the user starts, and those they own, which are shown with them as they open and
stopped with them.  The table of shown windows is all that `follow` knows of what was
started; the host says what is listed and who owns whom, as it likes.

A request to start a window carries the codecs here; its backend, its limits and its
generation have no bearing on what is shown.

## Main definitions

* `ClientSession`, `ClientSession.step` — the session, its queue of events, and what happened so far.
* `Owned` — a window is owned by another directly or through shown ones.
* `Settled` — a window was followed, or stopped by hand, and has been listed since.

## Main results

* `ClientSession.stopWindow_eq_walk` — stopping a window is a walk through the shown ones.
* `ClientSession.follow_iff` — **what is stopped, what is followed, and when nothing is followed anew.**
-/

namespace WindowCast.Client

open WindowCast.Host (WindowId)
open WindowCast.Transport (VideoCodec)

namespace Shown

/-- What the host says of a window, as far as it matters here. -/
structure WindowInfo where
  id : WindowId
  owner : Option WindowId
  deriving DecidableEq, Repr

/-- What the session asks of the host. -/
inductive ControlMessage
  | streamStartRequest (window : WindowId) (codecs : List VideoCodec)
  | streamStopRequest (window : WindowId)
  deriving DecidableEq, Repr

inductive Event
  | windows (windows : List WindowInfo)
  | streamRefused (window : WindowId)
  | streamStopped (window : WindowId)
  deriving DecidableEq, Repr

/-- What happened to the session. -/
inductive Entry
  /-- The application was given a list; `following` if popups are followed. -/
  | listed (windows : List WindowInfo) (following : Bool)
  | followed (window : WindowId)
  /-- The user started it. -/
  | started (window : WindowId)
  /-- The user asked to stop it. -/
  | byHand (window : WindowId)
  | stopped (window : WindowId)
  /-- Its stream ended. -/
  | ended (window : WindowId)
  deriving DecidableEq, Repr

structure ClientSession where
  /-- The windows shown, with the codecs they were started with. -/
  shown : AList fun _ : WindowId => List VideoCodec
  /-- The list that came last. -/
  windows : List WindowInfo
  followPopups : Bool
  events : List Event
  sent : List ControlMessage
  log : List Entry

namespace ClientSession

def new : ClientSession := ⟨∅, [], true, [], [], []⟩

def startWindow (self : ClientSession) (window : WindowId) (codecs : List VideoCodec) : ClientSession :=
  { self with
    shown := self.shown.insert window codecs
    sent := self.sent ++ [.streamStartRequest window codecs] }

/-- The windows to start: their owner is shown, and they are not. -/
def starts (shown : AList fun _ : WindowId => List VideoCodec) (windows : List WindowInfo) :
    List (WindowId × List VideoCodec) :=
  (windows.filter fun w => w.id ∉ shown).filterMap fun w =>
    (w.owner.bind fun owner => shown.lookup owner).map fun codecs => (w.id, codecs)

/-- Whether the list names the window. -/
def Names (windows : List WindowInfo) (window : WindowId) : Bool := windows.any fun w => w.id = window

/-- A window is started because its owner is shown. -/
def followOne (self : ClientSession) (start : WindowId × List VideoCodec) : ClientSession :=
  { self.startWindow start.1 start.2 with log := self.log ++ [.followed start.1] }

/-- Starts showing the windows owned by shown windows that are not shown yet, and forgets
shown windows no longer listed. -/
def follow (self : ClientSession) (windows : List WindowInfo) : ClientSession :=
  let shown := self.shown.retain fun id _ => Names windows id
  let self := { self with shown := shown, log := self.log ++ [.listed windows self.followPopups] }
  if !self.followPopups then self
  else (starts shown windows).foldl followOne self

/-- The windows it owns go with it. -/
def stopWindow : ℕ → WindowId → ClientSession → Option ClientSession
  | 0, _, _ => none
  | fuel + 1, window, self =>
    let self := { self with shown := self.shown.retain fun id _ => id ≠ window }
    let owned := (self.windows.filter fun w => w.owner = some window ∧ w.id ∈ self.shown).map WindowInfo.id
    (owned.foldlM (fun self popup => stopWindow fuel popup self) self).map fun self =>
      { self with
        sent := self.sent ++ [.streamStopRequest window]
        log := self.log ++ [.stopped window] }

/-- What the session does with an event before the application sees it. -/
def nextEvent (self : ClientSession) : Event → ClientSession
  | .windows windows => self.follow windows
  -- A refused window stays counted, so it is not followed again at every list.
  | .streamRefused _ => self
  | .streamStopped window =>
    { self with shown := self.shown.retain fun id _ => id ≠ window, log := self.log ++ [.ended window] }

end ClientSession

inductive Action
  /-- The host sends something that becomes an event. -/
  | receive (event : Event)
  /-- The application takes the next event. -/
  | nextEvent
  | startWindow (window : WindowId) (codecs : List VideoCodec)
  | stopWindow (window : WindowId)
  | setFollowPopups (on : Bool)
  deriving DecidableEq, Repr

namespace ClientSession

/-- With one turn for each shown window and one more, `stopWindow` ends
(`stopWindow_eq_walk`, `Walk.walk_total`). -/
def step (self : ClientSession) : Action → Option ClientSession
  | .receive event =>
    let windows := match event with
      | .windows windows => windows
      | _ => self.windows
    some { self with windows := windows, events := self.events ++ [event] }
  | .nextEvent =>
    match self.events with
    | [] => none
    | event :: events => some (({ self with events := events } : ClientSession).nextEvent event)
  | .startWindow window codecs =>
    let self := self.startWindow window codecs
    some { self with log := self.log ++ [.started window] }
  | .stopWindow window =>
    stopWindow (self.shown.entries.length + 1) window { self with log := self.log ++ [.byHand window] }
  | .setFollowPopups on => some { self with followPopups := on }

/-! ### Stopping a window -/

/-- The windows a list says another owns. -/
def owns (windows : List WindowInfo) (owner : WindowId) : List WindowId :=
  (windows.filter fun w => w.owner = some owner).map WindowInfo.id

/-- Windows are stopped, one after the other. -/
def stopAll (self : ClientSession) (visited : List WindowId) : ClientSession :=
  { self with
    shown := self.shown.retain fun id _ => id ∉ visited
    sent := self.sent ++ visited.map .streamStopRequest
    log := self.log ++ visited.map .stopped }

@[simp] theorem stopAll_windows (self : ClientSession) (visited : List WindowId) :
    (self.stopAll visited).windows = self.windows := rfl

theorem keys_stopAll (self : ClientSession) (visited : List WindowId) :
    (self.stopAll visited).shown.keys = self.shown.keys.filter fun id => id ∉ visited :=
  AList.keys_retain self.shown fun id => decide (id ∉ visited)

theorem stopAll_nil (self : ClientSession) : self.stopAll [] = self := by
  have hshown : (self.shown.retain fun id _ => decide (id ∉ ([] : List WindowId))) = self.shown := by
    refine AList.ext ?_
    exact List.filter_eq_self.mpr fun entry _ => decide_eq_true List.not_mem_nil
  rw [stopAll, hshown, List.map_nil, List.map_nil, List.append_nil, List.append_nil]

theorem stopAll_append (self : ClientSession) (visited visited' : List WindowId) :
    self.stopAll (visited ++ visited') = (self.stopAll visited).stopAll visited' := by
  simp only [stopAll, AList.retain_retain, List.map_append, List.append_assoc, List.mem_append, not_or,
    Bool.decide_and]

/-- Stopping one window after the other is walking from one after the other. -/
theorem foldlM_stopWindow {fuel : ℕ} (h : ∀ window (self : ClientSession), stopWindow fuel window self
      = (Walk.walk (owns self.windows) fuel window self.shown.keys).map fun r => self.stopAll r.2)
    (popups : List WindowId) (self : ClientSession) :
    popups.foldlM (fun self popup => stopWindow fuel popup self) self
      = (Walk.through (Walk.walk (owns self.windows) fuel) popups self.shown.keys).map
          fun r => self.stopAll r.2 := by
  induction popups generalizing self with
  | nil =>
    rw [List.foldlM_nil, Walk.through, Option.map_some, stopAll_nil]
    rfl
  | cons popup popups ih =>
    rw [List.foldlM_cons, h popup self, Walk.through]
    cases hfirst : Walk.walk (owns self.windows) fuel popup self.shown.keys with
    | none => rfl
    | some first =>
      -- what the first walk leaves is what is still shown
      have hkeys : (self.stopAll first.2).shown.keys = first.1 := by
        rw [keys_stopAll, (Walk.walked hfirst).left]
      rw [Option.map_some, Option.bind_eq_bind, Option.bind_some, Option.bind_some, ih, hkeys, stopAll_windows,
        Option.map_map]
      refine congrArg (fun f => Option.map f _) (funext fun rest => ?_)
      exact (stopAll_append self first.2 rest.2).symm

/-- **Stopping a window is a walk through the shown ones.** -/
theorem stopWindow_eq_walk (fuel : ℕ) (window : WindowId) (self : ClientSession) :
    stopWindow fuel window self
      = (Walk.walk (owns self.windows) fuel window self.shown.keys).map fun r => self.stopAll r.2 := by
  induction fuel generalizing window self with
  | zero => rfl
  | succ fuel ih =>
    rw [stopWindow, Walk.walk]
    simp only
    have hkeys := AList.keys_retain self.shown fun id => decide (id ≠ window)
    have howned : ((self.windows.filter fun w => w.owner = some window
          ∧ w.id ∈ self.shown.retain fun id _ => decide (id ≠ window)).map WindowInfo.id)
        = (owns self.windows window).filter fun y => y ∈ self.shown.keys.filter fun y => decide (y ≠ window) := by
      rw [owns, List.filter_map, List.filter_filter, ← hkeys]
      refine congrArg (List.map WindowInfo.id) (List.filter_congr fun w _ => ?_)
      simp only [Function.comp_apply, Bool.decide_and, Bool.and_comm, AList.mem_keys]
    rw [howned, foldlM_stopWindow ih, hkeys, Option.map_map, Option.map_map]
    refine congrArg (fun f => Option.map f _) (funext fun rest => ?_)
    simp only [Function.comp_apply, stopAll, AList.retain_retain, List.map_append, List.map_cons, List.map_nil,
      List.append_assoc, List.mem_append, List.mem_singleton, not_or, Bool.decide_and, Bool.and_comm]

/-- A window goes with another: it is that window, or shown and owned by it directly or
through shown ones. -/
def GoesWith (self : ClientSession) : WindowId → WindowId → Prop :=
  Relation.ReflTransGen fun a b => (∃ w ∈ self.windows, w.id = b ∧ w.owner = some a) ∧ b ∈ self.shown

theorem goesWith_iff (self : ClientSession) (window y : WindowId) :
    self.GoesWith window y ↔ Walk.Reaches (owns self.windows) self.shown.keys window y := by
  have hstep : (fun a b => (∃ w ∈ self.windows, w.id = b ∧ w.owner = some a) ∧ b ∈ self.shown)
      = fun a b => b ∈ owns self.windows a ∧ b ∈ self.shown.keys := by
    funext a b
    refine propext (and_congr ?_ AList.mem_keys)
    simp only [owns, List.mem_map, List.mem_filter, decide_eq_true_eq]
    exact exists_congr fun w => by tauto
  rw [GoesWith, Walk.Reaches, hstep]

/-- **Stopping ends**, and stops exactly what goes with the window. -/
theorem stopWindow_spec (self : ClientSession) (window : WindowId) :
    ∃ visited, (∀ fuel, self.shown.entries.length < fuel → stopWindow fuel window self = some (self.stopAll visited)) ∧
      ∀ y, y ∈ visited ↔ self.GoesWith window y := by
  have hlength : (self.shown.keys.filter fun y => y ≠ window).length ≤ self.shown.entries.length := by
    refine (List.length_filter_le _ _).trans (Nat.le_of_eq ?_)
    exact List.length_map _
  obtain ⟨r, hr⟩ : ∃ r, Walk.walk (owns self.windows) (self.shown.entries.length + 1) window self.shown.keys
      = some r := Walk.walk_total (Nat.lt_succ_of_le hlength)
  refine ⟨r.2, fun fuel hfuel => ?_, fun y => ?_⟩
  · rw [stopWindow_eq_walk, Walk.walk_mono hr hfuel, Option.map_some]
  · rw [(Walk.walked hr).mem_iff, goesWith_iff]
    simp only [List.mem_singleton, exists_eq_left]

end ClientSession

/-! ### What the log says of a window -/

inductive Status
  | shown
  /-- It was stopped, or its stream ended. -/
  | gone
  | unlisted
  deriving DecidableEq, Repr

/-- What an entry says of a window. -/
def about (id : WindowId) : Entry → Option Status
  | .listed windows _ => if ClientSession.Names windows id then none else some .unlisted
  | .followed window | .started window => if window = id then some .shown else none
  | .byHand window | .stopped window | .ended window => if window = id then some .gone else none

/-- The list that the application was given. -/
def lastList : Entry → Option (List WindowInfo)
  | .listed windows _ => some windows
  | _ => none

/-- The window was followed, or stopped by hand while it was listed, and has been listed since. -/
def Settled (id : WindowId) (log : List Entry) : Prop :=
  ∃ earlier entry later, log = earlier ++ entry :: later ∧
    (entry = .followed id ∨ entry = .byHand id ∧
      ∃ windows, latest lastList earlier = some windows ∧ ClientSession.Names windows id = true) ∧
    ∀ windows on, Entry.listed windows on ∈ later → ClientSession.Names windows id = true

/-- Whatever is followed has an owner that is shown. -/
def OwnerShown (before : List Entry) (entry : Entry) : Prop :=
  ∀ id, entry = .followed id → ∃ windows w owner, latest lastList before = some windows ∧ w ∈ windows ∧
    w.id = id ∧ w.owner = some owner ∧ latest (about owner) before = some .shown

/-- What is followed was not followed before, nor stopped by hand, while it has been listed. -/
def Anew (before : List Entry) (entry : Entry) : Prop := ∀ id, entry = .followed id → ¬ Settled id before

/-- The entries of a list for windows that are not shown and whose owner is. -/
def toFollow (before : List Entry) (windows : List WindowInfo) : List WindowInfo :=
  windows.filter fun w => latest (about w.id) before ≠ some .shown ∧
    ∃ owner, w.owner = some owner ∧ latest (about owner) before = some .shown

/-- A list that names no window twice that is to be followed; and no window in it whose
owner is shown was stopped, or its stream ended, since it was followed or stopped by hand. -/
def Lasting (before : List Entry) (entry : Entry) : Prop :=
  ∀ windows, entry = .listed windows true →
    ((toFollow (before ++ [entry]) windows).map WindowInfo.id).Nodup ∧
    ∀ w ∈ windows, ∀ owner, w.owner = some owner → latest (about owner) (before ++ [entry]) = some .shown →
      ¬ (latest (about w.id) before = some .gone ∧ Settled w.id before)

/-- A window that was followed or stopped by hand, and has been listed since, is shown or gone. -/
theorem Settled.status {id : WindowId} {log : List Entry} (h : Settled id log) :
    latest (about id) log = some .shown ∨ latest (about id) log = some .gone := by
  obtain ⟨earlier, entry, later, rfl, hentry, hlisted⟩ := h
  have hword : about id entry = some .shown ∨ about id entry = some .gone := by
    rcases hentry with rfl | ⟨rfl, -⟩
    · exact .inl (if_pos rfl)
    · exact .inr (if_pos rfl)
  have hnot : latest (about id) later ≠ some .unlisted := by
    intro hunlisted
    obtain ⟨entry', hmem, hword⟩ := exists_of_latest hunlisted
    cases entry' with
    | listed windows on =>
      rw [about, hlisted windows on hmem] at hword
      cases hword
    | followed | started | byHand | stopped | ended =>
      rw [about] at hword
      split at hword <;> cases hword
  rw [List.append_cons, latest_append, latest_concat]
  cases hlater : latest (about id) later with
  | none =>
    rw [Option.none_or]
    rcases hword with hword | hword
    · exact .inl (by rw [hword]; rfl)
    · exact .inr (by rw [hword]; rfl)
  | some status =>
    cases status with
    | shown => exact .inl rfl
    | gone => exact .inr rfl
    | unlisted => exact absurd hlater hnot

theorem settled_listed {id : WindowId} {log : List Entry} {windows : List WindowInfo} {on : Bool} :
    Settled id (log ++ [.listed windows on]) ↔ Settled id log ∧ ClientSession.Names windows id = true := by
  constructor
  · rintro ⟨earlier, entry, later, heq, hentry, hlisted⟩
    rcases List.eq_nil_or_concat later with rfl | ⟨later, last, rfl⟩
    · obtain ⟨-, hlast⟩ := List.append_inj' heq rfl
      cases hlast
      rcases hentry with hentry | ⟨hentry, -⟩ <;> cases hentry
    · rw [List.concat_eq_append, ← List.cons_append, ← List.append_assoc] at heq
      obtain ⟨rfl, hlast⟩ := List.append_inj' heq rfl
      cases hlast
      rw [List.concat_eq_append] at hlisted
      refine ⟨⟨earlier, entry, later, rfl, hentry, fun windows' on' hmem => ?_⟩, ?_⟩
      · exact hlisted windows' on' (List.mem_append_left _ hmem)
      · exact hlisted windows on (List.mem_append_right _ (List.mem_singleton_self _))
  · rintro ⟨⟨earlier, entry, later, rfl, hentry, hlisted⟩, hnames⟩
    refine ⟨earlier, entry, later ++ [.listed windows on], by simp, hentry, fun windows' on' hmem => ?_⟩
    rcases List.mem_append.mp hmem with hmem | hmem
    · exact hlisted windows' on' hmem
    · cases List.mem_singleton.mp hmem
      exact hnames

theorem settled_followed {id window : WindowId} {log : List Entry} :
    Settled id (log ++ [.followed window]) ↔ window = id ∨ Settled id log := by
  constructor
  · rintro ⟨earlier, entry, later, heq, hentry, hlisted⟩
    rcases List.eq_nil_or_concat later with rfl | ⟨later, last, rfl⟩
    · obtain ⟨-, hlast⟩ := List.append_inj' heq rfl
      cases hlast
      rcases hentry with hentry | ⟨hentry, -⟩
      · cases hentry
        exact .inl rfl
      · cases hentry
    · rw [List.concat_eq_append, ← List.cons_append, ← List.append_assoc] at heq
      obtain ⟨rfl, -⟩ := List.append_inj' heq rfl
      rw [List.concat_eq_append] at hlisted
      refine .inr ⟨earlier, entry, later, rfl, hentry, fun windows' on' hmem => ?_⟩
      exact hlisted windows' on' (List.mem_append_left _ hmem)
  · rintro (rfl | ⟨earlier, entry, later, rfl, hentry, hlisted⟩)
    · exact ⟨log, _, [], rfl, .inl rfl, nofun⟩
    · refine ⟨earlier, entry, later ++ [.followed window], by simp, hentry, fun windows' on' hmem => ?_⟩
      rcases List.mem_append.mp hmem with hmem | hmem
      · exact hlisted windows' on' hmem
      · exact absurd (List.mem_singleton.mp hmem) nofun

/-! ### What following adds to the log -/

section

variable {base : List Entry} {ids : List WindowId}

theorem settled_followed_all {id : WindowId} :
    Settled id (base ++ ids.map .followed) ↔ id ∈ ids ∨ Settled id base := by
  induction ids using List.reverseRecOn with
  | nil => simp only [List.map_nil, List.append_nil, List.not_mem_nil, false_or]
  | append_singleton ids window ih =>
    rw [List.map_append, ← List.append_assoc, List.map_singleton, settled_followed, ih, List.mem_append,
      List.mem_singleton]
    tauto

/-- Windows that are followed one after the other are followed anew exactly if they differ
and none is settled before. -/
theorem always_anew_followed :
    Run.Always Anew (base ++ ids.map .followed) ↔
      Run.Always Anew base ∧ ids.Nodup ∧ ∀ id ∈ ids, ¬ Settled id base := by
  induction ids using List.reverseRecOn with
  | nil => simp only [List.map_nil, List.append_nil, List.nodup_nil, List.not_mem_nil, false_implies,
      implies_true, and_true]
  | append_singleton ids window ih =>
    have hanew : Anew (base ++ ids.map .followed) (.followed window) ↔ window ∉ ids ∧ ¬ Settled window base := by
      have hiff : ¬ Settled window (base ++ ids.map .followed) ↔ window ∉ ids ∧ ¬ Settled window base := by
        rw [settled_followed_all, not_or]
      rw [← hiff]
      constructor
      · exact fun h => h window rfl
      · intro h id heq
        cases heq
        exact h
    rw [List.map_append, ← List.append_assoc, List.map_singleton, Run.always_concat, ih, hanew,
      ← List.concat_eq_append, List.nodup_concat, List.concat_eq_append]
    simp only [List.mem_append, List.mem_singleton, or_imp, forall_and, forall_eq]
    tauto

theorem always_lasting_followed :
    Run.Always Lasting (base ++ ids.map .followed) ↔ Run.Always Lasting base := by
  refine Run.always_append fun entry hentry before windows heq => ?_
  obtain ⟨id, -, rfl⟩ := List.mem_map.mp hentry
  cases heq

end

/-- A list is followed anew exactly if it is as it should be. -/
theorem followed_anew_iff {log : List Entry} {windows : List WindowInfo} :
    (((toFollow (log ++ [.listed windows true]) windows).map WindowInfo.id).Nodup ∧
        ∀ id ∈ (toFollow (log ++ [.listed windows true]) windows).map WindowInfo.id,
          ¬ Settled id (log ++ [.listed windows true])) ↔
      Lasting log (.listed windows true) := by
  have hnames {w : WindowInfo} (hw : w ∈ windows) : ClientSession.Names windows w.id = true :=
    List.any_eq_true.mpr ⟨w, hw, decide_eq_true rfl⟩
  have hstatus {w : WindowInfo} (hw : w ∈ windows) :
      latest (about w.id) (log ++ [.listed windows true]) = latest (about w.id) log := by
    rw [latest_concat, about, if_pos (hnames hw), Option.none_or]
  constructor
  · rintro ⟨hnodup, hnew⟩ windows' heq
    cases heq
    refine ⟨hnodup, fun w hw owner howner hshown => ?_⟩
    rintro ⟨hgone, hsettled⟩
    refine hnew w.id (List.mem_map_of_mem (List.mem_filter.mpr ⟨hw, decide_eq_true ⟨?_, owner, howner, hshown⟩⟩)) ?_
    · rw [hstatus hw, hgone]
      decide
    · exact settled_listed.mpr ⟨hsettled, hnames hw⟩
  · intro h
    obtain ⟨hnodup, hlasting⟩ := h windows rfl
    refine ⟨hnodup, fun id hid hsettled => ?_⟩
    obtain ⟨w, hw, rfl⟩ := List.mem_map.mp hid
    obtain ⟨hw, hfollow⟩ := List.mem_filter.mp hw
    obtain ⟨hnot, owner, howner, hshown⟩ := of_decide_eq_true hfollow
    have hsettled := (settled_listed.mp hsettled).1
    -- it is not shown, so it is gone
    rcases hsettled.status with hstat | hstat
    · exact hnot ((hstatus hw).trans hstat)
    · exact hlasting w hw owner howner hshown ⟨hstat, hsettled⟩

/-! ### What every step preserves -/

namespace ClientSession

variable {self s' : ClientSession}

/-- Shown is what the log says was started and has not gone since. -/
def Known (self : ClientSession) : Prop := ∀ id, id ∈ self.shown ↔ latest (about id) self.log = some .shown

structure Inv (s : ClientSession) : Prop where
  known : s.Known
  owner : Run.Always OwnerShown s.log
  anew : Run.Always Anew s.log ↔ Run.Always Lasting s.log

theorem inv_new : new.Inv := by
  refine ⟨fun id => ?_, Run.always_nil, iff_of_true Run.always_nil Run.always_nil⟩
  exact iff_of_false (AList.notMem_empty id) nofun

/-- Entries that are neither lists nor follow anything. -/
theorem Inv.quiet (h : self.Inv) {entries : List Entry} (hlog : s'.log = self.log ++ entries) (hknown : s'.Known)
    (hlisted : ∀ entry ∈ entries, ∀ windows, entry ≠ .listed windows true)
    (hfollowed : ∀ entry ∈ entries, ∀ id, entry ≠ .followed id) : s'.Inv := by
  have howner : ∀ entry ∈ entries, ∀ before, OwnerShown before entry :=
    fun entry hentry before id heq => absurd heq (hfollowed entry hentry id)
  have hanew : ∀ entry ∈ entries, ∀ before, Anew before entry :=
    fun entry hentry before id heq => absurd heq (hfollowed entry hentry id)
  have hlasting : ∀ entry ∈ entries, ∀ before, Lasting before entry :=
    fun entry hentry before windows heq => absurd heq (hlisted entry hentry windows)
  refine ⟨hknown, ?_, ?_⟩
  · rw [hlog]
    exact (Run.always_append howner).mpr h.owner
  · rw [hlog, Run.always_append hanew, Run.always_append hlasting]
    exact h.anew

theorem Inv.quietOne (h : self.Inv) {entry : Entry} (hlog : s'.log = self.log ++ [entry]) (hknown : s'.Known)
    (hlisted : ∀ windows, entry ≠ .listed windows true) (hfollowed : ∀ id, entry ≠ .followed id) : s'.Inv := by
  refine h.quiet hlog hknown ?_ ?_
  · exact fun entry' hentry => List.mem_singleton.mp hentry ▸ hlisted
  · exact fun entry' hentry => List.mem_singleton.mp hentry ▸ hfollowed

theorem known_listed (h : self.Known) (windows : List WindowInfo) :
    ({ self with
      shown := self.shown.retain fun id _ => Names windows id
      log := self.log ++ [.listed windows self.followPopups] } : ClientSession).Known := by
  intro id
  simp only
  rw [latest_concat, about, AList.mem_retain, h id]
  cases hnames : Names windows id with
  | true => rw [if_pos rfl, Option.none_or]; exact and_iff_left rfl
  | false => exact iff_of_false (fun h => absurd h.2 Bool.false_ne_true) nofun

theorem known_started (h : self.Known) (window : WindowId) (codecs : List VideoCodec) {entry : Entry}
    (hentry : ∀ id, about id entry = if window = id then some .shown else none) :
    ({ self.startWindow window codecs with log := self.log ++ [entry] } : ClientSession).Known := by
  intro id
  simp only [startWindow]
  rw [AList.mem_insert, latest_concat, hentry, h id]
  by_cases hid : window = id
  · rw [if_pos hid]
    exact iff_of_true (.inl hid.symm) rfl
  · rw [if_neg hid, Option.none_or]
    exact or_iff_right (Ne.symm hid)

theorem latest_gone {log : List Entry} {entry : WindowId → Entry}
    (hentry : ∀ window id, about id (entry window) = if window = id then some .gone else none)
    (windows : List WindowId) (id : WindowId) :
    latest (about id) (log ++ windows.map entry) = if id ∈ windows then some .gone else latest (about id) log := by
  induction windows using List.reverseRecOn with
  | nil => rw [List.map_nil, List.append_nil, if_neg List.not_mem_nil]
  | append_singleton windows window ih =>
    rw [List.map_append, ← List.append_assoc, List.map_singleton, latest_concat, hentry, ih]
    by_cases hid : window = id
    · subst hid
      rw [if_pos rfl, if_pos (List.mem_append_right _ (List.mem_singleton_self _)), Option.some_or]
    · have hmem : id ∈ windows ++ [window] ↔ id ∈ windows := by
        rw [List.mem_append, List.mem_singleton]
        exact or_iff_left (Ne.symm hid)
      rw [if_neg hid, Option.none_or]
      exact if_congr hmem.symm rfl rfl

/-- What is gone is not shown. -/
theorem known_gone {log : List Entry} {entry : WindowId → Entry} {windows : List WindowId}
    (hknown : ∀ id, id ∉ windows → (id ∈ self.shown ↔ latest (about id) log = some .shown))
    (hentry : ∀ window id, about id (entry window) = if window = id then some .gone else none) :
    ∀ id, id ∈ self.shown.retain (fun id _ => id ∉ windows) ↔
      latest (about id) (log ++ windows.map entry) = some .shown := by
  intro id
  have hkeys : id ∈ self.shown.retain (fun id _ => decide (id ∉ windows)) ↔ id ∈ self.shown ∧ id ∉ windows :=
    AList.mem_retain.trans (and_congr_right fun _ => decide_eq_true_iff)
  rw [hkeys, latest_gone hentry]
  by_cases hid : id ∈ windows
  · rw [if_pos hid]
    exact iff_of_false (fun h => h.2 hid) nofun
  · rw [if_neg hid, ← hknown id hid]
    exact and_iff_left hid

/-- Who is started is who is to be followed. -/
theorem starts_eq_toFollow {shown : AList fun _ : WindowId => List VideoCodec} {log : List Entry}
    (hknown : ∀ id, id ∈ shown ↔ latest (about id) log = some .shown) (windows : List WindowInfo) :
    (starts shown windows).map Prod.fst = (toFollow log windows).map WindowInfo.id := by
  have howner (w : WindowInfo) : (w.owner.bind fun owner => shown.lookup owner).isSome = true ↔
      ∃ owner, w.owner = some owner ∧ latest (about owner) log = some .shown := by
    cases hw : w.owner with
    | none => exact iff_of_false nofun (by simp)
    | some owner =>
      rw [Option.bind_some, AList.lookup_isSome, hknown owner]
      simp only [Option.some.injEq, exists_eq_left']
  induction windows with
  | nil => rfl
  | cons w windows ih =>
    rw [starts, toFollow] at ih ⊢
    by_cases hshown : w.id ∈ shown
    · have hnot : ¬ (latest (about w.id) log ≠ some .shown ∧
          ∃ owner, w.owner = some owner ∧ latest (about owner) log = some .shown) :=
        fun h => h.1 ((hknown w.id).mp hshown)
      rw [List.filter_cons_of_neg (by simpa using hshown), List.filter_cons_of_neg (by simpa using hnot), ih]
    · rw [List.filter_cons_of_pos (by simpa using hshown), List.filterMap_cons]
      have hneg : latest (about w.id) log ≠ some .shown := fun h => hshown ((hknown w.id).mpr h)
      cases hcodecs : w.owner.bind fun owner => shown.lookup owner with
      | none =>
        have hnot : ¬ ∃ owner, w.owner = some owner ∧ latest (about owner) log = some .shown := by
          rw [← howner, hcodecs]
          exact Bool.false_ne_true
        rw [List.filter_cons_of_neg (by simpa using fun _ => hnot), Option.map_none]
        exact ih
      | some codecs =>
        have hpos := (howner w).mp (by rw [hcodecs]; rfl)
        rw [List.filter_cons_of_pos (by simpa using ⟨hneg, hpos⟩), Option.map_some, List.map_cons, List.map_cons]
        exact congrArg _ ih

/-- Windows that are followed one after the other, each for an owner that was shown. -/
theorem foldl_followOne {base : List Entry} {windows : List WindowInfo} :
    ∀ (starts : List (WindowId × List VideoCodec)) (self : ClientSession),
      (∀ start ∈ starts, ∃ w owner, w ∈ windows ∧ w.id = start.1 ∧ w.owner = some owner ∧
        latest (about owner) base = some .shown) →
      self.Known → Run.Always OwnerShown self.log → latest lastList self.log = some windows →
      (∀ id, latest (about id) base = some .shown → latest (about id) self.log = some .shown) →
      (starts.foldl followOne self).Known ∧ Run.Always OwnerShown (starts.foldl followOne self).log ∧
        (starts.foldl followOne self).log = self.log ++ (starts.map Prod.fst).map .followed := by
  intro starts
  induction starts with
  | nil => exact fun self _ hknown howner _ _ => ⟨hknown, howner, by simp⟩
  | cons start starts ih =>
    intro self hstarts hknown howner hlist hbase
    have howner' : OwnerShown self.log (.followed start.1) := by
      intro id heq
      cases heq
      obtain ⟨w, owner, hw, hid, hown, hshown⟩ := hstarts start List.mem_cons_self
      exact ⟨windows, w, owner, hlist, hw, hid, hown, hbase owner hshown⟩
    have hlist' : latest lastList (self.followOne start).log = some windows := by
      rw [followOne, latest_concat, hlist]
      rfl
    have hbase' : ∀ id, latest (about id) base = some .shown →
        latest (about id) (self.followOne start).log = some .shown := by
      intro id hshown
      rw [followOne, latest_concat, hbase id hshown, about]
      split <;> rfl
    obtain ⟨hknown', howner', hlog⟩ := ih (self.followOne start)
      (fun start' hstart' => hstarts start' (List.mem_cons_of_mem _ hstart'))
      (known_started hknown start.1 start.2 fun _ => rfl) (Run.always_concat.mpr ⟨howner, howner'⟩) hlist' hbase'
    refine ⟨hknown', howner', hlog.trans ?_⟩
    rw [followOne, List.map_cons, List.map_cons, List.append_assoc]
    rfl

theorem Inv.follow (h : self.Inv) (windows : List WindowInfo) : (self.follow windows).Inv := by
  have hlisted := known_listed h.known windows
  rw [ClientSession.follow]
  cases hon : self.followPopups with
  | false =>
    rw [hon] at hlisted
    exact h.quietOne rfl hlisted (fun _ => nofun) (fun _ => nofun)
  | true =>
    rw [hon] at hlisted
    simp only [Bool.not_true, Bool.false_eq_true, if_false]
    have hids := starts_eq_toFollow hlisted windows
    have hstarts : ∀ start ∈ starts (self.shown.retain fun id _ => Names windows id) windows,
        ∃ w owner, w ∈ windows ∧ w.id = start.1 ∧ w.owner = some owner ∧
          latest (about owner) (self.log ++ [.listed windows true]) = some .shown := by
      intro start hstart
      obtain ⟨w, hw, heq⟩ := List.mem_filterMap.mp hstart
      obtain ⟨codecs, hcodecs, rfl⟩ := Option.map_eq_some_iff.mp heq
      obtain ⟨owner, howner, hlookup⟩ := Option.bind_eq_some_iff.mp hcodecs
      refine ⟨w, owner, (List.mem_filter.mp hw).1, rfl, howner, (hlisted owner).mp ?_⟩
      exact AList.lookup_isSome.mp (by rw [hlookup]; rfl)
    have hquiet : OwnerShown self.log (.listed windows true) := fun _ => nofun
    obtain ⟨hknown, howner, hlog⟩ := foldl_followOne _ _ hstarts hlisted
      (Run.always_concat.mpr ⟨h.owner, hquiet⟩) (latest_concat ..) fun _ => id
    refine ⟨hknown, howner, ?_⟩
    -- the list was as it should be exactly if what it brought is new
    have hnew : Anew self.log (.listed windows true) := fun _ => nofun
    rw [hlog, always_anew_followed, always_lasting_followed, hids, Run.always_concat, Run.always_concat,
      followed_anew_iff, h.anew, and_iff_left hnew]

theorem Inv.stopWindow (h : self.Inv) (window : WindowId) {fuel : ℕ}
    (hstep : ClientSession.stopWindow fuel window { self with log := self.log ++ [.byHand window] } = some s')
    (hfuel : self.shown.entries.length < fuel) : s'.Inv := by
  obtain ⟨visited, hstop, hvisited⟩ :=
    stopWindow_spec { self with log := self.log ++ [.byHand window] } window
  rw [hstop fuel hfuel] at hstep
  cases hstep
  have hwindow : window ∈ visited := (hvisited window).mpr Relation.ReflTransGen.refl
  have hlog : (stopAll { self with log := self.log ++ [.byHand window] } visited).log
      = self.log ++ (.byHand window :: visited.map .stopped) := by
    rw [stopAll, List.append_assoc]
    rfl
  refine h.quiet hlog ?_ ?_ ?_
  · refine known_gone (fun id hid => ?_) fun _ _ => rfl
    -- of any other window, asking to stop this one says nothing
    have hne : window ≠ id := fun heq => hid (heq ▸ hwindow)
    rw [latest_concat, about, if_neg hne, Option.none_or]
    exact h.known id
  · intro entry hentry windows heq
    subst heq
    simp at hentry
  · intro entry hentry id heq
    subst heq
    simp at hentry

theorem Inv.step (h : self.Inv) (action : Action) (hstep : self.step action = some s') : s'.Inv := by
  cases action with
  | receive event =>
    cases hstep
    exact ⟨h.known, h.owner, h.anew⟩
  | nextEvent =>
    simp only [ClientSession.step] at hstep
    cases hevents : self.events with
    | nil =>
      rw [hevents] at hstep
      cases hstep
    | cons event events =>
      rw [hevents] at hstep
      cases hstep
      have hinv : ({ self with events := events } : ClientSession).Inv := ⟨h.known, h.owner, h.anew⟩
      cases event with
      | windows windows => exact hinv.follow windows
      | streamRefused => exact hinv
      | streamStopped window =>
        refine hinv.quietOne rfl ?_ (fun _ => nofun) (fun _ => nofun)
        have hgone : ∀ id, id ∈ self.shown.retain (fun id _ => id ∉ [window]) ↔
            latest (about id) (self.log ++ [window].map .ended) = some .shown :=
          known_gone (fun id _ => h.known id) fun _ _ => rfl
        simp only [List.mem_singleton] at hgone
        exact hgone
  | startWindow window codecs =>
    cases hstep
    exact h.quietOne rfl (known_started h.known window codecs fun _ => rfl) (fun _ => nofun) (fun _ => nofun)
  | stopWindow window => exact h.stopWindow window hstep (Nat.lt_succ_self _)
  | setFollowPopups on =>
    cases hstep
    exact ⟨h.known, h.owner, h.anew⟩

theorem inv_run {actions : List Action} (h : actions.foldlM step new = some s') : s'.Inv :=
  Run.invariant (I := Inv) (A := fun _ => True) (fun _ action _ hinv _ => hinv.step action) actions new s' inv_new
    (fun _ _ => trivial) h

/-- **What is stopped and what is followed.**  Stopping a window ends and stops exactly what
goes with it, whatever the host says of owners.  Only windows whose owner is shown are
followed; and none is followed anew that was followed, or stopped by hand, while it has been
listed, if and only if every list that came was as it should be. -/
theorem follow_iff (actions : List Action) (s : ClientSession) (h : actions.foldlM step new = some s) :
    (∀ window, ∃ visited,
      (∀ fuel, s.shown.entries.length < fuel → stopWindow fuel window s = some (s.stopAll visited)) ∧
        ∀ y, y ∈ visited ↔ s.GoesWith window y) ∧
    Run.Always OwnerShown s.log ∧ (Run.Always Anew s.log ↔ Run.Always Lasting s.log) :=
  ⟨s.stopWindow_spec, (inv_run h).owner, (inv_run h).anew⟩

/-- A window and a popup that it owns. -/
def withPopup : List WindowInfo := [⟨1, none⟩, ⟨2, some 1⟩]

/-- The window is started, and its popup opens. -/
def popupOpens : List Action :=
  [.receive (.windows [⟨1, none⟩]), .nextEvent, .startWindow 1 [.h264], .receive (.windows withPopup), .nextEvent]

theorem follow_iff_popupOpens : ∃ s, popupOpens.foldlM step new = some s ∧
    s.sent = [.streamStartRequest 1 [.h264], .streamStartRequest 2 [.h264]] ∧ Run.Always Anew s.log := by
  obtain ⟨s, hrun, hsent, hlog⟩ : ∃ s, popupOpens.foldlM step new = some s ∧
      s.sent = [.streamStartRequest 1 [.h264], .streamStartRequest 2 [.h264]] ∧
      s.log = [.listed [⟨1, none⟩] true, .started 1, .listed withPopup true, .followed 2] := by
    refine ⟨_, rfl, ?_, ?_⟩ <;> rfl
  refine ⟨s, hrun, hsent, (follow_iff popupOpens s hrun).2.2.mpr ?_⟩
  rw [hlog]
  -- of the two lists, none names a window that is gone
  have hfirst : Lasting [] (.listed [⟨1, none⟩] true) := by
    intro windows heq
    cases heq
    exact ⟨by decide, fun w hw owner howner _ h => absurd h.1 nofun⟩
  have hsecond : Lasting [.listed [⟨1, none⟩] true, .started 1] (.listed withPopup true) := by
    intro windows heq
    cases heq
    refine ⟨by decide, fun w hw owner howner _ h => ?_⟩
    fin_cases hw <;> exact absurd h.1 (by decide)
  have hstarted : Lasting [.listed [⟨1, none⟩] true] (.started 1) := fun _ => nofun
  have hfollowed : Lasting [.listed [⟨1, none⟩] true, .started 1, .listed withPopup true] (.followed 2) :=
    fun _ => nofun
  have hopened : Run.Always Lasting ([] ++ [.listed [⟨1, none⟩] true]) :=
    Run.always_concat.mpr ⟨Run.always_nil, hfirst⟩
  exact Run.always_concat.mpr
    ⟨Run.always_concat.mpr ⟨Run.always_concat.mpr ⟨hopened, hstarted⟩, hsecond⟩, hfollowed⟩

/-- The user closes the popup, and the host sends its list again. -/
def popupClosed : List Action := popupOpens ++ [.stopWindow 2, .receive (.windows withPopup), .nextEvent]

/-- The popup that the user closed is back. -/
theorem closed_popup_comes_back :
    ¬ ∀ (actions : List Action) (s : ClientSession), actions.foldlM step new = some s → Run.Always Anew s.log := by
  intro h
  obtain ⟨s, hrun, hlog⟩ : ∃ s, popupClosed.foldlM step new = some s ∧
      s.log = [.listed [⟨1, none⟩] true, .started 1, .listed withPopup true, .followed 2, .byHand 2, .stopped 2,
        .listed withPopup true] ++ [.followed 2] := by
    refine ⟨_, rfl, ?_⟩
    rfl
  refine h popupClosed s hrun _ _ [] hlog 2 rfl ?_
  refine ⟨[.listed [⟨1, none⟩] true, .started 1, .listed withPopup true, .followed 2], .byHand 2,
    [.stopped 2, .listed withPopup true], rfl, .inr ⟨rfl, withPopup, rfl, by decide⟩, ?_⟩
  intro windows on hmem
  rcases List.mem_cons.mp hmem with heq | hmem
  · cases heq
  · cases List.mem_singleton.mp hmem
    decide

end ClientSession

end Shown

end WindowCast.Client
