import WindowCast.Lib.Run
import WindowCast.Transport.RemoteWindow

/-!
# A window's frames into its queue

`pump_frames` of `client-core/src/lib.rs`: the frames of a track go into a queue of a
few, from which the application takes them when it comes to it.  A frame that finds the
queue full is dropped, and with it all up to the next keyframe that finds room.

## Main definitions

* `PumpFrames`, `PumpFrames.step` — the pump, its queue and the one who takes from it.
* `Missing` — a frame was dropped, and no keyframe queued since.

## Main results

* `PumpFrames.Inv.step` — what every step preserves.
* `PumpFrames.keyframe_after_drop` — **after a drop, a keyframe is queued first.**
-/

namespace WindowCast.Client

open WindowCast.Transport (WindowFrame)

/-- Frames queued per window before the client is considered behind. -/
def FRAME_QUEUE : ℕ := 8

/-- What became of a frame that arrived: whether it was queued. -/
abbrev Entry := WindowFrame × Bool

/-- The pump of a track, its queue, and what became of the frames. -/
structure PumpFrames where
  skipping : Bool
  /-- The application has asked for a keyframe. -/
  keyframe : Bool
  queue : List WindowFrame
  /-- The application may still take frames. -/
  receiver : Bool
  ended : Bool
  /-- How often the host was asked for a keyframe. -/
  requests : ℕ
  log : List Entry
  taken : List WindowFrame

inductive TrySendError
  | full
  | disconnected
  deriving DecidableEq, Repr

namespace PumpFrames

def new : PumpFrames := ⟨false, false, [], true, false, 0, [], []⟩

/-- Puts a frame into the queue, if there is room and one who takes it. -/
def trySend (self : PumpFrames) (frame : WindowFrame) : Except TrySendError (List WindowFrame) :=
  if !self.receiver then .error .disconnected
  else if FRAME_QUEUE ≤ self.queue.length then .error .full
  else .ok (self.queue ++ [frame])

/-- One turn of the loop. -/
def frame (self : PumpFrames) (frame : WindowFrame) : PumpFrames :=
  let self := if self.keyframe then { self with keyframe := false, requests := self.requests + 1 } else self
  if self.skipping && !frame.keyframe then { self with log := self.log ++ [(frame, false)] }
  else
    match self.trySend frame with
    | .ok queue =>
      { self with queue := queue, skipping := false, log := self.log ++ [(frame, true)] }
    | .error .full =>
      { self with skipping := true, requests := self.requests + 1, log := self.log ++ [(frame, false)] }
    | .error .disconnected => { self with ended := true, log := self.log ++ [(frame, false)] }

inductive Event
  /-- The track has a frame. -/
  | frame (frame : WindowFrame)
  /-- The track is over. -/
  | trackEnds
  /-- The application takes a frame. -/
  | take
  /-- It asks for a keyframe. -/
  | requestKeyframe
  /-- It lets go of the queue. -/
  | letGo
  deriving DecidableEq, Repr

def step (self : PumpFrames) : Event → Option PumpFrames
  | .frame frame => if self.ended then none else some (self.frame frame)
  | .trackEnds => if self.ended then none else some { self with ended := true }
  | .take =>
    match self.queue with
    | [] => none
    | frame :: queue =>
      if self.receiver then some { self with queue := queue, taken := self.taken ++ [frame] } else none
  | .requestKeyframe => some { self with keyframe := true }
  | .letGo => some { self with receiver := false, queue := [] }

end PumpFrames

/-- A frame was dropped, and no keyframe was queued since. -/
def Missing (log : List Entry) : Prop :=
  ∃ before dropped since, log = before ++ (dropped, false) :: since ∧
    ∀ entry ∈ since, entry.2 = true → entry.1.keyframe = false

theorem not_missing_nil : ¬ Missing [] := by
  rintro ⟨before, dropped, since, h, -⟩
  exact absurd h (by simp)

/-- One frame more: it is dropped, or leaves what is missing unless it is a queued keyframe. -/
theorem missing_concat {log : List Entry} {frame : WindowFrame} {queued : Bool} :
    Missing (log ++ [(frame, queued)]) ↔
      queued = false ∨ (Missing log ∧ (queued = true → frame.keyframe = false)) := by
  constructor
  · rintro ⟨before, dropped, since, heq, hsince⟩
    rcases List.eq_nil_or_concat since with rfl | ⟨since, last, rfl⟩
    · obtain ⟨-, hlast⟩ := List.append_inj' heq rfl
      cases hlast
      exact .inl rfl
    · rw [List.concat_eq_append, ← List.cons_append, ← List.append_assoc] at heq
      obtain ⟨rfl, hlast⟩ := List.append_inj' heq rfl
      cases hlast
      refine .inr ⟨⟨before, dropped, since, rfl, fun entry hentry => ?_⟩, ?_⟩
      · exact hsince entry (by rw [List.concat_eq_append]; exact List.mem_append_left _ hentry)
      · exact hsince (frame, queued) (by rw [List.concat_eq_append]; exact List.mem_append_right _ (List.mem_singleton_self _))
  · rintro (rfl | ⟨⟨before, dropped, since, rfl, hsince⟩, hframe⟩)
    · exact ⟨log, frame, [], rfl, nofun⟩
    · refine ⟨before, dropped, since ++ [(frame, queued)], by simp, ?_⟩
      intro entry hentry
      rcases List.mem_append.mp hentry with hentry | hentry
      · exact hsince entry hentry
      · rw [List.mem_singleton.mp hentry]
        exact hframe

namespace PumpFrames

/-- What every step preserves: nothing is missing while the pump does not skip, and
whatever is queued but a keyframe has all before it. -/
structure Inv (s : PumpFrames) : Prop where
  whole : s.skipping = false → s.ended = false → ¬ Missing s.log
  sound : Run.Always (fun before entry => entry.2 = true → entry.1.keyframe = false → ¬ Missing before) s.log
  queued : s.receiver = true → s.taken ++ s.queue = (s.log.filter Prod.snd).map Prod.fst
  taken : s.taken <+: (s.log.filter Prod.snd).map Prod.fst

theorem inv_new : new.Inv :=
  ⟨fun _ _ => not_missing_nil, Run.always_nil, fun _ => rfl, List.nil_prefix⟩

/-- A frame that is dropped. -/
theorem Inv.dropped {s : PumpFrames} (h : s.Inv) (frame : WindowFrame) (skipping keyframe ended : Bool)
    (requests : ℕ) (hends : skipping = true ∨ ended = true) :
    Inv { s with
      skipping := skipping, keyframe := keyframe, ended := ended, requests := requests
      log := s.log ++ [(frame, false)] } := by
  have hlog : ((s.log ++ [(frame, false)]).filter Prod.snd).map Prod.fst
      = (s.log.filter Prod.snd).map Prod.fst := by simp
  refine ⟨?_, Run.always_concat.mpr ⟨h.sound, nofun⟩, ?_, ?_⟩
  · rintro rfl rfl
    rcases hends with hends | hends <;> cases hends
  · intro hreceiver
    rw [hlog]
    exact h.queued hreceiver
  · rw [hlog]
    exact h.taken

/-- A frame that finds room. -/
theorem Inv.queued_frame {s : PumpFrames} (h : s.Inv) {frame : WindowFrame} (keyframe : Bool)
    (requests : ℕ) (hreceiver : s.receiver = true) (hended : s.ended = false)
    (hframe : s.skipping = true → frame.keyframe = true) :
    Inv { s with
      skipping := false, keyframe := keyframe, requests := requests, queue := s.queue ++ [frame]
      log := s.log ++ [(frame, true)] } := by
  have hlog : ((s.log ++ [(frame, true)]).filter Prod.snd).map Prod.fst
      = (s.log.filter Prod.snd).map Prod.fst ++ [frame] := by simp
  -- behind anything but a keyframe nothing is missing
  have hwhole (hno : frame.keyframe = false) : ¬ Missing s.log := by
    refine h.whole ?_ hended
    cases hskip : s.skipping with
    | false => rfl
    | true =>
      rw [hframe hskip] at hno
      cases hno
  refine ⟨?_, Run.always_concat.mpr ⟨h.sound, fun _ => hwhole⟩, ?_, ?_⟩
  · intro _ _ hmissing
    rcases missing_concat.mp hmissing with hfalse | ⟨hmissing, hno⟩
    · cases hfalse
    · exact hwhole (hno rfl) hmissing
  · intro _
    rw [hlog, ← h.queued hreceiver, List.append_assoc]
  · rw [hlog]
    exact h.taken.trans (List.prefix_append _ _)

theorem Inv.frame {s : PumpFrames} (h : s.Inv) (hended : s.ended = false) (frame : WindowFrame) :
    (s.frame frame).Inv := by
  -- whether a keyframe was asked for changes nothing but the requests
  have hasked : ∃ keyframe requests,
      (if s.keyframe then { s with keyframe := false, requests := s.requests + 1 } else s)
        = { s with keyframe := keyframe, requests := requests } := by
    split
    · exact ⟨_, _, rfl⟩
    · exact ⟨_, _, rfl⟩
  obtain ⟨keyframe, requests, hasked⟩ := hasked
  unfold PumpFrames.frame
  simp only [hasked]
  by_cases hskip : (s.skipping && !frame.keyframe) = true
  · rw [if_pos hskip]
    obtain ⟨hskipping, -⟩ := Bool.and_eq_true_iff.mp hskip
    exact h.dropped frame s.skipping keyframe s.ended requests (.inl hskipping)
  · rw [if_neg hskip]
    have hframe (hskipping : s.skipping = true) : frame.keyframe = true := by
      cases hkey : frame.keyframe with
      | true => rfl
      | false => exact absurd (by rw [hskipping, hkey]; rfl) hskip
    simp only [trySend]
    cases hreceiver : s.receiver with
    | false =>
      have hdropped := h.dropped frame s.skipping keyframe true requests (.inr rfl)
      rw [hreceiver] at hdropped
      simp only [Bool.not_false, if_true]
      exact hdropped
    | true =>
      by_cases hfull : FRAME_QUEUE ≤ s.queue.length
      · have hdropped := h.dropped frame true keyframe s.ended (requests + 1) (.inl rfl)
        rw [hreceiver] at hdropped
        simp only [Bool.not_true, Bool.false_eq_true, if_false, if_pos hfull]
        exact hdropped
      · have hqueued := h.queued_frame keyframe requests hreceiver hended hframe
        rw [hreceiver] at hqueued
        simp only [Bool.not_true, Bool.false_eq_true, if_false, if_neg hfull]
        exact hqueued

theorem Inv.step {s s' : PumpFrames} {e : Event} (h : s.Inv) (hstep : s.step e = some s') : s'.Inv := by
  cases e with
  | frame frame =>
    simp only [PumpFrames.step] at hstep
    split at hstep
    · cases hstep
    · rename_i hended
      cases hstep
      exact h.frame (Bool.not_eq_true _ ▸ hended) frame
  | trackEnds =>
    simp only [PumpFrames.step] at hstep
    split at hstep
    · cases hstep
    · cases hstep
      exact ⟨nofun, h.sound, h.queued, h.taken⟩
  | take =>
    simp only [PumpFrames.step] at hstep
    split at hstep
    · cases hstep
    rename_i frame queue hqueue
    split at hstep
    · rename_i hreceiver
      cases hstep
      have hqueued := h.queued hreceiver
      rw [hqueue] at hqueued
      have hsame : s.taken ++ [frame] ++ queue = (s.log.filter Prod.snd).map Prod.fst := by
        rw [← hqueued, List.append_assoc, List.singleton_append]
      exact ⟨h.whole, h.sound, fun _ => hsame, ⟨queue, hsame⟩⟩
    · cases hstep
  | requestKeyframe =>
    cases hstep
    exact ⟨h.whole, h.sound, h.queued, h.taken⟩
  | letGo =>
    cases hstep
    exact ⟨h.whole, h.sound, nofun, h.taken⟩

/-- **After a drop, a keyframe is queued first**, in every run of arriving frames, of the
application taking them and of its requests: behind a frame that was dropped and before
another that is queued and is no keyframe, a keyframe was queued; and the application
takes what was queued, in order. -/
theorem keyframe_after_drop {es : List Event} {s : PumpFrames} (h : es.foldlM step new = some s) :
    (∀ before dropped between frame after,
      s.log = before ++ (dropped, false) :: between ++ (frame, true) :: after → frame.keyframe = false →
        ∃ keyframe, (keyframe, true) ∈ between ∧ keyframe.keyframe = true) ∧
    s.taken <+: (s.log.filter Prod.snd).map Prod.fst := by
  have hinv : s.Inv := Run.invariant (I := Inv) (A := fun _ => True) (fun _ _ _ h _ => h.step) es new s inv_new
    (fun _ _ => trivial) h
  refine ⟨?_, hinv.taken⟩
  intro before dropped between frame after hlog hframe
  by_contra hnone
  refine hinv.sound _ _ _ hlog rfl hframe ⟨before, dropped, between, rfl, ?_⟩
  rintro ⟨entry, queued⟩ hentry rfl
  cases hkey : entry.keyframe with
  | false => rfl
  | true => exact absurd ⟨entry, hentry, hkey⟩ hnone

/-- A frame of a stream, by its timestamp. -/
def someFrame (rtpTimestamp : BitVec 32) (keyframe : Bool) : WindowFrame :=
  ⟨[], .h264, rtpTimestamp, keyframe⟩

/-- Eight frames fill the queue, the ninth is dropped, and with it the next, though there
is room by then; a keyframe and a frame behind it are queued. -/
def behind : List Event :=
  ((List.range 9).map fun i => .frame (someFrame (BitVec.ofNat 32 i) (i = 0))) ++
    [.take, .take, .frame (someFrame 9 false), .frame (someFrame 10 true), .frame (someFrame 11 false)]

theorem keyframe_after_drop_behind :
    ∃ s, behind.foldlM step new = some s ∧ (s.log.map Prod.snd).drop 8 = [false, false, true, true] ∧
      s.taken <+: (s.log.filter Prod.snd).map Prod.fst := by
  have hrun : behind.foldlM step new = some _ := rfl
  exact ⟨_, hrun, rfl, (keyframe_after_drop hrun).2⟩

end PumpFrames

end WindowCast.Client
