import WindowCast.Bud.LossDetector

/-!
# Refreshes that the rate limit holds back

A frame given up too soon after the last refresh of its stream asks for none,
and nothing remembers that it should have.

## Main definitions

* `Owes` — a frame of the stream was given up after its last refresh.
* `Answers` — a poll refreshes what is owed, once the gap has passed.
* `LosesAnother` — another frame of such a stream is past its deadline.

## Main results

* `Session.Reachable.answers_iff` — **when no refresh is swallowed.**
* `Session.swallowed` — a run in which one is.
-/

namespace WindowCast.Bud

/-- A turn of a poll, with the time of the poll. -/
abbrev Logged := ℕ × Incomplete × Turn

/-- The turns of all polls, in order. -/
def log (polls : List Poll) : List Logged :=
  polls.flatMap fun poll => poll.turns.map fun t => (poll.nowUs, t)

/-- The last refresh of the stream was at `last`, and a frame of it was given up since. -/
def Owes (polls : List Poll) (stream : UInt16) (last : ℕ) : Prop :=
  ∃ before w after, log polls = before ++ (last, w, .refreshed) :: after ∧ w.stream = stream ∧
    (∀ e ∈ after, e.2.1.stream = stream → e.2.2 ≠ .refreshed) ∧
    ∃ e ∈ after, e.2.1.stream = stream ∧ e.2.2 = .gaveUp

/-- The poll, which comes after the polls `before`, asks for the refresh of
every stream that is owed one, if the gap since the last has passed. -/
def Answers (before : List Poll) (poll : Poll) : Prop :=
  ∀ stream last, Owes before stream last → last + poll.timing.refreshGapUs ≤ poll.nowUs →
    ∃ frame, .refresh stream frame ∈ poll.feedback

/-- Every such stream has another frame that is past its deadline. -/
def LosesAnother (before : List Poll) (poll : Poll) : Prop :=
  ∀ stream last, Owes before stream last → last + poll.timing.refreshGapUs ≤ poll.nowUs →
    ∃ w ∈ poll.waiting, w.stream = stream ∧ poll.detector.Expired poll.nowUs poll.timing w

/-! ### What the detector remembers -/

/-- When the stream was last refreshed. -/
def lastRefreshed (stream : UInt16) (log : List Logged) : Option ℕ :=
  (log.filter fun e => e.2.1.stream = stream ∧ e.2.2 = .refreshed).getLast?.map Prod.fst

theorem lastRefreshed_append (stream : UInt16) (l l' : List Logged) :
    lastRefreshed stream (l ++ l') = (lastRefreshed stream l').or (lastRefreshed stream l) := by
  rw [lastRefreshed, List.filter_append, List.getLast?_append, Option.map_or]
  rfl

theorem lastRefreshed_eq_none {stream : UInt16} {l : List Logged}
    (h : ∀ e ∈ l, e.2.1.stream = stream → e.2.2 ≠ .refreshed) : lastRefreshed stream l = none := by
  have hempty : (l.filter fun e => e.2.1.stream = stream ∧ e.2.2 = .refreshed) = [] := by
    rw [List.filter_eq_nil_iff]
    intro e he hboth
    obtain ⟨hstream, hturn⟩ := of_decide_eq_true hboth
    exact h e he hstream hturn
  rw [lastRefreshed, hempty]
  rfl

/-- The stream was refreshed in turns that were all at one time. -/
theorem lastRefreshed_eq_some {stream : UInt16} {nowUs : ℕ} {turns : List (Incomplete × Turn)}
    (h : ∃ t ∈ turns, t.1.stream = stream ∧ t.2 = .refreshed) :
    lastRefreshed stream (turns.map fun t => (nowUs, t)) = some nowUs := by
  obtain ⟨t, ht, hboth⟩ := h
  have hmem : (nowUs, t) ∈ (turns.map fun t => (nowUs, t)).filter fun e : Logged =>
      e.2.1.stream = stream ∧ e.2.2 = .refreshed :=
    List.mem_filter.mpr ⟨List.mem_map_of_mem ht, decide_eq_true hboth⟩
  obtain ⟨e, he⟩ := Option.isSome_iff_exists.mp (List.getLast?_isSome.mpr (List.ne_nil_of_mem hmem))
  obtain ⟨t', -, rfl⟩ := List.mem_map.mp (List.mem_filter.mp (List.mem_of_getLast? he)).1
  rw [lastRefreshed, he]
  rfl

theorem log_concat (polls : List Poll) (poll : Poll) :
    log (polls ++ [poll]) = log polls ++ poll.turns.map fun t => (poll.nowUs, t) := by
  rw [log, List.flatMap_append, List.flatMap_singleton]
  rfl

/-- What a poll does to the last refresh of a stream. -/
theorem Poll.lastRefresh_run (poll : Poll) (stream : UInt16) :
    poll.run.1.lastRefresh stream =
      (lastRefreshed stream (poll.turns.map fun t => (poll.nowUs, t))).or
        (poll.detector.lastRefresh stream) := by
  obtain ⟨hsome, hnone⟩ := @LossDetector.lastRefresh_turns poll.nowUs poll.timing stream poll.waiting
    (poll.detector.retain poll.waiting) poll.reassembler
  rcases Classical.em (∃ t ∈ poll.turns, t.1.stream = stream ∧ t.2 = .refreshed) with h | h
  · rw [lastRefreshed_eq_some h]
    exact hsome h
  · have hall : ∀ t ∈ poll.turns, t.1.stream = stream → t.2 ≠ .refreshed :=
      fun t ht hstream hturn => h ⟨t, ht, hstream, hturn⟩
    rw [lastRefreshed_eq_none]
    · exact hnone hall
    · intro e he
      obtain ⟨t, ht, rfl⟩ := List.mem_map.mp he
      exact hall t ht

namespace Session

/-- **The detector remembers the last refresh of every stream.** -/
theorem Reachable.lastRefresh {self : Session} (h : self.Reachable) (stream : UInt16) :
    self.detector.lastRefresh stream = lastRefreshed stream (log self.polls) ∧
      Run.Always (fun before poll => poll.detector.lastRefresh stream
        = lastRefreshed stream (log before)) self.polls := by
  induction h with
  | new => exact ⟨rfl, Run.always_nil⟩
  | step h hallowed hstep ih =>
    obtain ⟨hnow, hbefore⟩ := ih
    rcases polls_step hallowed hstep with ⟨hpolls, hdetector⟩ | ⟨poll, hpolls, hdetector, hd, -, -⟩
    · rw [hpolls, hdetector]
      exact ⟨hnow, hbefore⟩
    · rw [hpolls, hdetector, poll.lastRefresh_run, log_concat, lastRefreshed_append, hd, hnow]
      refine ⟨rfl, Run.always_concat.mpr ⟨hbefore, ?_⟩⟩
      rw [hd, hnow]

end Session

/-- A stream that is owed a refresh was last refreshed when `Owes` says. -/
theorem Owes.lastRefreshed {polls : List Poll} {stream : UInt16} {last : ℕ}
    (h : Owes polls stream last) : lastRefreshed stream (log polls) = some last := by
  obtain ⟨before, w, after, hlog, hstream, hnone, -⟩ := h
  have hone : Bud.lastRefreshed stream [(last, w, .refreshed)] = some last :=
    @lastRefreshed_eq_some stream last [(w, .refreshed)] ⟨_, List.mem_cons_self, hstream, rfl⟩
  rw [hlog, ← List.singleton_append, lastRefreshed_append, lastRefreshed_append,
    lastRefreshed_eq_none hnone, hone]
  rfl

/-- Such a stream is due once the gap has passed. -/
theorem due_of_gap {detector : LossDetector} {stream : UInt16} {last nowUs : ℕ} {timing : Timing}
    (hlast : detector.lastRefresh stream = some last) (hgap : last + timing.refreshGapUs ≤ nowUs) :
    detector.due nowUs timing stream = true := by
  unfold LossDetector.due
  rw [hlast]
  exact decide_eq_true (Nat.le_sub_of_add_le' hgap)

/-- A refresh of a stream that is due comes exactly with a frame past its deadline. -/
theorem Poll.Inv.refresh_iff {poll : Poll} (h : poll.Inv) {stream : UInt16}
    (hdue : poll.detector.due poll.nowUs poll.timing stream = true) :
    (∃ frame, .refresh stream frame ∈ poll.feedback) ↔
      ∃ w ∈ poll.waiting, w.stream = stream ∧ poll.detector.Expired poll.nowUs poll.timing w := by
  have hretain : ∀ w ∈ poll.waiting,
      ((poll.detector.retain poll.waiting).Expired poll.nowUs poll.timing w ↔
        poll.detector.Expired poll.nowUs poll.timing w) :=
    fun w hw => LossDetector.expired_congr (Poll.seen_retain hw)
  constructor
  · rintro ⟨frame, hmem⟩
    obtain ⟨⟨w, turn⟩, ht, hfeedback⟩ := Poll.mem_feedback.mp hmem
    have hw : w ∈ poll.waiting := Poll.mem_waiting ht
    have hgives := LossDetector.gives_up_iff h.nodup_keys _ ht
    cases turn with
    | waited => cases hfeedback
    | asked => cases hfeedback
    | gaveUp => cases hfeedback
    | refreshed =>
      cases hfeedback
      exact ⟨w, hw, rfl, (hretain w hw).mp (hgives.mp rfl)⟩
  · rintro ⟨w, hw, hstream, hexpired⟩
    obtain ⟨t, ht, hstream', hturn⟩ : ∃ t ∈ poll.turns, t.1.stream = stream ∧ t.2 = .refreshed :=
      LossDetector.refreshes_of_due h.nodup_keys hdue w hw hstream ((hretain w hw).mpr hexpired)
    refine ⟨t.1.frame, Poll.mem_feedback.mpr ⟨t, ht, ?_⟩⟩
    rw [hturn, ← hstream']
    rfl

namespace Session

/-- **When no refresh is swallowed**: in every run, every poll asks for what is
owed exactly if every poll that comes after the gap finds another frame of the
stream past its deadline. -/
theorem Reachable.answers_iff {self : Session} (h : self.Reachable) :
    Run.Always Answers self.polls ↔ Run.Always LosesAnother self.polls := by
  have hinv : Run.Always (fun before poll => poll.Inv ∧ ∀ stream,
      poll.detector.lastRefresh stream = lastRefreshed stream (log before)) self.polls := by
    intro before poll after hsplit
    refine ⟨h.poll_inv poll ?_, fun stream => (h.lastRefresh stream).2 before poll after hsplit⟩
    rw [hsplit]
    exact List.mem_append_right _ List.mem_cons_self
  refine Run.always_congr hinv fun before poll ⟨hpoll, hlast⟩ => ?_
  refine forall₄_congr fun stream last howes hgap => hpoll.refresh_iff (due_of_gap ?_ hgap)
  rw [hlast, howes.lastRefreshed]

/-! ### A refresh that is swallowed -/

/-- Frame 1 is given up at 30 ms with a refresh, frame 2 at 61 ms without; the
gap is over at 280 ms. -/
def swallowing : List Event :=
  [.push ⟨0, 1, 1, 1, 2, 0, 0⟩ [7], .poll 0 lanTiming [1], .poll 30000 lanTiming [1],
    .push ⟨0, 1, 2, 1, 2, 0, 0⟩ [7], .poll 31000 lanTiming [1], .poll 61000 lanTiming [1],
    .poll 280000 lanTiming [1]]

theorem turns_swallowing : (swallowing.foldlM step new).map
    (fun self => self.polls.map fun poll => (poll.nowUs, poll.timing, poll.turns)) =
      some [(0, lanTiming, [(⟨1, 1, [0]⟩, .waited)]),
        (30000, lanTiming, [(⟨1, 1, [0]⟩, .refreshed)]),
        (31000, lanTiming, [(⟨1, 2, [0]⟩, .waited)]),
        (61000, lanTiming, [(⟨1, 2, [0]⟩, .gaveUp)]), (280000, lanTiming, [])] := by
  decide +kernel

theorem onStream_swallowing : ∀ event ∈ swallowing, OnStream 1 event := by
  intro event hevent
  simp only [swallowing, List.mem_cons, List.not_mem_nil, or_false] at hevent
  rcases hevent with rfl | rfl | rfl | rfl | rfl | rfl | rfl
  · exact ⟨rfl, by decide⟩
  · rfl
  · rfl
  · exact ⟨rfl, by decide⟩
  · rfl
  · rfl
  · rfl

theorem answers_iff_swallowing : ∃ self, swallowing.foldlM step new = some self ∧
    (Run.Always Answers self.polls ↔ Run.Always LosesAnother self.polls) := by
  obtain ⟨self, hself, -⟩ := Option.map_eq_some_iff.mp turns_swallowing
  exact ⟨self, hself, Reachable.answers_iff (.of_onStream onStream_swallowing hself)⟩

/-- **A swallowed refresh**: the last poll of the run comes after the gap, the
stream is owed a refresh, and none is asked for. -/
theorem swallowed : ∃ self before poll, swallowing.foldlM step new = some self ∧
    self.Reachable ∧ self.polls = before ++ [poll] ∧ Owes before 1 30000 ∧
    30000 + poll.timing.refreshGapUs ≤ poll.nowUs ∧ poll.feedback = [] := by
  obtain ⟨self, hself, hview⟩ := Option.map_eq_some_iff.mp turns_swallowing
  simp only [List.map_eq_cons_iff, List.map_eq_nil_iff, Prod.mk.injEq] at hview
  obtain ⟨p₁, _, hpolls, ⟨h₁, -, t₁⟩, p₂, _, rfl, ⟨h₂, -, t₂⟩, p₃, _, rfl, ⟨h₃, -, t₃⟩, p₄, _, rfl,
    ⟨h₄, -, t₄⟩, p₅, _, rfl, ⟨h₅, htiming, t₅⟩, rfl⟩ := hview
  refine ⟨self, [p₁, p₂, p₃, p₄], p₅, hself, .of_onStream onStream_swallowing hself, hpolls, ?_, ?_, ?_⟩
  · refine ⟨[(0, ⟨1, 1, [0]⟩, .waited)], ⟨1, 1, [0]⟩,
      [(31000, ⟨1, 2, [0]⟩, .waited), (61000, ⟨1, 2, [0]⟩, .gaveUp)], ?_, rfl, by decide, by decide⟩
    simp [log, h₁, t₁, h₂, t₂, h₃, t₃, h₄, t₄]
  · rw [htiming, h₅]
    decide
  · rw [Poll.feedback, t₅]
    rfl

end Session

end WindowCast.Bud
