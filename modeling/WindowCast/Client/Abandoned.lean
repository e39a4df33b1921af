import WindowCast.Client.Promises

/-!
# Switches that were given up

A switch is prepared by other threads: the host answers, an RDP login ends, a timer runs out.
One that comes after the switch was given up sees no switch, and takes the carrier for the first
one of its window.

## Main definitions

* `Shared.StaysAway` — what was given up is not shown, announced, or a reason to stop the stream.

## Main results

* `Shared.Kept.step` — what every step preserves.
* `Shared.given_up_stays_away` — **a carrier that was given up is not shown or announced later, and
  the window stays on the one on screen**, where nothing comes too late.
* `Shared.late_login_is_shown` — a login that ends after the timer.
-/

namespace WindowCast.Client

open WindowCast.Host (WindowId)
open WindowCast.Stream (BackendKind serve)

namespace Switching

namespace Shared

variable {s s' : Shared} {w : WindowId} {g : ℕ}

/-! ### Steps -/

/-- The application is told. -/
theorem Kept.emit (h : s.Kept) {generation : ℕ} {event : Event} (hfits : s.Fits (event.plan generation))
    (hanswered : ∀ {w g}, (Entry.announced generation event).starts = some (w, g) → s.Answered w g) :
    (s.emit generation event).Kept := by
  refine h.note (fun _ => rfl) (fun {w g} hclaims => hfits.promised ?_) hanswered (fun hend => by cases hend)
    fun {generation' w g reason} hrefuses => ?_
  · cases event <;> exact hclaims
  · cases hrefuses
    exact ⟨hfits.refused rfl, fun hrdp => by cases hfits.gone rfl hrdp⟩

theorem Kept.sent (h : s.Kept) (message : ControlMessage) : (s.note (.sent message)).Kept :=
  h.note (fun _ => rfl) (fun hclaims => by cases hclaims) (fun hstarts => by cases hstarts) (fun hend => by cases hend)
    fun hrefuses => by cases hrefuses

theorem Kept.startWindow (h : s.Kept) {window : WindowId} {backend : BackendKind} {sent : Bool}
    (hlimit : s.last window + 1 < 2 ^ 32) (hstep : s.step (.startWindow window backend sent) = some s') : s'.Kept := by
  obtain ⟨heq, hkept⟩ := h.nextGeneration window hlimit
  rw [step, heq] at hstep
  cases hstep
  cases sent with
  | false => exact hkept
  | true =>
    obtain ⟨hun, hpump, hasked⟩ := h.fresh (w := window) (Nat.lt_succ_self _)
    have hlast : last { s with generations := s.generations.insert window (s.last window + 1) } window =
        s.last window + 1 := by
      rw [last, AList.lookup_insert]
      rfl
    refine hkept.ask ⟨hlast.ge, ⟨hun.tasks, hun.rdp, hun.log⟩, hpump, fun c hc hsame => ?_⟩ hasked
    have hknown := (h.next (w := window) hc).1
    have hnew : c.generation = s.last window + 1 := hsame
    omega

theorem Kept.startSwitch (h : s.Kept) {window : WindowId} {backend : BackendKind} {pictures sent : Bool}
    (hlimit : s.last window + 1 < 2 ^ 32) (hstep : s.step (.startSwitch window backend pictures sent) = some s') :
    s'.Kept := by
  have hentry : Kept { s with carriers := s.carriers.insert window (s.entry window) } :=
    h.withEntry (entry_next s window) (entry_shown s window)
  rw [step] at hstep
  rcases startSwitch_cases backend pictures hlimit with ⟨error, carriers, hcarriers, heq⟩ | ⟨hidle, heq⟩
  · rw [heq] at hstep
    cases hstep
    rcases hcarriers with rfl | rfl
    · exact h
    · exact hentry
  · rw [heq] at hstep
    cases hstep
    set carriers := (s.carriers.insert window (s.entry window)).insert window
      { s.entry window with next := some ⟨s.last window + 1, backend⟩ } with hcarriers
    have hnext : ∀ w, Shared.next { s with carriers := carriers } w =
        if w = window then some ⟨s.last window + 1, backend⟩ else s.next w := by
      intro w
      rw [hcarriers, next_insert { s with carriers := s.carriers.insert window (s.entry window) }, next_insert]
      split <;> rfl
    have hkept := h.begin window carriers (fun {w c} hc => ?_) (fun {w c} hc => ?_) fun w => ?_
    · cases sent with
      | false => exact hkept
      | true =>
        obtain ⟨hun, hpump, hasked⟩ := h.fresh (w := window) (Nat.lt_succ_self _)
        have hlast : last { s with
            carriers := carriers, generations := s.generations.insert window (s.last window + 1) } window =
            s.last window + 1 := by
          rw [last, AList.lookup_insert]
          rfl
        have hasks := hkept.ask (r := ⟨window, s.last window + 1, backend⟩)
          ⟨hlast.ge, ⟨hun.tasks, hun.rdp, hun.log⟩, hpump, fun c hc _ => ?_⟩ hasked
        · exact (hasks.spawn fits_nothing (answered_of_none rfl)).spawn fits_nothing (answered_of_none rfl)
        · have hsome : some ⟨s.last window + 1, backend⟩ = some c := ((hnext window).trans (if_pos rfl)).symm.trans hc
          cases hsome
          rfl
    · rw [hnext] at hc
      split at hc
      · rename_i hw
        cases hc
        exact Or.inr ⟨hw, rfl⟩
      · exact Or.inl hc
    · rw [hnext]
      split
      · rename_i hw
        rw [hw, hidle] at hc
        cases hc
      · exact hc
    · rw [hcarriers, shown_insert { s with carriers := s.carriers.insert window (s.entry window) }, shown_insert]
      split
      · rename_i hw
        rw [hw]
        exact entry_shown s window
      · rfl

/-- An answer is that of one start. -/
theorem Kept.alone (h : s.Kept) {i : ℕ} {request : Request} (hrequest : s.asked[i]? = some request) :
    ∀ r ∈ s.asked.eraseIdx i, (r.window, r.generation) ≠ (request.window, request.generation) := by
  intro r hr
  obtain ⟨j, hj, hget⟩ := List.mem_eraseIdx_iff_getElem?.mp hr
  obtain ⟨hi, hati⟩ := List.getElem?_eq_some_iff.mp hrequest
  obtain ⟨hj', hatj⟩ := List.getElem?_eq_some_iff.mp hget
  have hdistinct := List.pairwise_iff_getElem.mp h.distinct
  rcases Nat.lt_or_gt_of_ne hj with hlt | hgt
  · have hne := hdistinct j i hj' hi hlt
    rw [hatj, hati] at hne
    exact hne
  · have hne := hdistinct i j hi hj' hgt
    rw [hatj, hati] at hne
    exact hne.symm

theorem Kept.answer (h : s.Kept) {i : ℕ} {available : List BackendKind} {response : StreamStartResponse}
    (hcareful : s.Careful (.answer i available response)) (hstep : s.step (.answer i available response) = some s') :
    s'.Kept := by
  rw [step] at hstep
  split at hstep
  · rename_i request hidle hrequest
    split at hstep
    · rename_i hserves
      cases hstep
      have hkept := h.take i
      have halone := h.alone hrequest
      obtain ⟨hknown, hun, hpump, hagrees⟩ := h.asked request (List.mem_of_getElem? hrequest)
      set taken : Shared := { s with asked := s.asked.eraseIdx i }
      have hanswered : taken.Answered request.window request.generation :=
        ⟨halone, fun reason hending => by cases hidle.symm.trans hending⟩
      rw [Shared.answer]
      by_cases hlogs : response.logsIn = true
      · rw [if_pos hlogs]
        simp only [StreamStartResponse.logsIn, Bool.and_eq_true, decide_eq_true_eq] at hlogs
        obtain ⟨⟨haccepted, hrdp⟩, -⟩ := hlogs
        have hserved := hserves haccepted
        rw [hrdp] at hserved
        have hbackend : request.backend = .rdp := by
          rw [serve] at hserved
          split at hserved
          · exact hserved.symm
          · cases hserved
        refine hkept.spawn (fits_login hknown fun c hc hsame => (hagrees c hc hsame).trans hbackend) fun w g hlogs => ?_
        cases hlogs
        exact hanswered
      rw [if_neg hlogs]
      by_cases hswitching : taken.switching request.window request.generation = true
      · rw [if_pos hswitching]
        by_cases haccepted : response.accepted = true
        · rw [if_pos haccepted]
          have hnot : ¬ taken.GaveUp request.window request.generation := fun hgone => by
            rw [(hkept.gaveUp hgone).2] at hswitching
            cases hswitching
          refine hkept.setPump (fits_promise hknown hnot fun hsaw => (by cases hsaw))
            (fun hending => (by cases hending)) fun r hr hanswers => ?_
          exact halone r hr (Option.some.inj hanswers).symm
        · rw [if_neg haccepted]
          refine hkept.setPump fits_nothing (fun hending => ?_) fun r hr => ?_
          · cases hending
            exact ⟨hknown, ⟨hun.tasks, hun.rdp, hun.log⟩, hswitching⟩
          · exact fun hanswers => halone r hr (Option.some.inj hanswers).symm
      rw [if_neg hswitching]
      by_cases haccepted : response.accepted = true
      · rw [if_pos haccepted]
        have hnot := hcareful haccepted (Bool.eq_false_iff.mpr hlogs) request hrequest
        exact hkept.reads (fits_promise hknown hnot fun _ => Bool.eq_false_iff.mpr hswitching) rfl
      · rw [if_neg haccepted]
        exact hkept.reads fits_nothing rfl
    · cases hstep
  · cases hstep

theorem Kept.pumpStep (h : s.Kept) (hcareful : s.Careful .pump) (hstep : s.step .pump = some s') : s'.Kept := by
  have hpumps := h.pump
  rw [step, Shared.pumpStep] at hstep
  cases hpump : s.pump with
  | idle =>
    rw [hpump] at hstep
    cases hstep
  | ending window generation reason =>
    rw [hpump] at hstep
    cases hstep
    obtain ⟨-, hun, hwaits⟩ := h.ending hpump
    cases hentry : s.carriers.lookup window with
    | none =>
      have hgone : s.GaveUp window generation := by
        refine hwaits.resolve_left fun hswitching => ?_
        obtain ⟨c, hc, -⟩ := switching_iff.mp hswitching
        rw [Shared.next, hentry] at hc
        cases hc
      exact h.reads (fits_refusal hgone fun hrdp => absurd hrdp hun.rdp) rfl
    | some entry =>
      have hends : s.pumpEnds = entry.next.map fun next => (window, next.generation) := by
        rw [← next_eq hentry, pumpEnds, hpump]
      obtain ⟨hkept, hrdps, hmono, hends⟩ := h.endSwitch hentry false fun next hnext =>
        hcareful (window, next.generation) (by rw [hends, hnext]; rfl)
      have hgone : (s.endSwitch window entry false).GaveUp window generation := by
        rcases hwaits with hswitching | hgone
        · obtain ⟨c, hc, rfl⟩ := switching_iff.mp hswitching
          exact hends c ((next_eq hentry).symm.trans hc)
        · exact hmono _ _ hgone
      exact hkept.reads (fits_refusal hgone fun hrdp => absurd (hrdps ▸ hrdp) hun.rdp) rfl
  | starting window generation backend =>
    rw [hpump] at hstep hpumps
    cases hstep
    have hclaims := hpumps.promised rfl
    have hfirst := hpumps.first rfl rfl
    exact (h.startedUp backend.kind hclaims hfirst).reads (fits_started backend.kind hclaims hfirst) rfl
  | announcing generation event =>
    rw [hpump] at hstep hpumps
    cases hstep
    have hemits : (s.emit generation event).Kept := by
      refine h.emit hpumps fun {w g} hstarts => ?_
      refine ⟨fun r hr heq => (h.asked r hr).pump ?_, fun reason hending => by cases hpump.symm.trans hending⟩
      rw [hpump, heq]
      cases event <;> exact hstarts
    exact hemits.reads fits_nothing rfl
  | forgetting window =>
    rw [hpump] at hstep
    cases hstep
    have hnew : ∀ w, (s.enter (s.carriers.erase window) (.forgot window)).next w =
        if w = window then none else s.next w := fun w => lookup_erase_bind _ _ _ _
    have hforgets : (s.enter (s.carriers.erase window) (.forgot window)).Kept := by
      refine h.enter (fun {w c} hc => ?_) (fun w => ?_) (fun hclaims => by cases hclaims)
        (fun hshows => by cases hshows) (fun hstarts => by cases hstarts) (fun hend => by cases hend)
        (fun hrefuses => by cases hrefuses) fun hending => (by cases hpump.symm.trans hending)
      · rw [hnew] at hc
        split at hc
        · cases hc
        · exact hc
      · refine (lookup_erase_bind s.carriers Carriers.shown window w).trans ?_
        by_cases hw : w = window
        · rw [if_pos hw, Entry.screen, if_pos hw.symm]
          rfl
        · rw [if_neg hw, Entry.screen, if_neg (Ne.symm hw)]
          rfl
    exact hforgets.reads fits_nothing rfl

/-- A task gives a switch up. -/
theorem Kept.abandon (h : s.Kept) (i : ℕ) {window : WindowId} {generation : ℕ} (reason : Text) (callerIsTimer : Bool)
    (hcareful : s.switching window generation = true → ¬ s.Between window generation) :
    (s.abandon i window generation reason callerIsTimer).Kept := by
  rw [Shared.abandon]
  rcases abandonSwitch_eq s window generation callerIsTimer with ⟨hnone, -⟩ | ⟨entry, next, hentry, hnext, rfl, hsome⟩
  · rw [hnone]
    exact h.done i
  · rw [hsome]
    have hnexts := (next_eq hentry).trans hnext
    obtain ⟨hkept, hrdps, -, hends⟩ := h.endSwitch hentry callerIsTimer fun next' hnext' => by
      rw [hnext] at hnext'
      cases hnext'
      exact hcareful (switching_iff.mpr ⟨next, hnexts, rfl⟩)
    refine hkept.goesOn i (fits_refusal (hends next hnext) fun hrdp => ?_) rfl
    rw [hrdps] at hrdp
    exact decide_eq_true ((h.rdp hrdp).2 next hnexts rfl)

/-- The connection of a carrier that was over RDP is taken away. -/
theorem Kept.dropRdp (h : s.Kept) (window : WindowId) (backend : BackendKind) :
    (if backend = .rdp then s.removeRdp window else s).Kept := by
  split
  · exact h.removeRdp window
  · exact h

theorem Kept.taskStep (h : s.Kept) {i : ℕ} {failure : Option Text} {task : Task} (htask : s.tasks[i]? = some task)
    (hcareful : s.Careful (.task i failure)) (hstep : s.taskStep i failure task = some s') : s'.Kept := by
  have hmem := List.mem_of_getElem? htask
  have hfits := h.tasks task hmem
  obtain ⟨hlate, hends⟩ := hcareful task htask
  cases task with
  | recording window generation timer =>
    rw [Shared.taskStep] at hstep
    cases hentry : s.carriers.lookup window with
    | none =>
      rw [hentry] at hstep
      cases hstep
      exact h.done i
    | some entry =>
      rw [hentry] at hstep
      dsimp only at hstep
      split at hstep
      · cases hstep
        have hkept : Kept { s with carriers := s.carriers.insert window { entry with givingUp := some timer } } :=
          h.withEntry (next_eq hentry).symm (shown_eq hentry).symm
        exact hkept.done i
      · cases hstep
        exact (h.abort timer).done i
  | dropping window old =>
    cases hstep
    exact ((h.dropRdp window old.backend).sent _).done i
  | timer window generation =>
    cases hstep
    exact h.abandon i _ true (hends (window, generation) rfl)
  | abandoning window generation reason =>
    cases hstep
    exact h.abandon i reason false (hends (window, generation) rfl)
  | abandoned window next reason cut =>
    rw [Shared.taskStep] at hstep
    split at hstep
    · split at hstep
      · cases hstep
        exact (h.dropRdp window next.backend).done i
      · cases hstep
    · cases hstep
      refine ((h.dropRdp window next.backend).sent _).goesOn i (fits_refusal ?_ fun hrdp => ?_) rfl
      · have hgone : (if next.backend = .rdp then s.removeRdp window else s).GaveUp window next.generation := by
          split <;> exact hfits.refused rfl
        exact List.mem_append_left _ hgone
      · change (if next.backend = .rdp then s.removeRdp window else s).rdp.lookup window = _ at hrdp
        by_cases hbackend : next.backend = .rdp
        · rw [if_pos hbackend, Shared.removeRdp, AList.lookup_erase] at hrdp
          cases hrdp
        · rw [if_neg hbackend] at hrdp
          exact absurd (of_decide_eq_true (hfits.gone rfl hrdp)) hbackend
  | login window generation =>
    obtain ⟨hknown, hovert⟩ := hfits.overt rfl
    have hnot := hlate (window, generation) rfl
    cases failure with
    | none =>
      cases hstep
      refine h.setTask i ⟨?_, ?_, ?_, fun hr => (by cases hr), fun hr => (by cases hr)⟩ fun w g hlogs => ?_
      · rintro _ _ ⟨⟩
        exact ⟨hknown, hnot⟩
      · rintro _ _ ⟨⟩
        exact id
      · rintro _ _ ⟨⟩
        exact ⟨hknown, hovert⟩
      · exact h.answered hmem hlogs
    | some reason =>
      rw [Shared.taskStep] at hstep
      split at hstep
      · cases hstep
        exact h.goesOn i fits_nothing rfl
      · rename_i hswitching
        cases hstep
        have hasks : (s.spawn (.asking window generation)).Kept :=
          h.spawn (fits_promise hknown hnot fun _ => Bool.eq_false_iff.mpr hswitching) (answered_of_none rfl)
        exact hasks.goesOn i fits_nothing rfl
  | loggedIn window generation switching =>
    cases hstep
    obtain ⟨hknown, hnot⟩ := hfits.promised rfl
    have hkept := h.insertRdp hknown hnot (hfits.overt rfl).2 (h.answered hmem rfl)
    exact hkept.setTask i (hkept.tasks (.loggedIn window generation switching) hmem) fun w g hlogs =>
      hkept.answered hmem hlogs
  | inserted window generation switching =>
    rw [Shared.taskStep] at hstep
    obtain ⟨hknown, hnot⟩ := hfits.promised rfl
    cases switching with
    | true =>
      cases hstep
      have hevent : s.Fits ((Event.carrierStarted window generation .rdp none).plan generation) :=
        fits_promise hknown hnot fun hsaw => (by cases hsaw)
      refine (h.emit hevent fun {w g} hstarts => ?_).done i
      cases hstarts
      exact h.answered hmem rfl
    | false =>
      cases hstep
      have hclaims := hfits.promised rfl
      have hfirst := hfits.first rfl rfl
      exact (h.startedUp .rdp hclaims hfirst).goesOn i (fits_started .rdp hclaims hfirst) rfl
  | announcing generation event =>
    cases hstep
    have hevent : s.Fits (event.plan generation) := by
      refine ⟨hfits.promised, hfits.first, fun hlogs => ?_, hfits.refused, hfits.gone⟩
      cases event <;> cases hlogs
    exact (h.emit hevent fun hstarts => h.answered hmem hstarts).done i
  | asking window generation =>
    cases hstep
    refine (h.note (fun _ => rfl) (fun {w g} hclaims => ?_) (fun hstarts => (by cases hstarts))
      (fun hend => (by cases hend)) fun hrefuses => (by cases hrefuses)).done i
    cases hclaims
    exact hfits.promised rfl
  | done => cases hstep

/-- What every step preserves that meets the condition. -/
theorem Kept.step (h : s.Kept) {act : Act} (hcareful : s.Careful act) (hstep : s.step act = some s') : s'.Kept := by
  cases act with
  | startWindow window backend sent => exact h.startWindow hcareful hstep
  | startSwitch window backend pictures sent => exact h.startSwitch hcareful hstep
  | carrierShown window generation =>
    rw [Shared.step] at hstep
    split at hstep
    · rename_i htold
      cases hstep
      exact h.carrierShown htold
    · cases hstep
  | stopWindow window =>
    cases hstep
    exact (h.removeRdp window).sent _
  | answer i available response => exact h.answer hcareful hstep
  | streamStopped window =>
    rw [Shared.step] at hstep
    split at hstep
    · cases hstep
      exact (h.removeRdp window).reads fits_nothing rfl
    · cases hstep
  | pump => exact h.pumpStep hcareful hstep
  | task i failure =>
    rw [Shared.step] at hstep
    obtain ⟨task, htask, htakes⟩ := Option.bind_eq_some_iff.mp hstep
    exact h.taskStep htask hcareful htakes

/-! ### Whole runs -/

/-- The carrier is on the screen of the window. -/
def Shows (s : Shared) (w : WindowId) (carrier : Carrier) : Prop :=
  ∃ entry : Carriers, ⟨w, entry⟩ ∈ s.carriers.entries ∧ entry.shown = some carrier

/-- What was given up stays away. -/
structure StaysAway (s : Shared) : Prop where
  /-- Behind a refusal, the carrier is not shown, not announced, and no reason to stop the stream. -/
  silent : ∀ before e after w g, s.log = before ++ e :: after → e.refuses = some (w, g) →
    ∀ e' ∈ after, e'.claims ≠ some (w, g)
  /-- The window stays on what it was on, until another carrier comes on screen or its stream ends. -/
  stays : ∀ before e after w g, s.log = before ++ e :: after → e.refuses = some (w, g) →
    (∀ e' ∈ after, e'.screen w = none) → s.shown w = onScreen before w
  screen : ∀ w, s.shown w = onScreen s.log w
  away : ∀ e ∈ s.log, ∀ w g, e.refuses = some (w, g) → ∀ carrier, s.Shows w carrier → carrier.generation ≠ g
  /-- No picture of it comes over RDP either. -/
  unconnected : ∀ generation w g reason, .announced generation (.carrierRefused w g reason) ∈ s.log →
    s.rdp.lookup w ≠ some g
  single : ∀ w carrier carrier', s.Shows w carrier → s.Shows w carrier' → carrier = carrier'

theorem shown_of_shows {carrier : Carrier} (h : s.Shows w carrier) : s.shown w = some carrier := by
  obtain ⟨entry, hmem, hshown⟩ := h
  exact (shown_eq (AList.mem_lookup_iff.mpr hmem)).trans hshown

theorem Kept.staysAway (h : s.Kept) : s.StaysAway where
  silent := by
    intro before e after w g hlog hrefuses e' hmem hclaims
    obtain ⟨between, rest, rfl⟩ := List.append_of_mem hmem
    have hsilent := h.silent (before ++ e :: between) e' rest (by rw [hlog, List.append_assoc]; rfl)
    exact hsilent _ hclaims e (List.mem_append_right _ List.mem_cons_self) hrefuses
  stays := by
    intro before e after w g hlog hrefuses hafter
    have hscreen : e.screen w = none := by
      cases e <;> first | rfl | cases hrefuses
    have hlatest : latest (Entry.screen w) (e :: after) = none :=
      latest_eq_none (List.forall_mem_cons.mpr ⟨hscreen, hafter⟩)
    rw [h.screen, hlog, onScreen, latest_append, hlatest, Option.none_or, onScreen]
  screen := h.screen
  away := fun e hmem w g hrefuses carrier hshows hsame =>
    (h.shown (shown_of_shows hshows)).2 (hsame ▸ h.gaveUp_of_refuses hmem hrefuses)
  unconnected := fun _ _ _ _ hmem => (h.refused hmem).2
  single := fun w carrier carrier' hshows hshows' =>
    Option.some.inj ((shown_of_shows hshows).symm.trans (shown_of_shows hshows'))

/-- **A carrier that was given up is not shown or announced later**, and the window stays on the
one on screen, where nothing comes too late. -/
theorem given_up_stays_away {acts : List Act} {s : Shared} (h : Run.Guarded step Careful acts new s) : s.StaysAway :=
  (h.invariant (fun _ _ _ hkept hcareful hstep => hkept.step hcareful hstep) kept_new).staysAway

/-- A window is shown, and a switch to RDP is given up when its time is over. -/
def givesUp : List Act :=
  [.startWindow 1 .native true, .answer 0 [] ⟨true, .native .h264, false, none⟩, .pump, .pump,
    .startSwitch 1 .rdp true true, .task 1 none, .answer 0 [.rdp] ⟨true, .rdp, true, none⟩, .task 0 none, .task 0 none,
    .task 0 none]

/-- The next switch to RDP comes about. -/
def switchesAgain : List Act :=
  [.startSwitch 1 .rdp true true, .task 4 none, .answer 0 [.rdp] ⟨true, .rdp, true, none⟩, .task 5 none, .task 5 none,
    .task 5 none, .carrierShown 1 3, .task 6 none]

theorem given_up_stays_away_switchesAgain :
    ∃ s, (givesUp ++ switchesAgain).foldlM step new = some s ∧ s.GaveUp 1 2 ∧ s.shown 1 = some ⟨3, .rdp⟩ ∧
      s.StaysAway := by
  have hrun : ((givesUp ++ switchesAgain).foldlM (fun s act => if Careful s act then step s act else none) new).any
      (fun s => s.GaveUp 1 2 ∧ s.shown 1 = some ⟨3, .rdp⟩) = true := by decide
  obtain ⟨s, hs, hends⟩ := (Option.any_eq_true _ _).mp hrun
  have hguarded := Run.Guarded.of_checked hs
  obtain ⟨hgone, hshown⟩ := of_decide_eq_true hends
  exact ⟨s, hguarded.run, hgone, hshown, given_up_stays_away hguarded⟩

/-- The login of the switch that was given up ends after all. -/
def logsInLate : List Act := [.task 2 none, .task 2 none, .task 2 none, .task 2 none]

/-- A login that ends after its switch was given up puts its carrier on screen. -/
theorem late_login_is_shown :
    ∃ s, (givesUp ++ logsInLate).foldlM step new = some s ∧ s.GaveUp 1 2 ∧ s.shown 1 = some ⟨2, .rdp⟩ ∧
      ¬ s.StaysAway := by
  have hrun : ((givesUp ++ logsInLate).foldlM step new).any
      (fun s => s.GaveUp 1 2 ∧ s.shown 1 = some ⟨2, .rdp⟩) = true := by decide
  obtain ⟨s, hs, hends⟩ := (Option.any_eq_true _ _).mp hrun
  obtain ⟨hgone, hshown⟩ := of_decide_eq_true hends
  refine ⟨s, hs, hgone, hshown, fun haway => ?_⟩
  cases hentry : s.carriers.lookup 1 with
  | none =>
    rw [shown, hentry] at hshown
    cases hshown
  | some entry =>
    have hentries : s.Shows 1 ⟨2, .rdp⟩ :=
      ⟨entry, AList.mem_lookup_iff.mp hentry, (shown_eq hentry).symm.trans hshown⟩
    exact haway.away (.gaveUp 1 2) hgone 1 2 rfl _ hentries rfl

end Shared

end Switching

end WindowCast.Client
