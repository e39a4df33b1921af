import WindowCast.Client.Switching

/-!
# What the threads of a client are about to do

Each thread that prepares a switch looks once whether the window waits for the carrier, and goes
on by what it saw.  What it will show, announce or refuse is its plan; while every plan is right,
the tables of the session and its history agree.

## Main definitions

* `Plan`, `Shared.Fits` — what a thread will do with carriers, and when that is right.
* `Shared.Kept` — what holds of a session.
* `Shared.Careful` — nothing comes after its switch was given up.

## Main results

* `Shared.Fits.frame` — a plan stays right.
* `Shared.Kept.enter` — something happens, and the table of carriers changes with it.
* `Shared.Kept.begin` — another number is asked for.
* `Shared.Kept.endSwitch` — a switch ends, and its carrier was given up.
-/

namespace WindowCast.Client

open WindowCast.Host (WindowId)
open WindowCast.Stream (BackendKind)

namespace Switching

/-! ### What a history says -/

/-- The carrier that is shown or announced, or for which a stream is to stop. -/
def Entry.claims : Entry → Option (WindowId × ℕ)
  | .shows window carrier => some (window, carrier.generation)
  | .announced _ (.carrierStarted window generation _ _) => some (window, generation)
  | .announced generation (.streamStarted window _ _) => some (window, generation)
  | .asksStop window generation => some (window, generation)
  | _ => none

/-- The carrier that is given up, or announced to be. -/
def Entry.refuses : Entry → Option (WindowId × ℕ)
  | .gaveUp window generation => some (window, generation)
  | .announced _ (.carrierRefused window generation _) => some (window, generation)
  | _ => none

/-- The carrier that is announced as the next one. -/
def Entry.starts : Entry → Option (WindowId × ℕ)
  | .announced _ (.carrierStarted window generation _ _) => some (window, generation)
  | _ => none

/-- What is on the screen of a window from now on. -/
def Entry.screen (window : WindowId) : Entry → Option (Option Carrier)
  | .shows window' carrier => if window' = window then some (some carrier) else none
  | .forgot window' => if window' = window then some none else none
  | _ => none

/-- What a history leaves on the screen of a window. -/
def onScreen (log : List Entry) (window : WindowId) : Option Carrier := (latest (Entry.screen window) log).join

/-- No carrier is shown or announced, or a reason to stop the stream, that was given up before. -/
def Silent (before : List Entry) (e : Entry) : Prop := ∀ carrier ∈ e.claims, ∀ e' ∈ before, e'.refuses ≠ some carrier

/-! ### What a thread is about to do -/

/-- What a thread will do with carriers. -/
structure Plan where
  /-- The carrier it will show or announce, or ask for the stop of its stream. -/
  promises : Option (WindowId × ℕ) := none
  /-- It does so because it saw a switch waiting. -/
  switching : Bool := false
  /-- The carrier it logs in for. -/
  logsIn : Option (WindowId × ℕ) := none
  /-- The carrier whose refusal it will announce. -/
  refuses : Option (WindowId × ℕ) := none
  /-- It takes the window's connection away before. -/
  drops : Bool := false

def Event.plan (generation : ℕ) : Event → Plan
  | .carrierStarted window generation _ _ => { promises := some (window, generation), switching := true }
  | .streamStarted window _ _ => { promises := some (window, generation) }
  | .carrierRefused window generation _ => { refuses := some (window, generation) }
  | _ => {}

def Task.plan : Task → Plan
  | .login window generation => { logsIn := some (window, generation) }
  | .loggedIn window generation switching | .inserted window generation switching =>
    { promises := some (window, generation), switching := switching, logsIn := some (window, generation) }
  | .abandoned window next _ _ => { refuses := some (window, next.generation), drops := next.backend = .rdp }
  -- only a thread that has logged in tells of a switch
  | .announcing generation event =>
    { event.plan generation with logsIn := (Entry.announced generation event).starts }
  | .asking window generation => { promises := some (window, generation) }
  | _ => {}

def Pump.plan : Pump → Plan
  | .starting window generation _ => { promises := some (window, generation) }
  | .announcing generation event => event.plan generation
  | _ => {}

/-- The carrier of which the answer is being dealt with, where it is a switch's. -/
def Pump.answers : Pump → Option (WindowId × ℕ)
  | .ending window generation _ => some (window, generation)
  | .announcing _ (.carrierStarted window generation _ _) => some (window, generation)
  | _ => none

/-- The carrier whose switch it is about to give up. -/
def Task.ends : Task → Option (WindowId × ℕ)
  | .timer window generation | .abandoning window generation _ => some (window, generation)
  | _ => none

/-- The carrier whose login may end. -/
def Task.waitsFor : Task → Option (WindowId × ℕ)
  | .login window generation => some (window, generation)
  | _ => none

namespace Shared

variable {s s' : Shared} {w : WindowId} {g : ℕ}

/-- The switch to the carrier was ended. -/
def GaveUp (s : Shared) (w : WindowId) (g : ℕ) : Prop := .gaveUp w g ∈ s.log

/-- A thread saw that a switch waits for the carrier, and has not announced it yet. -/
def Between (s : Shared) (w : WindowId) (g : ℕ) : Prop :=
  (∃ task ∈ s.tasks, task.plan.promises = some (w, g) ∧ task.plan.switching = true)
    ∨ (s.pump.plan.promises = some (w, g) ∧ s.pump.plan.switching = true)

/-- The carrier whose switch the task that reads messages is about to end. -/
def pumpEnds (s : Shared) : Option (WindowId × ℕ) :=
  match s.pump with
  | .ending window _ _ => (s.next window).map fun next => (window, next.generation)
  | _ => none

/-- What a step relies on: no host accepts and no login ends for a carrier that was given up, no
carrier is given up that is about to be announced, and there is another number to give. -/
def Careful (s : Shared) : Act → Prop
  | .startWindow window _ _ | .startSwitch window _ _ _ => s.last window + 1 < 2 ^ 32
  | .answer i _ response => response.accepted = true → response.logsIn = false →
    ∀ request ∈ s.asked[i]?, ¬ s.GaveUp request.window request.generation
  | .pump => ∀ carrier ∈ s.pumpEnds, ¬ s.Between carrier.1 carrier.2
  | .task i _ => ∀ task ∈ s.tasks[i]?, (∀ carrier ∈ task.waitsFor, ¬ s.GaveUp carrier.1 carrier.2)
    ∧ ∀ carrier ∈ task.ends, s.switching carrier.1 carrier.2 = true → ¬ s.Between carrier.1 carrier.2
  | _ => True

instance (s : Shared) (w : WindowId) (g : ℕ) : Decidable (s.GaveUp w g) := inferInstanceAs (Decidable (_ ∈ _))

instance (s : Shared) (w : WindowId) (g : ℕ) : Decidable (s.Between w g) := inferInstanceAs (Decidable (_ ∨ _))

instance (s : Shared) : DecidablePred s.Careful
  | .startWindow _ _ _ | .startSwitch _ _ _ _ => inferInstanceAs (Decidable (_ < _))
  | .answer _ _ _ => inferInstanceAs (Decidable (_ → _ → ∀ _ ∈ _, _))
  | .pump => inferInstanceAs (Decidable (∀ _ ∈ _, _))
  | .task _ _ => inferInstanceAs (Decidable (∀ _ ∈ _, _))
  | .carrierShown _ _ | .stopWindow _ | .streamStopped _ => inferInstanceAs (Decidable True)

theorem generation_ne_of_switching (h : s.switching w g = false) {c : Carrier} (hc : s.next w = some c) :
    c.generation ≠ g := by
  rintro rfl
  rw [switching_iff.mpr ⟨c, hc, rfl⟩] at h
  cases h

/-- The backend that a switch to the carrier asked for is RDP. -/
def Overt (s : Shared) (w : WindowId) (g : ℕ) : Prop :=
  ∀ c, s.next w = some c → c.generation = g → c.backend = .rdp

/-- What a thread is about to do is right. -/
structure Fits (s : Shared) (plan : Plan) : Prop where
  promised : ∀ {w g}, plan.promises = some (w, g) → g ≤ s.last w ∧ ¬ s.GaveUp w g
  first : ∀ {w g}, plan.promises = some (w, g) → plan.switching = false → s.switching w g = false
  overt : ∀ {w g}, plan.logsIn = some (w, g) → g ≤ s.last w ∧ s.Overt w g
  refused : ∀ {w g}, plan.refuses = some (w, g) → s.GaveUp w g
  gone : ∀ {w g}, plan.refuses = some (w, g) → s.rdp.lookup w = some g → plan.drops = true

theorem fits_nothing : s.Fits {} where
  promised := fun h => by cases h
  first := fun h => by cases h
  overt := fun h => by cases h
  refused := fun h => by cases h
  gone := fun h => by cases h

theorem fits_promise {switching : Bool} (hknown : g ≤ s.last w) (hnot : ¬ s.GaveUp w g)
    (hfirst : switching = false → s.switching w g = false) :
    s.Fits { promises := some (w, g), switching := switching } where
  promised := by
    rintro _ _ ⟨⟩
    exact ⟨hknown, hnot⟩
  first := by
    rintro _ _ ⟨⟩
    exact hfirst
  overt := fun h => by cases h
  refused := fun h => by cases h
  gone := fun h => by cases h

theorem fits_login (hknown : g ≤ s.last w) (hovert : s.Overt w g) : s.Fits { logsIn := some (w, g) } where
  promised := fun h => by cases h
  first := fun h => by cases h
  overt := by
    rintro _ _ ⟨⟩
    exact ⟨hknown, hovert⟩
  refused := fun h => by cases h
  gone := fun h => by cases h

theorem fits_refusal {drops : Bool} (hgone : s.GaveUp w g) (hrdp : s.rdp.lookup w = some g → drops = true) :
    s.Fits { refuses := some (w, g), drops := drops } where
  promised := fun h => by cases h
  first := fun h => by cases h
  overt := fun h => by cases h
  refused := by
    rintro _ _ ⟨⟩
    exact hgone
  gone := by
    rintro _ _ ⟨⟩
    exact hrdp

/-- Of the carrier nothing has come yet. -/
structure Unstarted (s : Shared) (w : WindowId) (g : ℕ) : Prop where
  tasks : ∀ task ∈ s.tasks, task.plan.logsIn ≠ some (w, g)
  rdp : s.rdp.lookup w ≠ some g
  log : ∀ e ∈ s.log, e.starts ≠ some (w, g)

/-- A start that the host has not answered. -/
structure Waiting (s : Shared) (r : Request) : Prop where
  known : r.generation ≤ s.last r.window
  unstarted : s.Unstarted r.window r.generation
  pump : s.pump.answers ≠ some (r.window, r.generation)
  agrees : ∀ c, s.next r.window = some c → c.generation = r.generation → c.backend = r.backend

/-- The answer to the carrier's start was dealt with. -/
structure Answered (s : Shared) (w : WindowId) (g : ℕ) : Prop where
  asked : ∀ r ∈ s.asked, (r.window, r.generation) ≠ (w, g)
  ending : ∀ reason, s.pump ≠ .ending w g reason

/-- What holds of a session. -/
structure Kept (s : Shared) : Prop where
  tasks : ∀ task ∈ s.tasks, s.Fits task.plan
  pump : s.Fits s.pump.plan
  ending : ∀ {w g reason}, s.pump = .ending w g reason →
    g ≤ s.last w ∧ s.Unstarted w g ∧ (s.switching w g = true ∨ s.GaveUp w g)
  asked : ∀ r ∈ s.asked, s.Waiting r
  distinct : s.asked.Pairwise fun r r' => (r.window, r.generation) ≠ (r'.window, r'.generation)
  next : ∀ {w c}, s.next w = some c → c.generation ≤ s.last w ∧ ∀ c', s.shown w = some c' → c'.generation ≠ c.generation
  shown : ∀ {w c}, s.shown w = some c → c.generation ≤ s.last w ∧ ¬ s.GaveUp w c.generation
  rdp : ∀ {w g}, s.rdp.lookup w = some g → g ≤ s.last w ∧ s.Overt w g
  gaveUp : ∀ {w g}, s.GaveUp w g → g ≤ s.last w ∧ s.switching w g = false
  started : ∀ e ∈ s.log, ∀ w g, e.starts = some (w, g) → g ≤ s.last w
  refused : ∀ {w g generation reason}, .announced generation (.carrierRefused w g reason) ∈ s.log →
    s.GaveUp w g ∧ s.rdp.lookup w ≠ some g
  screen : ∀ w, s.shown w = onScreen s.log w
  silent : Run.Always Silent s.log

theorem kept_new : new.Kept where
  tasks := fun _ hmem => by cases hmem
  pump := fits_nothing
  ending := fun h => by cases h
  asked := fun _ hmem => by cases hmem
  distinct := List.Pairwise.nil
  next := fun h => by cases h
  shown := fun h => by cases h
  rdp := fun h => by cases h
  gaveUp := fun h => by cases h
  started := fun _ hmem => by cases hmem
  refused := fun h => by cases h
  screen := fun _ => rfl
  silent := Run.always_nil

/-! ### Frames -/

/-- A step gives up the carriers of `D` at most, keeps connections for those of `R` at most, and
lets switches wait for new carriers only. -/
structure Frame (D R : WindowId → ℕ → Prop) (s s' : Shared) : Prop where
  last : ∀ w, s.last w ≤ s'.last w
  mono : ∀ {w g}, s.GaveUp w g → s'.GaveUp w g
  gaveUp : ∀ {w g}, s'.GaveUp w g → s.GaveUp w g ∨ D w g
  next : ∀ {w c}, s'.next w = some c → c.generation ≤ s.last w → s.next w = some c
  rdp : ∀ {w g}, s'.rdp.lookup w = some g → s.rdp.lookup w = some g ∨ R w g

section

variable {D R : WindowId → ℕ → Prop}

theorem Frame.switching (f : Frame D R s s') (hg : g ≤ s.last w) (h : s.switching w g = false) :
    s'.switching w g = false := by
  refine Bool.eq_false_iff.mpr fun hswitching => ?_
  obtain ⟨c, hc, rfl⟩ := switching_iff.mp hswitching
  exact generation_ne_of_switching h (f.next hc hg) rfl

theorem Frame.overt (f : Frame D R s s') (hg : g ≤ s.last w) (h : s.Overt w g) : s'.Overt w g := by
  rintro c hc rfl
  exact h c (f.next hc hg) rfl

theorem Fits.frame {plan : Plan} (h : s.Fits plan) (f : Frame D R s s')
    (hD : ∀ w g, plan.promises = some (w, g) → ¬ D w g) (hR : ∀ w g, s.GaveUp w g → ¬ R w g) : s'.Fits plan where
  promised := by
    intro w g hpromises
    obtain ⟨hg, hnot⟩ := h.promised hpromises
    exact ⟨hg.trans (f.last w), fun hgave => (f.gaveUp hgave).elim hnot (hD w g hpromises)⟩
  first := fun hpromises hswitching => f.switching (h.promised hpromises).1 (h.first hpromises hswitching)
  overt := fun hlogs => ⟨(h.overt hlogs).1.trans (f.last _), f.overt (h.overt hlogs).1 (h.overt hlogs).2⟩
  refused := fun hrefuses => f.mono (h.refused hrefuses)
  gone := fun hrefuses hrdp =>
    (f.rdp hrdp).elim (h.gone hrefuses) fun hnew => absurd hnew (hR _ _ (h.refused hrefuses))

/-- A start waits on. -/
theorem Waiting.of {r : Request} (h : s.Waiting r) (f : Frame D R s s') (hpump : s'.pump = s.pump)
    (hun : s'.Unstarted r.window r.generation) : s'.Waiting r where
  known := h.known.trans (f.last _)
  unstarted := hun
  pump := by
    rw [hpump]
    exact h.pump
  agrees := fun c hc hsame => h.agrees c (f.next hc (hsame ▸ h.known)) hsame

/-- A refusal that was read is one of a carrier of which nothing comes. -/
theorem Kept.ending_of (h : s.Kept) (f : Frame D R s s') (hpump : s'.pump = s.pump)
    (hun : ∀ {w g}, s.Unstarted w g → ¬ s.Answered w g → s'.Unstarted w g)
    (hwaits : ∀ {w g reason}, s.pump = .ending w g reason → s.switching w g = true →
      s'.switching w g = true ∨ s'.GaveUp w g) {w : WindowId} {g : ℕ} {reason : Text}
    (hending : s'.pump = .ending w g reason) :
    g ≤ s'.last w ∧ s'.Unstarted w g ∧ (s'.switching w g = true ∨ s'.GaveUp w g) := by
  rw [hpump] at hending
  obtain ⟨hg, hunstarted, hold⟩ := h.ending hending
  exact ⟨hg.trans (f.last w), hun hunstarted fun hanswered => hanswered.ending reason hending,
    hold.elim (hwaits hending) fun hgone => Or.inr (f.mono hgone)⟩

theorem not_answered {r : Request} (hr : r ∈ s.asked) : ¬ s.Answered r.window r.generation := fun hanswered =>
  hanswered.asked r hr rfl

end

/-- A step that neither gives a carrier up nor keeps a connection. -/
abbrev Still (s s' : Shared) : Prop := Frame (fun _ _ => False) (fun _ _ => False) s s'

theorem Fits.still {plan : Plan} (h : s.Fits plan) (f : Still s s') : s'.Fits plan :=
  h.frame f (fun _ _ _ => not_false) fun _ _ _ => not_false

theorem Kept.answered (h : s.Kept) {task : Task} (hmem : task ∈ s.tasks) (hlogs : task.plan.logsIn = some (w, g)) :
    s.Answered w g where
  asked := by
    intro r hr heq
    cases heq
    exact (h.asked r hr).unstarted.tasks task hmem hlogs
  ending := fun _ hpump => (h.ending hpump).2.1.tasks task hmem hlogs

/-! ### Threads -/

theorem Kept.withTasks (h : s.Kept) {tasks : List Task} (htasks : ∀ task ∈ tasks, task ∈ s.tasks ∨
    (s.Fits task.plan ∧ ∀ w g, task.plan.logsIn = some (w, g) → s.Answered w g)) :
    Kept { s with tasks := tasks } := by
  have f : Still s { s with tasks := tasks } := ⟨fun _ => Nat.le_refl _, id, Or.inl, fun hc _ => hc, Or.inl⟩
  have hunstarted : ∀ {w g}, s.Unstarted w g → ¬ s.Answered w g → Unstarted { s with tasks := tasks } w g := by
    intro w g hun hnot
    refine ⟨fun task hmem hlogs => ?_, hun.rdp, hun.log⟩
    rcases htasks task hmem with hold | ⟨-, hnew⟩
    · exact hun.tasks task hold hlogs
    · exact hnot (hnew w g hlogs)
  refine ⟨?_, h.pump.still f, h.ending_of f rfl hunstarted fun _ => Or.inl, ?_, h.distinct, h.next, h.shown, h.rdp,
    h.gaveUp, h.started, h.refused, h.screen, h.silent⟩
  · intro task hmem
    rcases htasks task hmem with hold | ⟨hfits, -⟩
    · exact (h.tasks task hold).still f
    · exact hfits.still f
  · intro r hr
    exact (h.asked r hr).of f rfl (hunstarted (h.asked r hr).unstarted (not_answered hr))

theorem answered_of_none {plan : Plan} (hnone : plan.logsIn = none) (w : WindowId) (g : ℕ)
    (hlogs : plan.logsIn = some (w, g)) : s.Answered w g := by
  rw [hnone] at hlogs
  cases hlogs

theorem Kept.setTask (h : s.Kept) (i : ℕ) {task : Task} (hfits : s.Fits task.plan)
    (hlogs : ∀ w g, task.plan.logsIn = some (w, g) → s.Answered w g) : (s.setTask i task).Kept := by
  refine h.withTasks fun task' hmem => ?_
  rcases List.mem_or_eq_of_mem_set hmem with hold | rfl
  · exact Or.inl hold
  · exact Or.inr ⟨hfits, hlogs⟩

/-- A task goes on to what is no login. -/
theorem Kept.goesOn (h : s.Kept) (i : ℕ) {task : Task} (hfits : s.Fits task.plan) (hnone : task.plan.logsIn = none) :
    (s.setTask i task).Kept := h.setTask i hfits (answered_of_none hnone)

theorem Kept.done (h : s.Kept) (i : ℕ) : (s.setTask i .done).Kept := h.goesOn i fits_nothing rfl

theorem Kept.spawn (h : s.Kept) {task : Task} (hfits : s.Fits task.plan)
    (hlogs : ∀ w g, task.plan.logsIn = some (w, g) → s.Answered w g) : (s.spawn task).Kept := by
  refine h.withTasks fun task' hmem => ?_
  rcases List.mem_append.mp hmem with hold | hnew
  · exact Or.inl hold
  · cases List.mem_singleton.mp hnew
    exact Or.inr ⟨hfits, hlogs⟩

/-- An aborted task does less. -/
theorem plan_abort (task : Task) : task.abort.plan = task.plan := by
  cases task <;> rfl

theorem mem_abort {tasks : List Task} {i : ℕ} {task : Task} (hmem : task ∈ tasks.modify i Task.abort) :
    ∃ old ∈ tasks, old.plan = task.plan := by
  obtain ⟨j, hj⟩ := List.mem_iff_getElem?.mp hmem
  rw [List.getElem?_modify] at hj
  obtain ⟨old, hold, rfl⟩ := Option.map_eq_some_iff.mp hj
  refine ⟨old, List.mem_of_getElem? hold, ?_⟩
  split
  · exact (plan_abort old).symm
  · rfl

theorem Kept.abort (h : s.Kept) (timer : ℕ) : (s.abort timer).Kept := by
  refine h.withTasks fun task hmem => Or.inr ?_
  obtain ⟨old, hold, hplan⟩ := mem_abort hmem
  rw [← hplan]
  exact ⟨h.tasks old hold, fun w g => h.answered hold⟩

theorem Kept.setPump (h : s.Kept) {pump : Pump} (hfits : s.Fits pump.plan)
    (hending : ∀ {w g reason}, pump = .ending w g reason → g ≤ s.last w ∧ s.Unstarted w g ∧ s.switching w g = true)
    (hanswers : ∀ r ∈ s.asked, pump.answers ≠ some (r.window, r.generation)) : (s.setPump pump).Kept := by
  have f : Still s (s.setPump pump) := ⟨fun _ => Nat.le_refl _, id, Or.inl, fun hc _ => hc, Or.inl⟩
  refine ⟨fun task hmem => (h.tasks task hmem).still f, hfits.still f, ?_, ?_, h.distinct, h.next, h.shown, h.rdp,
    h.gaveUp, h.started, h.refused, h.screen, h.silent⟩
  · intro w g reason hpump
    obtain ⟨hg, hun, hwaits⟩ := hending hpump
    exact ⟨hg, ⟨hun.tasks, hun.rdp, hun.log⟩, Or.inl hwaits⟩
  · intro r hr
    obtain ⟨hknown, hun, -, hagrees⟩ := h.asked r hr
    exact ⟨hknown, ⟨hun.tasks, hun.rdp, hun.log⟩, hanswers r hr, hagrees⟩

/-- The task that reads messages goes on to what is no switch's answer. -/
theorem Kept.reads (h : s.Kept) {pump : Pump} (hfits : s.Fits pump.plan) (hnone : pump.answers = none) :
    (s.setPump pump).Kept := by
  refine h.setPump hfits (fun hending => ?_) fun r _ hanswers => ?_
  · rw [hending] at hnone
    cases hnone
  · rw [hnone] at hanswers
    cases hanswers

/-! ### What happens -/

theorem starts_claims {e : Entry} {carrier : WindowId × ℕ} (h : e.starts = some carrier) : e.claims = some carrier := by
  cases e with
  | announced generation event => cases event <;> first | exact h | cases h
  | _ => cases h

/-- What is refused in a history was given up. -/
theorem Kept.gaveUp_of_refuses (h : s.Kept) {e : Entry} (hmem : e ∈ s.log) (hrefuses : e.refuses = some (w, g)) :
    s.GaveUp w g := by
  cases e with
  | gaveUp window generation =>
    cases hrefuses
    exact hmem
  | announced generation event =>
    cases event with
    | carrierRefused window generation' reason =>
      cases hrefuses
      exact (h.refused hmem).1
    | _ => cases hrefuses
  | _ => cases hrefuses

theorem shows_of_screen {e : Entry} {before : Option Carrier} {c : Carrier} (h : (e.screen w).getD before = some c) :
    e = .shows w c ∨ before = some c := by
  cases e with
  | shows window carrier =>
    by_cases hw : window = w
    · rw [Entry.screen, if_pos hw] at h
      cases h
      exact Or.inl (by rw [hw])
    · rw [Entry.screen, if_neg hw] at h
      exact Or.inr h
  | forgot window =>
    by_cases hw : window = w
    · rw [Entry.screen, if_pos hw] at h
      cases h
    · rw [Entry.screen, if_neg hw] at h
      exact Or.inr h
  | _ => exact Or.inr h

theorem onScreen_concat (log : List Entry) (e : Entry) (w : WindowId) :
    onScreen (log ++ [e]) w = (e.screen w).getD (onScreen log w) := by
  rw [onScreen, latest_concat]
  cases e.screen w <;> rfl

/-- The table of carriers changes, and something happens. -/
theorem Kept.enter (h : s.Kept) {carriers : AList fun _ : WindowId => Carriers} {e : Entry}
    (hnext : ∀ {w c}, (s.enter carriers e).next w = some c → s.next w = some c)
    (hshown : ∀ w, (s.enter carriers e).shown w = (e.screen w).getD (s.shown w))
    (hclaims : ∀ {w g}, e.claims = some (w, g) → g ≤ s.last w ∧ ¬ s.GaveUp w g)
    (hapart : ∀ {w c c'}, e = .shows w c → (s.enter carriers e).next w = some c' → c.generation ≠ c'.generation)
    (hstarts : ∀ {w g}, e.starts = some (w, g) → s.Answered w g)
    (hgave : ∀ {w g}, e = .gaveUp w g →
      s.switching w g = true ∧ ¬ s.Between w g ∧ (s.enter carriers e).switching w g = false)
    (hrefused : ∀ {generation w g reason}, e = .announced generation (.carrierRefused w g reason) →
      s.GaveUp w g ∧ s.rdp.lookup w ≠ some g)
    (hlost : ∀ {w g reason}, s.pump = .ending w g reason → s.switching w g = true →
      (s.enter carriers e).switching w g = true ∨ e = .gaveUp w g) :
    (s.enter carriers e).Kept := by
  have f : Frame (fun w g => e = .gaveUp w g) (fun _ _ => False) s (s.enter carriers e) := by
    refine ⟨fun _ => Nat.le_refl _, fun hgave => List.mem_append_left _ hgave, fun hgave => ?_, fun hc _ => hnext hc,
      Or.inl⟩
    exact (List.mem_append.mp hgave).imp_right fun hnew => (List.mem_singleton.mp hnew).symm
  -- who has promised the carrier has seen the switch
  have hplans : ∀ {plan : Plan}, s.Fits plan →
      (∀ w g, plan.promises = some (w, g) → plan.switching = true → s.Between w g) →
      (s.enter carriers e).Fits plan := by
    intro plan hfits hbetween
    refine hfits.frame f (fun w g hpromises hend => ?_) fun _ _ _ => not_false
    obtain ⟨hswitching, hnot, -⟩ := hgave hend
    cases hsaw : plan.switching with
    | true => exact hnot (hbetween w g hpromises hsaw)
    | false =>
      rw [hfits.first hpromises hsaw] at hswitching
      cases hswitching
  have hunstarted : ∀ {w g}, s.Unstarted w g → ¬ s.Answered w g → (s.enter carriers e).Unstarted w g := by
    intro w g hun hnot
    refine ⟨hun.tasks, hun.rdp, fun e' hmem hstart => ?_⟩
    rcases List.mem_append.mp hmem with hold | hnew
    · exact hun.log e' hold hstart
    · rw [List.mem_singleton.mp hnew] at hstart
      exact hnot (hstarts hstart)
  refine ⟨?_, ?_, ?_, ?_, h.distinct, ?_, ?_, ?_, ?_, ?_, ?_, ?_, ?_⟩
  · exact fun task hmem => hplans (h.tasks task hmem) fun w g hp hs => Or.inl ⟨task, hmem, hp, hs⟩
  · exact hplans h.pump fun w g hp hs => Or.inr ⟨hp, hs⟩
  · refine h.ending_of f rfl hunstarted fun hpump hwaits => ?_
    exact (hlost hpump hwaits).imp_right fun hend => List.mem_append_right _ (List.mem_singleton.mpr hend.symm)
  · intro r hr
    exact (h.asked r hr).of f rfl (hunstarted (h.asked r hr).unstarted (not_answered hr))
  · intro w c hc
    refine ⟨(h.next (hnext hc)).1, fun c' hc' => ?_⟩
    rw [hshown] at hc'
    rcases shows_of_screen hc' with hnew | hold
    · exact hapart hnew hc
    · exact (h.next (hnext hc)).2 c' hold
  · intro w c hc
    rw [hshown] at hc
    rcases shows_of_screen hc with rfl | hold
    · obtain ⟨hg, hnot⟩ := hclaims rfl
      exact ⟨hg, fun hgone => (f.gaveUp hgone).elim hnot fun hend => by cases hend⟩
    · obtain ⟨hg, hnot⟩ := h.shown hold
      refine ⟨hg, fun hgone => (f.gaveUp hgone).elim hnot fun hend => ?_⟩
      -- what was given up was the next one
      obtain ⟨c', hc', hsame⟩ := switching_iff.mp (hgave hend).1
      exact (h.next hc').2 c hold hsame.symm
  · intro w g hrdp
    exact ⟨(h.rdp hrdp).1, f.overt (h.rdp hrdp).1 (h.rdp hrdp).2⟩
  · intro w g hgone
    rcases f.gaveUp hgone with hold | hend
    · exact ⟨(h.gaveUp hold).1, f.switching (h.gaveUp hold).1 (h.gaveUp hold).2⟩
    · obtain ⟨hswitching, -, hgone⟩ := hgave hend
      obtain ⟨c, hc, rfl⟩ := switching_iff.mp hswitching
      exact ⟨(h.next hc).1, hgone⟩
  · intro e' hmem w g hstart
    rcases List.mem_append.mp hmem with hold | hnew
    · exact h.started e' hold w g hstart
    · rw [List.mem_singleton.mp hnew] at hstart
      exact (hclaims (starts_claims hstart)).1
  · intro w g generation reason hmem
    have hboth : s.GaveUp w g ∧ s.rdp.lookup w ≠ some g :=
      (List.mem_append.mp hmem).elim h.refused fun hnew => hrefused (List.mem_singleton.mp hnew).symm
    exact ⟨f.mono hboth.1, hboth.2⟩
  · intro w
    rw [hshown, h.screen]
    exact (onScreen_concat s.log e w).symm
  · refine Run.always_concat.mpr ⟨h.silent, ?_⟩
    rintro ⟨w, g⟩ hmem e' he' hrefuses
    exact (hclaims hmem).2 (h.gaveUp_of_refuses he' hrefuses)

/-- Something happens that has nothing to do with the table of carriers. -/
theorem Kept.note (h : s.Kept) {e : Entry} (hscreen : ∀ w, e.screen w = none)
    (hclaims : ∀ {w g}, e.claims = some (w, g) → g ≤ s.last w ∧ ¬ s.GaveUp w g)
    (hstarts : ∀ {w g}, e.starts = some (w, g) → s.Answered w g) (hgave : ∀ {w g}, e ≠ .gaveUp w g)
    (hrefused : ∀ {generation w g reason}, e = .announced generation (.carrierRefused w g reason) →
      s.GaveUp w g ∧ s.rdp.lookup w ≠ some g) : (s.note e).Kept := by
  refine h.enter id (fun w => ?_) hclaims (fun {w c _} hshows _ => ?_) hstarts (fun h => absurd h hgave) hrefused
    fun _ hswitching => Or.inl hswitching
  · rw [hscreen]
    rfl
  · have hnone := hscreen w
    rw [hshows, Entry.screen, if_pos rfl] at hnone
    cases hnone

/-! ### Tables -/

theorem Kept.removeRdp (h : s.Kept) (window : WindowId) : (s.removeRdp window).Kept := by
  have hrdp : ∀ {w g}, (s.removeRdp window).rdp.lookup w = some g → s.rdp.lookup w = some g := by
    intro w g hsome
    by_cases hw : w = window
    · rw [hw, Shared.removeRdp, AList.lookup_erase] at hsome
      cases hsome
    · rwa [Shared.removeRdp, AList.lookup_erase_ne hw] at hsome
  have f : Still s (s.removeRdp window) :=
    ⟨fun _ => Nat.le_refl _, id, Or.inl, fun hc _ => hc, fun hsome => Or.inl (hrdp hsome)⟩
  have hunstarted : ∀ {w g}, s.Unstarted w g → (s.removeRdp window).Unstarted w g := fun hun =>
    ⟨hun.tasks, fun hsome => hun.rdp (hrdp hsome), hun.log⟩
  refine ⟨fun task hmem => (h.tasks task hmem).still f, h.pump.still f,
    h.ending_of f rfl (fun hun _ => hunstarted hun) fun _ => Or.inl,
    fun r hr => (h.asked r hr).of f rfl (hunstarted (h.asked r hr).unstarted), h.distinct, h.next, h.shown,
    fun hsome => h.rdp (hrdp hsome), h.gaveUp, h.started, ?_, h.screen, h.silent⟩
  · intro w g generation reason hmem
    exact ⟨(h.refused hmem).1, fun hsome => (h.refused hmem).2 (hrdp hsome)⟩

/-- A login has made a connection. -/
theorem Kept.insertRdp (h : s.Kept) {window : WindowId} {generation : ℕ} (hg : generation ≤ s.last window)
    (hnot : ¬ s.GaveUp window generation) (hovert : s.Overt window generation)
    (hanswered : s.Answered window generation) :
    Kept { s with rdp := s.rdp.insert window generation } := by
  have hrdp : ∀ {w g}, (s.rdp.insert window generation).lookup w = some g →
      s.rdp.lookup w = some g ∨ (w = window ∧ g = generation) := by
    intro w g hsome
    by_cases hw : w = window
    · rw [hw, AList.lookup_insert] at hsome
      cases hsome
      exact Or.inr ⟨hw, rfl⟩
    · rw [AList.lookup_insert_ne hw] at hsome
      exact Or.inl hsome
  have f : Frame (fun _ _ => False) (fun w g => w = window ∧ g = generation) s
      { s with rdp := s.rdp.insert window generation } := ⟨fun _ => Nat.le_refl _, id, Or.inl, fun hc _ => hc, hrdp⟩
  have hR : ∀ w g, s.GaveUp w g → ¬ (w = window ∧ g = generation) := by
    rintro w g hgone ⟨rfl, rfl⟩
    exact hnot hgone
  have hunstarted : ∀ {w g}, s.Unstarted w g → ¬ s.Answered w g →
      Unstarted { s with rdp := s.rdp.insert window generation } w g := by
    intro w g hun hnew
    refine ⟨hun.tasks, fun hsome => ?_, hun.log⟩
    rcases hrdp hsome with hold | ⟨rfl, rfl⟩
    · exact hun.rdp hold
    · exact hnew hanswered
  refine ⟨fun task hmem => (h.tasks task hmem).frame f (fun _ _ _ => not_false) hR,
    h.pump.frame f (fun _ _ _ => not_false) hR, h.ending_of f rfl hunstarted fun _ => Or.inl, ?_, h.distinct, h.next,
    h.shown, ?_, h.gaveUp, h.started, ?_, h.screen, h.silent⟩
  · intro r hr
    exact (h.asked r hr).of f rfl (hunstarted (h.asked r hr).unstarted (not_answered hr))
  · intro w g hsome
    rcases hrdp hsome with hold | ⟨rfl, rfl⟩
    · exact h.rdp hold
    · exact ⟨hg, hovert⟩
  · intro w g generation' reason hmem
    refine ⟨(h.refused hmem).1, fun hsome => ?_⟩
    exact (hrdp hsome).elim (h.refused hmem).2 (hR w g (h.refused hmem).1)

/-- The table of carriers says the same as before. -/
theorem Kept.withCarriers (h : s.Kept) {carriers : AList fun _ : WindowId => Carriers}
    (hnext : ∀ w, Shared.next { s with carriers := carriers } w = s.next w)
    (hshown : ∀ w, Shared.shown { s with carriers := carriers } w = s.shown w) :
    Kept { s with carriers := carriers } := by
  have f : Still s { s with carriers := carriers } :=
    ⟨fun _ => Nat.le_refl _, id, Or.inl, fun hc _ => (hnext _).symm.trans hc, Or.inl⟩
  have hswitching : ∀ w g, Shared.switching { s with carriers := carriers } w g = s.switching w g := by
    intro w g
    rw [switching, hnext, switching]
  have hunstarted : ∀ {w g}, s.Unstarted w g → Unstarted { s with carriers := carriers } w g := fun hun =>
    ⟨hun.tasks, hun.rdp, hun.log⟩
  refine ⟨fun task hmem => (h.tasks task hmem).still f, h.pump.still f,
    h.ending_of f rfl (fun hun _ => hunstarted hun) fun _ hwaits => Or.inl ((hswitching _ _).trans hwaits),
    fun r hr => (h.asked r hr).of f rfl (hunstarted (h.asked r hr).unstarted), h.distinct, ?_, ?_, ?_, ?_, h.started,
    h.refused, ?_, h.silent⟩
  · intro w c hc
    obtain ⟨hknown, hapart⟩ := h.next ((hnext w).symm.trans hc)
    exact ⟨hknown, fun c' hc' => hapart c' ((hshown w).symm.trans hc')⟩
  · exact fun {w c} hc => h.shown ((hshown w).symm.trans hc)
  · exact fun hsome => ⟨(h.rdp hsome).1, f.overt (h.rdp hsome).1 (h.rdp hsome).2⟩
  · exact fun hgone => ⟨(h.gaveUp hgone).1, f.switching (h.gaveUp hgone).1 (h.gaveUp hgone).2⟩
  · exact fun w => (hshown w).trans (h.screen w)

/-! ### Starts -/

/-- Of a number that has not been asked for, there is nothing. -/
theorem Kept.fresh (h : s.Kept) (hg : s.last w < g) :
    s.Unstarted w g ∧ s.pump.answers ≠ some (w, g) ∧ ∀ r ∈ s.asked, (r.window, r.generation) ≠ (w, g) := by
  have hnot : ¬ g ≤ s.last w := Nat.not_le.mpr hg
  refine ⟨⟨?_, ?_, ?_⟩, ?_, ?_⟩
  · exact fun task hmem hlogs => hnot ((h.tasks task hmem).overt hlogs).1
  · exact fun hrdp => hnot (h.rdp hrdp).1
  · exact fun e hmem hstart => hnot (h.started e hmem w g hstart)
  · intro hanswers
    have hpump := h.pump
    cases hat : s.pump with
    | ending window generation reason =>
      rw [hat] at hanswers
      cases hanswers
      exact hnot (h.ending hat).1
    | announcing generation event =>
      rw [hat] at hanswers hpump
      cases event with
      | carrierStarted window generation' kind codec =>
        cases hanswers
        exact hnot (hpump.promised rfl).1
      | _ => cases hanswers
    | _ =>
      rw [hat] at hanswers
      cases hanswers
  · intro r hr heq
    cases heq
    exact hnot (h.asked r hr).known

/-- Another number is asked for, for a switch or for a first carrier. -/
theorem Kept.begin (h : s.Kept) (window : WindowId) (carriers : AList fun _ : WindowId => Carriers)
    (hnext : ∀ {w c}, Shared.next { s with carriers := carriers } w = some c →
      s.next w = some c ∨ (w = window ∧ c.generation = s.last window + 1))
    (hkeep : ∀ {w c}, s.next w = some c → Shared.next { s with carriers := carriers } w = some c)
    (hshown : ∀ w, Shared.shown { s with carriers := carriers } w = s.shown w) :
    Kept { s with carriers := carriers, generations := s.generations.insert window (s.last window + 1) } := by
  set s' : Shared :=
    { s with carriers := carriers, generations := s.generations.insert window (s.last window + 1) } with hs'
  have hlast : ∀ w, s'.last w = if w = window then s.last window + 1 else s.last w := by
    intro w
    by_cases hw : w = window
    · rw [if_pos hw, hw, last, hs', AList.lookup_insert]
      rfl
    · rw [if_neg hw, last, hs', AList.lookup_insert_ne hw]
      rfl
  have hle : ∀ w, s.last w ≤ s'.last w := by
    intro w
    rw [hlast]
    split
    · rename_i hw
      rw [hw]
      exact Nat.le_succ _
    · exact Nat.le_refl _
  have hold : ∀ {w c}, s'.next w = some c → c.generation ≤ s.last w → s.next w = some c := by
    intro w c hc hg
    rcases hnext hc with hsame | ⟨rfl, hnew⟩
    · exact hsame
    · omega
  have f : Still s s' := ⟨hle, id, Or.inl, hold, Or.inl⟩
  have hunstarted : ∀ {w g}, s.Unstarted w g → s'.Unstarted w g := fun hun => ⟨hun.tasks, hun.rdp, hun.log⟩
  refine ⟨fun task hmem => (h.tasks task hmem).still f, h.pump.still f, ?_,
    fun r hr => (h.asked r hr).of f rfl (hunstarted (h.asked r hr).unstarted), h.distinct, ?_, ?_, ?_, ?_, ?_,
    h.refused, fun w => (hshown w).trans (h.screen w), h.silent⟩
  · refine h.ending_of f rfl (fun hun _ => hunstarted hun) fun _ hswitching => ?_
    obtain ⟨c, hc, hsame⟩ := switching_iff.mp hswitching
    exact Or.inl (switching_iff.mpr ⟨c, hkeep hc, hsame⟩)
  · intro w c hc
    rcases hnext hc with hsame | ⟨rfl, hnew⟩
    · exact ⟨(h.next hsame).1.trans (hle w), fun c' hc' => (h.next hsame).2 c' ((hshown w).symm.trans hc')⟩
    · refine ⟨by rw [hlast, if_pos rfl, hnew], fun c' hc' => ?_⟩
      -- the one on screen has an older number
      have hknown := (h.shown ((hshown w).symm.trans hc')).1
      omega
  · intro w c hc
    obtain ⟨hknown, hnot⟩ := h.shown ((hshown w).symm.trans hc)
    exact ⟨hknown.trans (hle w), hnot⟩
  · exact fun hrdp => ⟨(h.rdp hrdp).1.trans (hle _), f.overt (h.rdp hrdp).1 (h.rdp hrdp).2⟩
  · exact fun hgone => ⟨(h.gaveUp hgone).1.trans (hle _), f.switching (h.gaveUp hgone).1 (h.gaveUp hgone).2⟩
  · exact fun e hmem w g hstart => (h.started e hmem w g hstart).trans (hle w)

/-- The host is asked for a start. -/
theorem Kept.ask (h : s.Kept) {r : Request} (hwaiting : s.Waiting r)
    (hnew : ∀ r' ∈ s.asked, (r'.window, r'.generation) ≠ (r.window, r.generation)) : (s.ask r).Kept := by
  have f : Still s (s.ask r) := ⟨fun _ => Nat.le_refl _, id, Or.inl, fun hc _ => hc, Or.inl⟩
  have hunstarted : ∀ {w g}, s.Unstarted w g → (s.ask r).Unstarted w g := fun hun => ⟨hun.tasks, hun.rdp, hun.log⟩
  refine ⟨fun task hmem => (h.tasks task hmem).still f, h.pump.still f,
    h.ending_of f rfl (fun hun _ => hunstarted hun) fun _ => Or.inl, ?_, ?_, h.next, h.shown, h.rdp, h.gaveUp,
    h.started, h.refused, h.screen, h.silent⟩
  · intro r' hr'
    have hold : s.Waiting r' := by
      rcases List.mem_append.mp hr' with hr' | hr'
      · exact h.asked r' hr'
      · exact List.mem_singleton.mp hr' ▸ hwaiting
    exact hold.of f rfl (hunstarted hold.unstarted)
  · refine List.pairwise_append.mpr ⟨h.distinct, List.pairwise_singleton _ _, fun r' hr' r'' hr'' => ?_⟩
    rw [List.mem_singleton.mp hr'']
    exact hnew r' hr'

/-- An answer is taken up. -/
theorem Kept.take (h : s.Kept) (i : ℕ) : Kept { s with asked := s.asked.eraseIdx i } := by
  have hsub : (s.asked.eraseIdx i).Sublist s.asked := List.eraseIdx_sublist _ _
  have f : Still s { s with asked := s.asked.eraseIdx i } :=
    ⟨fun _ => Nat.le_refl _, id, Or.inl, fun hc _ => hc, Or.inl⟩
  have hunstarted : ∀ {w g}, s.Unstarted w g → Unstarted { s with asked := s.asked.eraseIdx i } w g := fun hun =>
    ⟨hun.tasks, hun.rdp, hun.log⟩
  refine ⟨fun task hmem => (h.tasks task hmem).still f, h.pump.still f,
    h.ending_of f rfl (fun hun _ => hunstarted hun) fun _ => Or.inl, fun r hr => ?_, h.distinct.sublist hsub, h.next,
    h.shown, h.rdp, h.gaveUp, h.started, h.refused, h.screen, h.silent⟩
  have hold := h.asked r (hsub.subset hr)
  exact hold.of f rfl (hunstarted hold.unstarted)

theorem Kept.nextGeneration (h : s.Kept) (window : WindowId) (hlimit : s.last window + 1 < 2 ^ 32) :
    s.nextGeneration window =
        (s.last window + 1, { s with generations := s.generations.insert window (s.last window + 1) })
      ∧ Kept { s with generations := s.generations.insert window (s.last window + 1) } := by
  refine ⟨?_, h.begin window s.carriers Or.inl id fun _ => rfl⟩
  rw [Shared.nextGeneration, Nat.mod_eq_of_lt hlimit]

/-! ### The end of a switch -/

/-- The end of a switch aborts one task at most. -/
theorem Kept.endTimer (h : s.Kept) (entry : Carriers) (callerIsTimer : Bool) :
    ∃ tasks, s.endTimer entry callerIsTimer = { s with tasks := tasks } ∧ Kept { s with tasks := tasks }
      ∧ ∀ w g, Between { s with tasks := tasks } w g → s.Between w g := by
  rcases endTimer_eq s entry callerIsTimer with heq | ⟨timer, heq⟩
  · exact ⟨s.tasks, heq, h, fun _ _ hbetween => hbetween⟩
  · refine ⟨s.tasks.modify timer Task.abort, heq, h.abort timer, fun w g hbetween => hbetween.imp_left ?_⟩
    rintro ⟨task, hmem, hplan⟩
    obtain ⟨old, hold, hsame⟩ := mem_abort hmem
    exact ⟨old, hold, by rw [hsame]; exact hplan⟩

section

variable {window : WindowId} {entry : Carriers}

theorem next_insert (s : Shared) (window w : WindowId) (entry : Carriers) :
    Shared.next { s with carriers := s.carriers.insert window entry } w =
      if w = window then entry.next else s.next w := lookup_insert_bind _ _ _ _ _

theorem shown_insert (s : Shared) (window w : WindowId) (entry : Carriers) :
    Shared.shown { s with carriers := s.carriers.insert window entry } w =
      if w = window then entry.shown else s.shown w := lookup_insert_bind _ _ _ _ _

/-- An entry changes in what is neither shown nor next. -/
theorem Kept.withEntry (h : s.Kept) (hnext : entry.next = s.next window) (hshown : entry.shown = s.shown window) :
    Kept { s with carriers := s.carriers.insert window entry } := by
  refine h.withCarriers (fun w => ?_) fun w => ?_
  · rw [next_insert]
    split
    · rename_i hw
      rw [hnext, hw]
    · rfl
  · rw [shown_insert]
    split
    · rename_i hw
      rw [hshown, hw]
    · rfl

/-- A switch ends, and its carrier was given up. -/
theorem Kept.endSwitch (h : s.Kept) (hentry : s.carriers.lookup window = some entry) (callerIsTimer : Bool)
    (hcareful : ∀ next, entry.next = some next → ¬ s.Between window next.generation) :
    (s.endSwitch window entry callerIsTimer).Kept
      ∧ (s.endSwitch window entry callerIsTimer).rdp = s.rdp
      ∧ (∀ w g, s.GaveUp w g → (s.endSwitch window entry callerIsTimer).GaveUp w g)
      ∧ ∀ next, entry.next = some next → (s.endSwitch window entry callerIsTimer).GaveUp window next.generation := by
  have hnexts := next_eq hentry
  have hshowns := shown_eq hentry
  obtain ⟨tasks, heq, hkept, hbetween⟩ := h.endTimer entry callerIsTimer
  rw [Shared.endSwitch]
  cases hnext : entry.next with
  | none =>
    dsimp only
    rw [heq]
    refine ⟨hkept.withEntry (hnext.symm.trans hnexts.symm) hshowns.symm, rfl, fun _ _ hgone => hgone, ?_⟩
    intro next hsome
    cases hsome
  | some next =>
    dsimp only
    rw [heq]
    refine ⟨?_, rfl, fun _ _ hgone => List.mem_append_left _ hgone, ?_⟩
    · have hnew : ∀ w, ((Shared.mk s.carriers s.rdp s.generations s.asked s.pump tasks s.log).enter
          (s.carriers.insert window { entry with next := none, givingUp := none })
          (.gaveUp window next.generation)).next w = if w = window then none else s.next w :=
        fun w => next_insert s window w _
      refine hkept.enter (fun {w c} hc => ?_) (fun w => ?_) (fun hclaims => by cases hclaims)
        (fun hshows => by cases hshows) (fun hstarts => by cases hstarts) ?_ (fun hrefuses => by cases hrefuses) ?_
      · rw [hnew] at hc
        split at hc
        · cases hc
        · exact hc
      · have hsame := shown_insert s window w { entry with next := none, givingUp := none }
        refine hsame.trans ?_
        split
        · rename_i hw
          rw [hw]
          exact hshowns.symm
        · rfl
      · intro w g hend
        cases hend
        refine ⟨switching_iff.mpr ⟨next, hnexts.trans hnext, rfl⟩, fun hbet => ?_, ?_⟩
        · exact hcareful next hnext (hbetween _ _ hbet)
        · rw [switching, hnew, if_pos rfl]
          rfl
      · intro w g reason _ hswitching
        by_cases hw : w = window
        · subst hw
          obtain ⟨c, hc, rfl⟩ := switching_iff.mp hswitching
          have hsame : some c = some next := hc.symm.trans (hnexts.trans hnext)
          cases hsame
          exact Or.inr rfl
        · rw [switching, hnew, if_neg hw]
          exact Or.inl hswitching
    · intro next' hsome
      cases hsome
      exact List.mem_append_right _ (List.mem_singleton_self _)

end

/-! ### What is on screen -/

/-- A carrier comes on screen, and the window waits for the same one as before, or for none. -/
theorem Kept.show (h : s.Kept) (window : WindowId) {entry : Carriers} {carrier : Carrier}
    (hshown : entry.shown = some carrier) (hnext : entry.next = none ∨ entry.next = s.next window)
    (hapart : ∀ c, entry.next = some c → carrier.generation ≠ c.generation)
    (hclaims : carrier.generation ≤ s.last window ∧ ¬ s.GaveUp window carrier.generation)
    (hlost : ∀ g reason, s.pump = .ending window g reason → s.switching window g = true →
      entry.next = s.next window) :
    (s.enter (s.carriers.insert window entry) (.shows window carrier)).Kept := by
  have hnew : ∀ w, (s.enter (s.carriers.insert window entry) (.shows window carrier)).next w =
      if w = window then entry.next else s.next w := fun w => next_insert s window w entry
  refine h.enter (fun {w c} hc => ?_) (fun w => ?_) (fun hsome => ?_) (fun {w c c'} hshows hc' => ?_)
    (fun hstarts => by cases hstarts) (fun hend => by cases hend) (fun hrefuses => by cases hrefuses)
    (fun {w g reason} hpump hswitching => ?_)
  · rw [hnew] at hc
    split at hc
    · rename_i hw
      rcases hnext with hnone | hsame
      · rw [hnone] at hc
        cases hc
      · rw [hw, ← hsame]
        exact hc
    · exact hc
  · refine (shown_insert s window w entry).trans ?_
    by_cases hw : w = window
    · rw [if_pos hw, hshown, Entry.screen, if_pos hw.symm]
      rfl
    · rw [if_neg hw, Entry.screen, if_neg (Ne.symm hw)]
      rfl
  · cases hsome
    exact hclaims
  · cases hshows
    rw [hnew, if_pos rfl] at hc'
    exact hapart c' hc'
  · rw [switching, hnew]
    refine Or.inl ?_
    split
    · rename_i hw
      subst hw
      rw [hlost g reason hpump hswitching]
      exact hswitching
    · exact hswitching

/-- A first carrier is up. -/
theorem Kept.startedUp (h : s.Kept) {window : WindowId} {generation : ℕ} (backend : BackendKind)
    (hclaims : generation ≤ s.last window ∧ ¬ s.GaveUp window generation)
    (hfirst : s.switching window generation = false) : (s.started window generation backend).Kept := by
  have hsame := entry_next s window
  refine h.show window rfl (Or.inr hsame) (fun c hc => ?_) hclaims fun _ _ _ _ => hsame
  exact (generation_ne_of_switching hfirst (hsame.symm.trans hc)).symm

/-- Behind it, the thread tells the application. -/
theorem fits_started {window : WindowId} {generation : ℕ} (backend : BackendKind)
    (hclaims : generation ≤ s.last window ∧ ¬ s.GaveUp window generation)
    (hfirst : s.switching window generation = false) :
    (s.started window generation backend).Fits { promises := some (window, generation) } := by
  refine fits_promise hclaims.1 (fun hgone => ?_) fun _ => ?_
  · rcases List.mem_append.mp hgone with hold | hnew
    · exact hclaims.2 hold
    · cases List.mem_singleton.mp hnew
  · rw [switching, show (s.started window generation backend).next window = s.next window from
      (next_insert s window window _).trans ((if_pos rfl).trans (entry_next s window))]
    exact hfirst

/-- The application showed the first picture of a carrier it was told of. -/
theorem Kept.carrierShown (h : s.Kept) {window : WindowId} {generation : ℕ}
    (htold : s.toldStarted window generation = true) : (s.carrierShown window generation).Kept := by
  have hstarts : ∃ e ∈ s.log, e.starts = some (window, generation) := by
    obtain ⟨e, hmem, he⟩ := List.any_eq_true.mp htold
    refine ⟨e, hmem, ?_⟩
    split at he
    · obtain ⟨rfl, rfl⟩ := of_decide_eq_true he
      rfl
    · cases he
  rw [Shared.carrierShown]
  cases hentry : s.carriers.lookup window with
  | none => exact h
  | some entry =>
    have hnexts := next_eq hentry
    dsimp only
    cases hnext : entry.next with
    | none => exact h
    | some next =>
      dsimp only
      split
      · rename_i hgeneration
        obtain ⟨tasks, heq, hkept, -⟩ := h.endTimer entry false
        rw [heq]
        have hwaits : s.switching window next.generation = true :=
          switching_iff.mpr ⟨next, hnexts.trans hnext, rfl⟩
        have hnot : ¬ s.GaveUp window next.generation := fun hgone => by
          rw [(h.gaveUp hgone).2] at hwaits
          cases hwaits
        have hnow : (⟨some next, none, none⟩ : Carriers).shown = some next := rfl
        have hshow := hkept.show window hnow (Or.inl rfl)
          (fun c hc => by cases hc) ⟨(h.next (hnexts.trans hnext)).1, hnot⟩ (fun g reason hpump hswitching => ?_)
        · cases entry.shown with
          | none => exact hshow
          | some old => exact hshow.spawn fits_nothing (answered_of_none rfl)
        · -- a refusal that is being read is of a carrier that nothing was told of
          obtain ⟨c, hc, rfl⟩ := switching_iff.mp hswitching
          have hsame : some c = some next := hc.symm.trans (hnexts.trans hnext)
          cases hsame
          obtain ⟨e, hmem, he⟩ := hstarts
          exact absurd (hgeneration ▸ he) ((h.ending hpump).2.1.log e hmem)
      · exact h

end Shared

end Switching

end WindowCast.Client
