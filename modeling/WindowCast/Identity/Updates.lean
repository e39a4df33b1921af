import WindowCast.Identity.TrustStore
import WindowCast.Lib.Precedence
import WindowCast.Lib.Run

/-!
# Two updates of one list of trusted peers

Two programs update the list in one file, each in three steps: the list is loaded and
changed, written beside the file, and renamed over it.  The steps of the two can come in
any order, and both write to the same name beside the file.

## Main definitions

* `Sharing.step` — the two updates, step by step.
* `Merged` — neither update undoes what the other changed.

## Main results

* `Sharing.Inv.step` — what the updates have loaded and what is on the disk, by the order
  of the steps that were taken.
* `merged_iff` — **both changes are kept just if one update begins when the other has
  ended, or the one that wrote first changes no peer that the other does not change too**.
-/

namespace WindowCast.Identity

/-- An update of the list, and the order in which its hash set is gone through. -/
structure Update where
  change : TrustStore → TrustStore
  order : Iteration

/-- Where an update is, with the list it loaded. -/
inductive Phase
  | start
  | loaded (store : TrustStore)
  | written (store : TrustStore)
  /-- The file beside was renamed, or there was none any more. -/
  | ended (store : TrustStore) (ok : Bool)
  /-- The list could not be loaded. -/
  | failed
  deriving DecidableEq

namespace Phase

/-- The list that was loaded. -/
def store : Phase → Option TrustStore
  | .start | .failed => none
  | .loaded store | .written store | .ended store _ => some store

/-- How many steps were taken. -/
def taken : Phase → ℕ
  | .start => 0
  | .loaded _ | .failed => 1
  | .written _ => 2
  | .ended _ _ => 3

/-- Whether the update has returned. -/
def returned : Phase → Bool
  | .ended _ _ | .failed => true
  | _ => false

end Phase

/-- The steps of the two updates. -/
inductive Event
  | load (i : Bool)
  | write (i : Bool)
  | rename (i : Bool)
  deriving DecidableEq

/-- The update whose step it is. -/
def Event.owner : Event → Bool
  | .load i | .write i | .rename i => i

/-- Which of its steps it is. -/
def Event.nth : Event → ℕ
  | .load _ => 1
  | .write _ => 2
  | .rename _ => 3

/-- Two updates of one file. -/
structure Sharing where
  disk : Beside Contents
  phase : Bool → Phase

namespace Sharing

def start (file : Option Contents) (temp : Option (Written Contents)) : Sharing :=
  ⟨⟨file.map .whole, temp⟩, fun _ => .start⟩

def set (self : Sharing) (i : Bool) (disk : Beside Contents) (phase : Phase) : Sharing :=
  ⟨disk, Function.update self.phase i phase⟩

/-- What an update puts in the file, where it loaded the list. -/
def result (update : Update) (store : TrustStore) : Contents := .text ((update.change store).contents update.order)

/-- What happens next; nothing, where it is not the update's next step. -/
def step (updates : Bool → Update) (self : Sharing) : Event → Option Sharing
  | .load i =>
    match self.phase i with
    | .start =>
      match TrustStore.load (TrustStore.readToString self.disk false) with
      | some (.ok store) => some (self.set i self.disk (.loaded store))
      | _ => some (self.set i self.disk .failed)
    | _ => none
  | .write i =>
    match self.phase i with
    | .loaded store => some (self.set i (self.disk.write (result (updates i) store) .ok) (.written store))
    | _ => none
  | .rename i =>
    match self.phase i with
    | .written store =>
      match self.disk.rename with
      | some disk => some (self.set i disk (.ended store true))
      | none => some (self.set i self.disk (.ended store false))
    | _ => none

end Sharing

/-! ### What is to be kept -/

/-- The update puts a peer on the list, or takes it off. -/
def Update.Changes (self : Update) (store : TrustStore) (peer : Accounts.PeerId) : Prop :=
  ¬ (peer ∈ (self.change store).pinned ↔ peer ∈ store.pinned)

instance (self : Update) (store : TrustStore) (peer : Accounts.PeerId) : Decidable (self.Changes store peer) :=
  inferInstanceAs (Decidable (¬ _))

/-- Both updates have made their changes, and what one has changed and the other has not
is as the one has made it. -/
def Merged (updates : Bool → Update) (w : Sharing) : Prop :=
  ∀ i store other ok ok', w.phase i = .ended store ok → w.phase (!i) = .ended other ok' →
    ∃ after, TrustStore.held w.disk.text = some after ∧
      ∀ peer, (updates i).Changes store peer → ¬ (updates !i).Changes other peer →
        (peer ∈ after.pinned ↔ peer ∈ ((updates i).change store).pinned)

/-! ### The order of the steps -/

/-- The update is the one that wrote last. -/
def Latest (b : Bool) (es : List Event) : Prop := .write b ∈ es ∧ ¬ Before (.write b) (.write !b) es

theorem Event.eq_of_nth {e e' : Event} (howner : e.owner = e'.owner) (hnth : e.nth = e'.nth) : e = e' := by
  cases e <;> cases e' <;> simp_all [Event.owner, Event.nth]

namespace Sharing

/-- What the steps that were taken say of the updates and the disk, where the list that
there is at first can be loaded. -/
structure Inv (updates : Bool → Update) (file : Option Contents) (first : TrustStore) (es : List Event)
    (w : Sharing) : Prop where
  took : ∀ e, e ∈ es ↔ e.nth ≤ (w.phase e.owner).taken
  nodup : es.Nodup
  sound : ∀ i, w.phase i ≠ .failed
  /-- An update that began when the other had ended has loaded what that has put there. -/
  late : ∀ i store, (w.phase i).store = some store → Before (.rename !i) (.load i) es →
    store = (updates !i).change first
  early : ∀ i store, (w.phase i).store = some store → ¬ Before (.rename !i) (.load i) es → store = first
  apart : ∀ i, Before (.rename !i) (.load i) es → .write i ∈ es → Before (.write !i) (.write i) es
  untouched : (∀ i, .rename i ∉ es) → w.disk.file = file.map .whole
  /-- What was written last is beside the file, or in it. -/
  last : ∀ b store, (w.phase b).store = some store → Latest b es →
    w.disk.temp = some (.whole (result (updates b) store)) ∧ .rename b ∉ es ∨
      w.disk = ⟨some (.whole (result (updates b) store)), none⟩

variable {updates : Bool → Update} {file : Option Contents} {temp : Option (Written Contents)}
  {first : TrustStore} {es : List Event} {w w' : Sharing}

@[simp] theorem phase_set (i : Bool) (disk : Beside Contents) (phase : Phase) : (w.set i disk phase).phase i = phase :=
  Function.update_self _ _ _

theorem phase_set_of_ne {i j : Bool} (h : j ≠ i) (disk : Beside Contents) (phase : Phase) :
    (w.set i disk phase).phase j = w.phase j := Function.update_of_ne h _ _

theorem Inv.start : (start file temp).Inv updates file first [] where
  took := by
    intro e
    cases e <;> simp [Sharing.start, Event.nth, Phase.taken]
  nodup := List.nodup_nil
  sound _ := nofun
  late _ _ := nofun
  early _ _ := nofun
  apart _ h := absurd h.left List.not_mem_nil
  untouched _ := rfl
  last _ _ := nofun

/-- An update takes its next step. -/
theorem Inv.took_step (h : w.Inv updates file first es) {e : Event} (he : (w.phase e.owner).taken + 1 = e.nth)
    (disk : Beside Contents) {phase : Phase} (hphase : phase.taken = e.nth) (e' : Event) :
    e' ∈ es ++ [e] ↔ e'.nth ≤ ((w.set e.owner disk phase).phase e'.owner).taken := by
  rw [List.mem_append, List.mem_singleton, h.took e']
  by_cases howner : e'.owner = e.owner
  · rw [howner, phase_set, hphase]
    have heq : e' = e ↔ e'.nth = e.nth := ⟨fun h => h ▸ rfl, Event.eq_of_nth howner⟩
    rw [heq]
    omega
  · rw [phase_set_of_ne howner]
    have hne : e' ≠ e := fun h => howner (h ▸ rfl)
    simp only [hne, or_false]

theorem Inv.nodup_step (h : w.Inv updates file first es) {e : Event} (he : (w.phase e.owner).taken + 1 = e.nth) :
    (es ++ [e]).Nodup := by
  rw [← List.concat_eq_append, List.nodup_concat]
  refine ⟨?_, h.nodup⟩
  rw [h.took e]
  omega

/-- An update that is to begin has taken no step. -/
theorem Inv.not_mem_of_start (h : w.Inv updates file first es) {i : Bool} (hi : w.phase i = .start) (e : Event)
    (howner : e.owner = i) : e ∉ es := by
  have hpos : 0 < e.nth := by cases e <;> exact Nat.succ_pos _
  rw [h.took e, howner, hi, Phase.taken]
  omega

/-- An update that begins when the other has ended loads what that has put there. -/
theorem Inv.load_late (h : w.Inv updates file first es) {i : Bool} (hi : w.phase i = .start)
    (hrenamed : Event.rename (!i) ∈ es) :
    TrustStore.load (TrustStore.readToString w.disk false) = some (.ok ((updates !i).change first)) := by
  have hown := h.not_mem_of_start hi
  have htaken : 3 ≤ (w.phase !i).taken := (h.took _).mp hrenamed
  cases hphase : w.phase !i with
  | ended other ok =>
    have hsome : (w.phase !i).store = some other := by
      rw [hphase]
      rfl
    obtain rfl : other = first := by
      refine h.early _ _ hsome fun hbefore => ?_
      rw [Bool.not_not] at hbefore
      exact hown _ rfl hbefore.left
    have hlatest : Latest (!i) es := by
      refine ⟨(h.took _).mpr (Nat.le_of_succ_le htaken), fun hbefore => ?_⟩
      rw [Bool.not_not] at hbefore
      exact hown _ rfl hbefore.right
    rcases h.last _ _ hsome hlatest with ⟨-, hnot⟩ | hdisk
    · exact absurd hrenamed hnot
    · rw [hdisk]
      exact TrustStore.load_contents _ _
  | start | loaded | written | failed =>
    rw [hphase, Phase.taken] at htaken
    omega

/-- One that begins before loads the list there was at first. -/
theorem Inv.load_early (h : w.Inv updates file first es)
    (hfirst : TrustStore.load (TrustStore.readToString (Sharing.start file temp).disk false) = some (.ok first))
    {i : Bool} (hi : w.phase i = .start) (hrenamed : Event.rename (!i) ∉ es) :
    TrustStore.load (TrustStore.readToString w.disk false) = some (.ok first) := by
  have hfile : w.disk.file = (Sharing.start file temp).disk.file := by
    refine h.untouched fun j => ?_
    by_cases hj : j = i
    · exact h.not_mem_of_start hi (.rename j) hj
    · rw [Bool.eq_not_of_ne hj]
      exact hrenamed
  have htext : TrustStore.readToString w.disk false = TrustStore.readToString (Sharing.start file temp).disk false := by
    rw [TrustStore.readToString, TrustStore.readToString, Beside.text, hfile]
    rfl
  rw [htext, hfirst]

theorem Inv.load (h : w.Inv updates file first es)
    (hfirst : TrustStore.load (TrustStore.readToString (Sharing.start file temp).disk false) = some (.ok first))
    {i : Bool} (hi : w.phase i = .start) {store : TrustStore} (hstore :
      TrustStore.load (TrustStore.readToString w.disk false) = some (.ok store)) :
    (w.set i w.disk (.loaded store)).Inv updates file first (es ++ [.load i]) := by
  have hown := h.not_mem_of_start hi
  have htaken : (w.phase (Event.load i).owner).taken + 1 = (Event.load i).nth := by
    rw [Event.owner, hi]
    rfl
  have hlate : Event.rename (!i) ∈ es → store = (updates !i).change first := fun hmem =>
    Except.ok.inj (Option.some.inj (hstore.symm.trans (h.load_late hi hmem)))
  have hearly : Event.rename (!i) ∉ es → store = first := fun hmem =>
    Except.ok.inj (Option.some.inj (hstore.symm.trans (h.load_early hfirst hi hmem)))
  -- for the other update, nothing has changed
  have hbefore : ∀ j, j ≠ i → (Before (.rename !j) (.load j) (es ++ [.load i]) ↔ Before (.rename !j) (.load j) es) := by
    intro j hj
    rw [before_concat, or_iff_left]
    rintro ⟨-, heq⟩
    exact hj (Event.load.inj heq)
  have hwrite : ∀ j, Event.write j ∈ es ++ [.load i] ↔ Event.write j ∈ es := by
    intro j
    simp
  constructor
  · exact h.took_step htaken _ rfl
  · exact h.nodup_step htaken
  · intro j
    by_cases hj : j = i
    · rw [hj, phase_set]
      nofun
    · rw [phase_set_of_ne hj]
      exact h.sound j
  · intro j store' hsome hbefore'
    by_cases hj : j = i
    · subst hj
      rw [phase_set] at hsome
      cases hsome
      rcases before_concat.mp hbefore' with hold | ⟨hmem, -⟩
      · exact absurd hold.right (hown _ rfl)
      · exact hlate hmem
    · rw [phase_set_of_ne hj] at hsome
      exact h.late j store' hsome ((hbefore j hj).mp hbefore')
  · intro j store' hsome hbefore'
    by_cases hj : j = i
    · subst hj
      rw [phase_set] at hsome
      cases hsome
      exact hearly fun hmem => hbefore' (before_concat.mpr (Or.inr ⟨hmem, rfl⟩))
    · rw [phase_set_of_ne hj] at hsome
      exact h.early j store' hsome fun hold => hbefore' ((hbefore j hj).mpr hold)
  · intro j hbefore' hmem
    rw [hwrite] at hmem
    have hj : j ≠ i := fun heq => hown (.write _) heq hmem
    exact (h.apart j ((hbefore j hj).mp hbefore') hmem).concat _
  · exact fun hrename => h.untouched fun j hmem => hrename j (List.mem_append_left _ hmem)
  · rintro b store' hsome ⟨hmem, hnot⟩
    rw [hwrite] at hmem
    have hb : b ≠ i := fun heq => hown (.write _) heq hmem
    rw [phase_set_of_ne hb] at hsome
    refine (h.last b store' hsome ⟨hmem, fun hold => hnot (hold.concat _)⟩).imp_left ?_
    rintro ⟨htemp, hrename⟩
    refine ⟨htemp, fun hmem' => hrename ?_⟩
    simpa using hmem'

/-- An update that goes on has still loaded the same list. -/
theorem store_set {i : Bool} {disk : Beside Contents} {phase : Phase} (hi : phase.store = (w.phase i).store) (j : Bool) :
    ((w.set i disk phase).phase j).store = (w.phase j).store := by
  by_cases hj : j = i
  · rw [hj, phase_set, hi]
  · rw [phase_set_of_ne hj]

theorem Inv.write (h : w.Inv updates file first es) {i : Bool} {store : TrustStore} (hi : w.phase i = .loaded store) :
    (w.set i (w.disk.write (result (updates i) store) .ok) (.written store)).Inv updates file first
      (es ++ [.write i]) := by
  have htaken : (w.phase (Event.write i).owner).taken + 1 = (Event.write i).nth := by
    rw [Event.owner, hi]
    rfl
  have hstore := @store_set w i (w.disk.write (result (updates i) store) .ok) (.written store) (by rw [hi]; rfl)
  have hbefore : ∀ j, Before (.rename !j) (.load j) (es ++ [.write i]) ↔ Before (.rename !j) (.load j) es := by
    intro j
    rw [before_concat, or_iff_left]
    rintro ⟨-, heq⟩
    cases heq
  constructor
  · exact h.took_step htaken _ rfl
  · exact h.nodup_step htaken
  · intro j
    by_cases hj : j = i
    · rw [hj, phase_set]
      nofun
    · rw [phase_set_of_ne hj]
      exact h.sound j
  · intro j store' hsome hbefore'
    exact h.late j store' (hstore j ▸ hsome) ((hbefore j).mp hbefore')
  · intro j store' hsome hbefore'
    exact h.early j store' (hstore j ▸ hsome) fun hold => hbefore' ((hbefore j).mpr hold)
  · intro j hbefore' hmem
    have hold := (hbefore j).mp hbefore'
    rcases List.mem_append.mp hmem with hmem | hmem
    · exact (h.apart j hold hmem).concat _
    · -- the other has ended, and so it has written
      have hrenamed : 3 ≤ (w.phase !j).taken := (h.took _).mp hold.left
      have hwrote : Event.write (!j) ∈ es := (h.took (.write !j)).mpr (Nat.le_of_succ_le hrenamed)
      exact before_concat.mpr (Or.inr ⟨hwrote, List.mem_singleton.mp hmem⟩)
  · intro hrename
    rw [Sharing.set, Beside.file_write]
    exact h.untouched fun j hmem => hrename j (List.mem_append_left _ hmem)
  · rintro b store' hsome ⟨hmem, hnot⟩
    by_cases hb : b = i
    · subst hb
      rw [hstore, hi] at hsome
      cases hsome
      refine Or.inl ⟨rfl, fun hmem' => ?_⟩
      rcases List.mem_append.mp hmem' with hmem' | hmem'
      · have hrenamed := (h.took _).mp hmem'
        rw [Event.owner, hi] at hrenamed
        exact absurd (show 3 ≤ 1 from hrenamed) (by decide)
      · cases List.mem_singleton.mp hmem'
    · -- then it wrote before this one
      have hi : i = !b := by rw [Bool.eq_not_of_ne hb, Bool.not_not]
      have hwrote : Event.write b ∈ es := by
        rcases List.mem_append.mp hmem with hmem | hmem
        · exact hmem
        · exact absurd (Event.write.inj (List.mem_singleton.mp hmem)) hb
      exact absurd (before_concat.mpr (Or.inr ⟨hwrote, by rw [hi]⟩)) hnot

theorem Inv.rename (h : w.Inv updates file first es) {i : Bool} {store : TrustStore} (hi : w.phase i = .written store)
    {disk : Beside Contents} {ok : Bool}
    (hdisk : w.disk.rename = some disk ∨ w.disk.rename = none ∧ disk = w.disk) :
    (w.set i disk (.ended store ok)).Inv updates file first (es ++ [.rename i]) := by
  have htaken : (w.phase (Event.rename i).owner).taken + 1 = (Event.rename i).nth := by
    rw [Event.owner, hi]
    rfl
  have hstore := @store_set w i disk (.ended store ok) (by rw [hi]; rfl)
  have hbefore : ∀ j, Before (.rename !j) (.load j) (es ++ [.rename i]) ↔ Before (.rename !j) (.load j) es := by
    intro j
    rw [before_concat, or_iff_left]
    rintro ⟨-, heq⟩
    cases heq
  have hwrite : ∀ j, Event.write j ∈ es ++ [.rename i] ↔ Event.write j ∈ es := by
    intro j
    simp
  constructor
  · exact h.took_step htaken _ rfl
  · exact h.nodup_step htaken
  · intro j
    by_cases hj : j = i
    · rw [hj, phase_set]
      nofun
    · rw [phase_set_of_ne hj]
      exact h.sound j
  · intro j store' hsome hbefore'
    exact h.late j store' (hstore j ▸ hsome) ((hbefore j).mp hbefore')
  · intro j store' hsome hbefore'
    exact h.early j store' (hstore j ▸ hsome) fun hold => hbefore' ((hbefore j).mpr hold)
  · intro j hbefore' hmem
    exact (h.apart j ((hbefore j).mp hbefore') ((hwrite j).mp hmem)).concat _
  · exact fun hrename => absurd (List.mem_append_right _ (List.mem_singleton_self _)) (hrename i)
  · rintro b store' hsome ⟨hmem, hnot⟩
    right
    rw [hstore] at hsome
    rcases h.last b store' hsome ⟨(hwrite b).mp hmem, fun hold => hnot (hold.concat _)⟩ with ⟨htemp, -⟩ | hold
    · have hrename := Beside.rename_of_whole htemp
      rcases hdisk with hdisk | ⟨hdisk, -⟩
      · exact Option.some.inj (hdisk.symm.trans hrename)
      · cases hdisk.symm.trans hrename
    · have hrename : w.disk.rename = none := by
        rw [hold]
        rfl
      rcases hdisk with hdisk | ⟨-, hdisk⟩
      · cases hdisk.symm.trans hrename
      · exact hdisk.trans hold

theorem Inv.step (h : w.Inv updates file first es)
    (hfirst : TrustStore.load (TrustStore.readToString (Sharing.start file temp).disk false) = some (.ok first))
    {e : Event} (hstep : w.step updates e = some w') : w'.Inv updates file first (es ++ [e]) := by
  cases e with
  | load i =>
    rw [Sharing.step] at hstep
    split at hstep
    · rename_i hi
      have hload : ∃ store, TrustStore.load (TrustStore.readToString w.disk false) = some (.ok store) := by
        by_cases hmem : Event.rename (!i) ∈ es
        · exact ⟨_, h.load_late hi hmem⟩
        · exact ⟨_, h.load_early hfirst hi hmem⟩
      obtain ⟨store, hstore⟩ := hload
      rw [hstore] at hstep
      cases hstep
      exact h.load hfirst hi hstore
    · cases hstep
  | write i =>
    rw [Sharing.step] at hstep
    split at hstep
    · rename_i store hi
      cases hstep
      exact h.write hi
    · cases hstep
  | rename i =>
    rw [Sharing.step] at hstep
    split at hstep
    · rename_i store hi
      split at hstep
      · rename_i disk hdisk
        cases hstep
        exact h.rename hi (Or.inl hdisk)
      · rename_i hdisk
        cases hstep
        exact h.rename hi (Or.inr ⟨hdisk, rfl⟩)
    · cases hstep

theorem Inv.run (hfirst : TrustStore.load (TrustStore.readToString (Sharing.start file temp).disk false) =
    some (.ok first)) {es : List Event} {w : Sharing}
    (h : es.foldlM (Sharing.step updates) (Sharing.start file temp) = some w) : w.Inv updates file first es := by
  induction es using List.reverseRecOn generalizing w with
  | nil =>
    obtain rfl := Run.nil.mp h
    exact Inv.start
  | append_singleton es e ih =>
    obtain ⟨t, ht, hstep⟩ := Run.snoc.mp h
    exact (ih ht).step hfirst hstep

/-- Where the list cannot be loaded, no update comes further. -/
theorem store_eq_none {es : List Event} {w : Sharing}
    (hfirst : ∀ first, TrustStore.load (TrustStore.readToString (Sharing.start file temp).disk false) ≠ some (.ok first))
    (h : es.foldlM (Sharing.step updates) (Sharing.start file temp) = some w) (i : Bool) :
    (w.phase i).store = none := by
  have hinv : w.disk = (Sharing.start file temp).disk ∧ ∀ i, (w.phase i).store = none := by
    refine Run.invariant (I := fun w => w.disk = (Sharing.start file temp).disk ∧ ∀ i, (w.phase i).store = none)
      (A := fun _ => True) ?_ es _ w ⟨rfl, fun _ => rfl⟩ (fun _ _ => trivial) h
    rintro s e s' ⟨hdisk, hstore⟩ - hstep
    cases e with
    | load i =>
      rw [Sharing.step] at hstep
      split at hstep
      · rename_i hi
        split at hstep
        · rename_i store hload
          rw [hdisk] at hload
          exact absurd hload (hfirst store)
        · cases hstep
          refine ⟨hdisk, fun j => ?_⟩
          rw [store_set (by rw [hi]; rfl)]
          exact hstore j
      · cases hstep
    | write i | rename i =>
      rw [Sharing.step] at hstep
      split at hstep
      · rename_i store hi
        have hnone := hstore i
        rw [hi] at hnone
        cases hnone
      · cases hstep
  exact hinv.2 i

/-- Where both updates have returned, one wrote last, and what is in the file is its list. -/
theorem Inv.ended (h : w.Inv updates file first es) (hreturned : ∀ i, (w.phase i).returned = true) :
    ∃ (stores : Bool → TrustStore) (oks : Bool → Bool), (∀ i, w.phase i = .ended (stores i) (oks i)) ∧
      ∃ b, Before (.write !b) (.write b) es ∧
        TrustStore.held w.disk.text = some ((updates b).change (stores b)) := by
  have hended : ∀ i, ∃ store ok, w.phase i = .ended store ok := by
    intro i
    have hi := hreturned i
    cases hphase : w.phase i with
    | ended store ok => exact ⟨store, ok, rfl⟩
    | failed => exact absurd hphase (h.sound i)
    | start | loaded | written =>
      rw [hphase] at hi
      cases hi
  choose stores oks hphase using hended
  have hmem : ∀ e, e ∈ es := by
    intro e
    rw [h.took e, hphase, Phase.taken]
    cases e <;> simp [Event.nth]
  refine ⟨stores, oks, hphase, ?_⟩
  have hlast : ∀ b, Before (.write !b) (.write b) es →
      TrustStore.held w.disk.text = some ((updates b).change (stores b)) := by
    intro b hbefore
    have hlatest : Latest b es := ⟨hmem _, hbefore.asymm h.nodup⟩
    rcases h.last b (stores b) (by rw [hphase]; rfl) hlatest with ⟨-, hnot⟩ | hdisk
    · exact absurd (hmem _) hnot
    · rw [hdisk]
      exact TrustStore.held_contents _ _
  rcases Before.or (hmem (.write false)) (hmem (.write true)) (by decide) with hbefore | hbefore
  · exact ⟨true, hbefore, hlast true hbefore⟩
  · exact ⟨false, hbefore, hlast false hbefore⟩

end Sharing

/-- An update that begins when the other has ended keeps what that has changed; of two
that overlap, the one that wrote first keeps its change only where it has changed no peer
that the other has not changed too. -/
theorem merged_iff (updates : Bool → Update) (file : Option Contents) (temp : Option (Written Contents))
    {es : List Event} {w : Sharing} (h : es.foldlM (Sharing.step updates) (Sharing.start file temp) = some w)
    (hreturned : ∀ i, (w.phase i).returned = true) :
    Merged updates w ↔
      ∀ first, TrustStore.load (TrustStore.readToString (Sharing.start file temp).disk false) = some (.ok first) →
        (∃ i, Before (.rename i) (.load !i) es) ∨
          ∃ i, Before (.write i) (.write !i) es ∧
            ∀ peer, (updates i).Changes first peer → (updates !i).Changes first peer := by
  by_cases hload : ∃ first,
      TrustStore.load (TrustStore.readToString (Sharing.start file temp).disk false) = some (.ok first)
  · obtain ⟨first, hfirst⟩ := hload
    have hinv := Sharing.Inv.run hfirst h
    obtain ⟨stores, oks, hphase, b, hbefore, hheld⟩ := hinv.ended hreturned
    have hstore : ∀ i, (w.phase i).store = some (stores i) := by
      intro i
      rw [hphase]
      rfl
    have hwrote : ∀ i, Before (.write i) (.write !i) es → b = !i := by
      intro i hi
      by_contra hne
      obtain rfl : b = i := by rw [Bool.eq_not_of_ne hne, Bool.not_not]
      exact hbefore.asymm hinv.nodup hi
    -- the one that wrote first did not begin behind the other
    have hnotLate : ¬ Before (.rename b) (.load !b) es := by
      intro hlate
      have hapart := hinv.apart (!b) (by rwa [Bool.not_not]) hbefore.left
      rw [Bool.not_not] at hapart
      exact hbefore.asymm hinv.nodup hapart
    have hfirst' : stores (!b) = first := hinv.early (!b) _ (hstore _) (by rwa [Bool.not_not])
    -- what is in the file is what the other made of it, so only the first one's changes can be lost
    have hmerged : Merged updates w ↔ ∀ peer, (updates !b).Changes first peer →
        ¬ (updates b).Changes (stores b) peer →
          (peer ∈ ((updates b).change (stores b)).pinned ↔ peer ∈ ((updates !b).change first).pinned) := by
      constructor
      · intro hm
        obtain ⟨after, hafter, hkept⟩ := hm (!b) _ _ _ _ (hphase _) (hphase _)
        rw [hheld] at hafter
        cases hafter
        rw [hfirst', Bool.not_not] at hkept
        exact hkept
      · intro hkept i store other ok ok' hi hother
        rw [hphase] at hi hother
        cases hi
        cases hother
        refine ⟨_, hheld, fun peer hchanges hnot => ?_⟩
        by_cases heq : i = b
        · rw [heq]
        · obtain rfl : i = !b := Bool.eq_not_of_ne heq
          rw [hfirst'] at hchanges ⊢
          rw [Bool.not_not] at hnot
          exact hkept peer hchanges hnot
    have hlate : Before (.rename !b) (.load b) es → ∀ peer, ¬ (updates b).Changes (stores b) peer →
        (peer ∈ ((updates b).change (stores b)).pinned ↔ peer ∈ ((updates !b).change first).pinned) := by
      intro hbehind peer hnot
      rw [← hinv.late b _ (hstore b) hbehind]
      exact not_not.mp hnot
    rw [hmerged]
    constructor
    · intro hkept first' hload
      obtain rfl : first = first' := Except.ok.inj (Option.some.inj (hfirst.symm.trans hload))
      by_cases hbehind : Before (.rename !b) (.load b) es
      · exact Or.inl ⟨!b, by rwa [Bool.not_not]⟩
      · have hsame : stores b = first := hinv.early b _ (hstore b) hbehind
        refine Or.inr ⟨!b, by rwa [Bool.not_not], fun peer hchanges => ?_⟩
        rw [Bool.not_not]
        by_contra hnot
        rw [hsame] at hkept
        exact hchanges ((hkept peer hchanges hnot).symm.trans (not_not.mp hnot))
    · intro hcond peer hchanges hnot
      rcases hcond first hfirst with ⟨i, hi⟩ | ⟨i, hi, hall⟩
      · have hne : i ≠ b := fun heq => hnotLate (heq ▸ hi)
        obtain rfl : i = !b := Bool.eq_not_of_ne hne
        rw [Bool.not_not] at hi
        exact hlate hi peer hnot
      · by_cases hbehind : Before (.rename !b) (.load b) es
        · exact hlate hbehind peer hnot
        · rw [hinv.early b _ (hstore b) hbehind] at hnot
          rw [hwrote i hi, Bool.not_not] at hchanges
          rw [hwrote i hi] at hnot
          exact absurd (hall peer hchanges) hnot
  · have hnone := Sharing.store_eq_none (fun first hfirst => hload ⟨first, hfirst⟩) h
    refine ⟨fun _ first hfirst => absurd ⟨first, hfirst⟩ hload, fun _ i store other ok ok' hi _ => ?_⟩
    have hi' := hnone i
    rw [hi] at hi'
    cases hi'

/-- Both updates load the list before either has changed it. -/
def overlapping : List Event := [.load false, .load true, .write false, .rename false, .write true, .rename true]

/-- An update that pins a peer, whose key is one byte over and over. -/
def pinning (b : UInt8) (order : Iteration) : Update := ⟨fun store => store.pin ⟨Vector.replicate 32 b⟩, order⟩

/-- Two that pin the same peer at once both keep it. -/
theorem merged_iff_same : ∃ w, overlapping.foldlM
    (Sharing.step fun _ => pinning 1 ⟨Finset.toList, Finset.toList_toFinset⟩) (Sharing.start none none) = some w ∧
      Merged (fun _ => pinning 1 ⟨Finset.toList, Finset.toList_toFinset⟩) w := by
  refine ⟨_, rfl, (@merged_iff _ none none overlapping _ rfl ?_).mpr fun first _ => ?_⟩
  · intro i
    cases i <;> rfl
  · exact Or.inr ⟨false, by decide, fun _ h => h⟩

/-- Of two that pin two peers at once, the first loses its own. -/
theorem pin_lost : ¬ ∀ (updates : Bool → Update) (file : Option Contents) (temp : Option (Written Contents))
    (es : List Event) (w : Sharing), es.foldlM (Sharing.step updates) (Sharing.start file temp) = some w →
      (∀ i, (w.phase i).returned = true) → Merged updates w := by
  intro h
  let order : Iteration := ⟨Finset.toList, Finset.toList_toFinset⟩
  have hmerged := h (fun i => pinning (if i then 2 else 1) order) none none overlapping _ rfl
    (by intro i; cases i <;> rfl)
  obtain ⟨after, hheld, hkept⟩ := hmerged false _ _ _ _ rfl rfl
  have hafter : after = TrustStore.new.pin ⟨Vector.replicate 32 2⟩ :=
    Option.some.inj (hheld.symm.trans (TrustStore.held_contents _ order))
  subst hafter
  have hlost := hkept ⟨Vector.replicate 32 1⟩ (by decide) (by decide)
  revert hlost
  decide

end WindowCast.Identity
