import WindowCast.Host.Pairing

/-!
# Guesses at a PIN

Three failed guesses withdraw a PIN, so that nobody walks the PIN space.  They
are counted when they are reported, and a connection keeps the PIN it captured:
the bound holds as long as no more connections hold a PIN than it has guesses
left, and nothing changes the PIN under them.

## Main definitions

* `Connection.holds`, `Pairings.holders` — the connections a guess at a captured
  PIN may still come of.
* `Pairings.Roomy` — no connection more than there are guesses left, and no
  change of the PIN while a connection holds it.

## Main results

* `Pairings.Bounded.step` — what every roomy step preserves.
* `Pairings.roomy_guesses_le` — **on a roomy run a PIN is guessed wrong at most
  three times, and pairs only while it is current.**
-/

namespace WindowCast.Host

/-- Whether something may still come of the PIN the connection captured. -/
def Connection.holds (self : Connection) : Bool :=
  self.pin.isSome && (self.stage = .waiting || self.stage = .paired || self.stage = .failed)

/-- Whether its guess at `pin` failed and has not been reported. -/
def Connection.owes (self : Connection) (pin : Pin) : Bool :=
  self.pin = some pin && self.stage = .failed

theorem Connection.holds_of_owes {c : Connection} {pin : Pin} (h : c.owes pin = true) :
    c.holds = true := by
  unfold owes at h
  rw [Bool.and_eq_true, decide_eq_true_eq, decide_eq_true_eq] at h
  unfold holds
  rw [h.1, h.2]
  rfl

@[simp] theorem Connection.owes_self (pin : Pin) (stage : Stage) :
    Connection.owes ⟨some pin, stage⟩ pin = decide (stage = .failed) := by
  unfold owes
  rw [decide_eq_true rfl, Bool.true_and]

@[simp] theorem Connection.holds_mk (pin : Option Pin) (stage : Stage) :
    Connection.holds ⟨pin, stage⟩
      = (pin.isSome && (stage = .waiting || stage = .paired || stage = .failed)) := rfl

/-- Replacing an element changes a count by what the two count. -/
theorem countP_set_add {α : Type} {l : List α} {i : ℕ} {a : α} (h : l[i]? = some a) (p : α → Bool)
    (b : α) : (l.set i b).countP p + (p a).toNat = l.countP p + (p b).toNat := by
  induction l generalizing i with
  | nil => cases h
  | cons x l ih =>
    cases i with
    | zero =>
      cases h
      rw [List.set_cons_zero, List.countP_cons, List.countP_cons]
      cases ha : p a <;> cases hb : p b <;> simp
    | succ i =>
      rw [List.getElem?_cons_succ] at h
      have := ih h
      rw [List.set_cons_succ, List.countP_cons, List.countP_cons]
      omega

namespace Pairings

/-- How many connections hold a PIN. -/
def holders (self : Pairings) : ℕ := self.connections.countP Connection.holds

/-- How many failed guesses at `pin` have not been reported. -/
def owing (self : Pairings) (pin : Pin) : ℕ := self.connections.countP fun c => c.owes pin

/-- How far a connection has come. -/
def stage (self : Pairings) (i : ℕ) : Option Stage := (self.connections[i]?).map fun c => c.stage

/-- A connection opens only while fewer connections hold the PIN than there are
guesses left, and no write of the counter is to come; none that has failed goes
without a report; no other failure takes a guess from one that holds the PIN;
and the PIN changes only while no other connection holds it. -/
def Roomy (self : Pairings) : Event → Prop
  | .connect => self.pin = none ∨
      self.resets = 0 ∧ self.holders + self.failures < MAX_PAIRING_FAILURES
  | .leave i => self.stage i ≠ some .failed
  | .report i => (self.stage i = some .paired → self.holders ≤ 1) ∧
      (self.stage i = some .refused →
        self.pin = none ∨ self.holders + self.failures < MAX_PAIRING_FAILURES)
  | .openPairing _ | .closePairing | .expire _ _ => self.holders = 0
  | .guess _ _ | .refuse _ | .reset => True

instance (self : Pairings) : ∀ event, Decidable (Roomy self event)
  | .connect => inferInstanceAs (Decidable (_ ∨ _))
  | .leave _ => inferInstanceAs (Decidable (_ ≠ _))
  | .report _ => inferInstanceAs (Decidable (_ ∧ _))
  | .openPairing _ | .closePairing | .expire _ _ => inferInstanceAs (Decidable (_ = _))
  | .guess _ _ | .refuse _ | .reset => inferInstanceAs (Decidable True)

theorem owing_le_holders (s : Pairings) (pin : Pin) : s.owing pin ≤ s.holders :=
  List.countP_mono_left fun _ _ => Connection.holds_of_owes

/-- What every roomy step preserves. -/
structure Bounded (s : Pairings) : Prop where
  /-- A PIN that a connection holds is the current one. -/
  current : ∀ c ∈ s.connections, c.holds = true → c.pin = s.pin
  room : 0 < s.holders → s.resets = 0 ∧ s.holders + s.failures ≤ MAX_PAIRING_FAILURES
  /-- The current PIN has not been guessed at, or the counter is its own. -/
  guesses : ∀ pin, s.pin = some pin → s.guessed.count pin = 0 ∨
    s.resets = 0 ∧ s.guessed.count pin ≤ s.failures + s.owing pin
  below : s.pin.isSome → s.resets = 0 → s.failures < MAX_PAIRING_FAILURES
  past : ∀ pin, s.guessed.count pin ≤ MAX_PAIRING_FAILURES
  fresh : ∀ pin ∈ s.guessed, pin.issue < s.issued
  shown : ∀ pin, s.pin = some pin → pin.issue < s.issued
  pairings : ∀ x ∈ s.pairings, x.2 = some x.1

theorem bounded_new (shown : Option Text) : (new shown).Bounded where
  current c hc := by
    cases shown <;> cases hc
  room h := by
    cases shown <;> cases h
  guesses pin _ := .inl (by cases shown <;> rfl)
  below h _ := by
    cases shown
    · cases h
    · exact Nat.zero_lt_succ _
  past pin := by
    cases shown <;> exact Nat.zero_le _
  fresh pin hpin := by
    cases shown <;> cases hpin
  shown pin hpin := by
    cases shown with
    | none => cases hpin
    | some digits =>
      cases hpin
      exact Nat.zero_lt_one
  pairings x hx := by
    cases shown <;> cases hx

/-! ### A connection moves on -/

theorem holders_setStage {s : Pairings} {i : ℕ} {c : Connection} (h : s.connections[i]? = some c)
    (stage : Stage) : (s.setStage i c stage).holders + c.holds.toNat
      = s.holders + (Connection.holds { c with stage := stage }).toNat :=
  countP_set_add h _ _

theorem owing_setStage {s : Pairings} {i : ℕ} {c : Connection} (h : s.connections[i]? = some c)
    (stage : Stage) (pin : Pin) : (s.setStage i c stage).owing pin + (c.owes pin).toNat
      = s.owing pin + (Connection.owes { c with stage := stage } pin).toNat :=
  countP_set_add h _ _

/-- The PIN a connection holds is still the current one once it has moved on. -/
theorem Bounded.current_setStage {s : Pairings} (h : s.Bounded) {i : ℕ} {c : Connection}
    (hc : s.connections[i]? = some c) {stage : Stage}
    (hholds : Connection.holds { c with stage := stage } = true → c.holds = true) :
    ∀ d ∈ (s.setStage i c stage).connections, d.holds = true → d.pin = s.pin := by
  intro d hd hdholds
  rcases List.mem_or_eq_of_mem_set hd with hd | rfl
  · exact h.current d hd hdholds
  · exact h.current c (List.mem_of_getElem? hc) (hholds hdholds)

/-- A connection that moves on and has not failed leaves the bound as it is. -/
theorem Bounded.setStage {s : Pairings} (h : s.Bounded) {i : ℕ} {c : Connection}
    (hc : s.connections[i]? = some c) (hfailed : c.stage ≠ .failed) {stage : Stage}
    (hholds : Connection.holds { c with stage := stage } = true → c.holds = true) :
    (s.setStage i c stage).Bounded := by
  have hholders := holders_setStage hc stage
  have hle : (s.setStage i c stage).holders ≤ s.holders := by
    cases hold : c.holds with
    | true =>
      rw [hold] at hholders
      have := Bool.toNat_le (Connection.holds { c with stage := stage })
      rw [Bool.toNat_true] at hholders
      omega
    | false =>
      have hnew : Connection.holds { c with stage := stage } = false := by
        rw [← Bool.not_eq_true]
        intro hnew
        rw [hholds hnew] at hold
        cases hold
      rw [hold, hnew] at hholders
      exact hholders.le
  refine ⟨h.current_setStage hc hholds, ?_, ?_, h.below, h.past, h.fresh, h.shown, h.pairings⟩
  · intro hpos
    obtain ⟨hresets, hroom⟩ := h.room (lt_of_lt_of_le hpos hle)
    exact ⟨hresets, (Nat.add_le_add_right hle _).trans hroom⟩
  · intro pin hpin
    have howing := owing_setStage hc stage pin
    have hnot : c.owes pin = false := by
      unfold Connection.owes
      rw [decide_eq_false hfailed, Bool.and_false]
    rw [hnot] at howing
    refine (h.guesses pin hpin).imp_right (And.imp_right fun hle => hle.trans ?_)
    have : s.owing pin ≤ (s.setStage i c stage).owing pin := by
      rw [Bool.toNat_false] at howing
      omega
    exact Nat.add_le_add_left this _

/-- Nothing holds a PIN. -/
theorem not_holds {s : Pairings} (h : s.holders = 0) : ∀ c ∈ s.connections, c.holds ≠ true :=
  List.countP_eq_zero.mp h

/-- A wrong guess, by a connection that held the PIN. -/
theorem Bounded.wrong {s : Pairings} (h : s.Bounded) {i : ℕ} {pin : Pin}
    (hc : s.connections[i]? = some ⟨some pin, .waiting⟩) :
    Bounded { s.setStage i ⟨some pin, .waiting⟩ .failed with guessed := s.guessed ++ [pin] } := by
  have hmoved : (s.setStage i ⟨some pin, .waiting⟩ .failed).Bounded := h.setStage hc nofun fun _ => rfl
  have hpin : some pin = s.pin := h.current _ (List.mem_of_getElem? hc) rfl
  have howing : (s.setStage i ⟨some pin, .waiting⟩ .failed).owing pin = s.owing pin + 1 := by
    simpa using owing_setStage hc .failed pin
  have hle := owing_le_holders (s.setStage i ⟨some pin, .waiting⟩ .failed) pin
  obtain ⟨hresets, hroom⟩ := hmoved.room (by omega)
  have hcount : s.guessed.count pin + 1
      ≤ s.failures + (s.setStage i ⟨some pin, .waiting⟩ .failed).owing pin := by
    rcases h.guesses pin hpin.symm with hzero | ⟨-, hle⟩
    · rw [hzero, howing]
      omega
    · rw [howing]
      omega
  have hsnoc : ∀ p, (s.guessed ++ [pin]).count p = s.guessed.count p + if pin = p then 1 else 0 := by
    intro p
    rw [List.count_append, List.count_singleton]
    by_cases hp : pin = p
    · rw [if_pos hp, if_pos (beq_iff_eq.mpr hp)]
    · rw [if_neg hp, if_neg (by rw [beq_iff_eq]; exact hp)]
  refine ⟨hmoved.current, hmoved.room, ?_, hmoved.below, ?_, ?_, hmoved.shown, hmoved.pairings⟩
  · intro p hp
    have hp : s.pin = some p := hp
    rw [← hpin] at hp
    cases hp
    refine .inr ⟨hresets, ?_⟩
    simp only
    rw [hsnoc, if_pos rfl]
    exact hcount
  · intro p
    simp only
    rw [hsnoc]
    split
    · rename_i heq
      subst heq
      have hroom : (s.setStage i ⟨some pin, .waiting⟩ .failed).holders + s.failures
          ≤ MAX_PAIRING_FAILURES := hroom
      omega
    · exact h.past p
  · intro p hp
    rcases List.mem_append.mp hp with hp | hp
    · exact h.fresh p hp
    · rw [List.mem_singleton.mp hp]
      exact h.shown pin hpin.symm

/-! ### The PIN changes, and failures are counted -/

/-- A new PIN, while no connection holds one. -/
theorem Bounded.issue {s : Pairings} (h : s.Bounded) (hholders : s.holders = 0) (digits : Text) :
    (s.issue digits).Bounded where
  current c hc hholds := absurd hholds (not_holds hholders c hc)
  room hpos := absurd (hholders ▸ hpos : 0 < 0) (Nat.lt_irrefl 0)
  guesses pin hpin := by
    cases hpin
    refine .inl (List.count_eq_zero.mpr fun hmem => ?_)
    exact Nat.lt_irrefl _ (h.fresh _ hmem)
  below _ hresets := absurd hresets (Nat.succ_ne_zero _)
  past := h.past
  fresh pin hpin := Nat.lt_succ_of_lt (h.fresh pin hpin)
  shown pin hpin := by
    cases hpin
    exact Nat.lt_succ_self _
  pairings := h.pairings

/-- No PIN, while no connection holds one. -/
theorem Bounded.withdraw {s : Pairings} (h : s.Bounded) (hholders : s.holders = 0) :
    s.withdraw.Bounded where
  current c hc hholds := absurd hholds (not_holds hholders c hc)
  room hpos := absurd (hholders ▸ hpos : 0 < 0) (Nat.lt_irrefl 0)
  guesses pin hpin := by cases hpin
  below hsome := by cases hsome
  past := h.past
  fresh := h.fresh
  shown pin hpin := by cases hpin
  pairings := h.pairings

/-- A failure is counted that no connection holding the PIN needs. -/
theorem Bounded.failed {s : Pairings} (h : s.Bounded)
    (hroom : s.pin = none ∨ s.holders + s.failures < MAX_PAIRING_FAILURES) : s.failed.Bounded := by
  rcases s.failed_cases with ⟨-, heq⟩ | ⟨hsome, hlt, heq⟩ | ⟨hsome, hle, heq⟩
  · rw [heq]
    exact h
  · have hroom : s.holders + s.failures < MAX_PAIRING_FAILURES := by
      rcases hroom with hnone | hroom
      · rw [hnone] at hsome
        cases hsome
      · exact hroom
    rw [heq]
    refine ⟨h.current, ?_, ?_, fun _ _ => hlt, h.past, h.fresh, h.shown, h.pairings⟩
    · exact fun hpos => ⟨(h.room hpos).1, hroom⟩
    · intro pin hpin
      refine (h.guesses pin hpin).imp_right (And.imp_right fun hcount => ?_)
      simp only
      have : owing { s with failures := s.failures + 1 } pin = s.owing pin := rfl
      omega
  · have hroom : s.holders + s.failures < MAX_PAIRING_FAILURES := by
      rcases hroom with hnone | hroom
      · rw [hnone] at hsome
        cases hsome
      · exact hroom
    have hzero : s.holders = 0 := by omega
    rw [heq]
    refine ⟨fun c hc hholds => absurd hholds (not_holds hzero c hc), ?_, ?_, ?_, h.past, h.fresh, ?_,
      h.pairings⟩
    · exact fun hpos => absurd (hzero ▸ hpos : 0 < 0) (Nat.lt_irrefl 0)
    · intro pin hpin
      cases hpin
    · intro hsome
      cases hsome
    · intro pin hpin
      cases hpin

/-- The failed guess of a connection is counted. -/
theorem Bounded.counted {s : Pairings} (h : s.Bounded) {i : ℕ} {pin : Pin}
    (hc : s.connections[i]? = some ⟨some pin, .failed⟩) :
    ((s.setStage i ⟨some pin, .failed⟩ .ended).count pin).failed.Bounded := by
  have hpin : some pin = s.pin := h.current _ (List.mem_of_getElem? hc) rfl
  have hholders : (s.setStage i ⟨some pin, .failed⟩ .ended).holders + 1 = s.holders := by
    simpa using holders_setStage hc .ended
  have howing : (s.setStage i ⟨some pin, .failed⟩ .ended).owing pin + 1 = s.owing pin := by
    simpa using owing_setStage hc .ended pin
  obtain ⟨hresets, hroom⟩ := h.room (by omega)
  have hcurrent : ∀ d ∈ (s.setStage i ⟨some pin, .failed⟩ .ended).connections,
      d.holds = true → d.pin = s.pin := h.current_setStage hc nofun
  generalize hs₁ : s.setStage i ⟨some pin, .failed⟩ .ended = s₁ at *
  have hfields : s₁.pin = s.pin ∧ s₁.failures = s.failures ∧ s₁.resets = s.resets ∧
      s₁.guessed = s.guessed ∧ s₁.issued = s.issued ∧ s₁.pairings = s.pairings := by
    subst hs₁
    exact ⟨rfl, rfl, rfl, rfl, rfl, rfl⟩
  obtain ⟨hpin₁, hfailures₁, hresets₁, hguessed₁, hissued₁, hpairings₁⟩ := hfields
  have hfresh : ∀ p ∈ s₁.guessed, p.issue < s₁.issued := by
    rw [hguessed₁, hissued₁]
    exact h.fresh
  have hshown : ∀ p, s₁.pin = some p → p.issue < s₁.issued := by
    rw [hpin₁, hissued₁]
    exact h.shown
  have hpast : ∀ p, s₁.guessed.count p ≤ MAX_PAIRING_FAILURES := by
    rw [hguessed₁]
    exact h.past
  have hpairs : ∀ x ∈ s₁.pairings, x.2 = some x.1 := by
    rw [hpairings₁]
    exact h.pairings
  rcases (s₁.count pin).failed_cases with ⟨hnone, -⟩ | ⟨-, hlt, heq⟩ | ⟨-, hle, heq⟩
  · have hnone : s₁.pin = none := hnone
    rw [hpin₁, ← hpin] at hnone
    cases hnone
  · have hlt : s₁.failures + 1 < MAX_PAIRING_FAILURES := hlt
    rw [heq]
    refine ⟨by rw [← hpin₁] at hcurrent; exact hcurrent, ?_, ?_, fun _ _ => hlt, hpast, hfresh, hshown,
      hpairs⟩
    · intro _
      refine ⟨hresets₁.trans hresets, ?_⟩
      have hsum : s₁.holders + (s₁.failures + 1) ≤ MAX_PAIRING_FAILURES := by omega
      exact hsum
    · intro p hp
      have hp : s₁.pin = some p := hp
      rw [hpin₁, ← hpin] at hp
      cases hp
      rcases h.guesses pin hpin.symm with hzero | ⟨-, hcount⟩
      · exact .inl (by rw [← hguessed₁] at hzero; exact hzero)
      · refine .inr ⟨hresets₁.trans hresets, ?_⟩
        have hsum : s₁.guessed.count pin ≤ s₁.failures + 1 + s₁.owing pin := by
          rw [hguessed₁]
          omega
        exact hsum
  · -- the last guess that was left, so no other connection holds the PIN
    have hle : MAX_PAIRING_FAILURES ≤ s₁.failures + 1 := hle
    have hzero : s₁.holders = 0 := by omega
    rw [heq]
    refine ⟨fun c hc hholds => absurd hholds (not_holds hzero c hc), ?_, ?_, ?_, hpast, hfresh, ?_, hpairs⟩
    · intro hpos
      have hpos : 0 < s₁.holders := hpos
      omega
    · intro p hp
      cases hp
    · intro hsome
      cases hsome
    · intro p hp
      cases hp

/-- **Every roomy step preserves the bound.** -/
theorem Bounded.step {s s' : Pairings} {event : Event} (h : s.Bounded) (hroomy : s.Roomy event)
    (hstep : s.step event = some s') : s'.Bounded := by
  cases step_cases hstep with
  | connect =>
    refine ⟨?_, ?_, ?_, h.below, h.past, h.fresh, h.shown, h.pairings⟩
    · intro c hc hholds
      rcases List.mem_append.mp hc with hc | hc
      · exact h.current c hc hholds
      · rw [List.mem_singleton.mp hc]
    · intro hpos
      have hsum : holders { s with connections := s.connections ++ [⟨s.pin, .waiting⟩] }
          = s.holders + (Connection.holds ⟨s.pin, .waiting⟩).toNat := by
        unfold holders
        rw [List.countP_append, List.countP_singleton]
        cases Connection.holds ⟨s.pin, .waiting⟩ <;> rfl
      rw [hsum] at hpos ⊢
      rcases hroomy with hnone | ⟨hresets, hlt⟩
      · have hnot : Connection.holds ⟨s.pin, .waiting⟩ = false := by
          rw [hnone]
          rfl
        rw [hnot] at hpos ⊢
        exact h.room hpos
      · have := Bool.toNat_le (Connection.holds ⟨s.pin, .waiting⟩)
        refine ⟨hresets, ?_⟩
        simp only
        omega
    · intro pin hpin
      refine (h.guesses pin hpin).imp_right (And.imp_right fun hcount => hcount.trans ?_)
      unfold owing
      rw [List.countP_append]
      simp only
      omega
  | right hc => exact h.setStage hc nofun fun _ => rfl
  | wrong hc hwrong => exact h.wrong hc
  | refuse hc =>
    apply h.setStage hc nofun
    simp
  | leave hc hstage =>
    rename_i i c
    have hfailed : c.stage ≠ .failed := by
      intro hfailed
      refine hroomy ?_
      rw [stage, hc, Option.map_some, hfailed]
    apply h.setStage hc hfailed
    simp
  | paired hc =>
    rename_i i pin
    have hpin : some pin = s.pin := h.current _ (List.mem_of_getElem? hc) rfl
    have hone : s.holders ≤ 1 := hroomy.1 (by rw [stage, hc]; rfl)
    have hholders : (s.setStage i ⟨some pin, .paired⟩ .ended).holders + 1 = s.holders := by
      simpa using holders_setStage hc .ended
    have hmoved : (s.setStage i ⟨some pin, .paired⟩ .ended).Bounded := h.setStage hc nofun nofun
    have hwithdrawn := hmoved.withdraw (by omega)
    refine { hwithdrawn with pairings := ?_ }
    intro x hx
    rcases List.mem_append.mp hx with hx | hx
    · exact h.pairings x hx
    · rw [List.mem_singleton.mp hx]
      exact hpin.symm
  | failed hc => exact h.counted hc
  | refused hc =>
    rename_i i pin
    have hmoved : (s.setStage i ⟨pin, .refused⟩ .ended).Bounded := by
      apply h.setStage hc nofun
      simp
    apply hmoved.failed
    have hsame : (s.setStage i ⟨pin, .refused⟩ .ended).holders = s.holders := by
      simpa using holders_setStage hc .ended
    have hroom := hroomy.2 (by rw [stage, hc]; rfl)
    rw [hsame]
    exact hroom
  | reset hresets =>
    have hzero : s.holders = 0 := by
      by_contra hne
      exact hresets (h.room (Nat.pos_of_ne_zero hne)).1
    refine ⟨h.current, ?_, ?_, fun _ _ => Nat.zero_lt_succ _, h.past, h.fresh, h.shown, h.pairings⟩
    · intro hpos
      have hpos : 0 < s.holders := hpos
      omega
    · intro pin hpin
      rcases h.guesses pin hpin with hcount | ⟨hnone, -⟩
      · exact .inl hcount
      · exact absurd hnone hresets
  | openPairing =>
    rename_i digits
    exact { h.issue hroomy digits with }
  | closePairing =>
    exact { h.withdraw hroomy with }
  | expire ht =>
    rename_i i t digits
    exact { h.issue hroomy digits with }

/-- **On a roomy run a PIN is guessed wrong at most three times, and pairs only
while it is current.** -/
theorem roomy_guesses_le {shown : Option Text} {events : List Event} {s : Pairings}
    (h : Run.Guarded step Roomy events (new shown) s) :
    (∀ pin, s.guessed.count pin ≤ MAX_PAIRING_FAILURES) ∧ ∀ x ∈ s.pairings, x.2 = some x.1 := by
  have hbounded := h.invariant (fun _ _ _ hs hroomy hstep => hs.step hroomy hstep) (bounded_new shown)
  exact ⟨hbounded.past, hbounded.pairings⟩

/-- A PIN for the examples. -/
def shownPin : Text := "123456".toList

/-- One client guesses wrong, and the next one right. -/
theorem roomy_guesses_le_paired :
    ∃ s, run (some shownPin) [.connect, .guess 0 "000000".toList, .report 0, .connect,
        .guess 1 shownPin, .report 1] = some s ∧
      s.pairings = [(⟨shownPin, 0⟩, some ⟨shownPin, 0⟩)] ∧
      (∀ pin, s.guessed.count pin ≤ MAX_PAIRING_FAILURES) ∧ ∀ x ∈ s.pairings, x.2 = some x.1 := by
  have hrun : Run.Guarded step Roomy [.connect, .guess 0 "000000".toList, .report 0, .connect,
      .guess 1 shownPin, .report 1] (new (some shownPin))
      ⟨none, 1, 1, [], [⟨some ⟨shownPin, 0⟩, .ended⟩, ⟨some ⟨shownPin, 0⟩, .ended⟩], 1, 0, .nothing,
        [⟨shownPin, 0⟩], [⟨shownPin, 0⟩], [(⟨shownPin, 0⟩, some ⟨shownPin, 0⟩)]⟩ := by
    decide +kernel
  exact ⟨_, hrun.run, rfl, roomy_guesses_le hrun⟩

/-- Five connections open, four of them guess wrong, pairing is closed, and the
fifth guesses right. -/
def crowd : List Event :=
  [.connect, .connect, .connect, .connect, .connect, .guess 0 "000000".toList,
    .guess 1 "000001".toList, .guess 2 "000002".toList, .guess 3 "000003".toList, .closePairing,
    .guess 4 shownPin, .report 4]

/-- **Connections that overlap get more guesses than there are**, and pair with
a PIN that is closed. -/
theorem crowd_guesses :
    ¬ ∀ shown events s, run shown events = some s →
      (∀ pin, s.guessed.count pin ≤ MAX_PAIRING_FAILURES) ∧ ∀ x ∈ s.pairings, x.2 = some x.1 := by
  intro h
  obtain ⟨s, hs, hcount, hpairings⟩ : ∃ s, run (some shownPin) crowd = some s ∧
      s.guessed.count ⟨shownPin, 0⟩ = 4 ∧ s.pairings = [(⟨shownPin, 0⟩, none)] :=
    ⟨_, rfl, by decide, rfl⟩
  have hle := (h _ _ s hs).1 ⟨shownPin, 0⟩
  rw [hcount] at hle
  exact absurd hle (by decide)

end Pairings

end WindowCast.Host
