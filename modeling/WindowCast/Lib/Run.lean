import Mathlib

/-!
# Runs of a fallible step

A step that may fail, folded over a list of events: the run rules that go from
what one step does to what a whole run does.

## Main results

* `Run.total` — an invariant that keeps the step from failing keeps runs from failing.
* `Run.invariant` — what every step preserves, a run preserves.
* `Run.visits` — what the step of an event brings about and later steps keep,
  holds at the end.
* `Run.always_concat` — a property of every point of a run, one event later.
* `Run.Guarded.invariant` — an invariant that steps preserve where a condition on
  the state and the event holds, along a run on which it always does.
* `Run.Guarded.length_le` — such a run is no longer than the number its steps lower.
* `Run.Guarded.of_checked` — a run on which the condition is looked at is one on which it holds.
* `Run.Guarded.imp` — a condition on every step that follows from another.
* `Run.always_iff` — two properties of every point that agree as long as an invariant holds,
  which one of them keeps.
* `Run.Forever.settles` — what never grows stops changing.
* `Run.Forever.ends` — steps that always lower a rank that no other step changes end.
-/

namespace Run

variable {S E : Type} {step : S → E → Option S}

theorem cons {s s' : S} {e : E} {es : List E} :
    (e :: es).foldlM step s = some s' ↔ ∃ t, step s e = some t ∧ es.foldlM step t = some s' := by
  rw [List.foldlM_cons, Option.bind_eq_bind, Option.bind_eq_some_iff]

theorem nil {s s' : S} : [].foldlM step s = some s' ↔ s = s' := by
  rw [List.foldlM_nil, Option.pure_def, Option.some.injEq]

theorem append {s s' : S} {es es' : List E} :
    (es ++ es').foldlM step s = some s' ↔
      ∃ t, es.foldlM step s = some t ∧ es'.foldlM step t = some s' := by
  rw [List.foldlM_append, Option.bind_eq_bind, Option.bind_eq_some_iff]

theorem snoc {s s' : S} {e : E} {es : List E} :
    (es ++ [e]).foldlM step s = some s' ↔ ∃ t, es.foldlM step s = some t ∧ step t e = some s' := by
  rw [append]
  refine exists_congr fun t => and_congr_right fun _ => ?_
  rw [cons]
  constructor
  · rintro ⟨t', ht', hnil⟩
    rw [ht', nil.mp hnil]
  · intro h
    exact ⟨s', h, nil.mpr rfl⟩

/-- An invariant under which no step fails. -/
theorem total {I : S → Prop} {A : E → Prop}
    (hstep : ∀ s e, I s → A e → ∃ s', step s e = some s' ∧ I s') :
    ∀ (es : List E) (s : S), I s → (∀ e ∈ es, A e) → ∃ s', es.foldlM step s = some s' ∧ I s' := by
  intro es
  induction es with
  | nil => exact fun s hs _ => ⟨s, nil.mpr rfl, hs⟩
  | cons e es ih =>
    intro s hs hes
    obtain ⟨t, ht, hI⟩ := hstep s e hs (hes e List.mem_cons_self)
    obtain ⟨s', hs', hI'⟩ := ih t hI fun e' he' => hes e' (List.mem_cons_of_mem _ he')
    exact ⟨s', cons.mpr ⟨t, ht, hs'⟩, hI'⟩

/-- What every step preserves, a run preserves. -/
theorem invariant {I : S → Prop} {A : E → Prop}
    (hstep : ∀ s e s', I s → A e → step s e = some s' → I s') :
    ∀ (es : List E) (s s' : S), I s → (∀ e ∈ es, A e) → es.foldlM step s = some s' → I s' := by
  intro es
  induction es with
  | nil => exact fun s s' hs _ h => nil.mp h ▸ hs
  | cons e es ih =>
    intro s s' hs hes h
    obtain ⟨t, ht, h⟩ := cons.mp h
    exact ih t s' (hstep s e t hs (hes e List.mem_cons_self) ht)
      (fun e' he' => hes e' (List.mem_cons_of_mem _ he')) h

/-- What the step of an event brings about, and later steps keep, holds at the end. -/
theorem visits {I : S → Prop} {A : E → Prop} {Q : E → S → Prop}
    (hstep : ∀ s e s', I s → A e → step s e = some s' → I s' ∧ Q e s' ∧ ∀ d, Q d s → Q d s') :
    ∀ (es : List E) (s s' : S), I s → (∀ e ∈ es, A e) → es.foldlM step s = some s' →
      ∀ e ∈ es, Q e s' := by
  intro es
  induction es with
  | nil => exact fun s s' _ _ _ e he => absurd he List.not_mem_nil
  | cons e es ih =>
    intro s s' hs hes h d hd
    obtain ⟨t, ht, htail⟩ := cons.mp h
    obtain ⟨hI, hQ, -⟩ := hstep s e t hs (hes e List.mem_cons_self) ht
    have hes' : ∀ e' ∈ es, A e' := fun e' he' => hes e' (List.mem_cons_of_mem _ he')
    rcases List.mem_cons.mp hd with rfl | hd
    · -- every later step keeps what this one brought about
      refine (invariant (I := fun s => I s ∧ Q d s) ?_ es t s' ⟨hI, hQ⟩ hes' htail).2
      rintro s₁ e₁ s₂ ⟨hs₁, hq₁⟩ he₁ h₁
      obtain ⟨hs₂, -, hkeep⟩ := hstep s₁ e₁ s₂ hs₁ he₁ h₁
      exact ⟨hs₂, hkeep d hq₁⟩
    · exact ih t s' hI hes' htail d hd

/-! ### Runs on which every step meets a condition -/

/-- The events lead from `s` to `s'`, and each meets `A` in the state it comes in. -/
def Guarded (step : S → E → Option S) (A : S → E → Prop) : List E → S → S → Prop
  | [], s, s' => s = s'
  | e :: es, s, s' => A s e ∧ ∃ t, step s e = some t ∧ Guarded step A es t s'

/-- What the steps that meet the condition preserve, such a run preserves. -/
theorem Guarded.invariant {I : S → Prop} {A : S → E → Prop}
    (hstep : ∀ s e s', I s → A s e → step s e = some s' → I s') :
    ∀ {es : List E} {s s' : S}, Guarded step A es s s' → I s → I s' := by
  intro es
  induction es with
  | nil =>
    intro s s' h hs
    exact h ▸ hs
  | cons e es ih =>
    intro s s' h hs
    obtain ⟨hA, t, ht, h⟩ := h
    exact ih h (hstep s e t hs hA ht)

/-- A run whose steps lower a number is no longer than that. -/
theorem Guarded.length_le {I : S → Prop} {A : S → E → Prop} (rank : S → ℕ)
    (hstep : ∀ s e s', I s → A s e → step s e = some s' → I s' ∧ rank s' < rank s) :
    ∀ {es : List E} {s s' : S}, Guarded step A es s s' → I s → es.length + rank s' ≤ rank s := by
  intro es
  induction es with
  | nil =>
    intro s s' h _
    cases h
    exact (Nat.zero_add _).le
  | cons e es ih =>
    intro s s' h hs
    obtain ⟨hA, t, ht, h⟩ := h
    obtain ⟨hI, hlt⟩ := hstep s e t hs hA ht
    have hrest := ih h hI
    rw [List.length_cons]
    omega

/-- A guarded run is a run. -/
theorem Guarded.run {A : S → E → Prop} :
    ∀ {es : List E} {s s' : S}, Guarded step A es s s' → es.foldlM step s = some s' := by
  intro es
  induction es with
  | nil =>
    intro s s' h
    exact nil.mpr h
  | cons e es ih =>
    intro s s' h
    obtain ⟨-, t, ht, h⟩ := h
    exact cons.mpr ⟨t, ht, ih h⟩

/-- A run is guarded by what holds of its events in any state. -/
theorem Guarded.of_run {A : S → E → Prop} {es : List E} {s s' : S} (h : es.foldlM step s = some s')
    (hA : ∀ e ∈ es, ∀ s, A s e) : Guarded step A es s s' := by
  induction es generalizing s with
  | nil => exact nil.mp h
  | cons e es ih =>
    obtain ⟨t, ht, h⟩ := cons.mp h
    exact ⟨hA e List.mem_cons_self s, t, ht, ih h fun e' he' => hA e' (List.mem_cons_of_mem _ he')⟩

/-- A condition that follows from another, where an invariant holds. -/
theorem Guarded.imp {I : S → Prop} {A B : S → E → Prop}
    (hstep : ∀ s e s', I s → A s e → step s e = some s' → I s') (himp : ∀ s e, I s → A s e → B s e) :
    ∀ {es : List E} {s s' : S}, Guarded step A es s s' → I s → Guarded step B es s s' := by
  intro es
  induction es with
  | nil => exact fun h _ => h
  | cons e es ih =>
    intro s s' h hs
    obtain ⟨hA, t, ht, h⟩ := h
    exact ⟨himp s e hs hA, t, ht, ih h (hstep s e t hs hA ht)⟩

/-- A run that meets two conditions meets both at once. -/
theorem Guarded.and {A B : S → E → Prop} :
    ∀ {es : List E} {s s' : S}, Guarded step A es s s' → Guarded step B es s s' →
      Guarded step (fun s e => A s e ∧ B s e) es s s' := by
  intro es
  induction es with
  | nil => exact fun h _ => h
  | cons e es ih =>
    rintro s s' ⟨hA, t, ht, h⟩ ⟨hB, t', ht', h'⟩
    rw [ht] at ht'
    cases ht'
    exact ⟨⟨hA, hB⟩, t, ht, ih h h'⟩

/-- One guarded run behind another. -/
theorem Guarded.append {A : S → E → Prop} {es es' : List E} {s s' s'' : S} (h : Guarded step A es s s')
    (h' : Guarded step A es' s' s'') : Guarded step A (es ++ es') s s'' := by
  induction es generalizing s with
  | nil => exact h ▸ h'
  | cons e es ih =>
    obtain ⟨hA, t, ht, h⟩ := h
    exact ⟨hA, t, ht, ih h⟩

theorem guarded_cons {A : S → E → Prop} {s t s' : S} {e : E} {es : List E} (ht : step s e = some t) :
    Guarded step A (e :: es) s s' ↔ A s e ∧ Guarded step A es t s' := by
  constructor
  · rintro ⟨hA, t', ht', h⟩
    rw [ht] at ht'
    cases ht'
    exact ⟨hA, h⟩
  · rintro ⟨hA, h⟩
    exact ⟨hA, t, ht, h⟩

/-- A run that looks at the condition before each step. -/
theorem Guarded.of_checked {A : S → E → Prop} [∀ s e, Decidable (A s e)] {es : List E} {s s' : S}
    (h : es.foldlM (fun s e => if A s e then step s e else none) s = some s') : Guarded step A es s s' := by
  induction es generalizing s with
  | nil => exact nil.mp h
  | cons e es ih =>
    obtain ⟨t, ht, h⟩ := cons.mp h
    split at ht
    · rename_i hA
      exact ⟨hA, t, ht, ih h⟩
    · cases ht

instance Guarded.decidable {A : S → E → Prop} [DecidableEq S] [∀ s e, Decidable (A s e)] :
    ∀ (es : List E) (s s' : S), Decidable (Guarded step A es s s')
  | [], s, s' => inferInstanceAs (Decidable (s = s'))
  | e :: es, s, s' =>
    match h : step s e with
    | none => isFalse fun hrun => by
        obtain ⟨-, t, ht, -⟩ := hrun
        rw [h] at ht
        cases ht
    | some t =>
      have : Decidable (Guarded step A es t s') := Guarded.decidable es t s'
      decidable_of_iff (A s e ∧ Guarded step A es t s') (guarded_cons h).symm

/-! ### Properties of every point of a run -/

/-- A property of every point of a list: of each element, with those before it. -/
def Always (P : List E → E → Prop) (es : List E) : Prop :=
  ∀ before e after, es = before ++ e :: after → P before e

theorem always_nil {P : List E → E → Prop} : Always P [] := by
  intro before e after h
  exact absurd h (by simp)

theorem always_concat {P : List E → E → Prop} {es : List E} {e : E} :
    Always P (es ++ [e]) ↔ Always P es ∧ P es e := by
  constructor
  · intro h
    refine ⟨?_, h es e [] rfl⟩
    rintro before e' after rfl
    exact h before e' (after ++ [e]) (by simp)
  · rintro ⟨h, hlast⟩ before e' after hsplit
    rcases List.eq_nil_or_concat after with rfl | ⟨after, e'', rfl⟩
    · obtain ⟨rfl, he⟩ := List.append_inj' hsplit rfl
      cases he
      exact hlast
    · rw [List.concat_eq_append, ← List.cons_append, ← List.append_assoc] at hsplit
      exact h before e' after (List.append_inj' hsplit rfl).1

/-- A property of the points of a list, where it says nothing of those behind it. -/
theorem always_append_of_forall {P : List E → E → Prop} {es after : List E} (h : Always P es)
    (hafter : ∀ e ∈ after, ∀ before, P before e) : Always P (es ++ after) := by
  induction after using List.reverseRecOn with
  | nil =>
    rw [List.append_nil]
    exact h
  | append_singleton after e ih =>
    rw [← List.append_assoc]
    refine always_concat.mpr ⟨ih fun e' he' => hafter e' (List.mem_append_left _ he'), ?_⟩
    exact hafter e (List.mem_append_right _ (List.mem_singleton_self e)) _

theorem Always.left {P : List E → E → Prop} {es after : List E} (h : Always P (es ++ after)) : Always P es := by
  rintro before e after' rfl
  exact h before e (after' ++ after) (by rw [List.append_assoc, List.cons_append])

/-- Elements of which the property says nothing. -/
theorem always_append {P : List E → E → Prop} {es after : List E}
    (hafter : ∀ e ∈ after, ∀ before, P before e) : Always P (es ++ after) ↔ Always P es :=
  ⟨Always.left, fun h => always_append_of_forall h hafter⟩

/-- Two properties that agree wherever a third holds. -/
theorem always_congr {I P Q : List E → E → Prop} {es : List E} (hI : Always I es)
    (h : ∀ before e, I before e → (P before e ↔ Q before e)) : Always P es ↔ Always Q es :=
  ⟨fun hP before e after hsplit => (h before e (hI before e after hsplit)).mp (hP before e after hsplit),
    fun hQ before e after hsplit => (h before e (hI before e after hsplit)).mpr (hQ before e after hsplit)⟩

/-- Two properties that agree as long as something holds which one of them keeps. -/
theorem always_iff {P Q : List E → E → Prop} {I : List E → Prop} (hnil : I [])
    (hiff : ∀ past e, I past → (P past e ↔ Q past e)) (hkeep : ∀ past e, I past → P past e → I (past ++ [e]))
    (es : List E) : Always P es ↔ Always Q es := by
  have hboth : (Always P es → I es) ∧ (Always P es ↔ Always Q es) := by
    induction es using List.reverseRecOn with
    | nil => exact ⟨fun _ => hnil, iff_of_true always_nil always_nil⟩
    | append_singleton past e ih =>
      obtain ⟨hinv, hsame⟩ := ih
      rw [always_concat, always_concat, ← hsame]
      exact ⟨fun h => hkeep past e (hinv h.1) h.2, and_congr_right fun hpast => hiff past e (hinv hpast)⟩
  exact hboth.2

/-! ### Runs without an end -/

/-- Infinitely many steps, one behind the other. -/
structure Forever (step : S → E → Option S) where
  state : ℕ → S
  event : ℕ → E
  next : ∀ n, step (state n) (event n) = some (state (n + 1))

namespace Forever

variable {S E : Type} {step : S → E → Option S} (run : Forever step)

/-- What every step from some point on preserves holds from there on. -/
theorem invariant {I : S → Prop} {n : ℕ} (hn : I (run.state n))
    (hstep : ∀ m, n ≤ m → I (run.state m) → I (run.state (m + 1))) : ∀ m, n ≤ m → I (run.state m) := by
  intro m hm
  induction m, hm using Nat.le_induction with
  | base => exact hn
  | succ m hm ih => exact hstep m hm ih

/-- A number that no step raises from some point on stays the same in the end. -/
theorem settles (f : S → ℕ) {n : ℕ}
    (hstep : ∀ m, n ≤ m → f (run.state (m + 1)) ≤ f (run.state m)) :
    ∃ k, n ≤ k ∧ ∀ m, k ≤ m → f (run.state (m + 1)) = f (run.state m) := by
  have hanti : ∀ k, n ≤ k → ∀ m, k ≤ m → f (run.state m) ≤ f (run.state k) := by
    intro k hk
    refine run.invariant (I := fun s => f s ≤ f (run.state k)) (Nat.le_refl _) ?_
    intro m hm hle
    exact Nat.le_trans (hstep m (Nat.le_trans hk hm)) hle
  -- the least value it takes
  let values : Set ℕ := {v | ∃ k, n ≤ k ∧ f (run.state k) = v}
  have hne : values.Nonempty := ⟨_, n, Nat.le_refl _, rfl⟩
  obtain ⟨k, hk, hleast⟩ := Nat.sInf_mem hne
  have heq : ∀ m, k ≤ m → f (run.state m) = f (run.state k) := by
    intro m hm
    refine Nat.le_antisymm (hanti k hk m hm) ?_
    rw [hleast]
    exact Nat.sInf_le ⟨m, Nat.le_trans hk hm, rfl⟩
  exact ⟨k, hk, fun m hm => (heq (m + 1) (Nat.le_succ_of_le hm)).trans (heq m hm).symm⟩

/-- Steps that always lower a rank, which no other step changes, come to an end. -/
theorem ends {α : Type} {r : α → α → Prop} (hwf : WellFounded r) (f : S → α) {own : E → Prop}
    {I : S → Prop} (hI : ∀ s e s', I s → step s e = some s' → I s')
    (hown : ∀ s e s', I s → own e → step s e = some s' → r (f s') (f s))
    (hother : ∀ s e s', I s → ¬ own e → step s e = some s' → f s' = f s) {n : ℕ} (hn : I (run.state n)) :
    ∃ k, ∀ m, k ≤ m → ¬ own (run.event m) := by
  have hall : ∀ m, n ≤ m → I (run.state m) := run.invariant hn fun m _ hm => hI _ _ _ hm (run.next m)
  classical
  -- by induction on the rank that is reached
  have hrank : ∀ a m, n ≤ m → f (run.state m) = a → ∃ k, ∀ j, k ≤ j → ¬ own (run.event j) := by
    intro a
    induction a using hwf.induction with
    | _ a ih =>
      intro m hm ha
      by_cases hany : ∃ j, m ≤ j ∧ own (run.event j)
      · obtain ⟨hj, howned⟩ := Nat.find_spec hany
        -- up to the first of these steps, the rank is the same
        have hsame : ∀ k, m ≤ k → k ≤ Nat.find hany → f (run.state k) = a := by
          intro k hk
          induction k, hk using Nat.le_induction with
          | base => exact fun _ => ha
          | succ k hk ih =>
            intro hlt
            have hnot : ¬ own (run.event k) := fun h => Nat.find_min hany hlt ⟨hk, h⟩
            exact (hother _ _ _ (hall k (hm.trans hk)) hnot (run.next k)).trans (ih (Nat.le_of_succ_le hlt))
        have hless := hown _ _ _ (hall _ (hm.trans hj)) howned (run.next (Nat.find hany))
        rw [hsame _ hj (Nat.le_refl _)] at hless
        exact ih _ hless _ (Nat.le_succ_of_le (hm.trans hj)) rfl
      · exact ⟨m, fun j hj hown => hany ⟨j, hj, hown⟩⟩
  exact hrank _ n (Nat.le_refl _) rfl

end Forever

end Run
