import Mathlib

/-!
# Walking depth first through what is live

From a node, a walk takes the node out of the live ones, and then walks on from each of
its successors that is live at that moment.  Successors may lead anywhere, also back: a
node is taken out before its successors are looked at, so that a walk ends.

## Main definitions

* `Walk.walk` — a walk, with what is left of the live nodes and the nodes it came to.
* `Walk.Reaches` — a node leads to another through live ones.
* `Walk.Walked` — what a walk from several nodes leaves and comes to.

## Main results

* `Walk.walk_total` — **a walk ends**, with as much fuel as there are live nodes.
* `Walk.Walked.mem_iff` — **a walk comes exactly to what its start leads to.**
-/

namespace Walk

variable {α : Type} [DecidableEq α]

/-- One walk after the other, each on what the one before left. -/
def through (visit : α → List α → Option (List α × List α)) : List α → List α → Option (List α × List α)
  | [], live => some (live, [])
  | x :: xs, live =>
    (visit x live).bind fun first =>
      (through visit xs first.1).map fun rest => (rest.1, first.2 ++ rest.2)

/-- A walk from a node: what it leaves of the live nodes, and those it came to, each
behind those it led to. -/
def walk (next : α → List α) : ℕ → α → List α → Option (List α × List α)
  | 0, _, _ => none
  | fuel + 1, x, live =>
    let live := live.filter fun y => y ≠ x
    (through (walk next fuel) ((next x).filter fun y => y ∈ live) live).map fun r => (r.1, r.2 ++ [x])

/-- A node leads to another through live nodes. -/
def Reaches (next : α → List α) (live : List α) : α → α → Prop :=
  Relation.ReflTransGen fun a b => b ∈ next a ∧ b ∈ live

/-- What walks from the nodes `xs` leave and come to. -/
structure Walked (next : α → List α) (live xs left visited : List α) : Prop where
  left : left = live.filter fun y => y ∉ visited
  sound : ∀ y ∈ visited, ∃ x ∈ xs, Reaches next live x y
  starts : ∀ x ∈ xs, x ∈ visited
  closed : ∀ v ∈ visited, ∀ y ∈ next v, y ∈ live → y ∈ visited

variable {next : α → List α} {live live' xs left visited : List α} {x y : α}

omit [DecidableEq α] in
theorem Reaches.mono (h : Reaches next live x y) (hlive : ∀ z ∈ live, z ∈ live') : Reaches next live' x y :=
  Relation.ReflTransGen.mono (fun _ b hb => ⟨hb.1, hlive b hb.2⟩) x y h

/-- **A walk comes exactly to what its start leads to.** -/
theorem Walked.mem_iff (h : Walked next live xs left visited) :
    y ∈ visited ↔ ∃ x ∈ xs, Reaches next live x y := by
  refine ⟨h.sound y, ?_⟩
  rintro ⟨x, hx, hreach⟩
  induction hreach with
  | refl => exact h.starts x hx
  | tail _ hstep ih => exact h.closed _ ih _ hstep.1 hstep.2

/-! ### What a walk leaves and comes to -/

theorem Walked.nil : Walked next live [] live [] := by
  refine ⟨?_, nofun, nofun, nofun⟩
  exact (List.filter_eq_self.mpr fun y _ => decide_eq_true List.not_mem_nil).symm

/-- One walk and then others. -/
theorem Walked.cons {left' visited' : List α} (h : Walked next live [x] left visited)
    (h' : Walked next left xs left' visited') : Walked next live (x :: xs) left' (visited ++ visited') := by
  obtain ⟨hleft, hsound, hstarts, hclosed⟩ := h
  subst hleft
  refine ⟨?_, ?_, ?_, ?_⟩
  · rw [h'.left, List.filter_filter]
    refine List.filter_congr fun y _ => ?_
    simp only [List.mem_append, not_or, Bool.decide_and, Bool.and_comm]
  · intro y hy
    rcases List.mem_append.mp hy with hy | hy
    · obtain ⟨x', hx', hreach⟩ := hsound y hy
      rw [List.mem_singleton.mp hx'] at hreach
      exact ⟨x, List.mem_cons_self, hreach⟩
    · obtain ⟨x', hx', hreach⟩ := h'.sound y hy
      exact ⟨x', List.mem_cons_of_mem _ hx', hreach.mono fun z hz => (List.mem_filter.mp hz).1⟩
  · intro x' hx'
    rcases List.mem_cons.mp hx' with rfl | hx'
    · exact List.mem_append_left _ (hstarts x' (List.mem_singleton_self x'))
    · exact List.mem_append_right _ (h'.starts x' hx')
  · intro v hv y hy hlive
    rcases List.mem_append.mp hv with hv | hv
    · exact List.mem_append_left _ (hclosed v hv y hy hlive)
    · -- it is visited before, or live for the rest
      by_cases hbefore : y ∈ visited
      · exact List.mem_append_left _ hbefore
      · refine List.mem_append_right _ (h'.closed v hv y hy ?_)
        exact List.mem_filter.mpr ⟨hlive, decide_eq_true hbefore⟩

theorem through_walked {visit : α → List α → Option (List α × List α)}
    (hvisit : ∀ x live r, visit x live = some r → Walked next live [x] r.1 r.2) :
    ∀ {xs live : List α} {r : List α × List α}, through visit xs live = some r →
      Walked next live xs r.1 r.2 := by
  intro xs
  induction xs with
  | nil =>
    intro live r h
    cases h
    exact Walked.nil
  | cons x xs ih =>
    intro live r h
    obtain ⟨first, hfirst, h⟩ := Option.bind_eq_some_iff.mp h
    obtain ⟨rest, hrest, rfl⟩ := Option.map_eq_some_iff.mp h
    exact (hvisit x live first hfirst).cons (ih hrest)

/-- What a walk from one node leaves and comes to. -/
theorem walked {fuel : ℕ} {r : List α × List α} (h : walk next fuel x live = some r) :
    Walked next live [x] r.1 r.2 := by
  induction fuel generalizing x live r with
  | zero => cases h
  | succ fuel ih =>
    obtain ⟨rest, hrest, rfl⟩ := Option.map_eq_some_iff.mp h
    have hwalked := through_walked (fun _ _ _ => ih) hrest
    -- the live nodes but for `x`
    have hother : ∀ {y}, y ∈ live → y = x ∨ y ∈ live.filter fun y => y ≠ x := by
      intro y hy
      by_cases heq : y = x
      · exact .inl heq
      · exact .inr (List.mem_filter.mpr ⟨hy, decide_eq_true heq⟩)
    refine ⟨?_, ?_, ?_, ?_⟩
    · rw [hwalked.left, List.filter_filter]
      refine List.filter_congr fun y _ => ?_
      simp only [List.mem_append, List.mem_singleton, not_or, Bool.decide_and, ne_eq]
    · intro y hy
      refine ⟨x, List.mem_singleton_self x, ?_⟩
      rcases List.mem_append.mp hy with hy | hy
      · obtain ⟨p, hp, hreach⟩ := hwalked.sound y hy
        obtain ⟨hnext, hlive⟩ := List.mem_filter.mp hp
        have hmem := (List.mem_filter.mp (of_decide_eq_true hlive)).1
        exact Relation.ReflTransGen.head ⟨hnext, hmem⟩ (hreach.mono fun z hz => (List.mem_filter.mp hz).1)
      · rw [List.mem_singleton.mp hy]
        exact Relation.ReflTransGen.refl
    · intro x' hx'
      exact List.mem_append_right _ hx'
    · intro v hv y hy hlive
      rcases hother hlive with rfl | hlive
      · exact List.mem_append_right _ (List.mem_singleton_self _)
      refine List.mem_append_left _ ?_
      rcases List.mem_append.mp hv with hv | hv
      · exact hwalked.closed v hv y hy hlive
      · rw [List.mem_singleton.mp hv] at hy
        exact hwalked.starts y (List.mem_filter.mpr ⟨hy, decide_eq_true hlive⟩)

/-! ### A walk ends -/

omit [DecidableEq α] in
theorem through_total {visit : α → List α → Option (List α × List α)} {live' : List α}
    (hvisit : ∀ x ∈ xs, ∀ live, List.Sublist live live' → ∃ r, visit x live = some r ∧ List.Sublist r.1 live) :
    ∀ {live}, List.Sublist live live' → ∃ r, through visit xs live = some r := by
  induction xs with
  | nil => exact fun _ => ⟨_, rfl⟩
  | cons x xs ih =>
    intro live hlive
    obtain ⟨first, hfirst, hsub⟩ := hvisit x List.mem_cons_self live hlive
    obtain ⟨rest, hrest⟩ := ih (fun y hy => hvisit y (List.mem_cons_of_mem _ hy)) (hsub.trans hlive)
    exact ⟨_, by rw [through, hfirst, Option.bind_some, hrest, Option.map_some]⟩

/-- **A walk ends.** -/
theorem walk_total {fuel : ℕ} (h : (live.filter fun y => y ≠ x).length < fuel) :
    ∃ r, walk next fuel x live = some r := by
  induction fuel generalizing x live with
  | zero => exact absurd h (Nat.not_lt_zero _)
  | succ fuel ih =>
    obtain ⟨rest, hrest⟩ : ∃ r, through (walk next fuel)
        ((next x).filter fun y => y ∈ live.filter fun y => y ≠ x) (live.filter fun y => y ≠ x) = some r := by
      refine through_total ?_ (List.Sublist.refl _)
      intro p hp live' hsub
      -- whoever is walked from goes out of the live nodes
      have hmem := of_decide_eq_true (List.mem_filter.mp hp).2
      have hless : (live'.filter fun y => y ≠ p).length < (live.filter fun y => y ≠ x).length := by
        refine lt_of_le_of_lt (hsub.filter fun y => decide (y ≠ p)).length_le ?_
        rw [List.length_filter_lt_length_iff_exists]
        exact ⟨p, hmem, by simp⟩
      obtain ⟨r, hr⟩ := @ih live' p (by omega)
      exact ⟨r, hr, (walked hr).left ▸ List.filter_sublist⟩
    exact ⟨_, by rw [walk, hrest, Option.map_some]⟩

omit [DecidableEq α] in
theorem through_mono {visit visit' : α → List α → Option (List α × List α)}
    (h : ∀ x live r, visit x live = some r → visit' x live = some r) :
    ∀ {xs live : List α} {r : List α × List α}, through visit xs live = some r →
      through visit' xs live = some r := by
  intro xs
  induction xs with
  | nil => exact fun h => h
  | cons x xs ih =>
    intro live r hrun
    obtain ⟨first, hfirst, hrun⟩ := Option.bind_eq_some_iff.mp hrun
    obtain ⟨rest, hrest, rfl⟩ := Option.map_eq_some_iff.mp hrun
    rw [through, h x live first hfirst, Option.bind_some, ih hrest, Option.map_some]

/-- More fuel changes nothing. -/
theorem walk_mono {fuel fuel' : ℕ} {r : List α × List α} (h : walk next fuel x live = some r)
    (hle : fuel ≤ fuel') : walk next fuel' x live = some r := by
  induction fuel generalizing fuel' x live r with
  | zero => cases h
  | succ fuel ih =>
    obtain ⟨fuel', rfl⟩ := Nat.exists_eq_add_of_le' (Nat.lt_of_lt_of_le (Nat.succ_pos fuel) hle)
    obtain ⟨rest, hrest, rfl⟩ := Option.map_eq_some_iff.mp h
    have hle : fuel ≤ fuel' := Nat.le_of_succ_le_succ hle
    rw [walk, through_mono (fun _ _ _ hvisit => ih hvisit hle) hrest, Option.map_some]

end Walk
