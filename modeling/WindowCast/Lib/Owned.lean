import WindowCast.Lib.Table

/-!
# Resources that stay open while they are owned

A table of resources, each with the owners that hold it: an owner opens a resource or
joins those who hold it, and the resource is closed when its last owner leaves.

## Main definitions

* `Owned.Holds` — an owner holds a resource.
* `Owned.Kept` — no resource is open that nobody holds.

## Main results

* `Owned.holds_put`, `Owned.holds_join`, `Owned.holds_leave`, `Owned.holds_leaveAll` — who
  holds what behind each change.
* `Owned.Kept.isSome_iff` — **a resource is open exactly while somebody holds it**.
-/

/-- A resource and its owners. -/
structure Owned (O R : Type) where
  resource : R
  owners : List O
  deriving DecidableEq

namespace Owned

variable {K O R : Type} [DecidableEq K] [DecidableEq O]

abbrev Table (K O R : Type) := AList fun _ : K => Owned O R

/-- The owner holds the resource. -/
def Holds (table : Table K O R) (k : K) (o : O) : Prop := ∃ entry, table.lookup k = some entry ∧ o ∈ entry.owners

/-- Whatever is open has an owner. -/
def Kept (table : Table K O R) : Prop := ∀ k entry, table.lookup k = some entry → entry.owners ≠ []

/-- A resource is opened. -/
def put (table : Table K O R) (k : K) (resource : R) (o : O) : Table K O R := table.insert k ⟨resource, [o]⟩

/-- An owner joins those of a resource that is open. -/
def join (table : Table K O R) (k : K) (entry : Owned O R) (o : O) : Table K O R :=
  table.insert k { entry with owners := entry.owners.insert o }

/-- What is left of a resource when an owner leaves. -/
def without (entry : Owned O R) (o : O) : Option (Owned O R) :=
  if entry.owners.filter (fun owner => owner ≠ o) = [] then none
  else some { entry with owners := entry.owners.filter fun owner => owner ≠ o }

/-- An owner leaves a resource. -/
def leave (table : Table K O R) (k : K) (o : O) : Table K O R :=
  match table.lookup k with
  | none => table
  | some entry =>
    match entry.without o with
    | none => table.erase k
    | some rest => table.insert k rest

/-- An owner leaves every resource. -/
def leaveAll (table : Table K O R) (o : O) : Table K O R := table.revise fun _ entry => entry.without o

theorem mem_without {entry rest : Owned O R} {o o' : O} (h : entry.without o = some rest) :
    o' ∈ rest.owners ↔ o' ≠ o ∧ o' ∈ entry.owners := by
  obtain ⟨-, h⟩ := Option.ite_none_left_eq_some.mp h
  cases h
  rw [List.mem_filter, decide_eq_true_iff, and_comm]

theorem eq_of_without_none {entry : Owned O R} {o o' : O} (h : entry.without o = none) (hmem : o' ∈ entry.owners) :
    o' = o := by
  have hnil : entry.owners.filter (fun owner => owner ≠ o) = [] := by
    by_contra hne
    rw [without, if_neg hne] at h
    cases h
  by_contra hne
  exact List.filter_eq_nil_iff.mp hnil o' hmem (decide_eq_true hne)

theorem without_ne_nil {entry rest : Owned O R} {o : O} (h : entry.without o = some rest) : rest.owners ≠ [] := by
  obtain ⟨hne, h⟩ := Option.ite_none_left_eq_some.mp h
  cases h
  exact hne

/-- Who holds an entry that an owner has left. -/
theorem bind_without {entry : Option (Owned O R)} {o o' : O} :
    (∃ rest, (entry.bind fun entry => entry.without o) = some rest ∧ o' ∈ rest.owners)
      ↔ o' ≠ o ∧ ∃ entry', entry = some entry' ∧ o' ∈ entry'.owners := by
  cases entry with
  | none => simp
  | some entry =>
    rw [Option.bind_some]
    cases hwithout : entry.without o with
    | none =>
      constructor
      · rintro ⟨rest, hnone, -⟩
        cases hnone
      · rintro ⟨hne, entry', hsame, hmem⟩
        cases hsame
        exact absurd (eq_of_without_none hwithout hmem) hne
    | some rest =>
      constructor
      · rintro ⟨_, ⟨⟩, hmem⟩
        obtain ⟨hne, hmem⟩ := (mem_without hwithout).mp hmem
        exact ⟨hne, entry, rfl, hmem⟩
      · rintro ⟨hne, _, ⟨⟩, hmem⟩
        exact ⟨rest, rfl, (mem_without hwithout).mpr ⟨hne, hmem⟩⟩

section

variable {table : Table K O R} {k k' : K} {o o' : O}

theorem lookup_leave_self : (leave table k o).lookup k = (table.lookup k).bind fun entry => entry.without o := by
  unfold leave
  cases hentry : table.lookup k with
  | none => exact hentry
  | some entry =>
    rw [Option.bind_some]
    dsimp only
    cases entry.without o with
    | none => exact AList.lookup_erase _ _
    | some rest => exact AList.lookup_insert _

theorem lookup_leave_ne (h : k' ≠ k) : (leave table k o).lookup k' = table.lookup k' := by
  unfold leave
  cases table.lookup k with
  | none => rfl
  | some entry =>
    dsimp only
    cases entry.without o with
    | none => exact AList.lookup_erase_ne h
    | some rest => exact AList.lookup_insert_ne h

omit [DecidableEq O] in
theorem holds_put (resource : R) (hnone : table.lookup k = none) :
    Holds (put table k resource o) k' o' ↔ (k' = k ∧ o' = o) ∨ Holds table k' o' := by
  unfold Holds put
  by_cases h : k' = k
  · subst h
    rw [AList.lookup_insert, hnone]
    simp
  · rw [AList.lookup_insert_ne h]
    simp [h]

theorem holds_join {entry : Owned O R} (hentry : table.lookup k = some entry) :
    Holds (join table k entry o) k' o' ↔ (k' = k ∧ o' = o) ∨ Holds table k' o' := by
  unfold Holds join
  by_cases h : k' = k
  · subst h
    rw [AList.lookup_insert, hentry]
    simp
  · rw [AList.lookup_insert_ne h]
    simp [h]

theorem holds_leave : Holds (leave table k o) k' o' ↔ ¬ (k' = k ∧ o' = o) ∧ Holds table k' o' := by
  unfold Holds
  by_cases h : k' = k
  · subst h
    rw [lookup_leave_self, bind_without]
    simp
  · rw [lookup_leave_ne h]
    simp [h]

theorem holds_leaveAll : Holds (leaveAll table o) k' o' ↔ o' ≠ o ∧ Holds table k' o' := by
  unfold Holds leaveAll
  rw [AList.lookup_revise]
  exact bind_without

omit [DecidableEq O] in
theorem Kept.put (h : Kept table) (resource : R) : Kept (put table k resource o) := by
  intro k' entry hlookup
  unfold Owned.put at hlookup
  by_cases hk : k' = k
  · rw [hk, AList.lookup_insert] at hlookup
    cases hlookup
    exact List.cons_ne_nil _ _
  · rw [AList.lookup_insert_ne hk] at hlookup
    exact h k' entry hlookup

theorem Kept.join (h : Kept table) (entry : Owned O R) : Kept (join table k entry o) := by
  intro k' entry' hlookup
  unfold Owned.join at hlookup
  by_cases hk : k' = k
  · rw [hk, AList.lookup_insert] at hlookup
    cases hlookup
    exact List.ne_nil_of_mem List.mem_insert_self
  · rw [AList.lookup_insert_ne hk] at hlookup
    exact h k' entry' hlookup

theorem Kept.leave (h : Kept table) : Kept (leave table k o) := by
  intro k' entry hlookup
  by_cases hk : k' = k
  · subst hk
    rw [lookup_leave_self] at hlookup
    obtain ⟨entry', -, hwithout⟩ := Option.bind_eq_some_iff.mp hlookup
    exact without_ne_nil hwithout
  · rw [lookup_leave_ne hk] at hlookup
    exact h k' entry hlookup

theorem kept_leaveAll : Kept (leaveAll table o) := by
  intro k' entry hlookup
  rw [leaveAll, AList.lookup_revise] at hlookup
  obtain ⟨entry', -, hwithout⟩ := Option.bind_eq_some_iff.mp hlookup
  exact without_ne_nil hwithout

omit [DecidableEq O] in
/-- A resource is open exactly while somebody holds it. -/
theorem Kept.isSome_iff (h : Kept table) : (table.lookup k).isSome = true ↔ ∃ o, Holds table k o := by
  constructor
  · intro hsome
    obtain ⟨entry, hentry⟩ := Option.isSome_iff_exists.mp hsome
    obtain ⟨o, hmem⟩ := List.exists_mem_of_ne_nil _ (h k entry hentry)
    exact ⟨o, entry, hentry, hmem⟩
  · rintro ⟨o, entry, hentry, -⟩
    rw [hentry]
    rfl

end

end Owned
