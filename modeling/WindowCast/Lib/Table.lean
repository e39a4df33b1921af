import Mathlib

/-!
# Tables

Association lists as the tables of a program: what is left when entries are dropped
by a test on them.

## Main results

* `AList.lookup_retain` — what a table holds behind it.
* `AList.keys_retain`, `AList.retain_retain` — the keys that are left, and two tests at once.
* `AList.lookup_revise` — what it holds when entries are changed or dropped one by one.
* `AList.inOrder_eq_map` — what a table that is numbered through holds, in order.
* `Table.find?_of_ascending` — an entry of a list in order is found by its key.
-/

namespace AList

variable {α : Type} {β : Type} [DecidableEq α]

/-- The entries that pass a test. -/
def retain (table : AList fun _ : α => β) (keep : α → β → Bool) : AList fun _ : α => β where
  entries := table.entries.filter fun entry => keep entry.1 entry.2
  nodupKeys := table.nodupKeys.sublist List.filter_sublist

theorem lookup_retain (table : AList fun _ : α => β) (keep : α → β → Bool) (a : α) :
    (table.retain keep).lookup a = (table.lookup a).filter (keep a) := by
  ext b
  change b ∈ (table.retain keep).lookup a ↔ b ∈ (table.lookup a).filter (keep a)
  rw [AList.mem_lookup_iff, Option.mem_filter_iff, AList.mem_lookup_iff, retain, List.mem_filter]

theorem keys_retain (table : AList fun _ : α => β) (keep : α → Bool) :
    (table.retain fun a _ => keep a).keys = table.keys.filter keep := by
  change (table.entries.filter fun entry => keep entry.1).map Sigma.fst = (table.entries.map Sigma.fst).filter keep
  rw [List.filter_map]
  rfl

theorem mem_retain {table : AList fun _ : α => β} {keep : α → Bool} {a : α} :
    a ∈ table.retain (fun a _ => keep a) ↔ a ∈ table ∧ keep a = true := by
  rw [AList.mem_keys, keys_retain, List.mem_filter, ← AList.mem_keys]

/-- Two tests, one after the other. -/
theorem retain_retain (table : AList fun _ : α => β) (keep keep' : α → β → Bool) :
    (table.retain keep).retain keep' = table.retain fun a b => keep a b && keep' a b := by
  refine AList.ext ?_
  change (table.entries.filter _).filter _ = table.entries.filter _
  rw [List.filter_filter]
  exact List.filter_congr fun entry _ => Bool.and_comm _ _

/-- Each entry changed, or dropped. -/
def reviseEntry {β' : Type} (f : α → β → Option β') (entry : Sigma fun _ : α => β) :
    Option (Sigma fun _ : α => β') := (f entry.1 entry.2).map (Sigma.mk entry.1)

omit [DecidableEq α] in
theorem keys_revise {β' : Type} (f : α → β → Option β') (entries : List (Sigma fun _ : α => β)) :
    (entries.filterMap (reviseEntry f)).keys.Sublist entries.keys := by
  induction entries with
  | nil => exact List.Sublist.slnil
  | cons entry entries ih =>
    rw [List.filterMap_cons, List.keys_cons, reviseEntry]
    cases f entry.1 entry.2 with
    | none => exact ih.cons _
    | some b =>
      rw [Option.map_some, List.keys_cons]
      exact ih.cons_cons _

/-- The table with each entry changed, or dropped. -/
def revise {β' : Type} (table : AList fun _ : α => β) (f : α → β → Option β') : AList fun _ : α => β' where
  entries := table.entries.filterMap (reviseEntry f)
  nodupKeys := List.Nodup.sublist (keys_revise f table.entries) table.nodupKeys

theorem lookup_revise {β' : Type} (table : AList fun _ : α => β) (f : α → β → Option β') (a : α) :
    (table.revise f).lookup a = (table.lookup a).bind (f a) := by
  ext b'
  change b' ∈ (table.revise f).lookup a ↔ b' ∈ (table.lookup a).bind (f a)
  rw [AList.mem_lookup_iff, revise, List.mem_filterMap, Option.mem_bind_iff]
  constructor
  · rintro ⟨⟨a', b⟩, hmem, hf⟩
    obtain ⟨b'', hb'', heq⟩ := Option.map_eq_some_iff.mp hf
    cases heq
    exact ⟨b, AList.mem_lookup_iff.mpr hmem, hb''⟩
  · rintro ⟨b, hb, hf⟩
    refine ⟨⟨a, b⟩, AList.mem_lookup_iff.mp hb, ?_⟩
    rw [reviseEntry, Option.mem_def.mp hf]
    rfl

/-! ### Tables with numbers for keys -/

section

variable {table : AList fun _ : ℕ => β} {n : ℕ}

/-- The values, in the order of their keys. -/
def inOrder (table : AList fun _ : ℕ => β) : List β := (table.keys.insertionSort (· ≤ ·)).filterMap table.lookup

theorem mem_inOrder {b : β} : b ∈ table.inOrder ↔ ∃ k, table.lookup k = some b := by
  rw [inOrder, List.mem_filterMap]
  constructor
  · rintro ⟨k, -, hk⟩
    exact ⟨k, hk⟩
  · rintro ⟨k, hk⟩
    refine ⟨k, ?_, hk⟩
    rw [List.mem_insertionSort]
    exact AList.mem_keys.mp (AList.lookup_isSome.mp (by rw [hk]; rfl))

theorem length_inOrder : table.inOrder.length = table.keys.length := by
  have hall : ∀ k ∈ table.keys.insertionSort (· ≤ ·), ∃ b, table.lookup k = some b := by
    intro k hk
    rw [List.mem_insertionSort] at hk
    exact Option.isSome_iff_exists.mp (AList.lookup_isSome.mpr (AList.mem_keys.mpr hk))
  have hlength : ∀ keys : List ℕ, (∀ k ∈ keys, ∃ b, table.lookup k = some b) →
      (keys.filterMap table.lookup).length = keys.length := by
    intro keys
    induction keys with
    | nil => exact fun _ => rfl
    | cons k keys ih =>
      intro hkeys
      obtain ⟨b, hb⟩ := hkeys k List.mem_cons_self
      rw [List.filterMap_cons_some (f := fun k => table.lookup k) hb, List.length_cons, List.length_cons,
        ih fun k' hk' => hkeys k' (List.mem_cons_of_mem _ hk')]
  rw [inOrder, hlength _ hall, List.length_insertionSort]

/-- A table whose keys are below a bound has that many if it has them all. -/
theorem length_keys_eq_iff (h : ∀ k ∈ table.keys, k < n) : table.keys.length = n ↔ ∀ k < n, k ∈ table := by
  have hsub : table.keys.toFinset ⊆ Finset.range n := by
    intro k hk
    exact Finset.mem_range.mpr (h k (List.mem_toFinset.mp hk))
  have hcard : table.keys.toFinset.card = table.keys.length := List.toFinset_card_of_nodup table.keys_nodup
  constructor
  · intro hlength k hk
    have heq : table.keys.toFinset = Finset.range n :=
      Finset.eq_of_subset_of_card_le hsub (by rw [hcard, hlength, Finset.card_range])
    have hmem : k ∈ table.keys.toFinset := heq ▸ Finset.mem_range.mpr hk
    exact AList.mem_keys.mpr (List.mem_toFinset.mp hmem)
  · intro hall
    have heq : table.keys.toFinset = Finset.range n := by
      refine Finset.Subset.antisymm hsub fun k hk => ?_
      exact List.mem_toFinset.mpr (AList.mem_keys.mp (hall k (Finset.mem_range.mp hk)))
    rw [← hcard, heq, Finset.card_range]

/-- A table whose keys are below a bound has no more than that many. -/
theorem length_keys_le (h : ∀ k ∈ table.keys, k < n) : table.keys.length ≤ n := by
  have hsub : table.keys.toFinset ⊆ Finset.range n := by
    intro k hk
    exact Finset.mem_range.mpr (h k (List.mem_toFinset.mp hk))
  have hcard := Finset.card_le_card hsub
  rwa [List.toFinset_card_of_nodup table.keys_nodup, Finset.card_range] at hcard

/-- What a table holds that is numbered through from zero. -/
theorem inOrder_eq_map {f : ℕ → β} (h : ∀ k, table.lookup k = if k < n then some (f k) else none) :
    table.inOrder = (List.range n).map f := by
  have hmem : ∀ k, k ∈ table.keys ↔ k < n := by
    intro k
    rw [← AList.mem_keys, ← AList.lookup_isSome, h]
    split <;> simp [*]
  have hkeys : table.keys.insertionSort (· ≤ ·) = List.range n := by
    refine List.Perm.eq_of_pairwise (fun _ _ _ _ => Nat.le_antisymm) (List.pairwise_insertionSort _ _)
      (List.pairwise_lt_range.imp Nat.le_of_lt) ?_
    refine (List.perm_insertionSort _ _).trans ?_
    refine (List.perm_ext_iff_of_nodup table.keys_nodup List.nodup_range).mpr fun k => ?_
    rw [hmem, List.mem_range]
  rw [inOrder, hkeys, ← List.filterMap_eq_map]
  refine List.filterMap_congr fun k hk => ?_
  rw [h, if_pos (List.mem_range.mp hk)]
  rfl

/-- A table that holds a list. -/
theorem inOrder_eq {l : List β} (h : ∀ k, table.lookup k = l[k]?) : table.inOrder = l := by
  cases l with
  | nil =>
    rw [List.eq_nil_iff_forall_not_mem]
    intro b hb
    obtain ⟨k, hk⟩ := mem_inOrder.mp hb
    rw [h] at hk
    cases hk
  | cons b l =>
    have hall : ∀ k, table.lookup k = if k < (b :: l).length then some ((b :: l).getD k b) else none := by
      intro k
      rw [h]
      split
      case isTrue hlt => rw [List.getD_eq_getElem _ _ hlt, List.getElem?_eq_getElem hlt]
      case isFalse hge => exact List.getElem?_eq_none (Nat.le_of_not_lt hge)
    rw [inOrder_eq_map hall]
    refine List.ext_getElem (by rw [List.length_map, List.length_range]) ?_
    intro k hk hk'
    rw [List.getElem_map, List.getElem_range, List.getD_eq_getElem _ _ hk']

end

end AList

namespace Table

/-- An entry of a list in order is found by its key. -/
theorem find?_of_ascending {α β : Type} [DecidableEq α] (rank : α → ℕ) {entries : List (α × β)}
    (hascending : (entries.map fun entry => rank entry.1).IsChain (· < ·)) {entry : α × β} (hmem : entry ∈ entries) :
    entries.find? (fun e => e.1 = entry.1) = some entry := by
  rw [List.isChain_iff_pairwise, List.pairwise_map] at hascending
  obtain ⟨front, back, rfl⟩ := List.append_of_mem hmem
  have hself : (entry :: back).find? (fun e => e.1 = entry.1) = some entry :=
    List.find?_cons_of_pos (decide_eq_true rfl)
  rw [List.find?_append, List.find?_eq_none.mpr, Option.none_or, hself]
  intro e he heq
  have hlt := (List.pairwise_append.mp hascending).2.2 e he entry List.mem_cons_self
  rw [of_decide_eq_true heq] at hlt
  exact Nat.lt_irrefl _ hlt

end Table
