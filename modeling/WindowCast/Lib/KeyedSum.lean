import Mathlib

/-!
# Sums over a keyed table

The sum of a weight over the entries of a table, and what inserting an entry
does to it.

## Main results

* `KeyedSum.total_insert` — inserting an entry trades the old weight of its key
  for the new one.
* `KeyedSum.total_eq_sum` — the sum over the entries as a sum over keys.
-/

namespace KeyedSum

variable {α β : Type}

/-- The weights of all entries, summed. -/
def total (f : β → ℕ) (s : AList fun _ : α => β) : ℕ := (s.entries.map fun e => f e.2).sum

@[simp] theorem total_empty (f : β → ℕ) : total f (∅ : AList fun _ : α => β) = 0 := rfl

variable [DecidableEq α]

/-- Inserting trades the old weight of the key for the new one. -/
theorem total_insert (f : β → ℕ) (s : AList fun _ : α => β) (a : α) (b : β) :
    total f (s.insert a b) + ((s.lookup a).map f).getD 0 = total f s + f b := by
  have hinsert : total f (s.insert a b) = f b + ((s.entries.kerase a).map fun e => f e.2).sum := by
    rw [total, AList.entries_insert, List.map_cons, List.sum_cons]
  rw [hinsert]
  by_cases hmem : a ∈ s
  · obtain ⟨old, l₁, l₂, -, hentries, herase⟩ := List.exists_of_kerase hmem
    have hlookup : s.lookup a = some old := by
      apply AList.mem_lookup_iff.mpr
      rw [hentries]
      exact List.mem_append_right _ List.mem_cons_self
    rw [hlookup, herase, total, hentries]
    simp only [List.map_append, List.sum_append, List.map_cons, List.sum_cons, Option.map_some,
      Option.getD_some]
    omega
  · rw [AList.lookup_eq_none.mpr hmem, List.kerase_of_notMem_keys hmem, total]
    simp only [Option.map_none, Option.getD_none]
    omega

/-- The sum over the entries is the sum over any set of keys that has them all. -/
theorem total_eq_sum (f : β → ℕ) (s : AList fun _ : α => β) (keys : Finset α)
    (hkeys : ∀ a ∈ s, a ∈ keys) :
    total f s = ∑ a ∈ keys, ((s.lookup a).map f).getD 0 := by
  have hentries : s.entries.map (fun e => f e.2)
      = s.keys.map fun a => ((s.lookup a).map f).getD 0 := by
    rw [AList.keys, List.keys, List.map_map]
    refine List.map_congr_left fun e he => ?_
    rw [Function.comp_apply, AList.mem_lookup_iff.mpr he]
    rfl
  rw [total, hentries, ← List.sum_toFinset _ s.keys_nodup]
  apply Finset.sum_subset
  · exact fun a ha => hkeys a (List.mem_toFinset.mp ha)
  · intro a _ hnot
    rw [List.mem_toFinset, ← AList.mem_keys] at hnot
    rw [AList.lookup_eq_none.mpr hnot]
    rfl

end KeyedSum
