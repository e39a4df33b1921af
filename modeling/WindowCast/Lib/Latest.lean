import Mathlib

/-!
# The latest word in a history

A history is a list with the newest entry at its end, and some of its entries have
something to say.  What counts is what the newest of those says.

## Main results

* `latest_append` — the latest word of two histories, one behind the other.
* `latest_eq_some` — the latest word was said, and nothing behind it.
-/

section

variable {α β : Type} {f : α → Option β}

/-- What the newest entry says that says something. -/
def latest (f : α → Option β) (history : List α) : Option β := history.reverse.findSome? f

@[simp] theorem latest_nil : latest f [] = none := rfl

theorem latest_append (f : α → Option β) (history history' : List α) :
    latest f (history ++ history') = (latest f history').or (latest f history) := by
  rw [latest, List.reverse_append, List.findSome?_append]
  rfl

@[simp] theorem latest_concat (f : α → Option β) (history : List α) (a : α) :
    latest f (history ++ [a]) = (f a).or (latest f history) := by
  rw [latest_append]
  cases hword : f a <;> simp [latest, hword]

/-- The latest word is a word of an entry. -/
theorem exists_of_latest {history : List α} {b : β} (h : latest f history = some b) :
    ∃ a ∈ history, f a = some b := by
  obtain ⟨a, hmem, hword⟩ := List.exists_of_findSome?_eq_some h
  exact ⟨a, List.mem_reverse.mp hmem, hword⟩

/-- Entries that say nothing change nothing. -/
theorem latest_eq_none {history : List α} (h : ∀ a ∈ history, f a = none) : latest f history = none :=
  List.findSome?_eq_none_iff.mpr fun a hmem => h a (List.mem_reverse.mp hmem)

/-- Where all that say something say the same, that is the latest word. -/
theorem latest_eq_some {history : List α} {b : β} (h : ∀ a ∈ history, f a = none ∨ f a = some b)
    (hsome : ∃ a ∈ history, f a = some b) : latest f history = some b := by
  induction history using List.reverseRecOn with
  | nil =>
    obtain ⟨a, hmem, -⟩ := hsome
    cases hmem
  | append_singleton history a ih =>
    rw [latest_concat]
    rcases h a (List.mem_append_right _ (List.mem_singleton_self a)) with hnone | hword
    · rw [hnone, Option.none_or]
      refine ih (fun a' hmem => h a' (List.mem_append_left _ hmem)) ?_
      obtain ⟨a', hmem, hword⟩ := hsome
      rcases List.mem_append.mp hmem with hmem | hmem
      · exact ⟨a', hmem, hword⟩
      · rw [List.mem_singleton.mp hmem, hnone] at hword
        cases hword
    · rw [hword]
      rfl

end
