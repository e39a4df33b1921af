import Mathlib

/-!
# Runs of consecutive numbers

A list of numbers, written as the runs of consecutive numbers in it: each as its
first number and how many there are.

## Main definitions

* `Runs.push` — one more number, in the last run or in a new one.
* `Runs.runs`, `Runs.expand` — a list as runs, and back.
* `Runs.first` — the numbers of the first runs of a list.

## Main results

* `Runs.map_expand_runs` — the runs are the maximal ones.
-/

namespace Runs

/-- Puts a number at the end of the last run, if it is the next one there, or
starts a run with it. -/
def push (runs : List (ℕ × ℕ)) (x : ℕ) : List (ℕ × ℕ) :=
  match runs.getLast? with
  | some (start, len) =>
    if start + len = x then runs.dropLast ++ [(start, len + 1)] else runs ++ [(x, 1)]
  | none => runs ++ [(x, 1)]

/-- The runs of a list. -/
def runs (l : List ℕ) : List (ℕ × ℕ) := l.foldl push []

/-- The numbers of a run. -/
def expand (run : ℕ × ℕ) : List ℕ := List.range' run.1 run.2

/-- Whether a number is the next one. -/
def next (a b : ℕ) : Bool := a + 1 == b

/-- The numbers in the first `n` maximal runs of a list. -/
def first (n : ℕ) (l : List ℕ) : List ℕ := ((l.splitBy next).take n).flatten

theorem push_concat (init : List (ℕ × ℕ)) (start len x : ℕ) :
    push (init ++ [(start, len)]) x =
      if start + len = x then init ++ [(start, len + 1)] else init ++ [(start, len)] ++ [(x, 1)] := by
  rw [push, List.getLast?_concat, List.dropLast_concat]

theorem runs_concat (l : List ℕ) (x : ℕ) : runs (l ++ [x]) = push (runs l) x := by
  rw [runs, List.foldl_append]
  rfl

theorem isChain_expand (run : ℕ × ℕ) : (expand run).IsChain fun a b => next a b := by
  obtain ⟨start, len⟩ := run
  induction len generalizing start with
  | zero => exact List.isChain_nil
  | succ len ih =>
    rw [expand, List.range'_succ]
    cases len with
    | zero => exact List.isChain_singleton _
    | succ len =>
      have hrest := ih (start + 1)
      rw [expand, List.range'_succ] at hrest
      rw [List.range'_succ]
      exact List.isChain_cons_cons.mpr ⟨beq_self_eq_true _, hrest⟩

/-- What the runs of a list are: its numbers, in runs that are not empty and do
not go on in the next one. -/
structure Splits (l : List ℕ) (rs : List (ℕ × ℕ)) : Prop where
  flatten : (rs.map expand).flatten = l
  pos : ∀ r ∈ rs, 0 < r.2
  apart : rs.IsChain fun r r' => r.1 + r.2 ≠ r'.1

theorem Splits.push {l : List ℕ} {rs : List (ℕ × ℕ)} (h : Splits l rs) (x : ℕ) :
    Splits (l ++ [x]) (push rs x) := by
  rcases List.eq_nil_or_concat rs with rfl | ⟨init, ⟨start, len⟩, rfl⟩
  · refine ⟨?_, ?_, List.isChain_singleton _⟩
    · rw [← h.flatten]
      rfl
    · intro r hr
      rw [List.mem_singleton.mp hr]
      exact Nat.one_pos
  rw [List.concat_eq_append] at h ⊢
  rw [push_concat]
  have hlast : 0 < len := h.pos (start, len) (List.mem_append_right _ List.mem_cons_self)
  have hinit : ∀ r ∈ init, 0 < r.2 := fun r hr => h.pos r (List.mem_append_left _ hr)
  obtain ⟨happart, -, hjoin⟩ := List.isChain_append.mp h.apart
  split
  · rename_i hx
    refine ⟨?_, ?_, List.isChain_append.mpr ⟨happart, List.isChain_singleton _, ?_⟩⟩
    · rw [← h.flatten, List.map_append, List.map_append, List.flatten_append, List.flatten_append,
        List.append_assoc]
      simp [expand, List.range'_concat, hx]
    · intro r hr
      rcases List.mem_append.mp hr with hr | hr
      · exact hinit r hr
      · rw [List.mem_singleton.mp hr]
        exact Nat.succ_pos len
    · intro r hr r' hr'
      cases Option.mem_some_iff.mp hr'
      exact hjoin r hr (start, len) rfl
  · rename_i hx
    refine ⟨?_, ?_, List.isChain_append.mpr ⟨h.apart, List.isChain_singleton _, ?_⟩⟩
    · rw [← h.flatten, List.map_append, List.flatten_append]
      rfl
    · intro r hr
      rcases List.mem_append.mp hr with hr | hr
      · exact h.pos r hr
      · rw [List.mem_singleton.mp hr]
        exact Nat.one_pos
    · intro r hr r' hr'
      rw [List.getLast?_concat] at hr
      cases Option.mem_some_iff.mp hr
      cases Option.mem_some_iff.mp hr'
      exact hx

theorem splits_runs (l : List ℕ) : Splits l (runs l) := by
  induction l using List.reverseRecOn with
  | nil => exact ⟨rfl, fun r hr => absurd hr List.not_mem_nil, List.isChain_nil⟩
  | append_singleton l x ih =>
    rw [runs_concat]
    exact ih.push x

theorem expand_ne_nil {r : ℕ × ℕ} (h : 0 < r.2) : expand r ≠ [] := by
  rw [expand, Ne, List.range'_eq_nil_iff]
  omega

/-- **The runs are the maximal ones.** -/
theorem map_expand_runs (l : List ℕ) : (runs l).map expand = l.splitBy next := by
  have h := splits_runs l
  refine (List.splitBy_eq_iff.mpr ⟨h.flatten.symm, ?_, ?_, ?_⟩).symm
  · intro hnil
    obtain ⟨r, hr, hexpand⟩ := List.mem_map.mp hnil
    exact expand_ne_nil (h.pos r hr) hexpand
  · intro m hm
    obtain ⟨r, -, rfl⟩ := List.mem_map.mp hm
    exact isChain_expand r
  · rw [List.isChain_map]
    refine List.IsChain.imp_of_mem_imp (fun r r' hr hr' hne => ?_) h.apart
    refine ⟨expand_ne_nil (h.pos r hr), expand_ne_nil (h.pos r' hr'), ?_⟩
    have hpos := h.pos r hr
    simp only [expand, List.getLast_range', List.head_range', next, beq_eq_false_iff_ne]
    omega

/-- The first runs of a list, as the runs computed for it. -/
theorem flatMap_take_runs (n : ℕ) (l : List ℕ) : ((runs l).take n).flatMap expand = first n l := by
  rw [first, ← map_expand_runs, ← List.map_take, List.flatMap_def]

/-- A list of few runs is all in its first ones. -/
theorem first_of_le {n : ℕ} {l : List ℕ} (h : (l.splitBy next).length ≤ n) : first n l = l := by
  rw [first, List.take_of_length_le h, List.flatten_splitBy]

end Runs
