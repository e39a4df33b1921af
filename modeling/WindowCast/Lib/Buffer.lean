import Mathlib

/-!
# Buffers that are used again

A buffer is made as long as it has to be, whatever it held before, and then written place
by place.  Reading and writing outside of it is a failure.

## Main definitions

* `Buffer.resize`, `Buffer.put`, `Buffer.slice`, `Buffer.within` — what is done with a buffer.
* `Buffer.fill` — values written to consecutive places.

## Main results

* `fill_append` — values that are as many as the places leave nothing of what was there.
* `foldlM_bind` — what is read along the way can be read before.
* `collect_flatten_iff` — what rows of one length hold, from what one row holds.
* `foldlM_within`, `foldlM_rows` — rows of one length, written one after the other, are one
  long row.
-/

namespace Buffer

variable {α β γ σ : Type}

/-- As long as asked for: shortened, or with `a` behind it. -/
def resize (buffer : List α) (n : ℕ) (a : α) : List α := buffer.take n ++ List.replicate (n - buffer.length) a

def put (buffer : List α) (i : ℕ) (a : α) : Option (List α) :=
  if i < buffer.length then some (buffer.set i a) else none

/-- The places from `start` up to `stop`. -/
def slice (buffer : List α) (start stop : ℕ) : Option (List α) :=
  if start ≤ stop ∧ stop ≤ buffer.length then some ((buffer.drop start).take (stop - start)) else none

def sliceFrom (buffer : List α) (start : ℕ) : Option (List α) :=
  if start ≤ buffer.length then some (buffer.drop start) else none

/-- What is before `mid` and what is from there on. -/
def splitAt (buffer : List α) (mid : ℕ) : Option (List α × List α) :=
  if mid ≤ buffer.length then some (buffer.take mid, buffer.drop mid) else none

/-- What `change` does to the places from `start` up to `stop`, the others left as they are. -/
def within (buffer : List α) (start stop : ℕ) (change : List α → Option (List α)) : Option (List α) :=
  (slice buffer start stop).bind fun part =>
    (change part).map fun part => buffer.take start ++ part ++ buffer.drop stop

/-- The values, written to the first places. -/
def fill (buffer values : List α) : Option (List α) :=
  values.zipIdx.foldlM (fun buffer p => put buffer p.2 p.1) buffer

/-- What is read at the places before `n`, if all of it can be read. -/
def collect (read : ℕ → Option β) : ℕ → Option (List β)
  | 0 => some []
  | n + 1 => (collect read n).bind fun values => (read n).map fun value => values ++ [value]

section

variable {buffer before behind values : List α} {a b : α} {i n start stop : ℕ}

@[simp] theorem length_resize (buffer : List α) (n : ℕ) (a : α) : (resize buffer n a).length = n := by
  rw [resize, List.length_append, List.length_take, List.length_replicate]
  omega

theorem put_append (h : before.length = i) : put (before ++ b :: behind) i a = some (before ++ a :: behind) := by
  subst h
  have hlt : before.length < (before ++ b :: behind).length := by
    rw [List.length_append, List.length_cons]
    omega
  rw [put, if_pos hlt, List.set_append_right _ _ (Nat.le_refl _), Nat.sub_self, List.set_cons_zero]

theorem length_of_slice (h : slice buffer start stop = some values) : values.length = stop - start := by
  rw [slice] at h
  split at h
  · rename_i hbounds
    cases h
    rw [List.length_take, List.length_drop]
    omega
  · cases h

/-- A slice between what is before it and what is behind it. -/
theorem slice_append (hstart : before.length = start) (hstop : start + values.length = stop) :
    slice (before ++ (values ++ behind)) start stop = some values := by
  subst hstart hstop
  have hbounds : before.length ≤ before.length + values.length ∧
      before.length + values.length ≤ (before ++ (values ++ behind)).length := by
    rw [List.length_append, List.length_append]
    omega
  rw [slice, if_pos hbounds, List.drop_left, Nat.add_sub_cancel_left, List.take_left]

theorem within_append (change : List α → Option (List α)) (hstart : before.length = start)
    (hstop : stop = start + values.length) :
    within (before ++ (values ++ behind)) start stop change =
      (change values).map fun part => before ++ part ++ behind := by
  subst hstart hstop
  rw [within, slice_append rfl rfl, Option.bind_some, List.take_left, ← List.append_assoc before values behind,
    ← List.length_append, List.drop_left]

theorem splitAt_append (before behind : List α) : splitAt (before ++ behind) before.length = some (before, behind) := by
  rw [splitAt, if_pos (by rw [List.length_append]; omega), List.take_left, List.drop_left]

/-- Values that are as many as the places leave nothing of what was there. -/
theorem fill_append (hlength : buffer.length = values.length) (hbefore : before.length = i) :
    (values.zipIdx i).foldlM (fun buffer p => put buffer p.2 p.1) (before ++ buffer) = some (before ++ values) := by
  induction values generalizing buffer before i with
  | nil =>
    rw [List.eq_nil_of_length_eq_zero hlength]
    rfl
  | cons v values ih =>
    cases buffer with
    | nil => cases hlength
    | cons b buffer =>
      rw [List.zipIdx_cons, List.foldlM_cons]
      dsimp only
      rw [put_append hbefore, List.append_cons before v buffer, List.append_cons before v values]
      refine ih (Nat.succ.inj hlength) ?_
      rw [List.length_append, List.length_singleton, hbefore]

theorem fill_eq_some (hlength : buffer.length = values.length) : fill buffer values = some values :=
  fill_append (i := 0) hlength List.length_nil

theorem length_of_collect {read : ℕ → Option β} {values : List β} (h : collect read n = some values) :
    values.length = n := by
  induction n generalizing values with
  | zero =>
    cases h
    rfl
  | succ n ih =>
    obtain ⟨first, hfirst, h⟩ := Option.bind_eq_some_iff.mp h
    obtain ⟨value, -, rfl⟩ := Option.map_eq_some_iff.mp h
    rw [List.length_append, List.length_singleton, ih hfirst]

theorem collect_isSome {read : ℕ → Option β} (h : ∀ i < n, (read i).isSome) : (collect read n).isSome := by
  induction n with
  | zero => rfl
  | succ n ih =>
    obtain ⟨values, hvalues⟩ := Option.isSome_iff_exists.mp (ih fun i hi => h i (by omega))
    obtain ⟨value, hvalue⟩ := Option.isSome_iff_exists.mp (h n (Nat.lt_succ_self n))
    rw [collect, hvalues, hvalue]
    rfl

theorem exists_read_of_mem {read : ℕ → Option β} {values : List β} {value : β} (h : collect read n = some values)
    (hmem : value ∈ values) : ∃ i, read i = some value := by
  induction n generalizing values with
  | zero =>
    cases h
    cases hmem
  | succ n ih =>
    obtain ⟨first, hfirst, h⟩ := Option.bind_eq_some_iff.mp h
    obtain ⟨last, hlast, rfl⟩ := Option.map_eq_some_iff.mp h
    rcases List.mem_append.mp hmem with hmem | hmem
    · exact ih hfirst hmem
    · exact ⟨n, List.mem_singleton.mp hmem ▸ hlast⟩

theorem length_flatten_of_collect {read : ℕ → Option (List α)} {rows : List (List α)} {k : ℕ}
    (hread : ∀ i values, read i = some values → values.length = k) (h : collect read n = some rows) :
    rows.flatten.length = n * k := by
  induction n generalizing rows with
  | zero =>
    cases h
    rw [Nat.zero_mul]
    rfl
  | succ n ih =>
    obtain ⟨first, hfirst, h⟩ := Option.bind_eq_some_iff.mp h
    obtain ⟨values, hvalues, rfl⟩ := Option.map_eq_some_iff.mp h
    rw [List.flatten_append, List.flatten_singleton, List.length_append, ih hfirst, hread n values hvalues,
      Nat.succ_mul]

theorem collect_congr {read read' : ℕ → Option β} (h : ∀ i < n, read i = read' i) :
    collect read n = collect read' n := by
  induction n with
  | zero => rfl
  | succ n ih => rw [collect, collect, ih fun i hi => h i (by omega), h n (Nat.lt_succ_self n)]

theorem collect_some (f : ℕ → β) (n : ℕ) : collect (fun i => some (f i)) n = some ((List.range n).map f) := by
  induction n with
  | zero => rfl
  | succ n ih =>
    rw [collect, ih, List.range_succ, List.map_append]
    rfl

theorem read_eq_some_of_collect {read : ℕ → Option β} {values : List β} (h : collect read n = some values) :
    ∀ i < n, ∃ value, read i = some value := by
  induction n generalizing values with
  | zero => exact fun i hi => absurd hi (Nat.not_lt_zero i)
  | succ n ih =>
    obtain ⟨first, hfirst, h⟩ := Option.bind_eq_some_iff.mp h
    obtain ⟨last, hlast, -⟩ := Option.map_eq_some_iff.mp h
    intro i hi
    rcases Nat.lt_succ_iff_lt_or_eq.mp hi with hlt | rfl
    · exact ih hfirst i hlt
    · exact ⟨last, hlast⟩

/-- Rows of one length are one long row of what they should be exactly if each row is what it should be. -/
theorem collect_flatten_iff (read : ℕ → Option (List α)) {k : ℕ} (g : α → γ) (spec : ℕ → List γ)
    (hread : ∀ i values, read i = some values → values.length = k) (hspec : ∀ i, (spec i).length = k) :
    (∃ rows, collect read n = some rows ∧ rows.flatten.map g = (List.range n).flatMap spec) ↔
      ∀ i < n, ∃ values, read i = some values ∧ values.map g = spec i := by
  induction n with
  | zero => exact ⟨fun _ i hi => absurd hi (Nat.not_lt_zero i), fun _ => ⟨[], rfl, rfl⟩⟩
  | succ n ih =>
    rw [collect, List.range_succ, List.flatMap_append, List.flatMap_singleton]
    constructor
    · rintro ⟨rows, hrows, hflat⟩
      obtain ⟨first, hfirst, hrows⟩ := Option.bind_eq_some_iff.mp hrows
      obtain ⟨last, hlast, rfl⟩ := Option.map_eq_some_iff.mp hrows
      rw [List.flatten_append, List.flatten_singleton, List.map_append] at hflat
      -- the last row is as long as it should be, so the lists come apart before it
      obtain ⟨hbefore, hend⟩ := List.append_inj' hflat (by rw [List.length_map, hread n last hlast, hspec])
      intro i hi
      rcases Nat.lt_succ_iff_lt_or_eq.mp hi with hlt | rfl
      · exact ih.mp ⟨first, hfirst, hbefore⟩ i hlt
      · exact ⟨last, hlast, hend⟩
    · intro h
      obtain ⟨first, hfirst, hbefore⟩ := ih.mpr fun i hi => h i (by omega)
      obtain ⟨last, hlast, hend⟩ := h n (Nat.lt_succ_self n)
      refine ⟨first ++ [last], ?_, ?_⟩
      · rw [hfirst, hlast]
        rfl
      · rw [List.flatten_append, List.flatten_singleton, List.map_append, hbefore, hend]

theorem foldlM_one (f : σ → β → Option σ) (s : σ) (b : β) : [b].foldlM f s = f s b := by
  rw [List.foldlM_cons]
  exact bind_pure (f s b)

theorem foldlM_congr {f f' : σ → β → Option σ} {l : List β} (h : ∀ b ∈ l, ∀ s, f s b = f' s b) (s : σ) :
    l.foldlM f s = l.foldlM f' s := by
  induction l generalizing s with
  | nil => rfl
  | cons b l ih =>
    rw [List.foldlM_cons, List.foldlM_cons, h b List.mem_cons_self s]
    exact congrArg _ (funext fun s => ih (fun b hb => h b (List.mem_cons_of_mem _ hb)) s)

theorem zipIdx_map_range (f : ℕ → β) (n : ℕ) :
    ((List.range n).map f).zipIdx = (List.range n).map fun i => (f i, i) := by
  induction n with
  | zero => rfl
  | succ n ih =>
    rw [List.range_succ, List.map_append, List.zipIdx_append, ih, List.map_append, List.length_map,
      List.length_range, Nat.zero_add]
    rfl

/-- What is read along the way can be read before. -/
theorem foldlM_bind (read : ℕ → Option β) (write : σ → ℕ → β → Option σ) (n start : ℕ) (s : σ) :
    (List.range n).foldlM (fun s i => (read i).bind (write s (start + i))) s =
      (collect read n).bind fun values => (values.zipIdx start).foldlM (fun s p => write s p.2 p.1) s := by
  induction n with
  | zero => rfl
  | succ n ih =>
    rw [List.range_succ, List.foldlM_append, ih, collect]
    simp only [foldlM_one, Option.bind_eq_bind]
    cases hcollect : collect read n with
    | none => rfl
    | some values =>
      rw [Option.bind_some, Option.bind_some]
      cases read n with
      | none => exact Option.bind_fun_none _
      | some value =>
        rw [Option.map_some, Option.bind_some, List.zipIdx_append, List.foldlM_append, length_of_collect hcollect,
          List.zipIdx_singleton]
        simp only [foldlM_one, Option.bind_eq_bind, Option.bind_some]

/-- Rows of one length, each written to its own places, are one long row at the start. -/
theorem foldlM_within (read : ℕ → Option (List α)) {k : ℕ}
    (hread : ∀ i values, read i = some values → values.length = k) (hbuffer : n * k ≤ buffer.length) :
    (List.range n).foldlM (fun buffer i => (read i).bind fun values =>
        within buffer (i * k) (i * k + k) (fill · values)) buffer =
      (collect read n).map fun rows => rows.flatten ++ buffer.drop (n * k) := by
  induction n with
  | zero =>
    rw [Nat.zero_mul]
    rfl
  | succ n ih =>
    rw [Nat.succ_mul] at hbuffer
    rw [List.range_succ, List.foldlM_append, ih (by omega), collect]
    simp only [foldlM_one, Option.bind_eq_bind]
    cases hcollect : collect read n with
    | none => rfl
    | some rows =>
      rw [Option.map_some, Option.bind_some, Option.bind_some]
      cases hvalues : read n with
      | none => rfl
      | some values =>
        have hrows : rows.flatten.length = n * k := length_flatten_of_collect hread hcollect
        have hpart : ((buffer.drop (n * k)).take k).length = k := by
          rw [List.length_take, List.length_drop]
          omega
        -- behind the rows written come the places of this one, and those left alone
        have hsplit : buffer.drop (n * k) = (buffer.drop (n * k)).take k ++ buffer.drop (n * k + k) := by
          rw [← List.drop_drop, List.take_append_drop]
        rw [Option.bind_some, Option.map_some, Option.map_some, hsplit,
          within_append _ hrows (by rw [hpart]), fill_eq_some (hpart.trans (hread n values hvalues).symm),
          Option.map_some, List.flatten_append, List.flatten_singleton, Nat.succ_mul, List.append_assoc]

/-- Rows of one length, each written from its own number on, are one long row from the first number on. -/
theorem foldlM_rows (write : σ → ℕ → β → Option σ) {k : ℕ} {rows : List (List β)}
    (hrows : ∀ row ∈ rows, row.length = k) (start : ℕ) (s : σ) :
    (rows.zipIdx start).foldlM (fun s row => (row.1.zipIdx (row.2 * k)).foldlM (fun s p => write s p.2 p.1) s) s =
      (rows.flatten.zipIdx (start * k)).foldlM (fun s p => write s p.2 p.1) s := by
  induction rows generalizing start s with
  | nil => rfl
  | cons row rows ih =>
    have hrow : row.length = k := hrows row List.mem_cons_self
    have hnumber : (start + 1) * k = start * k + row.length := by rw [Nat.succ_mul, hrow]
    rw [List.zipIdx_cons, List.foldlM_cons, List.flatten_cons, List.zipIdx_append, List.foldlM_append]
    refine congrArg _ (funext fun s => ?_)
    rw [ih (fun row h => hrows row (List.mem_cons_of_mem _ h)), hnumber]

end

end Buffer
