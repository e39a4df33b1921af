import WindowCast.Lib.Run

/-!
# Putting a finished file in place

A transfer writes to a temporary name beside its target, and at the end syncs
the file, takes away what is at the target, and renames.  Any of these can fail,
and the machine can stop between any two of them.

## Main definitions

* `Node`, `Leaves` — what a path holds, and what a stop of the machine leaves of it.
* `Ending` — the three places that finish a transfer, and how they differ.
* `Finishing.step` — one file operation, which works or fails.
* `Atomic` — the target holds what it held before, or the complete new file.

## Main results

* `finish_atomic_iff` — **finishing is atomic exactly if it replaces no file and
  leaves no part behind.**
-/

namespace WindowCast.Files

/-- What a path holds. -/
inductive Node
  /-- A file with its bytes, and whether they are on the disk. -/
  | file (bytes : List UInt8) (synced : Bool)
  | folder
  deriving DecidableEq, Repr

def Node.isFile : Node → Bool
  | .file _ _ => true
  | .folder => false

/-- What a stop of the machine leaves of a path: of a file that is not synced,
no more bytes than it had. -/
inductive Leaves : Option Node → Option Node → Prop
  | same (node : Option Node) : Leaves node node
  | part {bytes left : List UInt8} (h : left.length ≤ bytes.length) :
      Leaves (some (.file bytes false)) (some (.file left false))

/-- What is at the target before, for good. -/
inductive Target
  | free
  | file (bytes : List UInt8)
  | folder
  deriving DecidableEq, Repr

def Target.node : Target → Option Node
  | .free => none
  | .file bytes => some (.file bytes true)
  | .folder => some .folder

/-- Where a transfer is finished. -/
inductive Ending
  /-- The host, when an upload has arrived. -/
  | upload
  /-- The client, when a download has arrived. -/
  | download
  /-- The client, when a watched file has arrived. -/
  | watched
  deriving DecidableEq, Repr

namespace Ending

/-- Whether the file is synced first. -/
def syncs : Ending → Bool
  | .upload | .download => true
  | .watched => false

/-- Whether what is at the target is removed first. -/
def removes : Ending → Node → Bool
  | .upload, node | .watched, node => node.isFile
  | .download, _ => true

/-- Whether it goes on when that fails. -/
def goesOn : Ending → Bool
  | .upload | .download => false
  | .watched => true

end Ending

/-- What is still to be done. -/
inductive Phase
  | sync
  | remove
  | rename
  | ended
  deriving DecidableEq, Repr

/-- What the temporary name and the target hold. -/
structure Finishing where
  part : Option Node
  target : Option Node
  phase : Phase
  deriving DecidableEq, Repr

namespace Finishing

/-- The transfer of `bytes` to a target, when `got` bytes of `size` have arrived. -/
def start (bytes : List UInt8) (target : Target) (got size : ℕ) : Finishing :=
  ⟨some (.file bytes false), target.node, if got = size then .sync else .ended⟩

/-- The next file operation, which works if `ok` says so and it can. -/
def step (ending : Ending) (self : Finishing) (ok : Bool) : Finishing :=
  match self.phase with
  | .sync =>
    if !ending.syncs then { self with phase := .remove }
    else
      match self.part, ok with
      | some (.file bytes _), true => ⟨some (.file bytes true), self.target, .remove⟩
      | _, _ => { self with phase := .ended }
  | .remove =>
    match self.target with
    | none => { self with phase := .rename }
    | some node =>
      if !ending.removes node then { self with phase := .rename }
      else if ok && node.isFile then ⟨self.part, none, .rename⟩
      else if ending.goesOn then { self with phase := .rename }
      else { self with phase := .ended }
  | .rename =>
    if ok && self.target ≠ some .folder then ⟨none, self.part, .ended⟩
    else { self with phase := .ended }
  | .ended => self

/-- The operations so far, and whether each worked. -/
def run (ending : Ending) (s : Finishing) (oks : List Bool) : Finishing := oks.foldl (step ending) s

end Finishing

/-- Wherever it is stopped, the target holds what it held before or the complete
new file. -/
def Atomic (ending : Ending) (bytes : List UInt8) (target : Target) (got size : ℕ) : Prop :=
  ∀ (oks : List Bool) (left : Option Node),
    Leaves (Finishing.run ending (.start bytes target got size) oks).target left →
      left = target.node ∨ ∃ synced, left = some (.file bytes synced)

namespace Finishing

theorem run_cons (ending : Ending) (s : Finishing) (ok : Bool) (oks : List Bool) :
    run ending s (ok :: oks) = run ending (s.step ending ok) oks := rfl

/-- What every operation preserves holds wherever it is stopped. -/
theorem run_invariant {ending : Ending} {I : Finishing → Prop}
    (hstep : ∀ s ok, I s → I (s.step ending ok)) {s : Finishing} (h : I s) (oks : List Bool) :
    I (run ending s oks) := by
  induction oks generalizing s with
  | nil => exact h
  | cons ok oks ih =>
    rw [run_cons]
    exact ih (hstep s ok h)

/-- Nothing more is done. -/
theorem run_ended (ending : Ending) {s : Finishing} (h : s.phase = .ended) (oks : List Bool) :
    run ending s oks = s := by
  apply run_invariant (I := fun s' => s' = s) ?_ rfl
  rintro _ ok rfl
  unfold step
  rw [h]

/-- A folder at the target stays there. -/
theorem step_folder (ending : Ending) (s : Finishing) (ok : Bool) (h : s.target = some .folder) :
    (s.step ending ok).target = some .folder := by
  unfold step
  split
  · split
    · exact h
    · split <;> exact h
  · rw [h]
    simp only [Node.isFile, Bool.and_false, Bool.false_eq_true, if_false]
    split
    · rfl
    · split <;> rfl
  · rw [h]
    simp only [ne_eq, not_true_eq_false, decide_false, Bool.and_false, Bool.false_eq_true, if_false]
  · exact h

/-- On the way to a target that was free: the target is free, and the file is
synced once that is done, or the complete file is there. -/
inductive Filling (ending : Ending) (bytes : List UInt8) : Finishing → Prop
  | free {synced : Bool} {phase : Phase}
      (h : ending.syncs = true → phase = .remove ∨ phase = .rename → synced = true) :
      Filling ending bytes ⟨some (.file bytes synced), none, phase⟩
  | placed {synced : Bool} (h : ending.syncs = true → synced = true) :
      Filling ending bytes ⟨none, some (.file bytes synced), .ended⟩

theorem Filling.step {ending : Ending} {bytes : List UInt8} {s : Finishing}
    (h : Filling ending bytes s) (ok : Bool) : Filling ending bytes (s.step ending ok) := by
  cases h with
  | placed h => exact .placed h
  | free h =>
    rename_i synced phase
    cases phase with
    | sync =>
      unfold Finishing.step
      simp only
      split
      · rename_i hsyncs
        refine .free fun hsync => ?_
        rw [hsync] at hsyncs
        cases hsyncs
      · cases ok with
        | true => exact .free fun _ _ => rfl
        | false =>
          refine .free fun _ hphase => ?_
          rcases hphase with hphase | hphase <;> cases hphase
    | remove => exact .free fun hsync _ => h hsync (.inl rfl)
    | rename =>
      cases ok with
      | true => exact .placed fun hsync => h hsync (.inr rfl)
      | false =>
        refine .free fun _ hphase => ?_
        rcases hphase with hphase | hphase <;> cases hphase
    | ended => exact .free h

end Finishing

/-- What a stop leaves of a path whose file, if it is one, is on the disk. -/
theorem Leaves.eq_of_node {target : Target} {left : Option Node} (h : Leaves target.node left) :
    left = target.node := by
  generalize hnode : target.node = node at h
  cases h with
  | same => rfl
  | part => cases target <;> cases hnode

/-- A free target: nothing is there, and then the complete file. -/
theorem atomic_free {ending : Ending} {bytes : List UInt8} (h : ending.syncs = true ∨ bytes = [])
    (got size : ℕ) : Atomic ending bytes .free got size := by
  intro oks left hleft
  have hfilling : Finishing.Filling ending bytes (.run ending (.start bytes .free got size) oks) := by
    refine Finishing.run_invariant (fun s ok hs => hs.step ok) (.free fun _ hphase => ?_) oks
    split at hphase
    · rcases hphase with hphase | hphase <;> cases hphase
    · rcases hphase with hphase | hphase <;> cases hphase
  generalize Finishing.run ending (.start bytes .free got size) oks = s at hleft hfilling
  cases hfilling with
  | free =>
    cases hleft
    exact .inl rfl
  | placed hsynced =>
    refine .inr ?_
    cases hleft with
    | same => exact ⟨_, rfl⟩
    | part hle =>
      -- only a file that was not synced loses bytes, and it has none
      rcases h with hsyncs | rfl
      · cases hsynced hsyncs
      · rw [List.length_nil, Nat.le_zero, List.length_eq_zero_iff] at hle
        exact ⟨false, by rw [hle]⟩

/-- **Finishing is atomic exactly if it replaces no file and leaves no part
behind**: the transfer is incomplete and goes no further, or the target is a
folder, which is left alone, or nothing is at the target and the file is synced,
or empty. -/
theorem finish_atomic_iff (ending : Ending) (bytes : List UInt8) (target : Target) (got size : ℕ) :
    Atomic ending bytes target got size ↔
      got ≠ size ∨ target = .folder ∨ target = .free ∧ (ending ≠ .watched ∨ bytes = []) := by
  constructor
  · intro h
    by_cases hsize : got = size
    · subst hsize
      right
      cases target with
      | folder => exact .inl rfl
      | file old =>
        -- stopped once the old file is removed
        exfalso
        have hgone : (Finishing.run ending (.start bytes (.file old) got got) [true, true]).target
            = none := by
          unfold Finishing.start
          rw [if_pos rfl]
          cases ending <;> rfl
        have := h [true, true] none (by rw [hgone]; exact .same none)
        rcases this with heq | ⟨synced, heq⟩ <;> cases heq
      | free =>
        refine .inr ⟨rfl, ?_⟩
        by_contra hnot
        obtain ⟨hwatched, hne⟩ := not_or.mp hnot
        rw [not_not] at hwatched
        subst hwatched
        -- stopped once the file that was not synced is in place
        have hplaced : (Finishing.run .watched (.start bytes .free got got) [true, true, true]).target
            = some (.file bytes false) := by
          unfold Finishing.start
          rw [if_pos rfl]
          rfl
        have := h [true, true, true] (some (.file [] false))
          (by rw [hplaced]; exact .part (Nat.zero_le _))
        rcases this with heq | ⟨synced, heq⟩
        · cases heq
        · cases heq
          exact hne rfl
    · exact .inl hsize
  · rintro (hsize | rfl | ⟨rfl, h⟩)
    · intro oks left hleft
      rw [Finishing.run_ended ending (if_neg hsize)] at hleft
      exact .inl hleft.eq_of_node
    · intro oks left hleft
      have hfolder : (Finishing.run ending (.start bytes .folder got size) oks).target
          = some .folder :=
        Finishing.run_invariant (I := fun s => s.target = some .folder)
          (fun s ok => Finishing.step_folder ending s ok) rfl oks
      rw [hfolder] at hleft
      have hleft : Leaves (Target.node .folder) left := hleft
      exact .inl hleft.eq_of_node
    · refine atomic_free (h.imp_left fun hne => ?_) got size
      cases ending with
      | upload => rfl
      | download => rfl
      | watched => exact absurd rfl hne

/-- **An upload over a file leaves nothing for a while**: the machine stops
between the removal and the rename. -/
theorem upload_leaves_nothing : ¬ ∀ ending bytes target got size, Atomic ending bytes target got size := by
  intro h
  rcases h .upload [1] (.file [2]) 1 1 [true, true] none (.same none) with heq | ⟨synced, heq⟩
  · cases heq
  · cases heq

end WindowCast.Files
