import Mathlib

/-!
# Reading a list from front to back

A reader takes what it reads from a list at a place, and moves the place on.  What
it would give over a part of the list is known from what it gives over the whole.

## Main definitions

* `Cursor` — a list, and the place in it that is read next.
* `Cursor.take` — the next elements, if there are as many.
* `Cursor.Steady` — over a part, the same is read, or nothing if that goes beyond the part.
* `Cursor.Sensitive` — over a part, what goes beyond the part is not read the same.

## Main results

* `Cursor.Steady.bind`, `Cursor.Sensitive.bind` — readers put together.
-/

structure Cursor (α : Type) where
  data : List α
  place : ℕ
  deriving DecidableEq

namespace Cursor

variable {α β γ : Type}

abbrev Reader (α β : Type) := StateT (Cursor α) Option β

/-- The next `n` elements, if there are as many. -/
def take (n : ℕ) : Reader α (List α) := fun cursor =>
  if cursor.place + n ≤ cursor.data.length then
    some ((cursor.data.drop cursor.place).take n, ⟨cursor.data, cursor.place + n⟩)
  else none

/-- What is read, or nothing, and then nothing is passed over. -/
def attempt (m : Reader α β) : Reader α (Option β) := fun cursor =>
  match m cursor with
  | some (b, after) => some (some b, after)
  | none => some (none, cursor)

/-- The cursor over the part of `size` elements from `start` alone. -/
def part (start size : ℕ) (cursor : Cursor α) : Cursor α :=
  ⟨(cursor.data.drop start).take size, cursor.place - start⟩

/-- The place is in a part that begins in the list. -/
structure In (start size : ℕ) (cursor : Cursor α) : Prop where
  start_le : start ≤ cursor.place
  place_le : cursor.place ≤ start + size
  start_le_length : start ≤ cursor.data.length

/-- How a cursor may stand after another: further on in the same list, and not beyond its end. -/
structure After (cursor after : Cursor α) : Prop where
  data : after.data = cursor.data
  le : cursor.place ≤ after.place
  inRange : after = cursor ∨ after.place ≤ cursor.data.length

/-- Over a part, the same is read, or nothing if that goes beyond the part. -/
structure Steady (m : Reader α β) : Prop where
  after : ∀ {cursor b after}, m cursor = some (b, after) → cursor.After after
  part : ∀ {start size cursor}, cursor.In start size → m (cursor.part start size) =
    (m cursor).bind fun read => if read.2.place ≤ start + size then some (read.1, read.2.part start size) else none

/-- Over a part, what goes beyond the part is not read the same. -/
structure Sensitive (m : Reader α β) : Prop where
  after : ∀ {cursor b after}, m cursor = some (b, after) → cursor.After after
  fails : ∀ {start size cursor}, cursor.In start size → m cursor = none → m (cursor.part start size) = none
  within : ∀ {start size cursor b after}, cursor.In start size → m cursor = some (b, after) →
    after.place ≤ start + size → m (cursor.part start size) = some (b, after.part start size)
  beyond : ∀ {start size cursor b after after'}, cursor.In start size → m cursor = some (b, after) →
    start + size < after.place → m (cursor.part start size) ≠ some (b, after')

section

variable {start size : ℕ} {cursor after last : Cursor α}

theorem After.refl (cursor : Cursor α) : cursor.After cursor := ⟨rfl, Nat.le_refl _, .inl rfl⟩

theorem After.trans (h : cursor.After after) (h' : after.After last) : cursor.After last := by
  refine ⟨h'.data.trans h.data, h.le.trans h'.le, ?_⟩
  rcases h'.inRange with rfl | hlast
  · exact h.inRange
  · exact .inr (h.data ▸ hlast)

/-- What comes after in a part is in the part, up to its end. -/
theorem In.of_after (hin : cursor.In start size) (h : cursor.After after) (hle : after.place ≤ start + size) :
    after.In start size :=
  ⟨hin.start_le.trans h.le, hle, h.data ▸ hin.start_le_length⟩

end

/-! ### Readers that are steady -/

theorem bind_eq_some {m : Reader α β} {f : β → Reader α γ} {cursor last : Cursor α} {c : γ}
    (h : (m >>= f) cursor = some (c, last)) :
    ∃ b after, m cursor = some (b, after) ∧ f b after = some (c, last) := by
  obtain ⟨read, hm, hf⟩ := Option.bind_eq_some_iff.mp h
  exact ⟨read.1, read.2, hm, hf⟩

theorem bind_of_some {m : Reader α β} {f : β → Reader α γ} {cursor after : Cursor α} {b : β}
    (h : m cursor = some (b, after)) : (m >>= f) cursor = f b after := by
  show (m cursor).bind _ = _
  rw [h]
  rfl

theorem bind_of_none {m : Reader α β} {f : β → Reader α γ} {cursor : Cursor α} (h : m cursor = none) :
    (m >>= f) cursor = none := by
  show (m cursor).bind _ = _
  rw [h]
  rfl

theorem Steady.pure (b : β) : Steady (pure b : Reader α β) where
  after := by
    intro cursor b' after h
    obtain ⟨-, rfl⟩ := Prod.mk.inj (Option.some.inj h)
    exact After.refl cursor
  part := by
    intro start size cursor hin
    show some (b, _) = if _ then _ else _
    rw [if_pos hin.place_le]

theorem Steady.failure : Steady (failure : Reader α β) where
  after := nofun
  part := fun _ => rfl

theorem Steady.take (n : ℕ) : Steady (take n : Reader α (List α)) where
  after := by
    intro cursor taken after h
    rw [Cursor.take, Option.ite_none_right_eq_some] at h
    obtain ⟨hle, h⟩ := h
    obtain ⟨-, rfl⟩ := Prod.mk.inj (Option.some.inj h)
    exact ⟨rfl, Nat.le_add_right _ _, .inr hle⟩
  part := by
    intro start size cursor hin
    have hstart := hin.start_le
    have hplace := hin.place_le
    have hlength := hin.start_le_length
    simp only [Cursor.take, Cursor.part, List.length_take, List.length_drop]
    by_cases hle : cursor.place + n ≤ cursor.data.length
    · rw [if_pos hle]
      by_cases hend : cursor.place + n ≤ start + size
      · have htaken : (((cursor.data.drop start).take size).drop (cursor.place - start)).take n =
            (cursor.data.drop cursor.place).take n := by
          rw [List.drop_take, List.drop_drop, Nat.add_sub_cancel' hstart, List.take_take, Nat.min_eq_left (by omega)]
        rw [if_pos (by omega), htaken, Option.bind_some, if_pos hend, Nat.sub_add_comm hstart]
      · rw [if_neg (by omega), Option.bind_some, if_neg hend]
    · rw [if_neg hle, if_neg (by omega), Option.bind_none]

/-- One steady reader after another. -/
theorem Steady.bind {m : Reader α β} {f : β → Reader α γ} (hm : Steady m) (hf : ∀ b, Steady (f b)) :
    Steady (m >>= f) where
  after := by
    intro cursor c last h
    obtain ⟨b, after, hread, hrest⟩ := bind_eq_some h
    exact (hm.after hread).trans ((hf b).after hrest)
  part := by
    intro start size cursor hin
    cases hread : m cursor with
    | none =>
      have hpart := hm.part hin
      rw [hread, Option.bind_none] at hpart
      rw [bind_of_none hread, bind_of_none hpart, Option.bind_none]
    | some read =>
      obtain ⟨b, after⟩ := read
      have hafter := hm.after hread
      have hpart := hm.part hin
      rw [hread, Option.bind_some] at hpart
      rw [bind_of_some hread]
      by_cases hle : after.place ≤ start + size
      · rw [if_pos hle] at hpart
        rw [bind_of_some hpart, (hf b).part (hin.of_after hafter hle)]
      · -- the first goes beyond the part, so what comes after does
        rw [if_neg hle] at hpart
        rw [bind_of_none hpart]
        cases hrest : f b after with
        | none => rfl
        | some last =>
          have hlast := ((hf b).after hrest).le
          rw [Option.bind_some, if_neg (by omega)]

theorem Steady.map {m : Reader α β} (f : β → γ) (hm : Steady m) : Steady (do return f (← m)) :=
  hm.bind fun b => Steady.pure (f b)

theorem Steady.ite {p : Prop} [Decidable p] {m m' : Reader α β} (hm : Steady m) (hm' : Steady m') :
    Steady (if p then m else m') := by
  split
  · exact hm
  · exact hm'

/-! ### Readers that are sensitive -/

theorem Steady.sensitive {m : Reader α β} (hm : Steady m) : Sensitive m where
  after := hm.after
  fails := by
    intro start size cursor hin h
    rw [hm.part hin, h, Option.bind_none]
  within := by
    intro start size cursor b after hin h hle
    rw [hm.part hin, h, Option.bind_some, if_pos hle]
  beyond := by
    intro start size cursor b after after' hin h hlt
    rw [hm.part hin, h, Option.bind_some, if_neg (show ¬ after.place ≤ start + size by omega)]
    exact nofun

theorem Sensitive.ite {p : Prop} [Decidable p] {m m' : Reader α β} (hm : Sensitive m) (hm' : Sensitive m') :
    Sensitive (if p then m else m') := by
  split
  · exact hm
  · exact hm'

/-- A sensitive reader after a steady one. -/
theorem Sensitive.bind {m : Reader α β} {f : β → Reader α γ} (hm : Steady m) (hf : ∀ b, Sensitive (f b)) :
    Sensitive (m >>= f) where
  after := by
    intro cursor c last h
    obtain ⟨b, after, hread, hrest⟩ := bind_eq_some h
    exact (hm.after hread).trans ((hf b).after hrest)
  fails := by
    intro start size cursor hin h
    cases hread : m cursor with
    | none => exact bind_of_none (hm.sensitive.fails hin hread)
    | some read =>
      rw [bind_of_some hread] at h
      by_cases hle : read.2.place ≤ start + size
      · rw [bind_of_some (hm.sensitive.within hin hread hle)]
        exact (hf read.1).fails (hin.of_after (hm.after hread) hle) h
      · have hpart := hm.part hin
        rw [hread, Option.bind_some, if_neg hle] at hpart
        exact bind_of_none hpart
  within := by
    intro start size cursor c last hin h hle
    obtain ⟨b, after, hread, hrest⟩ := bind_eq_some h
    have hafter : after.place ≤ start + size := ((hf b).after hrest).le.trans hle
    rw [bind_of_some (hm.sensitive.within hin hread hafter)]
    exact (hf b).within (hin.of_after (hm.after hread) hafter) hrest hle
  beyond := by
    intro start size cursor c last last' hin h hlt
    obtain ⟨b, after, hread, hrest⟩ := bind_eq_some h
    by_cases hle : after.place ≤ start + size
    · rw [bind_of_some (hm.sensitive.within hin hread hle)]
      exact (hf b).beyond (hin.of_after (hm.after hread) hle) hrest hlt
    · have hpart := hm.part hin
      rw [hread, Option.bind_some, if_neg hle] at hpart
      rw [bind_of_none hpart]
      exact nofun

/-- What is read or not is told apart. -/
theorem Steady.attempt {m : Reader α β} (hm : Steady m) : Sensitive (attempt m) where
  after := by
    intro cursor read after h
    unfold Cursor.attempt at h
    split at h
    · next b after' hread =>
      obtain ⟨-, rfl⟩ := Prod.mk.inj (Option.some.inj h)
      exact hm.after hread
    · obtain ⟨-, rfl⟩ := Prod.mk.inj (Option.some.inj h)
      exact After.refl cursor
  fails := by
    intro start size cursor hin h
    unfold Cursor.attempt at h
    split at h <;> exact nomatch h
  within := by
    intro start size cursor read after hin h hle
    unfold Cursor.attempt at h ⊢
    split at h
    · next b after' hread =>
      obtain ⟨rfl, rfl⟩ := Prod.mk.inj (Option.some.inj h)
      rw [hm.sensitive.within hin hread hle]
    · next hread =>
      obtain ⟨rfl, rfl⟩ := Prod.mk.inj (Option.some.inj h)
      rw [hm.sensitive.fails hin hread]
  beyond := by
    intro start size cursor read after after' hin h hlt
    have hplace := hin.place_le
    unfold Cursor.attempt at h ⊢
    split at h
    · next b last hread =>
      obtain ⟨rfl, rfl⟩ := Prod.mk.inj (Option.some.inj h)
      have hpart := hm.part hin
      rw [hread, Option.bind_some, if_neg (show ¬ last.place ≤ start + size by omega)] at hpart
      rw [hpart]
      exact nofun
    · -- nothing was passed over
      obtain ⟨-, rfl⟩ := Prod.mk.inj (Option.some.inj h)
      omega

theorem Sensitive.map {m : Reader α β} {f : β → γ} (hinj : Function.Injective f) (hm : Sensitive m) :
    Sensitive (do return f (← m)) where
  after := by
    intro cursor c last h
    obtain ⟨b, after, hread, hrest⟩ := bind_eq_some h
    obtain ⟨-, rfl⟩ := Prod.mk.inj (Option.some.inj hrest)
    exact hm.after hread
  fails := by
    intro start size cursor hin h
    cases hread : m cursor with
    | none => exact bind_of_none (hm.fails hin hread)
    | some read =>
      rw [bind_of_some hread] at h
      exact nomatch h
  within := by
    intro start size cursor c last hin h hle
    obtain ⟨b, after, hread, hrest⟩ := bind_eq_some h
    obtain ⟨rfl, rfl⟩ := Prod.mk.inj (Option.some.inj hrest)
    rw [bind_of_some (hm.within hin hread hle)]
    rfl
  beyond := by
    intro start size cursor c last last' hin h hlt hpart
    obtain ⟨b, after, hread, hrest⟩ := bind_eq_some h
    obtain ⟨rfl, rfl⟩ := Prod.mk.inj (Option.some.inj hrest)
    obtain ⟨b', after', hread', hrest'⟩ := bind_eq_some hpart
    obtain ⟨hb, -⟩ := Prod.mk.inj (Option.some.inj hrest')
    exact hm.beyond hin hread hlt (hinj hb ▸ hread')

end Cursor
