import Mathlib

/-!
# A limit on a sliding window

At most `limit` events are admitted in any span of time: when one comes, those admitted in
the last `span` are counted, and only they are remembered.

## Main definitions

* `RateLimit.allow` — whether an event is admitted, and what is remembered then.
* `RateLimit.Known` — what is remembered of all that were admitted.

## Main results

* `RateLimit.allow_eq` — what is remembered decides as all that were admitted would.
* `RateLimit.Known.allow` — **no span has more than `limit` of them.**
-/

namespace RateLimit

variable (limit span : ℕ)

/-- Those of the last `span`. -/
def recent (now : ℕ) (times : List ℕ) : List ℕ := times.filter fun at' => now - at' < span

/-- Whether an event that comes `now` is admitted, and what is remembered then. -/
def allow (times : List ℕ) (now : ℕ) : Bool × List ℕ :=
  let times := recent span now times
  if limit ≤ times.length then (false, times) else (true, times ++ [now])

/-- What is remembered, when the last event came `now`, of all that were admitted. -/
structure Known (now : ℕ) (times admitted : List ℕ) : Prop where
  times_eq : recent span now times = recent span now admitted
  le_now : ∀ at' ∈ admitted, at' ≤ now
  few : ∀ start, admitted.countP (fun at' => start ≤ at' ∧ at' < start + span) ≤ limit

variable {limit span}

theorem known_nil (now : ℕ) : Known limit span now [] [] where
  times_eq := rfl
  le_now _ h := absurd h List.not_mem_nil
  few _ := Nat.zero_le _

/-- What was already forgotten is not recent later. -/
theorem recent_recent {before now : ℕ} (h : before ≤ now) (times : List ℕ) :
    recent span now (recent span before times) = recent span now times := by
  unfold recent
  rw [List.filter_filter]
  refine List.filter_congr fun at' _ => ?_
  rw [← Bool.decide_and, decide_eq_decide]
  omega

/-- Of what is remembered the same is recent as of all that were admitted. -/
theorem Known.recent_eq {before now : ℕ} {times admitted : List ℕ} (h : Known limit span before times admitted)
    (hle : before ≤ now) : recent span now times = recent span now admitted := by
  rw [← recent_recent hle, h.times_eq, recent_recent hle]

/-- Time goes on. -/
theorem Known.later {before now : ℕ} {times admitted : List ℕ} (h : Known limit span before times admitted)
    (hle : before ≤ now) : Known limit span now times admitted where
  times_eq := h.recent_eq hle
  le_now at' hat := (h.le_now at' hat).trans hle
  few := h.few

/-- What is remembered decides as all that were admitted would. -/
theorem allow_eq {before now : ℕ} {times admitted : List ℕ} (h : Known limit span before times admitted)
    (hle : before ≤ now) :
    allow limit span times now =
      if limit ≤ admitted.countP (fun at' => now - at' < span) then (false, recent span now admitted)
      else (true, recent span now admitted ++ [now]) := by
  unfold allow
  rw [h.recent_eq hle, List.countP_eq_length_filter]
  rfl

/-- An admitted event leaves every span with few enough: those it is in the span with were counted. -/
theorem Known.few_concat {before now : ℕ} {times admitted : List ℕ} (h : Known limit span before times admitted)
    (hroom : admitted.countP (fun at' => now - at' < span) < limit) (start : ℕ) :
    (admitted ++ [now]).countP (fun at' => start ≤ at' ∧ at' < start + span) ≤ limit := by
  rw [List.countP_append, List.countP_singleton]
  split
  · rename_i hin
    have hspan : start ≤ now ∧ now < start + span := of_decide_eq_true hin
    have hmono : admitted.countP (fun at' => start ≤ at' ∧ at' < start + span)
        ≤ admitted.countP fun at' => now - at' < span := by
      refine List.countP_mono_left fun at' _ hat => ?_
      rw [decide_eq_true_eq] at hat ⊢
      omega
    omega
  · exact h.few start

/-- **No span has more than `limit` of them.** -/
theorem Known.allow {before now : ℕ} {times admitted : List ℕ} (h : Known limit span before times admitted)
    (hle : before ≤ now) :
    Known limit span now (RateLimit.allow limit span times now).2
      (if (RateLimit.allow limit span times now).1 then admitted ++ [now] else admitted) := by
  have hbefore : ∀ at' ∈ admitted, at' ≤ now := fun at' hat => (h.le_now at' hat).trans hle
  rw [allow_eq h hle]
  split
  · exact ⟨recent_recent (Nat.le_refl now) admitted, hbefore, h.few⟩
  · rename_i hroom
    refine ⟨?_, ?_, h.few_concat (Nat.lt_of_not_le hroom)⟩
    · unfold recent
      rw [List.filter_append, List.filter_filter, if_pos rfl, List.filter_append]
      simp only [Bool.and_self]
    · intro at' hat
      rcases List.mem_append.mp hat with hat | hat
      · exact hbefore at' hat
      · exact (List.mem_singleton.mp hat).le

end RateLimit
