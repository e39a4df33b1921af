import Mathlib

/-!
# A list with another set on top

The entries of a list, and those of another one that stand in the place of the entries they
are the same as. What is the same may be told in two ways, one coarser than the other.

## Main definitions

* `Overlay.lasts` — the entries that no later one is the same as.
* `Overlay.kept` — a base with further entries set on top.

## Main results

* `Overlay.foldl_eq_kept` — setting one entry after the other is setting them all.
* `Overlay.kept_eq_kept` — where no two entries kept have one key, keys tell the same.
* `Overlay.exists_key_mem` — an entry that its key keeps out is stood in for.
-/

namespace Overlay

variable {α κ : Type}

/-- The entries that no later one is the same as. -/
def lasts (same : α → α → Bool) : List α → List α
  | [] => []
  | e :: rest => if rest.any (same e) then lasts same rest else e :: lasts same rest

/-- The entries of `base` with those of `extra` set on top. -/
def kept (same : α → α → Bool) (base extra : List α) : List α :=
  base.filter (fun v => !extra.any (same v)) ++ lasts same extra

section

variable {same : α → α → Bool} {base extra : List α} {v w : α}

theorem mem_of_mem_lasts (h : v ∈ lasts same extra) : v ∈ extra := by
  induction extra with
  | nil => exact h
  | cons e rest ih =>
    unfold lasts at h
    split at h
    · exact List.mem_cons_of_mem _ (ih h)
    · exact (List.mem_cons.mp h).elim (fun h => h ▸ List.mem_cons_self) fun h => List.mem_cons_of_mem _ (ih h)

/-- **Setting one entry after the other** is setting them all. -/
theorem foldl_eq_kept (base extra : List α) :
    extra.foldl (fun vars e => vars.filter (fun v => !same v e) ++ [e]) base = kept same base extra := by
  induction extra generalizing base with
  | nil =>
    have hnone : ∀ v ∈ base, (!([] : List α).any (same v)) = true := fun _ _ => rfl
    rw [List.foldl_nil, kept, List.filter_eq_self.mpr hnone, lasts, List.append_nil]
  | cons e rest ih =>
    have hfilter : (base.filter fun v => !same v e).filter (fun v => !rest.any (same v)) =
        base.filter fun v => !(e :: rest).any (same v) := by
      rw [List.filter_filter]
      refine List.filter_congr fun v _ => ?_
      rw [List.any_cons, Bool.not_or, Bool.and_comm]
    rw [List.foldl_cons, ih, kept, List.filter_append, hfilter, kept, List.append_assoc, lasts]
    by_cases hany : rest.any (same e) = true
    · rw [if_pos hany, List.filter_cons_of_neg (by rw [hany]; exact Bool.false_ne_true), List.filter_nil,
        List.nil_append]
    · rw [if_neg hany, List.filter_cons_of_pos (by rw [Bool.eq_false_iff.mpr hany]; rfl), List.filter_nil,
        List.singleton_append]

end

section

variable [DecidableEq κ] (key : α → κ)

/-- Whether two entries have one key. -/
def alike (v w : α) : Bool := key v = key w

variable {key} {same : α → α → Bool} {base extra : List α} {v w : α}

theorem alike_iff : alike key v w = true ↔ key v = key w := decide_eq_true_iff

variable (hsame : ∀ v w, same v w = true → key v = key w)
include hsame

omit [DecidableEq κ] in
/-- For each entry the last one of its key is there. -/
theorem exists_key_mem_lasts (h : v ∈ extra) : ∃ w ∈ lasts same extra, key w = key v := by
  induction extra generalizing v with
  | nil => cases h
  | cons e rest ih =>
    unfold lasts
    rcases List.mem_cons.mp h with rfl | h
    · split
      · rename_i hany
        obtain ⟨e, he, hve⟩ := List.any_eq_true.mp hany
        obtain ⟨w, hw, hkey⟩ := ih he
        exact ⟨w, hw, hkey.trans (hsame _ _ hve).symm⟩
      · exact ⟨_, List.mem_cons_self, rfl⟩
    · obtain ⟨w, hw, hkey⟩ := ih h
      split
      · exact ⟨w, hw, hkey⟩
      · exact ⟨w, List.mem_cons_of_mem _ hw, hkey⟩

/-- Where no two last entries have one key, they are the last of their keys. -/
theorem lasts_eq_lasts (h : (lasts same extra).Pairwise fun v w => key v ≠ key w) :
    lasts same extra = lasts (alike key) extra := by
  induction extra with
  | nil => rfl
  | cons e rest ih =>
    unfold lasts at h ⊢
    by_cases hany : rest.any (same e) = true
    · have hkey : rest.any (alike key e) = true := by
        obtain ⟨w, hw, hew⟩ := List.any_eq_true.mp hany
        exact List.any_eq_true.mpr ⟨w, hw, alike_iff.mpr (hsame _ _ hew)⟩
      rw [if_pos hany] at h ⊢
      rw [if_pos hkey, ih h]
    · rw [if_neg hany] at h ⊢
      obtain ⟨hne, h⟩ := List.pairwise_cons.mp h
      have hkey : ¬ rest.any (alike key e) = true := by
        intro hany
        obtain ⟨w, hw, hew⟩ := List.any_eq_true.mp hany
        obtain ⟨l, hl, hlw⟩ := exists_key_mem_lasts hsame hw
        exact hne l hl ((alike_iff.mp hew).trans hlw.symm)
      rw [if_neg hkey, ih h]

/-- **Where no two entries kept have one key**, those are kept that their keys keep. -/
theorem kept_eq_kept (h : (kept same base extra).Pairwise fun v w => key v ≠ key w) :
    kept same base extra = kept (alike key) base extra := by
  obtain ⟨-, hlasts, hne⟩ := List.pairwise_append.mp h
  rw [kept, kept, lasts_eq_lasts hsame hlasts]
  congr 1
  refine List.filter_congr fun v hv => congrArg _ (Bool.eq_iff_iff.mpr ⟨fun hany => ?_, fun hany => ?_⟩)
  · obtain ⟨w, hw, hvw⟩ := List.any_eq_true.mp hany
    exact List.any_eq_true.mpr ⟨w, hw, alike_iff.mpr (hsame _ _ hvw)⟩
  · by_contra hnone
    obtain ⟨w, hw, hvw⟩ := List.any_eq_true.mp hany
    obtain ⟨l, hl, hlw⟩ := exists_key_mem_lasts hsame hw
    have hv : v ∈ base.filter fun v => !extra.any (same v) :=
      List.mem_filter.mpr ⟨hv, by rw [Bool.eq_false_iff.mpr hnone]; rfl⟩
    exact hne v hv l hl ((alike_iff.mp hvw).trans hlw.symm)

omit hsame in
theorem exists_alike_of_not_mem (hv : v ∈ base) (hout : v ∉ kept (alike key) base extra) : ∃ e ∈ extra, key v = key e := by
  by_contra hnone
  refine hout (List.mem_append_left _ (List.mem_filter.mpr ⟨hv, ?_⟩))
  rw [Bool.not_eq_true', List.any_eq_false]
  exact fun e he hve => hnone ⟨e, he, alike_iff.mp hve⟩

omit hsame in
/-- **An entry that its key keeps out** is stood in for by one of its key. -/
theorem exists_key_mem (hv : v ∈ kept same base extra) (hout : v ∉ kept (alike key) base extra) :
    ∃ w ∈ kept (alike key) base extra, key w = key v := by
  have hextra : ∃ e ∈ extra, key v = key e := by
    rcases List.mem_append.mp hv with hv | hv
    · exact exists_alike_of_not_mem (List.mem_filter.mp hv).1 hout
    · exact ⟨v, mem_of_mem_lasts hv, rfl⟩
  obtain ⟨e, he, hve⟩ := hextra
  obtain ⟨w, hw, hkey⟩ := @exists_key_mem_lasts _ _ _ (alike key) _ _ (fun _ _ => alike_iff.mp) he
  exact ⟨w, List.mem_append_right _ hw, hkey.trans hve.symm⟩

omit hsame in
/-- A last entry is the last of its key, if one that is the same is. -/
theorem mem_lasts_of_same (hv : v ∈ lasts same extra) (hw : w ∈ lasts (alike key) extra) (hvw : same v w = true)
    (hkey : key v = key w) : v ∈ lasts (alike key) extra := by
  induction extra with
  | nil => exact hv
  | cons e rest ih =>
    have hahead (hin : w ∈ rest) (hnone : ¬ rest.any (same v) = true) : False :=
      hnone (List.any_eq_true.mpr ⟨w, hin, hvw⟩)
    unfold lasts at hv hw ⊢
    by_cases hany : rest.any (alike key e) = true
    · rw [if_pos hany] at hw ⊢
      split at hv
      · exact ih hv hw
      · rename_i hnone
        rcases List.mem_cons.mp hv with rfl | hrest
        · exact (hahead (mem_of_mem_lasts hw) hnone).elim
        · exact ih hrest hw
    · rw [if_neg hany] at hw ⊢
      rcases List.mem_cons.mp hw with rfl | hlater
      · have hlast (hin : v ∈ rest) : False := hany (List.any_eq_true.mpr ⟨v, hin, alike_iff.mpr hkey.symm⟩)
        split at hv
        · exact (hlast (mem_of_mem_lasts hv)).elim
        · rcases List.mem_cons.mp hv with rfl | hrest
          · exact List.mem_cons_self
          · exact (hlast (mem_of_mem_lasts hrest)).elim
      · split at hv
        · exact List.mem_cons_of_mem _ (ih hv hlater)
        · rename_i hnone
          rcases List.mem_cons.mp hv with rfl | hrest
          · exact (hahead (mem_of_mem_lasts hlater) hnone).elim
          · exact List.mem_cons_of_mem _ (ih hrest hlater)

/-- An entry kept is kept by its key, if one that is the same is. -/
theorem mem_kept_of_same (hv : v ∈ kept same base extra) (hw : w ∈ kept (alike key) base extra)
    (hvw : same v w = true) : v ∈ kept (alike key) base extra := by
  have hkey := hsame _ _ hvw
  by_contra hout
  rcases List.mem_append.mp hv with hv | hv
  · obtain ⟨hbase, hfree⟩ := List.mem_filter.mp hv
    obtain ⟨e, he, hve⟩ := exists_alike_of_not_mem hbase hout
    rcases List.mem_append.mp hw with hw | hw
    · have hfree := (List.mem_filter.mp hw).2
      rw [Bool.not_eq_true', List.any_eq_false] at hfree
      exact hfree e he (alike_iff.mpr (hkey.symm.trans hve))
    · rw [Bool.not_eq_true', List.any_eq_false] at hfree
      exact hfree w (mem_of_mem_lasts hw) hvw
  · rcases List.mem_append.mp hw with hw | hw
    · have hfree := (List.mem_filter.mp hw).2
      rw [Bool.not_eq_true', List.any_eq_false] at hfree
      exact hfree v (mem_of_mem_lasts hv) (alike_iff.mpr hkey.symm)
    · exact hout (List.mem_append_right _ (mem_lasts_of_same hv hw hvw hkey))

end

end Overlay
