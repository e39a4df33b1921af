import WindowCast.Lib.Extent

/-!
# What arrives in pieces

A list that arrives piece by piece is gathered until a mark is in it.  If what was
gathered may not go beyond a limit that is tested between the pieces, it depends on
the pieces whether the mark is found.

## Main definitions

* `Gather.find` — where a mark is first.
* `Gather.gather` — what is gathered until the mark is there, unless the limit is passed before.
* `Gather.fill` — what is gathered until there is as much as is wanted.
* `Gather.Pieces` — the ways in which a list may arrive.

## Main results

* `Gather.gather_of_le`, `Gather.gather_of_gt` — where the pieces do not matter.
* `Gather.exists_large`, `Gather.exists_found` — where they do.
-/

namespace Gather

inductive Gathered (α : Type)
  | found (place : ℕ) (buf : List α) (rest : List (List α))
  | large
  | closed

section

variable {α : Type} {buf : List α} {rest : List (List α)}

theorem prefix_flatten : buf <+: buf ++ rest.flatten := List.prefix_append _ _

theorem flatten_singles (l : List α) : (l.map fun a => [a]).flatten = l := by
  rw [← List.flatMap_def, List.flatMap_singleton']

end

variable {α : Type} [DecidableEq α]

/-- Where the mark is first. -/
def find (mark l : List α) : Option ℕ :=
  Extent.first (fun i => mark.isPrefixOf (l.drop i)) (l.length + 1 - mark.length)

/-- The pieces are taken until the mark is in them; what goes beyond the limit without it is too large. -/
def gather (mark : List α) (limit : ℕ) (buf : List α) : List (List α) → Gathered α
  | [] =>
    match find mark buf with
    | some place => .found place buf []
    | none => if limit < buf.length then .large else .closed
  | piece :: rest =>
    match find mark buf with
    | some place => .found place buf (piece :: rest)
    | none => if limit < buf.length then .large else gather mark limit (buf ++ piece) rest

/-- The pieces are taken until there are `n` elements. -/
def fill (n : ℕ) (buf : List α) : List (List α) → Option (List α)
  | [] => if buf.length < n then none else some buf
  | piece :: rest => if buf.length < n then fill n (buf ++ piece) rest else some buf

/-- A list in pieces, none of them empty, and none longer than `size`. -/
structure Pieces (size : ℕ) (l : List α) where
  pieces : List (List α)
  small : ∀ piece ∈ pieces, 0 < piece.length ∧ piece.length ≤ size
  flatten_eq : pieces.flatten = l

/-! ### Where the mark is -/

section

variable {mark l p : List α} {place n : ℕ}

theorem isPrefixOf_drop (hp : p <+: l) {i : ℕ} (hi : i + mark.length ≤ p.length) :
    mark.isPrefixOf (p.drop i) = mark.isPrefixOf (l.drop i) := by
  obtain ⟨rest, rfl⟩ := hp
  have hlength : mark.length ≤ (p.drop i).length := by
    rw [List.length_drop]
    omega
  rw [Bool.eq_iff_iff, List.isPrefixOf_iff_prefix, List.isPrefixOf_iff_prefix,
    List.drop_append_of_le_length (by omega)]
  exact ⟨fun h => h.trans (List.prefix_append _ _),
    fun h => List.prefix_of_prefix_length_le h (List.prefix_append _ _) hlength⟩

/-- In a beginning of a list, the mark is where it is in the list, if it is all there. -/
theorem find_of_beginning (hp : p <+: l) : find mark p = (find mark l).filter (· + mark.length ≤ p.length) := by
  have hlength := hp.length_le
  have hsame : find mark p = Extent.first (fun i => mark.isPrefixOf (l.drop i)) (p.length + 1 - mark.length) :=
    Extent.first_congr fun i hi => isPrefixOf_drop hp (by omega)
  rw [hsame, find, Extent.first_of_le (show p.length + 1 - mark.length ≤ l.length + 1 - mark.length by omega)]
  refine congrArg (Option.filter · _) (funext fun i => ?_)
  rw [decide_eq_decide]
  omega

theorem find_eq_none_of_beginning (hp : p <+: l) (h : find mark l = none) : find mark p = none := by
  rw [find_of_beginning hp, h, Option.filter_none]

theorem find_eq_some_of_beginning (hp : p <+: l) (h : find mark l = some place) (hle : place + mark.length ≤ p.length) :
    find mark p = some place := by
  rw [find_of_beginning hp, h, Option.filter_some, if_pos (decide_eq_true hle)]

theorem find_eq_none_of_lt (hp : p <+: l) (h : find mark l = some place) (hlt : p.length < place + mark.length) :
    find mark p = none := by
  rw [find_of_beginning hp, h, Option.filter_some, if_neg (by simpa using hlt)]

/-- What begins with a mark only where it ends has the mark there. -/
theorem find_append_mark (mark l : List α) (hne : mark ≠ []) (h : ∀ a ∈ l, a ∉ mark) :
    find mark (l ++ mark) = some l.length := by
  have hend : mark.isPrefixOf ((l ++ mark).drop l.length) = true := by
    rw [List.drop_left, List.isPrefixOf_iff_prefix]
  have hpos := List.length_pos_iff.mpr hne
  cases hfirst : find mark (l ++ mark) with
  | none =>
    have := Extent.first_eq_none.mp hfirst l.length (by rw [List.length_append]; omega)
    rw [hend] at this
    exact nomatch this
  | some i =>
    obtain ⟨hlt, hpass, hbefore⟩ := Extent.first_eq_some hfirst
    rw [List.length_append] at hlt
    rcases Nat.lt_or_ge i l.length with hi | hi
    · -- the mark would begin with what is not in it
      rw [List.isPrefixOf_iff_prefix, List.drop_append_of_le_length hi.le, List.drop_eq_getElem_cons hi] at hpass
      obtain ⟨a, mark', rfl⟩ := List.exists_cons_of_ne_nil hne
      obtain ⟨rfl, -⟩ := List.cons_prefix_cons.mp hpass
      exact absurd List.mem_cons_self (h _ (List.getElem_mem hi))
    · exact congrArg some (by omega)

theorem le_length_of_find (h : find mark l = some place) : place + mark.length ≤ l.length := by
  have := (Extent.first_eq_some h).1
  omega

end

/-! ### Steps -/

section

variable {mark l buf piece : List α} {rest : List (List α)} {limit place n : ℕ}

theorem gather_of_find (h : find mark buf = some place) : gather mark limit buf rest = .found place buf rest := by
  cases rest <;> rw [gather, h]

theorem gather_large (h : find mark buf = none) (hlimit : limit < buf.length) :
    gather mark limit buf rest = .large := by
  cases rest <;> rw [gather, h] <;> exact if_pos hlimit

theorem gather_cons (h : find mark buf = none) (hlimit : buf.length ≤ limit) :
    gather mark limit buf (piece :: rest) = gather mark limit (buf ++ piece) rest := by
  rw [gather, h]
  exact if_neg (Nat.not_lt_of_le hlimit)

/-- Element by element, nothing is missed. -/
theorem gather_singles (h : find mark (buf ++ l) = none) (hlimit : (buf ++ l).length ≤ limit + 1) :
    gather mark limit buf (l.map (fun a => [a]) ++ rest) = gather mark limit (buf ++ l) rest := by
  induction l generalizing buf with
  | nil => rw [List.map_nil, List.nil_append, List.append_nil]
  | cons a l ih =>
    rw [← List.singleton_append (l := l), ← List.append_assoc] at h hlimit
    have hbuf : buf <+: buf ++ [a] ++ l := (List.prefix_append _ _).trans (List.prefix_append _ _)
    have hle : buf.length ≤ limit := by
      simp only [List.length_append, List.length_singleton] at hlimit
      omega
    rw [List.map_cons, List.cons_append, gather_cons (find_eq_none_of_beginning hbuf h) hle, ih h hlimit,
      List.append_assoc, List.singleton_append]

/-! ### Where the pieces do not matter -/

/-- Without the mark, only the length counts. -/
theorem gather_of_none (hl : buf ++ rest.flatten = l) (h : find mark l = none) :
    gather mark limit buf rest = if limit < l.length then .large else .closed := by
  induction rest generalizing buf with
  | nil =>
    rw [List.flatten_nil, List.append_nil] at hl
    subst hl
    rw [gather, h]
  | cons piece rest ih =>
    have hbuf : buf <+: l := hl ▸ prefix_flatten
    have hnone := find_eq_none_of_beginning hbuf h
    rcases Nat.lt_or_ge limit buf.length with hlimit | hlimit
    · rw [gather_large hnone hlimit, if_pos (Nat.lt_of_lt_of_le hlimit hbuf.length_le)]
    · rw [List.flatten_cons, ← List.append_assoc] at hl
      rw [gather_cons hnone hlimit, ih hl]

/-- A mark that ends no more than one behind the limit is found. -/
theorem gather_of_le (hl : buf ++ rest.flatten = l) (h : find mark l = some place)
    (hle : place + mark.length ≤ limit + 1) : ∃ buf' rest',
      gather mark limit buf rest = .found place buf' rest' ∧ buf' ++ rest'.flatten = l ∧
        place + mark.length ≤ buf'.length := by
  induction rest generalizing buf with
  | nil =>
    rw [List.flatten_nil, List.append_nil] at hl
    subst hl
    exact ⟨buf, [], gather_of_find h, List.append_nil buf, le_length_of_find h⟩
  | cons piece rest ih =>
    have hbuf : buf <+: l := hl ▸ prefix_flatten
    rcases Nat.lt_or_ge buf.length (place + mark.length) with hlt | hge
    · rw [gather_cons (find_eq_none_of_lt hbuf h hlt) (by omega)]
      rw [List.flatten_cons, ← List.append_assoc] at hl
      exact ih hl
    · exact ⟨buf, piece :: rest, gather_of_find (find_eq_some_of_beginning hbuf h hge), hl, hge⟩

/-- A mark that ends more than a piece behind the limit is not found. -/
theorem gather_of_gt {size : ℕ} (hl : buf ++ rest.flatten = l) (h : find mark l = some place)
    (hgt : limit + size < place + mark.length) (hbuf : buf.length ≤ limit + size)
    (hsmall : ∀ piece ∈ rest, piece.length ≤ size) : gather mark limit buf rest = .large := by
  have hnone : find mark buf = none :=
    find_eq_none_of_lt (hl ▸ prefix_flatten) h (Nat.lt_of_le_of_lt hbuf hgt)
  rcases Nat.lt_or_ge limit buf.length with hlimit | hlimit
  · exact gather_large hnone hlimit
  · induction rest generalizing buf with
    | nil =>
      rw [List.flatten_nil, List.append_nil] at hl
      rw [← hl, hnone] at h
      exact nomatch h
    | cons piece rest ih =>
      have hpiece := hsmall piece List.mem_cons_self
      have hnext : (buf ++ piece).length ≤ limit + size := by
        rw [List.length_append]
        omega
      rw [List.flatten_cons, ← List.append_assoc] at hl
      have hnone' : find mark (buf ++ piece) = none :=
        find_eq_none_of_lt (hl ▸ prefix_flatten) h (Nat.lt_of_le_of_lt hnext hgt)
      rw [gather_cons hnone hlimit]
      rcases Nat.lt_or_ge limit (buf ++ piece).length with hlimit' | hlimit'
      · exact gather_large hnone' hlimit'
      · exact ih hl hnext (fun piece hmem => hsmall piece (List.mem_cons_of_mem _ hmem)) hnone' hlimit'

/-- What is found was gathered from what arrived. -/
theorem of_gather_found {buf' : List α} {rest' : List (List α)}
    (h : gather mark limit buf rest = .found place buf' rest') :
    buf' ++ rest'.flatten = buf ++ rest.flatten ∧ find mark buf' = some place := by
  induction rest generalizing buf with
  | nil =>
    rw [gather] at h
    split at h
    · next hfind => cases h; exact ⟨rfl, hfind⟩
    · split at h <;> exact nomatch h
  | cons piece rest ih =>
    rw [gather] at h
    split at h
    · next hfind => cases h; exact ⟨rfl, hfind⟩
    · split at h
      · exact nomatch h
      · rw [List.flatten_cons, ← List.append_assoc]
        exact ih h

omit [DecidableEq α] in
/-- What is filled is a beginning of what arrived; it is filled if there is as much. -/
theorem fill_eq (n : ℕ) (buf : List α) (rest : List (List α)) :
    fill n buf rest = none ∧ (buf ++ rest.flatten).length < n ∨
      ∃ buf', fill n buf rest = some buf' ∧ n ≤ buf'.length ∧ buf' <+: buf ++ rest.flatten := by
  induction rest generalizing buf with
  | nil =>
    rw [fill, List.flatten_nil, List.append_nil]
    split
    · next hlt => exact .inl ⟨rfl, hlt⟩
    · next hge => exact .inr ⟨buf, rfl, Nat.le_of_not_lt hge, List.prefix_rfl⟩
  | cons piece rest ih =>
    rw [fill]
    split
    · rw [List.flatten_cons, ← List.append_assoc]
      exact ih (buf ++ piece)
    · next hge => exact .inr ⟨buf, rfl, Nat.le_of_not_lt hge, prefix_flatten⟩

end

/-! ### Where they do -/

section

variable {mark l : List α} {limit place size : ℕ}

/-- Element by element. -/
def Pieces.singles (hsize : 0 < size) (l : List α) : Pieces size l where
  pieces := l.map fun a => [a]
  small := by
    intro piece hmem
    obtain ⟨a, -, rfl⟩ := List.mem_map.mp hmem
    exact ⟨Nat.one_pos, hsize⟩
  flatten_eq := flatten_singles l

/-- Element by element up to the limit, and then as much as a piece can have. -/
def Pieces.jump (hsize : 0 < size) (hlimit : limit < l.length) : Pieces size l where
  pieces := (l.take limit).map (fun a => [a]) ++ (l.drop limit).take size ::
    ((l.drop limit).drop size).map (fun a => [a])
  small := by
    intro piece hmem
    rw [List.mem_append, List.mem_cons] at hmem
    rcases hmem with hmem | rfl | hmem
    · exact (singles hsize (l.take limit)).small piece hmem
    · rw [List.length_take, List.length_drop]
      omega
    · exact (singles hsize ((l.drop limit).drop size)).small piece hmem
  flatten_eq := by
    rw [List.flatten_append, List.flatten_cons, flatten_singles, flatten_singles, List.take_append_drop,
      List.take_append_drop]

/-- A mark that ends further behind the limit may be missed. -/
theorem exists_large (hsize : 0 < size) (h : find mark l = some place) (hgt : limit + 1 < place + mark.length) :
    ∃ pieces : Pieces size l, gather mark limit [] pieces.pieces = .large := by
  refine ⟨Pieces.singles hsize l, ?_⟩
  have hlength := le_length_of_find h
  have htake : (l.take (limit + 1)).length = limit + 1 := by
    rw [List.length_take]
    omega
  have hnone := find_eq_none_of_lt (List.take_prefix (limit + 1) l) h (by omega)
  show gather mark limit [] (l.map fun a => [a]) = _
  rw [← List.take_append_drop (limit + 1) l, List.map_append,
    gather_singles (by rwa [List.nil_append]) (by rw [List.nil_append, htake]), List.nil_append]
  exact gather_large hnone (by omega)

/-- It is found if it is no more than a piece behind. -/
theorem exists_found (hsize : 0 < size) (h : find mark l = some place) (hgt : limit + 1 < place + mark.length)
    (hle : place + mark.length ≤ limit + size) :
    ∃ (pieces : Pieces size l) (buf : List α) (rest : List (List α)),
      gather mark limit [] pieces.pieces = .found place buf rest := by
  have hlength := le_length_of_find h
  have hlimit : limit < l.length := by omega
  have htake : (l.take limit).length = limit := by
    rw [List.length_take]
    omega
  have hnone := find_eq_none_of_lt (List.take_prefix limit l) h (by omega)
  have hjoin : l.take limit ++ (l.drop limit).take size = l.take (limit + size) := List.take_add.symm
  refine ⟨Pieces.jump hsize hlimit, l.take (limit + size), ((l.drop limit).drop size).map fun a => [a], ?_⟩
  rw [Pieces.jump, gather_singles (by rwa [List.nil_append]) (by rw [List.nil_append, htake]; omega), List.nil_append,
    gather_cons hnone htake.le, hjoin]
  refine gather_of_find (find_eq_some_of_beginning (List.take_prefix _ _) h ?_)
  rw [List.length_take]
  omega

end

end Gather
