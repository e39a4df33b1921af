import WindowCast.Lib.Overlay
import WindowCast.Lib.Utf16
import WindowCast.SecureHelper.Permission

/-!
# Environment blocks

What the agent for Windows reads the variables of a user from, and hands those of a program
over in: `NAME=value` in units of 16 bits, each ended by a zero, and all of them by another.

## Main definitions

* `parseEntry`, `parseEnvBlock` — the variables of a block; `none` where the program panics.
* `envBlock` — the block of a base with further variables set on top.
* `WellFormed` — the variables a block can hold.
* `Overridden` — what such a block is to be read as.

## Main results

* `wellFormed_of_parseEnvBlock` — what is read is well formed.
* `parseEnvBlock_lines` — **well formed variables are read as they were written**.
* `overridden_iff` — which blocks are read at all, and **which variables are all there, once,
  and in order**.
-/

namespace WindowCast.Agents

open SecureHelper (eqIgnoreAsciiCase)

/-- The variable of an entry. A name may start with `=`, so the second one is looked for behind
the first byte, which has to be a character. -/
def parseEntry : Text → Option (Option (Text × Text))
  | [] => none
  | c :: rest =>
    if c.utf8Size = 1 then some ((Text.splitOnce '=' rest).map fun p => (c :: p.1, p.2)) else none

/-- The entries of a block, up to the first empty one. -/
def entries (block : List UInt16) : List (List UInt16) :=
  (block.splitOn 0).takeWhile (· ≠ [])

/-- The variables of an environment block. -/
def parseEnvBlock (block : List UInt16) : Option (List (Text × Text)) :=
  ((entries block).mapM fun entry => parseEntry (Utf16.decode entry)).map List.reduceOption

/-- A variable as it stands in a block. -/
def line (v : Text × Text) : List UInt16 := Utf16.encode (v.1 ++ '=' :: v.2) ++ [0]

/-- Whether one variable is set in the place of the other. -/
def sameName (v w : Text × Text) : Bool := eqIgnoreAsciiCase v.1 w.1

section

variable [Casing]

/-- A block's order. -/
def upperName (v : Text × Text) : Text := Casing.toUppercase v.1

/-- An environment block of `base` with `extra` set on top. -/
def envBlock (base extra : List (Text × Text)) : List UInt16 :=
  let vars := extra.foldl (fun vars v => vars.filter (fun have' => !sameName have' v) ++ [v]) base
  let vars := vars.mergeSort fun v w => upperName v ≤ upperName w
  let block := vars.flatMap line
  (if block = [] then block ++ [0] else block) ++ [0]

end

/-- A name that ends where its entry's `=` is. -/
structure Named (name : Text) : Prop where
  ne_nil : name ≠ []
  nul : '\x00' ∉ name
  equals : '=' ∉ name.tail

/-- A variable that a block can hold. -/
structure WellFormed (v : Text × Text) : Prop where
  named : Named v.1
  first : ∀ c ∈ v.1.head?, c.utf8Size = 1
  value : '\x00' ∉ v.2

section

variable [Casing]

/-- The variables that are to be in a block: those of `base` and, in the place of what has the
same name but for its case, those of `extra`. -/
def overriding (base extra : List (Text × Text)) : List (Text × Text) :=
  Overlay.kept (Overlay.alike upperName) base extra

/-- Those very variables, each name once, in the order of the names. -/
structure Overridden (base extra vars : List (Text × Text)) : Prop where
  perm : vars.Perm (overriding base extra)
  sorted : vars.Pairwise fun v w => upperName v < upperName w

/-- How the standard library maps text to upper case: by its characters, and NUL and `=` have
no case. -/
structure ByCharacter (upper : Char → Text) : Prop where
  text : ∀ text, Casing.toUppercase text = text.flatMap upper
  ne_nil : ∀ c, upper c ≠ []
  ascii : ∀ c d : Char, c.toLower = d.toLower → upper c = upper d
  caseless : ∀ c ∈ ['\x00', '='], upper c = [c] ∧ ∀ d, c ∈ upper d → d = c

end

/-! ### Reading -/

section

variable {block units rest : List UInt16} {v : Text × Text} {vars ahead : List (Text × Text)} {name value text : Text}

/-- A list is read if each of its entries is. -/
theorem isSome_mapM {α β : Type} {f : α → Option β} {l : List α} :
    (l.mapM f).isSome = true ↔ ∀ a ∈ l, (f a).isSome = true := by
  induction l with
  | nil => exact iff_of_true rfl nofun
  | cons a l ih =>
    rw [List.mapM_cons, List.forall_mem_cons, ← ih]
    cases f a with
    | none => exact iff_of_false Bool.false_ne_true fun h => Bool.false_ne_true h.1
    | some b =>
      cases l.mapM f with
      | none => exact iff_of_false Bool.false_ne_true fun h => Bool.false_ne_true h.2
      | some r => exact iff_of_true rfl ⟨rfl, rfl⟩

theorem exists_of_mem_mapM {α β : Type} {f : α → Option β} {l : List α} {r : List β} {b : β}
    (h : l.mapM f = some r) (hb : b ∈ r) : ∃ a ∈ l, f a = some b := by
  induction l generalizing r with
  | nil =>
    obtain rfl := Option.some.inj h
    cases hb
  | cons a l ih =>
    rw [List.mapM_cons] at h
    obtain ⟨b', hb', h⟩ := Option.bind_eq_some_iff.mp h
    obtain ⟨r', hr', h⟩ := Option.bind_eq_some_iff.mp h
    obtain rfl := Option.some.inj h
    rcases List.mem_cons.mp hb with rfl | hb
    · exact ⟨a, List.mem_cons_self, hb'⟩
    · obtain ⟨a', ha', hfa'⟩ := ih hr' hb
      exact ⟨a', List.mem_cons_of_mem _ ha', hfa'⟩

theorem parseEntry_eq_some :
    parseEntry text = some (some v) ↔
      text = v.1 ++ '=' :: v.2 ∧ v.1 ≠ [] ∧ '=' ∉ v.1.tail ∧ ∀ c ∈ v.1.head?, c.utf8Size = 1 := by
  obtain ⟨name, value⟩ := v
  cases text with
  | nil => exact iff_of_false nofun fun h => List.append_ne_nil_of_right_ne_nil _ (List.cons_ne_nil _ _) h.1.symm
  | cons c rest =>
    rw [parseEntry]
    constructor
    · intro h
      split at h
      · rename_i hsize
        obtain ⟨p, hp, hv⟩ := Option.map_eq_some_iff.mp (Option.some.inj h)
        obtain ⟨hrest, hnot⟩ := Text.splitOnce_eq_some.mp hp
        obtain ⟨rfl, rfl⟩ := Prod.mk.inj hv
        refine ⟨congrArg (c :: ·) hrest, List.cons_ne_nil _ _, hnot, fun d hd => ?_⟩
        obtain rfl := Option.some.inj hd
        exact hsize
      · cases h
    · rintro ⟨htext, hne, hnot, hfirst⟩
      cases name with
      | nil => exact absurd rfl hne
      | cons d name =>
        obtain ⟨rfl, hrest⟩ := List.cons.inj htext
        rw [if_pos (hfirst _ rfl), Text.splitOnce_eq_some.mpr ⟨hrest, hnot⟩]
        rfl

/-- An entry is refused by its first unit alone. -/
theorem isSome_parseEntry (hne : units ≠ []) :
    (parseEntry (Utf16.decode units)).isSome = true ↔ ∀ unit ∈ units.head?, unit.toNat < 0x80 := by
  obtain ⟨unit, rest, rfl⟩ := List.exists_cons_of_ne_nil hne
  obtain ⟨c, text, hdecode, hsize⟩ := Utf16.utf8Size_head_decode unit rest
  have hhead : (∀ u ∈ (unit :: rest).head?, u.toNat < 0x80) ↔ unit.toNat < 0x80 := by
    rw [List.head?_cons]
    exact ⟨fun h => h unit rfl, fun h u hu => Option.some.inj hu ▸ h⟩
  rw [hdecode, parseEntry, hhead, ← hsize]
  split
  · rename_i h
    exact iff_of_true rfl h
  · rename_i h
    exact iff_of_false Bool.false_ne_true h

theorem entries_nul : entries (0 :: rest) = [] := by
  rw [entries, List.splitOn_cons_eq_if_modifyHead]
  rfl

/-- The entry that the next zero ends. -/
theorem entries_cons (hne : units ≠ []) (hzero : (0 : UInt16) ∉ units) :
    entries (units ++ 0 :: rest) = units :: entries rest := by
  rw [entries, List.splitOn_append_cons_self_of_not_mem hzero, List.takeWhile_cons_of_pos, ← entries]
  exact decide_eq_true hne

theorem zero_not_mem_splitOn (block : List UInt16) : ∀ entry ∈ block.splitOn 0, (0 : UInt16) ∉ entry := by
  induction block with
  | nil => exact fun entry h => List.mem_singleton.mp h ▸ List.not_mem_nil
  | cons unit block ih =>
    rw [List.splitOn_cons_eq_if_modifyHead]
    split
    · exact fun entry h => (List.mem_cons.mp h).elim (fun h => h ▸ List.not_mem_nil) (ih entry)
    · rename_i hunit
      obtain ⟨first, others, hsplit⟩ := List.exists_cons_of_ne_nil (List.splitOn_ne_nil 0 block)
      rw [hsplit] at ih ⊢
      intro entry h
      rcases List.mem_cons.mp h with rfl | h
      · rw [List.mem_cons, not_or]
        exact ⟨fun h => hunit (beq_iff_eq.mpr h.symm), ih first List.mem_cons_self⟩
      · exact ih entry (List.mem_cons_of_mem _ h)

/-- An entry has a unit, and no zero. -/
theorem ne_nil_of_mem_entries {entry : List UInt16} (h : entry ∈ entries block) : entry ≠ [] ∧ (0 : UInt16) ∉ entry := by
  have hne := @List.mem_takeWhile_imp _ (fun entry => decide (entry ≠ [])) _ _ h
  exact ⟨of_decide_eq_true hne, zero_not_mem_splitOn block entry ((List.takeWhile_prefix _).subset h)⟩

theorem parseEnvBlock_nul : parseEnvBlock (0 :: rest) = some [] := by
  rw [parseEnvBlock, entries_nul]
  rfl

theorem parseEnvBlock_cons (hne : units ≠ []) (hzero : (0 : UInt16) ∉ units) :
    parseEnvBlock (units ++ 0 :: rest) =
      (parseEntry (Utf16.decode units)).bind fun v => (parseEnvBlock rest).map (v.toList ++ ·) := by
  rw [parseEnvBlock, entries_cons hne hzero, List.mapM_cons, parseEnvBlock]
  cases hentry : parseEntry (Utf16.decode units) with
  | none => rfl
  | some v =>
    cases hrest : (entries rest).mapM fun entry => parseEntry (Utf16.decode entry) with
    | none => rfl
    | some vs => cases v <;> rfl

/-- A block is read if each of its entries is. -/
theorem isSome_parseEnvBlock :
    (parseEnvBlock block).isSome = true ↔ ∀ entry ∈ entries block, ∀ unit ∈ entry.head?, unit.toNat < 0x80 := by
  rw [parseEnvBlock, Option.isSome_map, isSome_mapM]
  exact forall₂_congr fun entry h => isSome_parseEntry (ne_nil_of_mem_entries h).1

/-- **What is read is well formed.** -/
theorem wellFormed_of_parseEnvBlock (h : parseEnvBlock block = some vars) (hv : v ∈ vars) : WellFormed v := by
  obtain ⟨read, hread, rfl⟩ := Option.map_eq_some_iff.mp h
  obtain ⟨entry, hentry, hparse⟩ := exists_of_mem_mapM hread (List.reduceOption_mem_iff.mp hv)
  obtain ⟨htext, hne, hnot, hfirst⟩ := parseEntry_eq_some.mp hparse
  have hnul := Utf16.nul_not_mem_decode (ne_nil_of_mem_entries hentry).2
  rw [htext, List.mem_append, List.mem_cons, not_or, not_or] at hnul
  exact ⟨⟨hne, hnul.1, hnot⟩, hfirst, hnul.2.2⟩

theorem line_ne_nil (name value : Text) : Utf16.encode (name ++ '=' :: value) ≠ [] := by
  intro h
  have hdecode := congrArg Utf16.decode h
  rw [Utf16.decode_encode] at hdecode
  exact List.append_ne_nil_of_right_ne_nil _ (List.cons_ne_nil _ _) hdecode

/-- A variable without NUL is read by itself. -/
theorem parseEnvBlock_line (hname : '\x00' ∉ name) (hvalue : '\x00' ∉ value) :
    parseEnvBlock (line (name, value) ++ rest) =
      (parseEntry (name ++ '=' :: value)).bind fun v => (parseEnvBlock rest).map (v.toList ++ ·) := by
  have hzero : (0 : UInt16) ∉ Utf16.encode (name ++ '=' :: value) := by
    refine Utf16.zero_not_mem_encode fun h => ?_
    rcases List.mem_append.mp h with h | h
    · exact hname h
    · exact (List.mem_cons.mp h).elim (by decide) hvalue
  rw [line, List.append_assoc, List.singleton_append, parseEnvBlock_cons (line_ne_nil name value) hzero,
    Utf16.decode_encode]

/-- **Well formed variables are read as they were written.** -/
theorem parseEnvBlock_lines (h : ∀ v ∈ ahead, WellFormed v) :
    parseEnvBlock (ahead.flatMap line ++ rest) = (parseEnvBlock rest).map (ahead ++ ·) := by
  induction ahead with
  | nil => cases h : parseEnvBlock rest <;> exact h
  | cons v ahead ih =>
    have hv := h v List.mem_cons_self
    have hentry : parseEntry (v.1 ++ '=' :: v.2) = some (some v) :=
      parseEntry_eq_some.mpr ⟨rfl, hv.named.ne_nil, hv.named.equals, hv.first⟩
    rw [List.flatMap_cons, List.append_assoc, parseEnvBlock_line hv.named.nul hv.value, hentry,
      ih fun w hw => h w (List.mem_cons_of_mem _ hw), Option.bind_some, Option.map_map]
    rfl

/-- A block reads a value up to its first NUL. -/
theorem exists_line_eq (v : Text × Text) (rest : List UInt16) :
    ∃ value behind, '\x00' ∉ value ∧ line v ++ rest = line (v.1, value) ++ behind := by
  obtain ⟨name, value⟩ := v
  by_cases hnul : '\x00' ∈ value
  · obtain ⟨before, after, rfl, hbefore⟩ := List.eq_append_cons_of_mem hnul
    refine ⟨before, Utf16.encode after ++ 0 :: rest, hbefore, ?_⟩
    rw [line, line, ← List.cons_append, ← List.append_assoc, Utf16.encode_append, Utf16.encode_nul]
    simp only [List.append_assoc, List.cons_append, List.nil_append]
  · exact ⟨value, rest, hnul, rfl⟩

/-- Of any variable with a name that a block can hold, the name is read. -/
theorem exists_name_mem (hname : Named v.1) (h : parseEnvBlock (line v ++ rest) = some vars) :
    ∃ w ∈ vars, w.1 = v.1 := by
  obtain ⟨value, behind, hvalue, hline⟩ := exists_line_eq v rest
  rw [hline, parseEnvBlock_line hname.nul hvalue] at h
  obtain ⟨entry, hentry, h⟩ := Option.bind_eq_some_iff.mp h
  obtain ⟨more, -, rfl⟩ := Option.map_eq_some_iff.mp h
  have hfirst : ∀ c ∈ v.1.head?, c.utf8Size = 1 := by
    obtain ⟨c, rest, hv⟩ := List.exists_cons_of_ne_nil hname.ne_nil
    rw [hv] at hentry ⊢
    rw [List.cons_append, parseEntry] at hentry
    split at hentry
    · rename_i hsize
      intro d hd
      obtain rfl := Option.some.inj hd
      exact hsize
    · cases hentry
  have hread : parseEntry (v.1 ++ '=' :: value) = some (some (v.1, value)) :=
    parseEntry_eq_some.mpr ⟨rfl, hname.ne_nil, hname.equals, hfirst⟩
  obtain rfl := Option.some.inj (hread.symm.trans hentry)
  exact ⟨(v.1, value), List.mem_append_left _ List.mem_cons_self, rfl⟩

end

/-! ### What is kept -/

section

variable [Casing] {upper : Char → Text} {v w : Text × Text} {base extra vars read : List (Text × Text)} {name : Text}

theorem upperName_eq_of_sameName (hupper : ByCharacter upper) (v w : Text × Text) (h : sameName v w = true) :
    upperName v = upperName w := by
  obtain ⟨name, value⟩ := v
  obtain ⟨name', value'⟩ := w
  have hlower : name.map Char.toLower = name'.map Char.toLower := of_decide_eq_true h
  rw [upperName, upperName, hupper.text, hupper.text]
  clear h
  induction name generalizing name' with
  | nil => rw [List.map_eq_nil_iff.mp hlower.symm]
  | cons c name ih =>
    obtain ⟨d, name', rfl, hd, hrest⟩ := List.map_eq_cons_iff.mp hlower.symm
    rw [List.flatMap_cons, List.flatMap_cons, ih _ hrest.symm, hupper.ascii c d hd.symm]

theorem mem_upper_iff (hupper : ByCharacter upper) {c : Char} (hc : c ∈ ['\x00', '=']) :
    c ∈ name.flatMap upper ↔ c ∈ name := by
  obtain ⟨hself, honly⟩ := hupper.caseless c hc
  rw [List.mem_flatMap]
  constructor
  · rintro ⟨d, hd, h⟩
    exact honly d h ▸ hd
  · exact fun h => ⟨c, h, hself ▸ List.mem_cons_self⟩

/-- Names that differ in their case alone are the same to a block. -/
theorem named_of_upperName_eq (hupper : ByCharacter upper) (h : upperName v = upperName w) (hw : Named w.1) :
    Named v.1 := by
  have hequals : '=' ∈ ['\x00', '='] := by decide
  rw [upperName, upperName, hupper.text, hupper.text] at h
  obtain ⟨d, name', hw'⟩ := List.exists_cons_of_ne_nil hw.ne_nil
  cases hv : v.1 with
  | nil =>
    rw [hv, hw', List.flatMap_nil, List.flatMap_cons] at h
    exact absurd (List.append_eq_nil_iff.mp h.symm).1 (hupper.ne_nil d)
  | cons c name =>
    have hnul : '\x00' ∉ v.1 := fun hnul => hw.nul
      ((mem_upper_iff hupper (by decide)).mp (h ▸ (mem_upper_iff hupper (by decide)).mpr hnul))
    refine ⟨List.cons_ne_nil _ _, hv ▸ hnul, fun htail => hw.equals ?_⟩
    have htail : '=' ∈ name := htail
    rw [hv, hw'] at h
    have hmem : '=' ∈ d :: name' :=
      (mem_upper_iff hupper hequals).mp (h ▸ (mem_upper_iff hupper hequals).mpr (List.mem_cons_of_mem c htail))
    rw [hw', List.tail_cons]
    rcases List.mem_cons.mp hmem with rfl | hmem
    · -- both names begin with the `=`
      obtain ⟨first, more, hc⟩ := List.exists_cons_of_ne_nil (hupper.ne_nil c)
      obtain ⟨hself, honly⟩ := hupper.caseless '=' hequals
      rw [List.flatMap_cons, List.flatMap_cons, hself, hc] at h
      obtain rfl := honly c (hc ▸ (List.cons.inj h).1 ▸ List.mem_cons_self)
      obtain ⟨-, rfl⟩ := List.cons.inj (hc.symm.trans hself)
      have hrest : name.flatMap upper = name'.flatMap upper := (List.cons.inj h).2
      exact (mem_upper_iff hupper hequals).mp (hrest ▸ (mem_upper_iff hupper hequals).mpr htail)
    · exact hmem

theorem parseEnvBlock_envBlock (base extra : List (Text × Text)) :
    parseEnvBlock (envBlock base extra) =
      parseEnvBlock (((Overlay.kept sameName base extra).mergeSort fun v w => upperName v ≤ upperName w).flatMap line
        ++ [0]) := by
  rw [envBlock, Overlay.foldl_eq_kept]
  split
  · rename_i hempty
    rw [hempty, List.nil_append, List.singleton_append, parseEnvBlock_nul, parseEnvBlock_nul]
  · rfl

theorem sorted_mergeSort (vars : List (Text × Text)) :
    (vars.mergeSort fun v w => upperName v ≤ upperName w).Pairwise fun v w => upperName v ≤ upperName w := by
  refine (List.pairwise_mergeSort (fun a b c hab hbc => ?_) (fun a b => ?_) vars).imp of_decide_eq_true
  · exact decide_eq_true (le_trans (of_decide_eq_true hab) (of_decide_eq_true hbc))
  · rw [Bool.or_eq_true]
    exact (le_total _ _).imp decide_eq_true decide_eq_true

omit [Casing] in
/-- Where variables can be named and none that is not well formed is named, all are well formed. -/
theorem wellFormed_of_names {rest : List UInt16} (h : parseEnvBlock (vars.flatMap line ++ rest) = some read)
    (hnamed : ∀ v ∈ vars, ¬ WellFormed v → Named v.1 ∧ ∀ w ∈ read, w.1 ≠ v.1) : ∀ v ∈ vars, WellFormed v := by
  induction vars generalizing read with
  | nil => nofun
  | cons v vars ih =>
    rw [List.flatMap_cons, List.append_assoc] at h
    have hv : WellFormed v := by
      by_contra hv
      obtain ⟨hname, hnone⟩ := hnamed v List.mem_cons_self hv
      obtain ⟨w, hw, hwv⟩ := exists_name_mem hname h
      exact hnone w hw hwv
    have hahead := @parseEnvBlock_lines (vars.flatMap line ++ rest) [v] fun w hw => List.mem_singleton.mp hw ▸ hv
    rw [List.flatMap_singleton] at hahead
    rw [hahead] at h
    obtain ⟨more, hmore, rfl⟩ := Option.map_eq_some_iff.mp h
    have hvars := ih hmore fun w hw hwell =>
      (hnamed w (List.mem_cons_of_mem _ hw) hwell).imp_right fun hnone u hu => hnone u (List.mem_cons_of_mem _ hu)
    exact List.forall_mem_cons.mpr ⟨hv, hvars⟩

/-- Where a block is read as it is to be, what is kept is well formed. -/
theorem wellFormed_of_overridden (hupper : ByCharacter upper)
    (h : parseEnvBlock (((Overlay.kept sameName base extra).mergeSort fun v w => upperName v ≤ upperName w).flatMap line
        ++ [0]) = some vars) (hvars : Overridden base extra vars) : ∀ v ∈ Overlay.kept sameName base extra, WellFormed v := by
  have hsame := upperName_eq_of_sameName hupper
  have hwell : ∀ v ∈ overriding base extra, WellFormed v := fun v hv =>
    wellFormed_of_parseEnvBlock h (hvars.perm.symm.subset hv)
  intro v hv
  refine wellFormed_of_names h (fun v hv hnot => ?_) v (List.mem_mergeSort.mpr hv)
  have hv := List.mem_mergeSort.mp hv
  have hout : v ∉ overriding base extra := fun hin => hnot (hwell v hin)
  obtain ⟨w, hw, hkey⟩ := Overlay.exists_key_mem hv hout
  refine ⟨named_of_upperName_eq hupper hkey.symm (hwell w hw).named, fun u hu huv => hout ?_⟩
  refine Overlay.mem_kept_of_same hsame hv (hvars.perm.subset hu) ?_
  rw [sameName, eqIgnoreAsciiCase, huv]
  exact decide_eq_true rfl

/-- **A block is read** unless an entry begins with a unit from 128 on; and what is written is read
back, **the variables of `extra` in the place of those of `base`, each name once and in order**,
exactly if what is kept is well formed and no two names differ in their case alone. -/
theorem overridden_iff (hupper : ByCharacter upper) :
    (∀ block, (parseEnvBlock block).isSome = true ↔
      ∀ entry ∈ entries block, ∀ unit ∈ entry.head?, unit.toNat < 0x80) ∧
    ∀ base extra, (∃ vars, parseEnvBlock (envBlock base extra) = some vars ∧ Overridden base extra vars) ↔
      (∀ v ∈ Overlay.kept sameName base extra, WellFormed v) ∧
        (Overlay.kept sameName base extra).Pairwise fun v w => upperName v ≠ upperName w := by
  refine ⟨fun block => isSome_parseEnvBlock, fun base extra => ?_⟩
  have hsame := upperName_eq_of_sameName hupper
  have hperm := List.mergeSort_perm (Overlay.kept sameName base extra) fun v w => upperName v ≤ upperName w
  have hsorted := sorted_mergeSort (Overlay.kept sameName base extra)
  rw [parseEnvBlock_envBlock]
  constructor
  · rintro ⟨vars, hread, hvars⟩
    have hwell := wellFormed_of_overridden hupper hread hvars
    refine ⟨hwell, ?_⟩
    rw [parseEnvBlock_lines fun v hv => hwell v (hperm.subset hv), parseEnvBlock_nul, Option.map_some,
      List.append_nil, Option.some.injEq] at hread
    rw [← hread] at hvars
    exact hperm.pairwise (hvars.sorted.imp ne_of_lt) fun h => h.symm
  · rintro ⟨hwell, hne⟩
    refine ⟨(Overlay.kept sameName base extra).mergeSort fun v w => upperName v ≤ upperName w, ?_, ?_, ?_⟩
    · rw [parseEnvBlock_lines fun v hv => hwell v (hperm.subset hv), parseEnvBlock_nul, Option.map_some,
        List.append_nil]
    · exact hperm.trans (.of_eq (Overlay.kept_eq_kept hsame hne))
    · exact (hsorted.and (hperm.symm.pairwise hne fun h => h.symm)).imp fun h => lt_of_le_of_ne h.1 h.2

end

/-- The letters a to z alone map so. -/
theorem byCharacter_ascii : @ByCharacter Text.asciiCasing fun c => [c.toUpper] :=
  @ByCharacter.mk Text.asciiCasing _ (fun text => List.map_eq_flatMap) (fun c => List.cons_ne_nil _ _)
    (fun c d h => by
      have hupper := congrArg Char.toUpper h
      rw [Char.toUpper_toLower_eq_toUpper, Char.toUpper_toLower_eq_toUpper] at hupper
      rw [hupper])
    (fun c hc => by
      have hself : [c.toUpper] = [c] ∧ c.isAlpha = false := by
        rcases List.mem_cons.mp hc with rfl | hc
        · decide
        · obtain rfl := List.mem_singleton.mp hc
          decide
      refine ⟨hself.1, fun d hd => ?_⟩
      have hcd := List.mem_singleton.mp hd
      have halpha : d.isAlpha = false := by rw [← Char.isAlpha_toUpper_eq_isAlpha, ← hcd, hself.2]
      have hlower : ¬ d.isLower = true := by
        intro hlower
        rw [Char.isAlpha, hlower, Bool.or_true] at halpha
        cases halpha
      rw [hcd, Char.toUpper_eq_of_not_isLower hlower])

/-- The variables of a session with a program's own set on top. -/
theorem overridden_path :
    ∃ vars, parseEnvBlock (@envBlock Text.asciiCasing
        [("Path".toList, "C:\\Windows".toList), ("=C:".toList, "C:\\".toList)] [("PATH".toList, "D:=".toList)]) = some vars ∧
      @Overridden Text.asciiCasing [("Path".toList, "C:\\Windows".toList), ("=C:".toList, "C:\\".toList)]
        [("PATH".toList, "D:=".toList)] vars := by
  have hkept : Overlay.kept sameName [("Path".toList, "C:\\Windows".toList), ("=C:".toList, "C:\\".toList)]
      [("PATH".toList, "D:=".toList)] = [("=C:".toList, "C:\\".toList), ("PATH".toList, "D:=".toList)] := by decide
  refine ((@overridden_iff Text.asciiCasing _ byCharacter_ascii).2 _ _).mpr ?_
  rw [hkept]
  refine ⟨fun v hv => ?_, by decide⟩
  rcases List.mem_cons.mp hv with rfl | hv
  · exact ⟨⟨by decide, by decide, by decide⟩, fun c hc => Option.some.inj hc ▸ by decide, by decide⟩
  · obtain rfl := List.mem_singleton.mp hv
    exact ⟨⟨by decide, by decide, by decide⟩, fun c hc => Option.some.inj hc ▸ by decide, by decide⟩

/-- A name that begins with an umlaut is no name to the block's reader: it panics. -/
theorem umlaut_panics : ¬ ∀ (_ : Casing) (upper : Char → Text), ByCharacter upper →
    (∀ block, (parseEnvBlock block).isSome = true) ∧
      ∀ base extra, ∃ vars, parseEnvBlock (envBlock base extra) = some vars ∧ Overridden base extra vars := by
  intro h
  obtain ⟨vars, hread, -⟩ := (h Text.asciiCasing _ byCharacter_ascii).2 [("Äpfel".toList, "1".toList)] []
  have hnone : parseEnvBlock (@envBlock Text.asciiCasing [("Äpfel".toList, "1".toList)] []) = none := by
    rw [@parseEnvBlock_envBlock Text.asciiCasing]
    decide +kernel
  rw [hnone] at hread
  cases hread

end WindowCast.Agents
