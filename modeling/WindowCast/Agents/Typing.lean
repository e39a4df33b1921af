import WindowCast.Agents.Injector

/-!
# Text typed on the keyboard of the keys

What typing a text does to the keys that are held, and what is held does to the text.

## Main definitions

* `touched` — the keys that a text is typed with.
* `Right` — the keys are down that the client holds, and a text is typed as it is.
* `Clear`, `Neutral` — the text needs no key that is held; no modifier changes it.

## Main results

* `keyDown_text`, `reads_text` — **what typing a text leaves down, and what is read of it**.
* `right_iff` — **when every event is right**.
-/

namespace WindowCast.Agents

open WindowCast.Host (WindowId)
open WindowCast.Stream (InputEvent Input Item Down)

variable {x : Xkb}

/-- The keys that a character is typed with. -/
def touchedBy (x : Xkb) (c : Char) : List UInt32 :=
  match x.typeable c with
  | none => []
  | some (code, shift) => if shift then [code, KEY_LEFTSHIFT] else [code]

def touched (x : Xkb) (text : Text) : List UInt32 := text.flatMap (touchedBy x)

/-- What is read of a character that is typed. -/
def readBack (x : Xkb) (mods : x.Mods) (c : Char) : Option Char :=
  (x.typeable c).bind fun (code, shift) => x.char (if shift then x.withShift mods else mods) code

/-- The client holds the key. -/
def Held (code : UInt32) (past : List Arrival) : Prop := Down (.key code) (past.map Arrival.input)

/-- Behind an event the keys are down that the client holds; and what is read of a text is what of
it can be typed. -/
structure Right (x : Xkb) (past : List Arrival) (arrival : Arrival) : Prop where
  down : ∀ code, KeyDown code (Injector.run x (past ++ [arrival])).requests ↔ Held code (past ++ [arrival])
  typed : ∀ text, arrival.input.1 = .text text →
    x.reads (x.serialize x.new) (Injector.run x (past ++ [arrival])).requests =
      x.reads (x.serialize x.new) (Injector.run x past).requests ++ text.filter x.types

instance (code : UInt32) (past : List Arrival) : Decidable (Held code past) :=
  inferInstanceAs (Decidable (latest (fun event : Input => event.1.mark (.key code)) (past.map Arrival.input) = some true))

/-- No key is held that the text is typed with. -/
def Clear (x : Xkb) (past : List Arrival) (text : Text) : Prop := ∀ code ∈ touched x text, ¬ Held code past

/-- The modifiers that are held or locked leave the characters of the text as they are. -/
def Neutral (x : Xkb) (mods : x.Mods) (text : Text) : Prop :=
  ∀ c ∈ text, x.types c = true → readBack x mods c = some c

instance (x : Xkb) (mods : x.Mods) (text : Text) : Decidable (Neutral x mods text) :=
  List.decidableBAll (fun c => x.types c = true → readBack x mods c = some c) text

/-- A text comes while nothing is held that gets in its way. -/
def Undisturbed (x : Xkb) (past : List Arrival) (arrival : Arrival) : Prop :=
  ∀ text, arrival.input.1 = .text text →
    Clear x past text ∧ Neutral x (x.serialize (Injector.run x past).xkb) text

/-! ### Typing -/

section

variable {self : Injector x} {code : UInt32} {c : Char} {text : Text} {sway : Sway}

/-- A key that is pressed and released is up. -/
theorem keyDown_tap (self : Injector x) (key code : UInt32) :
    KeyDown code ((self.key key true).key key false).requests ↔ KeyDown code self.requests ∧ code ≠ key := by
  rw [Injector.keyDown_key, Injector.keyDown_key]
  split
  · rename_i heq
    exact iff_of_false Bool.false_ne_true fun h => h.2 heq.symm
  · rename_i hne
    exact (and_iff_left (Ne.symm hne)).symm

/-- A character leaves the keys up that it is typed with. -/
theorem keyDown_typeChar (self : Injector x) (c : Char) (code : UInt32) :
    KeyDown code (self.typeChar c).requests ↔ KeyDown code self.requests ∧ code ∉ touchedBy x c := by
  unfold touchedBy
  cases htypeable : x.typeable c with
  | none =>
    rw [Injector.typeChar_none htypeable]
    exact (and_iff_left List.not_mem_nil).symm
  | some entry =>
    obtain ⟨key, shift⟩ := entry
    cases shift with
    | false =>
      rw [Injector.typeChar_plain htypeable, keyDown_tap]
      exact and_congr_right fun _ => not_congr List.mem_singleton.symm
    | true =>
      have hmem : code ∉ [key, KEY_LEFTSHIFT] ↔ code ≠ key ∧ code ≠ KEY_LEFTSHIFT := by
        rw [List.mem_cons, List.mem_singleton, not_or]
      rw [Injector.typeChar_shift htypeable, Injector.keyDown_key, keyDown_tap, Injector.keyDown_key]
      refine Iff.trans ?_ (and_congr_right fun _ => hmem.symm)
      split
      · rename_i heq
        exact iff_of_false Bool.false_ne_true fun h => h.2.2 heq.symm
      · rename_i hne
        exact and_congr_right fun _ => (and_iff_left (Ne.symm hne)).symm

/-- What typing a character leaves of the modifiers, and what is read of it. -/
theorem typed_typeChar (hx : x.Lawful) (h : self.Told) (c : Char) :
    (self.typeChar c).Told ∧ x.serialize (self.typeChar c).xkb = x.serialize self.xkb ∧
      x.reads (x.serialize x.new) (self.typeChar c).requests =
        x.reads (x.serialize x.new) self.requests ++ (readBack x (x.serialize self.xkb) c).toList := by
  unfold readBack
  cases htypeable : x.typeable c with
  | none =>
    rw [Injector.typeChar_none htypeable]
    exact ⟨h, rfl, (List.append_nil _).symm⟩
  | some entry =>
    obtain ⟨key, shift⟩ := entry
    obtain ⟨level, hsyms, hnul⟩ := Xkb.mem_syms htypeable
    have htap (s : x.State) (pressed : Bool) := hx.typing s _ pressed level c hsyms hnul
    cases shift with
    | false =>
      have hdown := h.key hx key true
      rw [Injector.typeChar_plain htypeable]
      refine ⟨hdown.key hx key false, ?_, ?_⟩
      · rw [Injector.xkb_key, htap, Injector.xkb_key, htap]
      · rw [Injector.reads_key hdown, Injector.reads_key h]
        exact List.append_nil _
    | true =>
      have hshift := h.key hx KEY_LEFTSHIFT true
      have hdown := hshift.key hx key true
      have hup := hdown.key hx key false
      rw [Injector.typeChar_shift htypeable]
      refine ⟨hup.key hx KEY_LEFTSHIFT false, ?_, ?_⟩
      · simp only [Injector.xkb_key]
        exact hx.shifted _ _ level c hsyms hnul
      · rw [Injector.reads_key hup, Injector.reads_key hdown, Injector.reads_key hshift, Injector.reads_key h,
          Injector.xkb_key, hx.shift, hx.silent]
        simp only [ite_true, Bool.false_eq_true, ite_false, Option.toList_none, List.append_nil, Option.bind_some]

theorem keyDown_text (self : Injector x) (text : Text) (code : UInt32) :
    KeyDown code (text.foldl Injector.typeChar self).requests ↔ KeyDown code self.requests ∧ code ∉ touched x text := by
  induction text generalizing self with
  | nil => exact (and_iff_left List.not_mem_nil).symm
  | cons c text ih =>
    have hcons : touched x (c :: text) = touchedBy x c ++ touched x text := List.flatMap_cons
    rw [List.foldl_cons, ih, keyDown_typeChar, hcons, List.mem_append, not_or, and_assoc]

theorem reads_text (hx : x.Lawful) (h : self.Told) (text : Text) :
    (text.foldl Injector.typeChar self).Told ∧
      x.serialize (text.foldl Injector.typeChar self).xkb = x.serialize self.xkb ∧
      x.reads (x.serialize x.new) (text.foldl Injector.typeChar self).requests =
        x.reads (x.serialize x.new) self.requests ++ text.filterMap (readBack x (x.serialize self.xkb)) := by
  induction text generalizing self with
  | nil => exact ⟨h, rfl, (List.append_nil _).symm⟩
  | cons c text ih =>
    obtain ⟨htold, hmods, hreads⟩ := typed_typeChar hx h c
    obtain ⟨htold', hmods', hreads'⟩ := ih htold
    refine ⟨htold', hmods'.trans hmods, ?_⟩
    rw [List.foldl_cons, hreads', hreads, hmods, List.append_assoc, List.filterMap_cons]
    cases readBack x (x.serialize self.xkb) c <;> rfl

theorem types_of_readBack {mods : x.Mods} {d : Char} (h : readBack x mods c = some d) : x.types c = true := by
  obtain ⟨entry, hentry, -⟩ := Option.bind_eq_some_iff.mp h
  rw [Xkb.types, hentry]
  rfl

theorem length_readBack_le (mods : x.Mods) (text : Text) :
    (text.filterMap (readBack x mods)).length ≤ (text.filter x.types).length := by
  induction text with
  | nil => exact Nat.le_refl 0
  | cons c text ih =>
    cases hread : readBack x mods c with
    | none =>
      rw [List.filterMap_cons_none hread]
      exact ih.trans ((List.sublist_cons_self c text).filter _).length_le
    | some d =>
      rw [List.filterMap_cons_some hread, List.filter_cons_of_pos (types_of_readBack hread)]
      exact Nat.succ_le_succ ih

/-- All of a text is read exactly if each character is. -/
theorem filterMap_readBack (mods : x.Mods) (text : Text) :
    text.filterMap (readBack x mods) = text.filter x.types ↔ Neutral x mods text := by
  induction text with
  | nil => exact iff_of_true rfl nofun
  | cons c text ih =>
    rw [Neutral, List.forall_mem_cons, ← Neutral, ← ih]
    cases hread : readBack x mods c with
    | none =>
      rw [List.filterMap_cons_none hread]
      by_cases htypes : x.types c = true
      · rw [List.filter_cons_of_pos htypes]
        refine iff_of_false (fun h => ?_) fun h => nomatch h.1 htypes
        have hle := length_readBack_le mods text
        rw [h] at hle
        exact Nat.not_succ_le_self _ hle
      · rw [List.filter_cons_of_neg htypes]
        exact (and_iff_right fun h => absurd h htypes).symm
    | some d =>
      have htypes := types_of_readBack hread
      rw [List.filterMap_cons_some hread, List.filter_cons_of_pos htypes, List.cons.injEq]
      exact and_congr_left fun _ => ⟨fun h _ => congrArg some h, fun h => Option.some.inj (h htypes)⟩

end

/-! ### Sequences of events -/

section

variable {past : List Arrival} {arrival : Arrival} {self : Injector x} {code : UInt32}

theorem held_concat : Held code (past ++ [arrival]) ↔
    (arrival.input.1.mark (.key code)).or
      (latest (fun event : Input => event.1.mark (.key code)) (past.map Arrival.input)) = some true := by
  rw [Held, Down, List.map_append, List.map_singleton, latest_concat]

/-- Events that are none of a key hold nothing. -/
theorem held_concat_of_none (h : arrival.input.1.mark (.key code) = none) :
    Held code (past ++ [arrival]) ↔ Held code past := by
  rw [held_concat, h, Option.none_or]
  rfl

/-- Input that is no key and no text does not touch the keyboard. -/
theorem elsewhere_inject (self : Injector x) (hkey : ∀ keycode pressed, arrival.input.1 ≠ .key keycode pressed)
    (htext : ∀ text, arrival.input.1 ≠ .text text) : self.Elsewhere (self.inject arrival) := by
  obtain ⟨⟨event, focus⟩, sway⟩ := arrival
  cases event with
  | pointerMove window dx dy => exact self.elsewhere_moveTo dx dy
  | pointerButton window button pressed =>
    cases pressed with
    | false => exact self.elsewhere_button _ false
    | true => exact self.elsewhere_focus.trans (Injector.elsewhere_button _ _ true)
  | pointerScroll window dx dy => exact self.elsewhere_ask rfl
  | key keycode pressed => exact absurd rfl (hkey keycode pressed)
  | text text => exact absurd rfl (htext text)
  | touch window id dx dy phase =>
    have hmove := @Injector.elsewhere_moveTo x sway window self dx dy
    cases phase with
    | start => exact hmove.trans ((Injector.elsewhere_focus _).trans (Injector.elsewhere_button _ _ true))
    | move => exact hmove
    | «end» => exact hmove.trans (Injector.elsewhere_button _ _ false)
    | cancel => exact hmove.trans (Injector.elsewhere_button _ _ false)
  | gamepad pad state => exact .refl self
  | gamepadGone pad => exact .refl self

/-- The modifiers a program has are those that the injector keeps. -/
theorem told_inject (hx : x.Lawful) (h : self.Told) : (self.inject arrival).Told := by
  obtain ⟨⟨event, focus⟩, sway⟩ := arrival
  cases event with
  | key keycode pressed => exact ((self.elsewhere_focusOn focus).told h).key hx keycode pressed
  | text text => exact (reads_text hx ((self.elsewhere_focusOn focus).told h) text).1
  | _ => exact (elsewhere_inject self (by rintro _ _ ⟨⟩) (by rintro _ ⟨⟩)).told h

/-- What holds before every event of a sequence that is right. -/
structure Synced (x : Xkb) (past : List Arrival) : Prop where
  told : (Injector.run x past).Told
  down : ∀ code, KeyDown code (Injector.run x past).requests ↔ Held code past

/-- Input that is no key and no text is right. -/
theorem right_of_elsewhere (hpast : Synced x past) (hkey : ∀ keycode pressed, arrival.input.1 ≠ .key keycode pressed)
    (htext : ∀ text, arrival.input.1 ≠ .text text) : Right x past arrival := by
  refine ⟨fun code => ?_, fun text h => absurd h (htext text)⟩
  have hmark : arrival.input.1.mark (.key code) = none := by
    cases hevent : arrival.input.1 with
    | key keycode pressed => exact absurd hevent (hkey keycode pressed)
    | _ => rfl
  rw [Injector.run_concat, (elsewhere_inject _ hkey htext).keyDown, hpast.down, held_concat_of_none hmark]

/-- **An event is right exactly if it is no text that is disturbed.** -/
theorem right_iff_undisturbed (hx : x.Lawful) (hpast : Synced x past) : Right x past arrival ↔ Undisturbed x past arrival := by
  have hconcat := Injector.run_concat x past arrival
  cases hevent : arrival.input.1 with
  | key keycode pressed =>
    refine iff_of_true ⟨fun code => ?_, by rintro _ htext; cases hevent.symm.trans htext⟩
      (by rintro _ htext; cases hevent.symm.trans htext)
    have hinject : (Injector.run x past).inject arrival =
        ((Injector.run x past).focusOn arrival.sway arrival.input.2).key keycode pressed := by
      rw [Injector.inject, hevent]
    have hmark : arrival.input.1.mark (.key code) = if keycode = code then some pressed else none := by
      rw [hevent, InputEvent.mark, InputEvent.item, InputEvent.presses]
      exact if_congr (by rw [Option.some.injEq, Item.key.injEq]) rfl rfl
    rw [hconcat, hinject, Injector.keyDown_key, (Injector.elsewhere_focusOn _ _).keyDown, hpast.down, held_concat, hmark]
    split
    · rw [Option.some_or, Option.some.injEq]
    · rw [Option.none_or]
      rfl
  | text text =>
    have hinject : (Injector.run x past).inject arrival =
        text.foldl Injector.typeChar ((Injector.run x past).focusOn arrival.sway arrival.input.2) := by
      rw [Injector.inject, hevent]
    have hfocus := @Injector.elsewhere_focusOn x arrival.sway (Injector.run x past) arrival.input.2
    obtain ⟨-, -, hreads⟩ := reads_text hx (hfocus.told hpast.told) text
    rw [hfocus.reads, hfocus.kept, ← hinject, ← hconcat] at hreads
    have hdown (code : UInt32) : KeyDown code (Injector.run x (past ++ [arrival])).requests ↔
        Held code past ∧ code ∉ touched x text := by
      rw [hconcat, hinject, keyDown_text, hfocus.keyDown, hpast.down]
    have hheld (code : UInt32) : Held code (past ++ [arrival]) ↔ Held code past :=
      held_concat_of_none (by rw [hevent]; rfl)
    constructor
    · rintro ⟨hright, htyped⟩ text' htext
      obtain rfl := InputEvent.text.inj (hevent.symm.trans htext)
      refine ⟨fun code htouched hcode => ?_, ?_⟩
      · exact ((hdown code).mp ((hright code).mpr ((hheld code).mpr hcode))).2 htouched
      · rw [← filterMap_readBack]
        exact List.append_cancel_left (hreads.symm.trans (htyped text hevent))
    · intro hundisturbed
      obtain ⟨hclear, hneutral⟩ := hundisturbed text hevent
      refine ⟨fun code => ?_, fun text' htext => ?_⟩
      · rw [hdown, hheld]
        exact and_iff_left_of_imp fun hcode htouched => hclear code htouched hcode
      · obtain rfl := InputEvent.text.inj (hevent.symm.trans htext)
        rw [hreads, (filterMap_readBack _ _).mpr hneutral]
  | _ =>
    have hnot : ∀ text, arrival.input.1 ≠ .text text := by
      rw [hevent]
      rintro _ ⟨⟩
    refine iff_of_true (right_of_elsewhere hpast ?_ hnot) fun text h => absurd h (hnot text)
    rw [hevent]
    rintro _ _ ⟨⟩

/-- **Every event is right exactly if every text comes undisturbed.** -/
theorem right_iff (hx : x.Lawful) (es : List Arrival) :
    Run.Always (Right x) es ↔ Run.Always (Undisturbed x) es := by
  refine Run.always_iff (I := Synced x) ⟨rfl, fun code => iff_of_false nofun nofun⟩
    (fun past arrival hpast => right_iff_undisturbed hx hpast) (fun past arrival hpast hright => ?_) es
  exact ⟨Injector.run_concat x past arrival ▸ told_inject hx hpast.told, hright.down⟩

end

/-- How often Shift is down, and whether that is the first or was the last time. -/
def pressShift (count : ℕ) (pressed : Bool) : ℕ × Bool :=
  if pressed then (count + 1, decide (count = 0)) else (count - 1, decide (count = 1))

theorem pressShift_unchanged {count : ℕ} {pressed : Bool} (h : (pressShift count pressed).2 = false) :
    decide (0 < (pressShift count pressed).1) = decide (0 < count) := by
  rw [decide_eq_decide]
  cases pressed with
  | true => exact iff_of_true (Nat.succ_pos count) (Nat.pos_of_ne_zero (of_decide_eq_false h))
  | false =>
    have hcount : count ≠ 1 := of_decide_eq_false h
    show 0 < count - 1 ↔ 0 < count
    omega

/-- Shift and two keys of a US keyboard. -/
def usKeys : Xkb where
  keymap :=
    { minKeycode := 8
      maxKeycode := 50
      syms := fun code level =>
        if code = 38 then (if level = 0 then ['a'] else ['A'])
        else if code = 10 then (if level = 0 then ['1'] else ['!'])
        else [] }
  State := ℕ
  Mods := Bool
  new := 0
  updateKey count code pressed := if code = 50 then pressShift count pressed else (count, false)
  serialize count := decide (0 < count)
  withShift _ := true
  char shift code :=
    if code = 30 then some (if shift then 'A' else 'a') else if code = 2 then some (if shift then '!' else '1') else none

theorem updateKey_usKeys {code : UInt32} {level : ℕ} {c : Char} (h : c ∈ usKeys.keymap.syms code level)
    (s : usKeys.State) (pressed : Bool) : usKeys.updateKey s code pressed = (s, false) := by
  refine if_neg ?_
  rintro rfl
  cases h

theorem lawful_usKeys : usKeys.Lawful where
  unchanged s code pressed h := by
    by_cases hcode : code = 50
    · subst hcode
      exact pressShift_unchanged h
    · have hsame : usKeys.updateKey s code pressed = (s, false) := if_neg hcode
      rw [hsame]
  typing s code pressed level c h _ := by rw [updateKey_usKeys h]
  shift s := decide_eq_true (Nat.succ_pos s)
  silent mods := rfl
  shifted s code level c h _ := by
    simp only [updateKey_usKeys h]
    rfl

/-- No window is placed. -/
def nowhere : Sway := ⟨fun _ => none, false⟩

/-- Text, a key that is held, and text that does not need it. -/
theorem right_behind_key : Run.Always (Right usKeys)
    [⟨(.text "A!".toList, none), nowhere⟩, ⟨(.key 30 true, none), nowhere⟩,
      ⟨(.text "1".toList, none), nowhere⟩] := by
  refine (right_iff lawful_usKeys _).mpr ?_
  change Run.Always _ ([] ++ [_] ++ [_] ++ [_])
  refine Run.always_concat.mpr ⟨Run.always_concat.mpr ⟨Run.always_concat.mpr ⟨Run.always_nil, ?_⟩, ?_⟩, ?_⟩
  all_goals intro text h
  · obtain rfl := InputEvent.text.inj h
    exact ⟨fun code _ => nofun, by decide⟩
  · cases h
  · obtain rfl := InputEvent.text.inj h
    have htouched : touched usKeys "1".toList = [2] := by decide
    refine ⟨fun code hcode => ?_, by decide⟩
    rw [htouched, List.mem_singleton] at hcode
    subst hcode
    decide

/-- Typing a capital letter releases a Shift that is held. -/
theorem shift_released : ¬ ∀ x : Xkb, x.Lawful → ∀ es, Run.Always (Right x) es := by
  intro h
  have hright := h usKeys lawful_usKeys _ [⟨(.key 42 true, none), nowhere⟩] ⟨(.text "A".toList, none), nowhere⟩ [] rfl
  have hdown := (hright.down 42).mpr (show _ = _ by decide)
  exact absurd hdown (by decide)

end WindowCast.Agents
