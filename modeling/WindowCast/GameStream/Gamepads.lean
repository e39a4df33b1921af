import WindowCast.GameStream.Input
import WindowCast.Lib.Latest
import WindowCast.Stream.DeliverInput

/-!
# A client's gamepads

A packet about one pad also names all the pads that the client has, one bit each.  The
stream's sink sends the pads that are gone and the pad itself on, and the thread behind it
plugs them in and out, up to four of them.

## Main definitions

* `names` — the mask names the pad.
* `lastMask`, `described` — the mask of the last packet, and what a pad was described as since
  it joined.
* `plugged` — what a pad is plugged in as.
* `Played` — what holds between the packets so far and the pads that are plugged in.

## Main results

* `padCalls_removed`, `padCalls_input` — what one packet has the pads told.
* `Played.input` — what every packet preserves.
* `plugged_run` — **the pads plugged in are those the client has, each as it was described last**.
-/

namespace WindowCast.GameStream

open WindowCast.Stream (DeliverInput GamepadState InputEvent PadCall MAX_PADS)

/-! ### Masks -/

/-- The mask names the pad. -/
def names (active : UInt16) (pad : UInt8) : Bool := active.toNat.testBit pad.toNat

theorem bit_ne_zero {x s : UInt16} (hs : s.toNat < 16) : x &&& (1 <<< s) ≠ 0 ↔ x.toNat.testBit s.toNat = true := by
  have hbit : (1 <<< s : UInt16).toNat = 2 ^ s.toNat := by
    rw [UInt16.toNat_shiftLeft, Nat.mod_eq_of_lt hs]
    show 1 <<< s.toNat % 2 ^ 16 = 2 ^ s.toNat
    rw [Nat.one_shiftLeft, Nat.mod_eq_of_lt (Nat.pow_lt_pow_right Nat.one_lt_two hs)]
  have hzero : (0 : UInt16).toNat = 0 := rfl
  have hpos : 2 ^ s.toNat ≠ 0 := (Nat.two_pow_pos _).ne'
  rw [ne_eq, ← UInt16.toNat_inj, UInt16.toNat_and, hbit, Nat.and_two_pow, hzero, Nat.mul_eq_zero, not_or,
    and_iff_left hpos]
  cases x.toNat.testBit s.toNat <;> decide

theorem testBit_not {x : UInt16} {k : ℕ} (hk : k < 16) : (~~~x).toNat.testBit k = !x.toNat.testBit k := by
  have hnot := BitVec.getLsbD_not (x := x.toBitVec) (i := k)
  rw [decide_eq_true hk, Bool.true_and] at hnot
  exact hnot

/-- The mask of the last packet. -/
def lastMask (inputs : List Input) : UInt16 :=
  (latest (fun | Input.gamepad _ active _ => some active | _ => none) inputs).getD 0

/-- What a pad is known as behind one more event: as the packet says that is about it, and as
nothing once a mask does not name it. -/
def describe (pad : UInt8) (known : Option GamepadState) : Input → Option GamepadState
  | .gamepad about active state => if names active pad then (if about = pad then some state else known) else none
  | _ => known

/-- What a pad was described as last, since it joined. -/
def described (pad : UInt8) (inputs : List Input) : Option GamepadState := inputs.foldl (describe pad) none

/-! ### Pads plugged in -/

/-- What a call says of a pad. -/
def padWord (pad : UInt8) : PadCall → Option (Option GamepadState)
  | .set about state => if about = pad then some (some state) else none
  | .remove about => if about = pad then some none else none

/-- What a pad is plugged in as: set last, and not removed since. -/
def plugged (pad : UInt8) (calls : List PadCall) : Option GamepadState := (latest (padWord pad) calls).getD none

section

variable {pad : UInt8} {state : GamepadState} {calls : List PadCall} {inputs : List Input} {event : Input}

theorem described_concat (pad : UInt8) (inputs : List Input) (event : Input) :
    described pad (inputs ++ [event]) = describe pad (described pad inputs) event := List.foldl_concat ..

theorem lastMask_concat (inputs : List Input) (event : Input) : lastMask (inputs ++ [event]) =
    match event with
    | .gamepad _ active _ => active
    | _ => lastMask inputs := by
  rw [lastMask, latest_concat]
  cases event <;> rfl

/-- A pad that is known as something is one that the last mask names. -/
theorem names_of_described (h : described pad inputs = some state) : names (lastMask inputs) pad = true := by
  induction inputs using List.reverseRecOn with
  | nil => cases h
  | append_singleton inputs event ih =>
    rw [described_concat] at h
    rw [lastMask_concat]
    cases event with
    | gamepad about active state' =>
      rw [describe] at h
      split at h
      · assumption
      · cases h
    | _ => exact ih h

theorem plugged_append (calls calls' : List PadCall) :
    plugged pad (calls ++ calls') = ((latest (padWord pad) calls').or (latest (padWord pad) calls)).getD none := by
  rw [plugged, latest_append]

theorem plugged_set (about : UInt8) :
    plugged pad (calls ++ [.set about state]) = if about = pad then some state else plugged pad calls := by
  rw [plugged, latest_concat, padWord]
  split <;> rfl

/-- Pads that are removed are not plugged in, and the others as they were. -/
theorem plugged_removed (gone : List UInt8) :
    plugged pad (calls ++ gone.map .remove) = if pad ∈ gone then none else plugged pad calls := by
  rw [plugged_append]
  split
  · rename_i hmem
    have hremoved : latest (padWord pad) (gone.map .remove) = some none := by
      refine latest_eq_some (fun call hcall => ?_) ⟨.remove pad, List.mem_map_of_mem hmem, if_pos rfl⟩
      obtain ⟨about, -, rfl⟩ := List.mem_map.mp hcall
      rw [padWord]
      split
      · exact .inr rfl
      · exact .inl rfl
    rw [hremoved]
    rfl
  · rename_i hmem
    have hnone : latest (padWord pad) (gone.map .remove) = none := by
      refine latest_eq_none fun call hcall => ?_
      obtain ⟨about, habout, rfl⟩ := List.mem_map.mp hcall
      exact if_neg fun heq : about = pad => hmem (heq ▸ habout)
    rw [hnone]
    rfl

end

/-! ### The sink and the thread behind it -/

/-- The pads that leave the mask. -/
def gone (pads active : UInt16) : List UInt8 :=
  ((List.range 16).filter fun pad => pads &&& ~~~active &&& (1 <<< UInt16.ofNat pad) ≠ 0).map UInt8.ofNat

section

variable {pad about : UInt8} {state : GamepadState} {calls : List PadCall} {inputs : List Input} {event : Input}
  {pads active : UInt16} {gamepads : Option (Except Text Unit)} {reading : Reading} {w w' : WindowInput}
  {d : DeliverInput} {sent : List Stream.Input}

theorem mem_gone : pad ∈ gone pads active ↔ names pads pad = true ∧ names active pad = false := by
  have hbit (k : ℕ) (hk : k < 16) : pads &&& ~~~active &&& (1 <<< UInt16.ofNat k) ≠ 0 ↔
      pads.toNat.testBit k = true ∧ active.toNat.testBit k = false := by
    have hnat : (UInt16.ofNat k).toNat = k := UInt16.toNat_ofNat_of_lt' (by rw [UInt16.size]; omega)
    rw [bit_ne_zero (by rwa [hnat]), hnat, UInt16.toNat_and, Nat.testBit_and, testBit_not hk, Bool.and_eq_true,
      Bool.not_eq_true']
  rw [gone, List.mem_map, names, names]
  constructor
  · rintro ⟨k, hk, rfl⟩
    rw [List.mem_filter, List.mem_range, decide_eq_true_iff] at hk
    have hnat : (UInt8.ofNat k).toNat = k := UInt8.toNat_ofNat_of_lt' (by rw [UInt8.size]; omega)
    rw [hnat]
    exact (hbit k hk.1).mp hk.2
  · rintro ⟨hpads, hactive⟩
    have hlt : pad.toNat < 16 := Nat.lt_of_not_le fun hle => Bool.false_ne_true
      ((Nat.testBit_lt_two_pow (pads.toNat_lt.trans_le (Nat.pow_le_pow_right Nat.two_pos hle))).symm.trans hpads)
    refine ⟨pad.toNat, ?_, UInt8.ofNat_toNat⟩
    rw [List.mem_filter, List.mem_range, decide_eq_true_iff]
    exact ⟨hlt, (hbit _ hlt).mpr ⟨hpads, hactive⟩⟩

/-- Whether a pad below the limit is in the mask is asked by its own bit. -/
theorem bit_about (h : about < MAX_PADS) :
    active &&& (1 <<< (about &&& 0x0f).toUInt16) ≠ 0 ↔ names active about = true := by
  have hall : ∀ about : UInt8, about < MAX_PADS → (about &&& 0x0f).toUInt16.toNat = about.toNat ∧ about.toNat < 16 := by
    decide +kernel
  obtain ⟨hnat, hlt⟩ := hall about h
  rw [bit_ne_zero (by rwa [hnat]), hnat, names]

/-- A thread has its pads as before, and has told them nothing but this. -/
structure Told (calls : List PadCall) (d d' : DeliverInput) : Prop where
  pads : d'.pads = d.pads
  noPads : d'.noPads = d.noPads
  padCalls : d'.padCalls = d.padCalls ++ calls

theorem Told.refl (d : DeliverInput) : Told [] d d := ⟨rfl, rfl, (List.append_nil _).symm⟩

theorem Told.trans {calls' : List PadCall} {d d' d'' : DeliverInput} (h : Told calls d d') (h' : Told calls' d' d'') :
    Told (calls ++ calls') d d'' where
  pads := h'.pads.trans h.pads
  noPads := h'.noPads.trans h.noPads
  padCalls := by rw [h'.padCalls, h.padCalls, List.append_assoc]

theorem told_callPads (d : DeliverInput) (call : PadCall) :
    Told (if d.pads then [call] else []) d (d.callPads call) := by
  unfold DeliverInput.callPads
  split
  · exact ⟨rfl, rfl, rfl⟩
  · exact .refl d

/-- Pads that are gone are removed, if there are any. -/
theorem told_gone (gamepads : Option (Except Text Unit)) (w : WindowInput) (d : DeliverInput)
    (about : List UInt8) :
    Told (if d.pads then about.map .remove else []) d
      ((about.map fun pad => w.send (.gamepadGone pad)).foldl (DeliverInput.step gamepads) d) := by
  induction about generalizing d with
  | nil =>
    rw [List.map_nil, ite_self]
    exact .refl d
  | cons pad about ih =>
    have hfirst : Told (if d.pads then [.remove pad] else []) d (d.step gamepads (w.send (.gamepadGone pad))) :=
      told_callPads { d with held := d.held.track (.gamepadGone pad) (some w.window) } (.remove pad)
    have hrest := hfirst.trans (ih (d.step gamepads (w.send (.gamepadGone pad))))
    rw [hfirst.pads] at hrest
    cases hpads : d.pads with
    | true =>
      rw [hpads] at hrest
      exact hrest
    | false =>
      rw [hpads] at hrest
      exact hrest

/-- A pad beyond the limit is not told of. -/
theorem told_beyond (w : WindowInput) (d : DeliverInput) (h : ¬ about < MAX_PADS) (state : GamepadState) :
    Told [] d (d.step gamepads (w.send (.gamepad about state))) := by
  have hstep : d.step gamepads (w.send (.gamepad about state)) =
      { d with held := d.held.track (.gamepad about state) (some w.window) } := if_neg h
  rw [hstep]
  exact ⟨rfl, rfl, (List.append_nil _).symm⟩

/-- The pads are open behind the attempt if they were, or can be opened. -/
theorem openPads_spec (gamepads : Option (Except Text Unit)) (d : DeliverInput) :
    (d.openPads gamepads).padCalls = d.padCalls ∧ ((d.openPads gamepads).pads = true ↔ d.pads = true ∨ d.noPads = false ∧ gamepads = some (.ok ())) ∧
      (d.noPads = false → gamepads = some (.ok ()) → (d.openPads gamepads).noPads = false) := by
  obtain ⟨held, pads, noPads, padCalls, delivered⟩ := d
  cases pads with
  | true => exact ⟨rfl, iff_of_true rfl (.inl rfl), fun h _ => h⟩
  | false =>
    cases noPads with
    | true => exact ⟨rfl, iff_of_false nofun (fun h => h.elim nofun nofun), nofun⟩
    | false =>
      match gamepads with
      | some (.ok ()) => exact ⟨rfl, iff_of_true rfl (.inr ⟨rfl, rfl⟩), fun _ _ => rfl⟩
      | some (.error _) => exact ⟨rfl, iff_of_false nofun (fun h => h.elim nofun nofun), nofun⟩
      | none => exact ⟨rfl, iff_of_false nofun (fun h => h.elim nofun nofun), nofun⟩

/-- A pad's state is set if the pads are open, or can be opened. -/
theorem step_set (gamepads : Option (Except Text Unit)) (w : WindowInput) (d : DeliverInput) (h : about < MAX_PADS)
    (state : GamepadState) :
    let d' := d.step gamepads (w.send (.gamepad about state))
    d'.padCalls = d.padCalls ++ (if d'.pads then [.set about state] else []) ∧
      (d'.pads = true ↔ d.pads = true ∨ d.noPads = false ∧ gamepads = some (.ok ())) ∧
      (d.noPads = false → gamepads = some (.ok ()) → d'.noPads = false) := by
  have hstep : d.step gamepads (w.send (.gamepad about state)) =
      (DeliverInput.openPads gamepads { d with held := d.held.track (.gamepad about state) (some w.window) }).callPads
        (.set about state) := if_pos h
  obtain ⟨hcalls, hpads, hno⟩ := openPads_spec gamepads
    { d with held := d.held.track (.gamepad about state) (some w.window) }
  have htold := told_callPads
    (DeliverInput.openPads gamepads { d with held := d.held.track (.gamepad about state) (some w.window) })
    (.set about state)
  rw [hstep]
  dsimp only at hcalls hpads hno ⊢
  rw [htold.padCalls, htold.pads, htold.noPads, hcalls]
  exact ⟨rfl, hpads, hno⟩

/-- Any other input tells the pads nothing. -/
theorem told_other (gamepads : Option (Except Text Unit))
    (h : ∀ about active state, event ≠ .gamepad about active state)
    (hinput : w.input reading event = (sent, w')) (d : DeliverInput) :
    Told [] d (sent.foldl (DeliverInput.step gamepads) d) ∧ w'.pads = w.pads := by
  cases event with
  | gamepad about active state => exact absurd rfl (h about active state)
  | _ =>
    cases hinput
    exact ⟨⟨rfl, rfl, (List.append_nil _).symm⟩, rfl⟩

/-! ### Runs -/

/-- What holds between the packets so far and the pads: those that are plugged in are as they
are known, and all that are known are plugged in as long as pads can be opened at all. -/
structure Played (gamepads : Option (Except Text Unit)) (w : WindowInput) (d : DeliverInput) (inputs : List Input) :
    Prop where
  mask : w.pads = lastMask inputs
  shut : d.pads = false → d.padCalls = []
  agree : d.pads = true → ∀ pad, plugged pad d.padCalls = if pad < MAX_PADS then described pad inputs else none
  fails : gamepads ≠ some (.ok ()) → d.pads = false
  early : gamepads = some (.ok ()) → d.noPads = false ∧ (d.pads = false → ∀ pad < MAX_PADS, described pad inputs = none)
  sets : ∀ pad state, .set pad state ∈ d.padCalls → ∃ active, .gamepad pad active state ∈ inputs

theorem played_new (gamepads : Option (Except Text Unit)) (window : Host.WindowId) (width height : UInt32) :
    Played gamepads (.new window width height) .new [] :=
  ⟨rfl, fun _ => rfl, nofun, fun _ => rfl, fun _ => ⟨rfl, fun _ _ _ => rfl⟩, nofun⟩

/-- An input that is about no pad. -/
theorem Played.other (h : Played gamepads w d inputs)
    (hevent : ∀ about active state, event ≠ .gamepad about active state)
    (hinput : w.input reading event = (sent, w')) :
    Played gamepads w' (sent.foldl (DeliverInput.step gamepads) d) (inputs ++ [event]) := by
  obtain ⟨htold, hpads⟩ := told_other gamepads hevent hinput d
  have hcalls : (sent.foldl (DeliverInput.step gamepads) d).padCalls = d.padCalls :=
    htold.padCalls.trans (List.append_nil _)
  have hdescribed (pad : UInt8) : described pad (inputs ++ [event]) = described pad inputs := by
    rw [described_concat]
    cases event with
    | gamepad about active state => exact absurd rfl (hevent about active state)
    | _ => rfl
  have hmask : lastMask (inputs ++ [event]) = lastMask inputs := by
    rw [lastMask_concat]
    cases event with
    | gamepad about active state => exact absurd rfl (hevent about active state)
    | _ => rfl
  constructor
  · rw [hpads, hmask, h.mask]
  · rw [htold.pads, hcalls]
    exact h.shut
  · intro hopen pad
    rw [htold.pads] at hopen
    rw [hcalls, hdescribed]
    exact h.agree hopen pad
  · rw [htold.pads]
    exact h.fails
  · intro hok
    rw [htold.pads, htold.noPads]
    exact ⟨(h.early hok).1, fun hpads pad hpad => (hdescribed pad).trans ((h.early hok).2 hpads pad hpad)⟩
  · intro pad state hset
    rw [hcalls] at hset
    obtain ⟨active, hmem⟩ := h.sets pad state hset
    exact ⟨active, List.mem_append_left _ hmem⟩

/-- What is known of a pad that a mask may have left out. -/
def kept (active : UInt16) (pad : UInt8) (inputs : List Input) : Option GamepadState :=
  if names active pad then described pad inputs else none

/-- Behind the removals, a pad that the mask leaves out is not plugged in. -/
theorem Played.removed (h : Played gamepads w d inputs) (hopen : d.pads = true) (pad : UInt8) :
    plugged pad (d.padCalls ++ (gone w.pads active).map .remove) =
      if pad < MAX_PADS then kept active pad inputs else none := by
  rw [plugged_removed, h.agree hopen, kept]
  by_cases hgone : pad ∈ gone w.pads active
  · rw [if_pos hgone, (mem_gone.mp hgone).2, if_neg Bool.false_ne_true, ite_self]
  · rw [if_neg hgone]
    by_cases hnames : names active pad = true
    · rw [if_pos hnames]
    · -- the last mask did not name it either, so nothing is known of it
      have hnone : described pad inputs = none := by
        rw [Option.eq_none_iff_forall_not_mem]
        intro state hstate
        have hlast := names_of_described hstate
        rw [← h.mask] at hlast
        exact hgone (mem_gone.mpr ⟨hlast, Bool.eq_false_iff.mpr hnames⟩)
      rw [if_neg hnames, hnone]

/-- **What every packet preserves.** -/
theorem Played.input (h : Played gamepads w d inputs) (hinput : w.input reading event = (sent, w')) :
    Played gamepads w' (sent.foldl (DeliverInput.step gamepads) d) (inputs ++ [event]) := by
  by_cases hevent : ∀ about active state, event ≠ .gamepad about active state
  · exact h.other hevent hinput
  push Not at hevent
  obtain ⟨about, active, state, rfl⟩ := hevent
  have hsent : sent = (gone w.pads active).map (fun pad => w.send (.gamepadGone pad)) ++
      (if active &&& (1 <<< (about &&& 0x0f).toUInt16) ≠ 0 then [w.send (.gamepad about state)] else []) := by
    have hfirst := congrArg Prod.fst hinput
    rw [gone, List.map_map]
    exact hfirst.symm
  have hw' : w'.pads = active := congrArg (fun r => r.2.pads) hinput.symm
  have htold := told_gone gamepads w d (gone w.pads active)
  rw [hsent, List.foldl_append]
  generalize ((gone w.pads active).map fun pad => w.send (.gamepadGone pad)).foldl
    (DeliverInput.step gamepads) d = e at htold
  have hmask : w'.pads = lastMask (inputs ++ [.gamepad about active state]) := by rw [hw', lastMask_concat]
  have hdescribed (pad : UInt8) : described pad (inputs ++ [.gamepad about active state]) =
      if about = pad ∧ names active pad = true then some state else kept active pad inputs := by
    rw [described_concat, describe, kept]
    by_cases hnames : names active pad = true
    · rw [if_pos hnames, if_pos hnames]
      by_cases hpad : about = pad
      · rw [if_pos hpad, if_pos ⟨hpad, hnames⟩]
      · rw [if_neg hpad, if_neg fun hboth => hpad hboth.1]
    · rw [if_neg hnames, if_neg hnames, if_neg fun hboth => hnames hboth.2]
  have hshut : e.pads = false → e.padCalls = [] := by
    intro hpads
    rw [htold.pads] at hpads
    rw [htold.padCalls, h.shut hpads, hpads]
    rfl
  have hkept : e.pads = true → ∀ pad,
      plugged pad e.padCalls = if pad < MAX_PADS then kept active pad inputs else none := by
    intro hpads pad
    rw [htold.pads] at hpads
    rw [htold.padCalls, hpads, if_pos rfl]
    exact h.removed hpads pad
  have hnone : e.pads = false → gamepads = some (.ok ()) → ∀ pad < MAX_PADS, kept active pad inputs = none := by
    intro hpads hok pad hpad
    rw [htold.pads] at hpads
    rw [kept, (h.early hok).2 hpads pad hpad, ite_self]
  have hsets : ∀ pad state', .set pad state' ∈ e.padCalls → ∃ active, .gamepad pad active state' ∈ inputs := by
    intro pad state' hset
    rw [htold.padCalls] at hset
    rcases List.mem_append.mp hset with hset | hset
    · exact h.sets pad state' hset
    · split at hset
      · obtain ⟨pad', -, hpad'⟩ := List.mem_map.mp hset
        cases hpad'
      · cases hset
  have hbefore : (∀ pad state', .set pad state' ∈ e.padCalls →
      ∃ active', .gamepad pad active' state' ∈ inputs ++ [.gamepad about active state]) := fun pad state' hset =>
    (hsets pad state' hset).imp fun _ hmem => List.mem_append_left _ hmem
  by_cases hset : active &&& (1 <<< (about &&& 0x0f).toUInt16) ≠ 0 ∧ about < MAX_PADS
  · -- the pad is named and may be plugged in
    obtain ⟨hbit, habout⟩ := hset
    have hnames := (bit_about habout).mp hbit
    rw [if_pos hbit, List.foldl_cons, List.foldl_nil]
    obtain ⟨hcalls, hpads, hno⟩ := step_set gamepads w e habout state
    generalize e.step gamepads (w.send (.gamepad about state)) = e' at hcalls hpads hno
    constructor
    · exact hmask
    · intro hshut'
      have hwas : e.pads = false := Bool.eq_false_iff.mpr fun hopen =>
        Bool.false_ne_true (hshut'.symm.trans (hpads.mpr (.inl hopen)))
      rw [hcalls, hshut hwas, hshut']
      rfl
    · intro hopen pad
      rw [hcalls, hopen, if_pos rfl, plugged_set, hdescribed]
      by_cases hpad : about = pad
      · subst hpad
        rw [if_pos rfl, if_pos habout, if_pos ⟨rfl, hnames⟩]
      · have hother : ¬ (about = pad ∧ names active pad = true) := fun hboth => hpad hboth.1
        rw [if_neg hpad, if_neg hother]
        cases hwas : e.pads with
        | true => exact hkept hwas pad
        | false =>
          have hok : gamepads = some (.ok ()) :=
            ((hpads.mp hopen).resolve_left fun hwas' => Bool.false_ne_true (hwas.symm.trans hwas')).2
          rw [hshut hwas]
          split
          · rename_i hlimit
            rw [hnone hwas hok pad hlimit]
            rfl
          · rfl
    · intro hfails
      rw [← Bool.not_eq_true, hpads, htold.pads, h.fails hfails]
      exact fun hor => hor.elim nofun fun hboth => hfails hboth.2
    · intro hok
      have hwas : e.noPads = false := htold.noPads.trans (h.early hok).1
      refine ⟨hno hwas hok, fun hshut' => ?_⟩
      exact absurd (hpads.mpr (.inr ⟨hwas, hok⟩)) (by rw [hshut']; exact Bool.false_ne_true)
    · intro pad state' hmem
      rw [hcalls] at hmem
      rcases List.mem_append.mp hmem with hmem | hmem
      · exact hbefore pad state' hmem
      · split at hmem
        · cases List.mem_singleton.mp hmem
          exact ⟨active, List.mem_append_right _ List.mem_cons_self⟩
        · cases hmem
  · -- a pad that is not named, or is beyond the limit
    have hrest : Told [] e ((if active &&& (1 <<< (about &&& 0x0f).toUInt16) ≠ 0 then [w.send (.gamepad about state)]
        else []).foldl (DeliverInput.step gamepads) e) := by
      by_cases hbit : active &&& (1 <<< (about &&& 0x0f).toUInt16) ≠ 0
      · rw [if_pos hbit]
        exact told_beyond w e (fun habout => hset ⟨hbit, habout⟩) state
      · rw [if_neg hbit]
        exact .refl e
    generalize (if active &&& (1 <<< (about &&& 0x0f).toUInt16) ≠ 0 then [w.send (.gamepad about state)]
      else []).foldl (DeliverInput.step gamepads) e = e' at hrest
    have hcalls : e'.padCalls = e.padCalls := hrest.padCalls.trans (List.append_nil _)
    have hkept' (pad : UInt8) (hpad : pad < MAX_PADS) :
        described pad (inputs ++ [.gamepad about active state]) = kept active pad inputs := by
      rw [hdescribed, if_neg]
      rintro ⟨rfl, hnames⟩
      exact hset ⟨(bit_about hpad).mpr hnames, hpad⟩
    constructor
    · exact hmask
    · rw [hrest.pads, hcalls]
      exact hshut
    · intro hopen pad
      rw [hrest.pads] at hopen
      rw [hcalls, hkept hopen]
      split
      · rename_i hpad
        rw [hkept' pad hpad]
      · rfl
    · intro hfails
      rw [hrest.pads, htold.pads, h.fails hfails]
    · intro hok
      rw [hrest.pads, hrest.noPads, htold.noPads]
      exact ⟨(h.early hok).1, fun hshut' pad hpad => (hkept' pad hpad).trans (hnone hshut' hok pad hpad)⟩
    · rw [hcalls]
      exact hbefore

theorem Played.run (h : Played gamepads w d inputs) (reading : Reading) (more : List Input) :
    Played gamepads (w.inputs reading more).2 ((w.inputs reading more).1.foldl (DeliverInput.step gamepads) d)
      (inputs ++ more) := by
  induction more generalizing w d inputs with
  | nil =>
    rw [List.append_nil]
    exact h
  | cons event more ih =>
    have hfirst : Played gamepads (w.input reading event).2 _ (inputs ++ [event]) := h.input rfl
    have hrest := ih hfirst
    rw [List.append_assoc, List.singleton_append] at hrest
    rw [WindowInput.inputs]
    dsimp only
    rw [List.foldl_append]
    exact hrest

end

/-- The events of a client's messages. -/
def received (fractions : Fractions) (messages : List (List UInt8)) : List Input := messages.flatMap (parse fractions)

/-- What the pads are told of a client's events. -/
def padCalls (reading : Reading) (gamepads : Option (Except Text Unit)) (w : WindowInput) (inputs : List Input) :
    List PadCall :=
  (DeliverInput.run gamepads (w.inputs reading inputs).1).padCalls

/-- **The pads plugged in are those the client has, each as it was described last**: behind any
messages, those that are plugged in are below the limit and in the last mask, and as they were
described; where the host's pads can be opened, all that are described are plugged in; and a
pad is only ever set to what a packet says of it. -/
theorem plugged_run (fractions : Fractions) (reading : Reading) (window : Host.WindowId) (width height : UInt32)
    (gamepads : Option (Except Text Unit)) (messages : List (List UInt8)) :
    let inputs := received fractions messages
    let calls := padCalls reading gamepads (.new window width height) inputs
    (∀ pad state, plugged pad calls = some state →
        pad < MAX_PADS ∧ names (lastMask inputs) pad = true ∧ described pad inputs = some state) ∧
      (gamepads = some (.ok ()) → ∀ pad < MAX_PADS, ∀ state, described pad inputs = some state →
        plugged pad calls = some state) ∧
      ∀ pad state, .set pad state ∈ calls → ∃ active, .gamepad pad active state ∈ inputs := by
  intro inputs calls
  have hplayed : Played gamepads _ (DeliverInput.run gamepads _) inputs :=
    (played_new gamepads window width height).run reading inputs
  refine ⟨fun pad state hplugged => ?_, fun hok pad hpad state hstate => ?_, hplayed.sets⟩
  · have hopen : (DeliverInput.run gamepads _).pads = true := Bool.of_not_eq_false fun hshut => by
      have hnone : calls = [] := hplayed.shut hshut
      rw [hnone] at hplugged
      cases hplugged
    have hagree : plugged pad calls = if pad < MAX_PADS then described pad inputs else none := hplayed.agree hopen pad
    rw [hplugged] at hagree
    split at hagree
    · exact ⟨‹_›, names_of_described hagree.symm, hagree.symm⟩
    · cases hagree
  · have hopen : (DeliverInput.run gamepads _).pads = true := Bool.of_not_eq_false fun hshut => by
      rw [(hplayed.early hok).2 hshut pad hpad] at hstate
      cases hstate
    have hagree : plugged pad calls = if pad < MAX_PADS then described pad inputs else none := hplayed.agree hopen pad
    rw [hagree, if_pos hpad, hstate]

/-- Where the host has no pads none is plugged in, and a packet about a pad whose number is no
byte gives nothing, so that a pad its mask leaves out stays. -/
theorem not_plugged_or_kept :
    plugged 0 (padCalls ⟨fun _ => [], id, fun x _ _ => x⟩ none (.new 1 640 480)
        [.gamepad 0 1 ⟨1, 0, 0, 0, 0, 0, 0⟩]) = none ∧
      plugged 0 (padCalls ⟨fun _ => [], id, fun x _ _ => x⟩ (some (.ok ())) (.new 1 640 480)
        (received wholeFractions [packet MULTI_CONTROLLER ([26, 0, 0, 0, 1, 0] ++ List.replicate 20 0),
          packet MULTI_CONTROLLER ([26, 0, 0, 1, 0, 0] ++ List.replicate 20 0)])) = some ⟨0, 0, 0, 0, 0, 0, 0⟩ := by
  decide +kernel

end WindowCast.GameStream
