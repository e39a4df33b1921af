import WindowCast.Command.Stream
import WindowCast.Lib.Chunks
import WindowCast.Lib.Marks
import WindowCast.Lib.Run

/-!
# Pasting into a terminal

What is pasted goes to the program between two marks, if it asked for them, in three writes;
the thread that reads what the program puts out answers its queries on the same channel, at
any time.

## Main definitions

* `unhandledCsi` — the answer to a query.
* `World.step` — one paste and the reader, one chunk sent at a time.
* `firstPaste` — what a program takes for pasted.
* `Pasted` — that it takes the text for pasted, and nothing else.

## Main results

* `quiet_unhandledCsi` — no answer has in it what a mark ends with.
* `World.Inv.step` — what every step preserves.
* `pasted_iff` — **when the program gets the text, all of it, as one paste**.
-/

namespace WindowCast.Terminal.Pasting

open Command (Bytes MAX_CHUNK)

def ascii (text : Text) : Bytes := text.map fun c => UInt8.ofNat c.toNat

/-! ### Queries -/

/-- An escape sequence that the emulator leaves to others, and where the cursor is. -/
structure Query where
  i1 : Option UInt8
  params : List (List ℕ)
  c : Char
  cursor : ℕ × ℕ
  deriving DecidableEq, Repr

def digits (n : ℕ) : Text := Nat.toDigits 10 n

def unhandledCsi (query : Query) : Option Bytes :=
  let first := (query.params.head?.bind List.head?).getD 0
  match query.i1, query.c, first with
  | none, 'n', 6 =>
    let (row, col) := query.cursor
    some (ascii ('\x1b' :: '[' :: digits (row + 1) ++ ';' :: digits (col + 1) ++ ['R']))
  | none, 'n', 5 => some (ascii "\x1b[0n".toList)
  -- a VT100 with advanced video
  | none, 'c', 0 => some (ascii "\x1b[?1;2c".toList)
  | _, _, _ => none

/-! ### The channel -/

/-- What begins and what ends a paste. -/
def OPENING : Bytes := ascii "\x1b[200~".toList

def CLOSING : Bytes := ascii "\x1b[201~".toList

/-- The chunks of one write. -/
def chunks (bytes : Bytes) : List Bytes := Chunks.of MAX_CHUNK bytes

inductive Sender
  | reader
  | paste
  deriving DecidableEq, Repr

inductive Paste
  /-- It has not looked yet whether the program asked for marks. -/
  | called (text : Bytes)
  | bracketed (left : List Bytes)
  | plain (left : List Bytes)
  deriving DecidableEq, Repr

structure World where
  /-- Whether the program asked for marks, as the emulator has it. -/
  bracketedPaste : Bool
  /-- What the reader is about to send. -/
  answers : List Bytes
  paste : Paste
  /-- The channel's input, in the order of its queue. -/
  sent : List (Sender × Bytes)
  deriving DecidableEq, Repr

inductive Event
  /-- The reader processes output, with what is in it for the terminal. -/
  | output (queries : List Query) (bracketedPaste : Bool)
  | answer
  | look
  | write
  deriving DecidableEq, Repr

namespace World

def start (text : Bytes) : World := ⟨false, [], .called text, []⟩

def step (w : World) : Event → Option World
  | .output queries bracketedPaste =>
    if w.answers = [] then
      some { w with bracketedPaste, answers := (queries.filterMap unhandledCsi).flatMap chunks }
    else none
  | .answer =>
    match w.answers with
    | [] => none
    | chunk :: rest => some { w with answers := rest, sent := w.sent ++ [(.reader, chunk)] }
  | .look =>
    match w.paste with
    | .called text =>
      if w.bracketedPaste then
        some { w with paste := .bracketed (chunks OPENING ++ chunks text ++ chunks CLOSING) }
      else some { w with paste := .plain (chunks text) }
    | _ => none
  | .write =>
    match w.paste with
    | .bracketed (chunk :: rest) => some { w with paste := .bracketed rest, sent := w.sent ++ [(.paste, chunk)] }
    | .plain (chunk :: rest) => some { w with paste := .plain rest, sent := w.sent ++ [(.paste, chunk)] }
    | _ => none

/-- What the program receives. -/
def received (w : World) : Bytes := (w.sent.map Prod.snd).flatten

/-- What of it the sender sent. -/
def sentBy (sender : Sender) (sent : List (Sender × Bytes)) : List Bytes :=
  sent.filterMap fun s => if s.1 = sender then some s.2 else none

end World

/-- Who sends something in the event. -/
def Event.sender : Event → Option Sender
  | .answer => some .reader
  | .write => some .paste
  | _ => none

/-! ### The program -/

/-- What a program has read before the first paste, the paste, and what is behind it. -/
def firstPaste (input : Bytes) : Option (Bytes × Bytes × Bytes) := do
  let (before, rest) ← Marks.cut OPENING input
  let (content, behind) ← Marks.cut CLOSING rest
  return (before, content, behind)

/-- The program takes the text for pasted; all else it gets is answers. -/
def Pasted (text : Bytes) (w : World) : Prop :=
  ∃ before behind, firstPaste w.received = some (before, text, behind) ∧
    before ++ behind = (World.sentBy .reader w.sent).flatten

/-- The reader answers nothing between the first write of the paste and its last. -/
def Together (es : List Event) : Prop :=
  ∃ before during behind, es = before ++ during ++ behind ∧
    .write ∉ before ∧ .answer ∉ during ∧ .write ∉ behind

/-! ### Answers -/

/-- Something, and without a tilde, which is what a mark ends with. -/
def Quiet (bytes : Bytes) : Prop := bytes ≠ [] ∧ 0x7e ∉ bytes

theorem tilde_not_mem_ascii {text : Text} (h : ∀ c ∈ text, c.toNat < 0x7e) : 0x7e ∉ ascii text := by
  intro hmem
  obtain ⟨c, hc, htilde⟩ := List.mem_map.mp hmem
  have hlt := h c hc
  have hnat : c.toNat % 256 = 0x7e := by
    rw [← UInt8.toNat_ofNat', htilde]
    rfl
  omega

theorem lt_of_mem_digits {n : ℕ} {c : Char} (h : c ∈ digits n) : c.toNat < 0x7e := by
  have hdigit := Nat.isDigit_of_mem_toDigits (by decide) (by decide) h
  have hle : c.toNat ≤ 57 := Char.isDigit_iff_toNat.mp hdigit |>.2
  omega

/-- **No answer has a tilde in it.** -/
theorem quiet_unhandledCsi {query : Query} {answer : Bytes} (h : unhandledCsi query = some answer) : Quiet answer := by
  unfold unhandledCsi at h
  dsimp only at h
  split at h
  · obtain rfl := Option.some.inj h
    refine ⟨List.cons_ne_nil _ _, tilde_not_mem_ascii fun c hc => ?_⟩
    simp only [List.cons_append, List.mem_cons, List.mem_append, List.not_mem_nil, or_false] at hc
    rcases hc with rfl | rfl | (hc | rfl | hc) | rfl
    · decide
    · decide
    · exact lt_of_mem_digits hc
    · decide
    · exact lt_of_mem_digits hc
    · decide
  · obtain rfl := Option.some.inj h
    exact ⟨by decide, by decide⟩
  · obtain rfl := Option.some.inj h
    exact ⟨by decide, by decide⟩
  · cases h

theorem quiet_chunk {bytes chunk : Bytes} (h : Quiet bytes) (hchunk : chunk ∈ chunks bytes) : Quiet chunk := by
  obtain ⟨i, hi, rfl⟩ := List.mem_map.mp hchunk
  have hlt := (Chunks.lt_count_iff (by decide)).mp (List.mem_range.mp hi)
  refine ⟨List.ne_nil_of_length_pos ?_, fun htilde => h.2 (List.mem_of_mem_drop (List.mem_of_mem_take htilde))⟩
  rw [Chunks.length_piece]
  have hsize : 0 < MAX_CHUNK := by decide
  omega

theorem flatten_chunks (bytes : Bytes) : (chunks bytes).flatten = bytes := Chunks.flatten_of (by decide)

/-! ### Who sent what -/

namespace World

section

variable {sender : Sender} {sent sent' : List (Sender × Bytes)} {bytes : Bytes}

@[simp] theorem sentBy_append : sentBy sender (sent ++ sent') = sentBy sender sent ++ sentBy sender sent' :=
  List.filterMap_append

@[simp] theorem sentBy_self : sentBy sender ((sender, bytes) :: sent) = bytes :: sentBy sender sent :=
  List.filterMap_cons_some (if_pos rfl)

theorem sentBy_ne {other : Sender} (h : other ≠ sender) : sentBy sender ((other, bytes) :: sent) = sentBy sender sent :=
  List.filterMap_cons_none (if_neg h)

@[simp] theorem sentBy_nil : sentBy sender [] = [] := rfl

/-- What one has sent nothing of, the other has sent all of. -/
theorem map_snd_of_sentBy {other : Sender} (hother : other ≠ sender) (h : sentBy other sent = []) :
    sent.map Prod.snd = sentBy sender sent := by
  induction sent with
  | nil => rfl
  | cons s sent ih =>
    obtain ⟨by', bytes⟩ := s
    by_cases hby : by' = sender
    · subst hby
      rw [sentBy_ne hother.symm] at h
      rw [List.map_cons, sentBy_self, ih h]
    · have hby : by' = other := by cases by' <;> cases sender <;> cases other <;> simp_all
      subst hby
      rw [sentBy_self] at h
      cases h

theorem sentBy_eq_nil : sentBy sender sent = [] ↔ sender ∉ sent.map Prod.fst := by
  rw [sentBy, List.filterMap_eq_nil_iff, List.mem_map, not_exists]
  refine forall_congr' fun s => ?_
  rw [not_and]
  refine forall_congr' fun _ => ?_
  split
  · rename_i h
    exact iff_of_false nofun fun hne => hne h
  · rename_i h
    exact iff_of_true rfl h

/-- A write and a later one, and what was sent around them. -/
theorem exists_of_sentBy {first last : Bytes} {middle : List Bytes}
    (h : sentBy sender sent = first :: middle ++ [last]) :
    ∃ before during behind, sent = before ++ (sender, first) :: during ++ (sender, last) :: behind ∧
      sentBy sender before = [] ∧ sentBy sender during = middle ∧ sentBy sender behind = [] := by
  have hfst {s : Sender × Bytes} {bytes : Bytes} (h : (if s.1 = sender then some s.2 else none) = some bytes) :
      s = (sender, bytes) := by
    split at h
    · rename_i hs
      rw [← hs, ← Option.some.inj h]
    · cases h
  obtain ⟨begin', rest, rfl, hbegin, hrest⟩ := List.filterMap_eq_append_iff.mp h
  obtain ⟨before, s, during, rfl, hbefore, hs, hduring⟩ := List.filterMap_eq_cons_iff.mp hbegin
  obtain ⟨gap, s', behind, rfl, hgap, hs', hbehind⟩ := List.filterMap_eq_cons_iff.mp hrest
  obtain rfl := hfst hs
  obtain rfl := hfst hs'
  have hnone {l : List (Sender × Bytes)}
      (h : ∀ s ∈ l, (if s.1 = sender then some s.2 else none) = none) : sentBy sender l = [] :=
    List.filterMap_eq_nil_iff.mpr h
  refine ⟨before, during ++ gap, behind, ?_, hnone hbefore, ?_, hbehind⟩
  · simp only [List.append_assoc, List.cons_append]
  · rw [sentBy_append, hnone hgap, List.append_nil]
    exact hduring

end

/-! ### What every step preserves -/

/-- What is said of the paste: what of it is sent, and what is left. -/
def Sending (text : Bytes) (sent : List Bytes) : Paste → Prop
  | .called text' => text' = text ∧ sent = []
  | .bracketed left => sent ++ left = chunks OPENING ++ chunks text ++ chunks CLOSING
  | .plain _ => True

structure Inv (text : Bytes) (w : World) : Prop where
  quiet : ∀ chunk ∈ w.answers, Quiet chunk
  answered : ∀ chunk ∈ sentBy .reader w.sent, Quiet chunk
  sending : Sending text (sentBy .paste w.sent) w.paste

section

variable {text : Bytes} {w w' : World} {e : Event} {es : List Event}

theorem inv_start (text : Bytes) : (start text).Inv text := ⟨nofun, nofun, rfl, rfl⟩

theorem Inv.step (hw : w.Inv text) (h : w.step e = some w') : w'.Inv text := by
  obtain ⟨bracketedPaste, answers, paste, sent⟩ := w
  cases e with
  | output queries mode =>
    dsimp only [World.step] at h
    split at h
    · obtain rfl := Option.some.inj h
      refine ⟨fun chunk hchunk => ?_, hw.answered, hw.sending⟩
      obtain ⟨answer, hanswer, hchunk⟩ := List.mem_flatMap.mp hchunk
      obtain ⟨query, -, hquery⟩ := List.mem_filterMap.mp hanswer
      exact quiet_chunk (quiet_unhandledCsi hquery) hchunk
    · cases h
  | answer =>
    cases answers with
    | nil => cases h
    | cons chunk rest =>
      obtain rfl := Option.some.inj h
      refine ⟨fun c hc => hw.quiet c (List.mem_cons_of_mem _ hc), fun c hc => ?_, ?_⟩
      · rw [sentBy_append, sentBy_self, sentBy_nil, List.mem_append, List.mem_singleton] at hc
        exact hc.elim (hw.answered c) fun hc => hc ▸ hw.quiet chunk List.mem_cons_self
      · rw [sentBy_append, sentBy_ne (by decide), sentBy_nil, List.append_nil]
        exact hw.sending
  | look =>
    cases paste with
    | called text' =>
      obtain ⟨rfl, hsent⟩ := hw.sending
      dsimp only [World.step] at h
      split at h
      · obtain rfl := Option.some.inj h
        exact ⟨hw.quiet, hw.answered, congrArg (· ++ _) hsent⟩
      · obtain rfl := Option.some.inj h
        exact ⟨hw.quiet, hw.answered, trivial⟩
    | bracketed left => cases h
    | plain left => cases h
  | write =>
    have hanswered (chunk : Bytes) : sentBy .reader (sent ++ [(.paste, chunk)]) = sentBy .reader sent := by
      rw [sentBy_append, sentBy_ne (by decide), sentBy_nil, List.append_nil]
    cases paste with
    | called text' => cases h
    | bracketed left =>
      cases left with
      | nil => cases h
      | cons chunk rest =>
        obtain rfl := Option.some.inj h
        refine ⟨hw.quiet, (hanswered chunk).symm ▸ hw.answered, ?_⟩
        rw [sentBy_append, sentBy_self, sentBy_nil]
        exact (List.append_assoc _ _ _).trans hw.sending
    | plain left =>
      cases left with
      | nil => cases h
      | cons chunk rest =>
        obtain rfl := Option.some.inj h
        exact ⟨hw.quiet, (hanswered chunk).symm ▸ hw.answered, trivial⟩

theorem Inv.run (h : es.foldlM World.step w = some w') (hw : w.Inv text) : w'.Inv text :=
  Run.invariant (fun _ _ _ hw _ h => Inv.step hw h) es w w' hw (fun _ _ => trivial) h

theorem senders_step (h : w.step e = some w') :
    w'.sent.map Prod.fst = w.sent.map Prod.fst ++ e.sender.toList := by
  have hnothing (l : List Sender) : l = l ++ [] := (List.append_nil l).symm
  have hsent (sender : Sender) (chunk : Bytes) :
      (w.sent ++ [(sender, chunk)]).map Prod.fst = w.sent.map Prod.fst ++ [sender] := List.map_append
  cases e with
  | output queries mode =>
    dsimp only [World.step] at h
    split at h
    · obtain rfl := Option.some.inj h
      exact hnothing _
    · cases h
  | answer =>
    dsimp only [World.step] at h
    split at h
    · cases h
    · obtain rfl := Option.some.inj h
      exact hsent _ _
  | look =>
    dsimp only [World.step] at h
    split at h
    · split at h <;> obtain rfl := Option.some.inj h <;> exact hnothing _
    · cases h
  | write =>
    dsimp only [World.step] at h
    split at h
    · obtain rfl := Option.some.inj h
      exact hsent _ _
    · obtain rfl := Option.some.inj h
      exact hsent _ _
    · cases h

/-- Who sends something, and in what order, is in the events. -/
theorem senders_run (h : es.foldlM World.step w = some w') :
    w'.sent.map Prod.fst = w.sent.map Prod.fst ++ es.filterMap Event.sender := by
  induction es generalizing w with
  | nil => rw [Run.nil.mp h, List.filterMap_nil, List.append_nil]
  | cons e es ih =>
    obtain ⟨t, ht, h⟩ := Run.cons.mp h
    rw [ih h, senders_step ht, List.append_assoc, List.filterMap_cons]
    cases e.sender <;> rfl

end

end World

/-! ### One paste -/

theorem write_mem_iff {es : List Event} : .write ∈ es ↔ .paste ∈ es.filterMap Event.sender := by
  rw [List.mem_filterMap]
  constructor
  · exact fun h => ⟨_, h, rfl⟩
  · rintro ⟨e, he, hsender⟩
    cases e <;> first | exact he | cases hsender

theorem answer_mem_iff {es : List Event} : .answer ∈ es ↔ .reader ∈ es.filterMap Event.sender := by
  rw [List.mem_filterMap]
  constructor
  · exact fun h => ⟨_, h, rfl⟩
  · rintro ⟨e, he, hsender⟩
    cases e <;> first | exact he | cases hsender

/-- What is behind a list that an element is not in, up to where the element stands first. -/
theorem exists_of_append_eq {α : Type} {l r before behind : List α} {a : α} (h : l ++ r = before ++ a :: behind)
    (hl : a ∉ l) : ∃ t, before = l ++ t ∧ r = t ++ a :: behind := by
  rcases List.append_eq_append_iff.mp h with ⟨t, hbefore, hr⟩ | ⟨t, rfl, hr⟩
  · exact ⟨t, hbefore, hr⟩
  · cases t with
    | nil => exact ⟨[], (List.append_nil _).symm ▸ (List.append_nil _).symm, hr.symm⟩
    | cons b t =>
      obtain ⟨rfl, -⟩ := List.cons.inj hr
      exact absurd (List.mem_append_right _ List.mem_cons_self) hl

/-- The events between the first write of the paste and its last, by who sends something. -/
theorem together_iff {es : List Event} {before during behind : List Sender} (hbefore : .paste ∉ before)
    (hbehind : .paste ∉ behind) (h : es.filterMap Event.sender = before ++ .paste :: during ++ .paste :: behind) :
    Together es ↔ .reader ∉ during := by
  constructor
  · rintro ⟨es₁, es₂, es₃, rfl, h₁, h₂, h₃⟩
    rw [List.filterMap_append, List.filterMap_append, List.append_assoc, List.append_assoc, List.cons_append] at h
    obtain ⟨t, -, h⟩ := exists_of_append_eq h (mt write_mem_iff.mpr h₁)
    -- the last write is in what the events between them send
    rw [← List.cons_append, ← List.append_assoc] at h
    rcases List.append_eq_append_iff.mp h with ⟨u, -, hu⟩ | ⟨u, hu, -⟩
    · refine absurd (write_mem_iff.mpr ?_) h₃
      rw [hu]
      exact List.mem_append_right _ List.mem_cons_self
    · refine fun hmem => h₂ (answer_mem_iff.mpr ?_)
      rw [hu]
      exact List.mem_append_left _ (List.mem_append_right _ (List.mem_cons_of_mem _ hmem))
  · intro hduring
    have h : es.filterMap Event.sender = (before ++ .paste :: during ++ [.paste]) ++ behind := by
      rw [h, List.append_assoc _ [_] behind]
      rfl
    obtain ⟨es₁₂, es₃, rfl, h₁₂, h₃⟩ := List.filterMap_eq_append_iff.mp h
    rw [List.append_assoc] at h₁₂
    obtain ⟨es₁, es₂, rfl, h₁, h₂⟩ := List.filterMap_eq_append_iff.mp h₁₂
    refine ⟨es₁, es₂, es₃, rfl, fun hmem => hbefore ?_, fun hmem => hduring ?_, fun hmem => hbehind ?_⟩
    · exact h₁ ▸ write_mem_iff.mp hmem
    · have hmem := answer_mem_iff.mp hmem
      rw [h₂, List.mem_append, List.mem_cons, List.mem_singleton] at hmem
      simpa only [reduceCtorEq, false_or, or_false] using hmem
    · exact h₃ ▸ write_mem_iff.mp hmem

section

variable {text before during behind : Bytes}

theorem opening_eq : ∃ rest, OPENING = 0x1b :: rest ∧ 0x1b ∉ rest ∧ 0x7e ∈ OPENING := ⟨_, rfl, by decide, by decide⟩

theorem closing_eq : ∃ rest, CLOSING = 0x1b :: rest ∧ 0x1b ∉ rest ∧ CLOSING = CLOSING.dropLast ++ [0x7e] :=
  ⟨_, rfl, by decide, by decide⟩

/-- The program finds the first mark behind what has no tilde in it. -/
theorem cut_opening (h : 0x7e ∉ before) (rest : Bytes) :
    Marks.cut OPENING (before ++ OPENING ++ rest) = some (before, rest) := by
  obtain ⟨mark, hmark, hnot, htilde⟩ := opening_eq
  rw [hmark]
  exact Marks.cut_append hnot fun hin => h (hin.subset (hmark ▸ htilde))

theorem cut_closing (h : ¬ CLOSING <:+: text) (rest : Bytes) :
    Marks.cut CLOSING (text ++ CLOSING ++ rest) = some (text, rest) := by
  obtain ⟨mark, hmark, hnot, -⟩ := closing_eq
  rw [hmark] at h ⊢
  exact Marks.cut_append hnot h

end

/-- What is sent, once the paste has returned. -/
theorem exists_sent {text : Bytes} {w : World} (hw : w.Inv text) (hsent : w.paste = .bracketed []) :
    ∃ before during behind, w.sent = before ++ (.paste, OPENING) :: during ++ (.paste, CLOSING) :: behind ∧
      World.sentBy .paste before = [] ∧ World.sentBy .paste during = chunks text ∧ World.sentBy .paste behind = [] := by
  refine World.exists_of_sentBy ?_
  have hopening : chunks OPENING = [OPENING] := by decide
  have hclosing : chunks CLOSING = [CLOSING] := by decide
  have hsending := hw.sending
  rw [hsent] at hsending
  rw [← List.append_nil (World.sentBy .paste w.sent)]
  exact hsending.trans (by rw [hopening, hclosing]; rfl)

theorem tilde_not_mem_flatten {l : List Bytes} (h : ∀ chunk ∈ l, Quiet chunk) : 0x7e ∉ l.flatten := by
  intro hmem
  obtain ⟨chunk, hchunk, hmem⟩ := List.mem_flatten.mp hmem
  exact (h chunk hchunk).2 hmem

/-- Where the closing mark comes with something behind it that has no tilde, there is nothing. -/
theorem eq_nil_of_closing {text middle answers : Bytes} (htilde : 0x7e ∉ answers)
    (h : middle ++ CLOSING = text ++ CLOSING ++ answers) : answers = [] := by
  obtain ⟨-, -, -, hlast⟩ := closing_eq
  rcases List.eq_nil_or_concat' answers with hnil | ⟨front, b, rfl⟩
  · exact hnil
  · rw [hlast, ← List.append_assoc, ← List.append_assoc] at h
    have hb := (List.append_inj' h rfl).2
    exact absurd (List.mem_append_right _ (List.singleton_inj.mp hb ▸ List.mem_singleton_self _)) htilde

/-- **The program gets the text, all of it, as one paste** exactly if the text does not have the
closing mark in it and the reader answers nothing between the first write of the paste and its last. -/
theorem pasted_iff {text : Bytes} {es : List Event} {w : World} (h : es.foldlM World.step (World.start text) = some w)
    (hsent : w.paste = .bracketed []) : Pasted text w ↔ ¬ CLOSING <:+: text ∧ Together es := by
  have hw := World.Inv.run h (World.inv_start text)
  obtain ⟨before, during, behind, hall, hbefore, hduring, hbehind⟩ := exists_sent hw hsent
  have hread : World.sentBy .reader w.sent =
      World.sentBy .reader before ++ World.sentBy .reader during ++ World.sentBy .reader behind := by
    rw [hall, World.sentBy_append, World.sentBy_append, World.sentBy_ne (by decide), World.sentBy_ne (by decide)]
  have hquiet := hw.answered
  rw [hread] at hquiet
  have htogether : Together es ↔ World.sentBy .reader during = [] := by
    have hsenders := World.senders_run h
    rw [hall] at hsenders
    rw [World.sentBy_eq_nil]
    refine together_iff (World.sentBy_eq_nil.mp hbefore) (World.sentBy_eq_nil.mp hbehind) ?_
    refine hsenders.symm.trans ?_
    simp only [List.map_append, List.map_cons, List.append_assoc]
  have hfirst : Marks.cut OPENING w.received =
      some ((World.sentBy .reader before).flatten,
        (during.map Prod.snd).flatten ++ CLOSING ++ (World.sentBy .reader behind).flatten) := by
    have hreceived : w.received = (World.sentBy .reader before).flatten ++ OPENING ++
        ((during.map Prod.snd).flatten ++ CLOSING ++ (World.sentBy .reader behind).flatten) := by
      rw [World.received, hall, ← World.map_snd_of_sentBy (by decide) hbefore,
        ← World.map_snd_of_sentBy (by decide) hbehind]
      simp only [List.map_append, List.map_cons, List.flatten_append, List.flatten_cons, List.append_assoc]
    rw [hreceived]
    exact cut_opening (tilde_not_mem_flatten fun chunk hchunk =>
      hquiet chunk (List.mem_append_left _ (List.mem_append_left _ hchunk))) _
  rw [htogether]
  constructor
  · rintro ⟨first, rest, hpaste, hanswers⟩
    rw [firstPaste, hfirst, Option.bind_eq_bind, Option.bind_some] at hpaste
    obtain ⟨⟨content, after⟩, hcut, hparts⟩ := Option.bind_eq_some_iff.mp hpaste
    obtain ⟨rfl, hinside⟩ := Prod.mk.inj (Option.some.inj hparts)
    obtain ⟨rfl, rfl⟩ := Prod.mk.inj hinside
    obtain ⟨hrest, hclosing⟩ := Marks.eq_of_cut (by decide) hcut
    refine ⟨hclosing, ?_⟩
    -- what is behind the paste is what was answered during it, and after it
    rw [hread, List.flatten_append, List.flatten_append, List.append_assoc, List.append_cancel_left_eq] at hanswers
    rw [hanswers, ← List.append_assoc, List.append_cancel_right_eq] at hrest
    have hduring : ∀ chunk ∈ World.sentBy .reader during, Quiet chunk := fun chunk hchunk =>
      hquiet chunk (List.mem_append_left _ (List.mem_append_right _ hchunk))
    have hnil := List.flatten_eq_nil_iff.mp (eq_nil_of_closing (tilde_not_mem_flatten hduring) hrest)
    exact List.eq_nil_iff_forall_not_mem.mpr fun chunk hchunk => (hduring chunk hchunk).1 (hnil chunk hchunk)
  · rintro ⟨hclosing, hnone⟩
    have hmiddle : (during.map Prod.snd).flatten = text := by
      rw [World.map_snd_of_sentBy (show Sender.reader ≠ .paste by decide) hnone, hduring, flatten_chunks]
    refine ⟨(World.sentBy .reader before).flatten, (World.sentBy .reader behind).flatten, ?_, ?_⟩
    · rw [firstPaste, hfirst, hmiddle]
      simp only [Option.bind_eq_bind, Option.bind_some, cut_closing hclosing]
      rfl
    · rw [hread, hnone, List.append_nil, List.flatten_append]

/-- A query that is answered before the paste begins does no harm. -/
theorem pasted_behind_answer : Pasted (ascii "ls".toList) ⟨true, [], .bracketed [],
    [(.reader, ascii "\x1b[1;1R".toList), (.paste, OPENING), (.paste, ascii "ls".toList), (.paste, CLOSING)]⟩ := by
  have hrun : [.output [⟨none, [[6]], 'n', 0, 0⟩] true, .look, .answer, .write, .write, .write].foldlM World.step
      (World.start (ascii "ls".toList)) = some ⟨true, [], .bracketed [],
        [(.reader, ascii "\x1b[1;1R".toList), (.paste, OPENING), (.paste, ascii "ls".toList), (.paste, CLOSING)]⟩ := by
    decide +kernel
  refine (pasted_iff hrun rfl).mpr ⟨by decide, ?_⟩
  exact ⟨[.output [⟨none, [[6]], 'n', 0, 0⟩] true, .look, .answer], [.write, .write, .write], [], rfl, by decide, by decide,
    by decide⟩

/-- What is pasted may have the closing mark in it, and what is behind that is typed. -/
theorem mark_pasted : ¬ ∀ (text : Bytes) (es : List Event) (w : World),
    es.foldlM World.step (World.start text) = some w → w.paste = .bracketed [] → Pasted text w := by
  intro h
  have hrun : [.output [] true, .look, .write, .write, .write].foldlM World.step
      (World.start (CLOSING ++ ascii "reboot\r".toList)) = some ⟨true, [], .bracketed [],
        [(.paste, OPENING), (.paste, CLOSING ++ ascii "reboot\r".toList), (.paste, CLOSING)]⟩ := by
    decide +kernel
  obtain ⟨before, behind, hpaste, -⟩ := h _ _ _ hrun rfl
  have hread : firstPaste (OPENING ++ (CLOSING ++ ascii "reboot\r".toList) ++ CLOSING) =
      some ([], [], ascii "reboot\r".toList ++ CLOSING) := by decide
  cases hpaste.symm.trans hread

end WindowCast.Terminal.Pasting
