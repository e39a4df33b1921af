import WindowCast.GameStream.Xml
import WindowCast.Lib.Search

/-!
# Reading a document

What a client reads of a host's answer (`xml.rs`): the text of an element, and the status
of the root, both found by searching the text for what the tags look like.

## Main definitions

* `Xml.unescape`, `Xml.text`, `Xml.status` — the readers.
* `IsName` — the names of elements.

## Main results

* `escape_eq_replace` — what is escaped, as the replacements that the source makes.
* `unescape_escape` — **what is escaped is read back**.
* `response_reads_back` — **what is written of elements is read of their document**.
-/

namespace WindowCast.GameStream

open Text (Passes)

namespace Xml

/-- Whether there is a minus before a number, and what is behind the sign. -/
def signed : Text → Bool × Text
  | '-' :: digits => (true, digits)
  | '+' :: digits => (false, digits)
  | digits => (false, digits)

/-- A number of 64 bits, in decimal digits behind a sign or none. -/
def parseI64 (number : Text) : Option ℤ :=
  let (negative, digits) := signed number
  if digits ≠ [] ∧ digits.all Char.isDigit then
    let value : ℤ := if negative then -Nat.ofDigitChars 10 digits 0 else Nat.ofDigitChars 10 digits 0
    if -2 ^ 63 ≤ value ∧ value < 2 ^ 63 then some value else none
  else none

def unescape (escaped : Text) : Text :=
  Text.replace "&amp;".toList ['&'] (Text.replace "&apos;".toList ['\''] (Text.replace "&quot;".toList ['"']
    (Text.replace "&gt;".toList ['>'] (Text.replace "&lt;".toList ['<'] escaped))))

def opening (name : Text) : Text := '<' :: name ++ ['>']

def closing (name : Text) : Text := '<' :: '/' :: name ++ ['>']

/-- The text of the first element of this name. -/
def text (xml name : Text) : Option Text :=
  match Text.cut (opening name) xml with
  | none => none
  | some (_, behind) => (Text.cut (closing name) behind).map fun p => unescape p.1.trim

/-- An attribute of the root. -/
def rootAttribute (xml name : Text) : Option Text :=
  match Text.cut "<root".toList xml with
  | none => none
  | some (_, behind) =>
    match Text.splitOnce '>' ("<root".toList ++ behind) with
    | none => none
    | some (root, _) =>
      match Text.cut (name ++ "=\"".toList) root with
      | none => none
      | some (_, behind) => (Text.splitOnce '"' behind).map fun p => unescape p.1

/-- The root's status code, and its message. -/
def status (xml : Text) : Option ℤ × Option Text :=
  ((rootAttribute xml "status_code".toList).bind parseI64, rootAttribute xml "status_message".toList)

/-! ### Escaping -/

/-- What stands for a character. -/
def entity (c : Char) : Text :=
  if c = '&' then "&amp;".toList
  else if c = '<' then "&lt;".toList
  else if c = '>' then "&gt;".toList
  else if c = '"' then "&quot;".toList
  else if c = '\'' then "&apos;".toList
  else [c]

theorem escape_eq (s : Text) : escape s = s.flatMap entity := rfl

/-- The entities, behind the ampersand. -/
def entities : List (Char × Text) :=
  [('&', "amp;".toList), ('<', "lt;".toList), ('>', "gt;".toList), ('"', "quot;".toList), ('\'', "apos;".toList)]

/-- What stands for the characters, where some are escaped already. -/
def partlyEscaped (done : List Char) (c : Char) : Text := if c ∈ done then entity c else [c]

/-- What stands for the characters, where some are read back already. -/
def partly (done : List Char) (c : Char) : Text := if c ∈ done then [c] else entity c

section

variable {s : Text} {c : Char}

/-- What stands for a character is the character, or an entity. -/
theorem entity_cases (c : Char) :
    entity c = [c] ∧ c ∉ entities.map Prod.fst ∨ ∃ name, (c, name) ∈ entities ∧ entity c = '&' :: name := by
  rw [entity]
  split_ifs with h₁ h₂ h₃ h₄ h₅
  · exact .inr ⟨_, by rw [h₁]; decide, rfl⟩
  · exact .inr ⟨_, by rw [h₂]; decide, rfl⟩
  · exact .inr ⟨_, by rw [h₃]; decide, rfl⟩
  · exact .inr ⟨_, by rw [h₄]; decide, rfl⟩
  · exact .inr ⟨_, by rw [h₅]; decide, rfl⟩
  · refine .inl ⟨rfl, ?_⟩
    simp only [entities, List.map_cons, List.map_nil, List.mem_cons, List.not_mem_nil, or_false, not_or]
    exact ⟨h₁, h₂, h₃, h₄, h₅⟩

theorem entity_of_mem {name : Text} (h : (c, name) ∈ entities) : entity c = '&' :: name ∧ '&' ∉ name := by
  have hall : ∀ e ∈ entities, entity e.1 = '&' :: e.2 ∧ '&' ∉ e.2 := by decide
  exact hall _ h

/-- No entity begins as another. -/
theorem entities_differ : ∀ e ∈ entities, ∀ e' ∈ entities, e.1 ≠ e'.1 → ∀ rest, ¬ e.2 <+: e'.2 ++ rest := by
  simp [entities, List.cons_prefix_cons]

/-- One replacement: one character is escaped, which is not in what stands for others. -/
theorem replace_partlyEscaped (s : Text) (done : List Char) (d : Char) (hdone : d ∉ done)
    (hothers : ∀ e ∈ entities, e.1 ∈ done → d ∉ '&' :: e.2) :
    Text.replace [d] (entity d) (s.flatMap (partlyEscaped done)) = s.flatMap (partlyEscaped (d :: done)) := by
  refine Text.replace_flatMap (List.cons_ne_nil _ _) fun c _ => ?_
  by_cases hcd : c = d
  · subst hcd
    exact .inl ⟨if_neg hdone, if_pos List.mem_cons_self⟩
  · have hmem : c ∈ d :: done ↔ c ∈ done := by rw [List.mem_cons, or_iff_right hcd]
    refine .inr ⟨Text.passes_of_not_mem ?_, by rw [partlyEscaped, partlyEscaped, if_congr hmem rfl rfl]⟩
    rw [partlyEscaped]
    split
    · rename_i hc
      rcases entity_cases c with ⟨hplain, -⟩ | ⟨name, hname, hentity⟩
      · rw [hplain]
        exact fun h => hcd (List.mem_singleton.mp h).symm
      · rw [hentity]
        exact hothers _ hname hc
    · exact fun h => hcd (List.mem_singleton.mp h).symm

/-- What is escaped, as the replacements that are made one after the other. -/
theorem escape_eq_replace (s : Text) : escape s =
    Text.replace ['\''] "&apos;".toList (Text.replace ['"'] "&quot;".toList (Text.replace ['>'] "&gt;".toList
      (Text.replace ['<'] "&lt;".toList (Text.replace ['&'] "&amp;".toList s)))) := by
  have hnone : s = s.flatMap (partlyEscaped []) := (List.flatMap_singleton' s).symm
  have hamp := replace_partlyEscaped s [] '&' (by decide) (by decide)
  have hlt := replace_partlyEscaped s ['&'] '<' (by decide) (by decide)
  have hgt := replace_partlyEscaped s ['<', '&'] '>' (by decide) (by decide)
  have hquot := replace_partlyEscaped s ['>', '<', '&'] '"' (by decide) (by decide)
  have hapos := replace_partlyEscaped s ['"', '>', '<', '&'] '\'' (by decide) (by decide)
  have hall : s.flatMap (partlyEscaped ['\'', '"', '>', '<', '&']) = escape s := by
    refine List.flatMap_congr fun c _ => ?_
    rcases entity_cases c with ⟨hplain, -⟩ | ⟨name, hname, -⟩
    · rw [partlyEscaped]
      split
      · rfl
      · exact hplain.symm
    · have hmem : ∀ e ∈ entities, e.1 ∈ ['\'', '"', '>', '<', '&'] := by decide
      exact if_pos (hmem _ hname)
  rw [← hnone] at hamp
  exact ((congrArg _ ((congrArg _ ((congrArg _ ((congrArg _ hamp).trans hlt)).trans hgt)).trans hquot)).trans
    (hapos.trans hall)).symm

/-- One replacement: what stands for one character is read back, and all else passes. -/
theorem replace_partly (s : Text) (done : List Char) (d : Char) (name : Text) (hd : (d, name) ∈ entities)
    (hdone : d ∉ done) (hlast : '&' ∉ done) :
    Text.replace ('&' :: name) [d] (s.flatMap (partly done)) = s.flatMap (partly (d :: done)) := by
  refine Text.replace_flatMap (List.cons_ne_nil _ _) fun c _ => ?_
  by_cases hcd : c = d
  · subst hcd
    exact .inl ⟨by rw [partly, if_neg hdone, (entity_of_mem hd).1], if_pos List.mem_cons_self⟩
  · have hmem : c ∈ d :: done ↔ c ∈ done := by rw [List.mem_cons, or_iff_right hcd]
    refine .inr ⟨?_, by rw [partly, partly, if_congr hmem rfl rfl]⟩
    rw [partly]
    split
    · rename_i hc
      exact Text.passes_of_not_mem fun h => hlast (List.mem_singleton.mp h ▸ hc)
    · rcases entity_cases c with ⟨hplain, hne⟩ | ⟨other, hother, hc⟩
      · rw [hplain]
        exact Text.passes_of_not_mem fun h => hne (List.mem_singleton.mp h ▸ List.mem_cons_self)
      · rw [hc]
        exact Text.passes_cons_of_not_mem (entities_differ _ hd _ hother fun h => hcd h.symm) (entity_of_mem hother).2

/-- **What is escaped is read back.** -/
theorem unescape_escape (s : Text) : unescape (escape s) = s := by
  have hnone : escape s = s.flatMap (partly []) := rfl
  have hlt := replace_partly s [] '<' "lt;".toList (by decide) (by decide) (by decide)
  have hgt := replace_partly s ['<'] '>' "gt;".toList (by decide) (by decide) (by decide)
  have hquot := replace_partly s ['>', '<'] '"' "quot;".toList (by decide) (by decide) (by decide)
  have hapos := replace_partly s ['"', '>', '<'] '\'' "apos;".toList (by decide) (by decide) (by decide)
  -- the ampersand comes last: what it begins is read as nothing else any more
  have hamp := replace_partly s ['\'', '"', '>', '<'] '&' "amp;".toList (by decide) (by decide) (by decide)
  have hall : s.flatMap (partly ['&', '\'', '"', '>', '<']) = s := by
    conv_rhs => rw [← List.flatMap_singleton' s]
    refine List.flatMap_congr fun c _ => ?_
    rcases entity_cases c with ⟨hplain, -⟩ | ⟨name, hname, -⟩
    · rw [partly, hplain, ite_self]
    · have hmem : ∀ e ∈ entities, e.1 ∈ ['&', '\'', '"', '>', '<'] := by decide
      rw [partly, if_pos (hmem _ hname)]
  rw [unescape, hnone]
  exact (congrArg _ ((congrArg _ ((congrArg _ ((congrArg _ hlt).trans hgt)).trans hquot)).trans hapos)).trans
    (hamp.trans hall)

/-- Where there is no tag in an escaped text. -/
theorem not_mem_escape {d : Char} (hd : d = '<' ∨ d = '>' ∨ d = '"') (s : Text) : d ∉ escape s := by
  rw [escape_eq, List.mem_flatMap]
  rintro ⟨c, -, hc⟩
  rcases entity_cases c with ⟨hplain, hnot⟩ | ⟨name, hname, hentity⟩
  · rw [hplain, List.mem_singleton] at hc
    subst hc
    refine hnot ?_
    rcases hd with rfl | rfl | rfl <;> decide
  · rw [hentity] at hc
    have hnot : ∀ e ∈ entities, '<' ∉ '&' :: e.2 ∧ '>' ∉ '&' :: e.2 ∧ '"' ∉ '&' :: e.2 := by decide
    obtain ⟨h₁, h₂, h₃⟩ := hnot _ hname
    rcases hd with rfl | rfl | rfl
    · exact h₁ hc
    · exact h₂ hc
    · exact h₃ hc

/-- The blanks around a text are those around what is escaped of it. -/
theorem trim_escape (s : Text) : (escape s).trim = escape s.trim := by
  have hends : ∀ e ∈ entities, Text.isWhitespace e.1 = false ∧ ∃ rest, e.2 = rest ++ [';'] := by
    have hlast : ∀ e ∈ entities, Text.isWhitespace e.1 = false ∧ e.2 = e.2.dropLast ++ [';'] := by decide
    exact fun e he => ⟨(hlast e he).1, _, (hlast e he).2⟩
  refine Text.trim_flatMap (fun c hc => ?_) (fun c hc => ?_) (fun c hc => ?_) s
  · rcases entity_cases c with ⟨hplain, -⟩ | ⟨name, hname, -⟩
    · exact hplain
    · exact absurd hc (by rw [(hends _ hname).1]; exact Bool.false_ne_true)
  · rcases entity_cases c with ⟨hplain, -⟩ | ⟨name, -, hentity⟩
    · exact ⟨c, [], hplain, hc⟩
    · exact ⟨'&', name, hentity, rfl⟩
  · rcases entity_cases c with ⟨hplain, -⟩ | ⟨name, hname, hentity⟩
    · exact ⟨[], c, hplain, hc⟩
    · obtain ⟨-, rest, hrest⟩ := hends _ hname
      exact ⟨'&' :: rest, ';', hentity.trans (congrArg _ hrest), rfl⟩

end

/-! ### Tags -/

/-- The name of an element: with no blank and no bracket of a tag in it, and not that of an
end. -/
def IsName (name : Text) : Prop := '<' ∉ name ∧ '>' ∉ name ∧ ' ' ∉ name ∧ name.head? ≠ some '/'

instance (name : Text) : Decidable (IsName name) := inferInstanceAs (Decidable (_ ∧ _ ∧ _ ∧ _))

section

variable {name token value rest : Text} {code : ℕ} {message : Option Text} {elements : List (Text × Text)}

theorem opening_append : opening name ++ rest = '<' :: (name ++ ('>' :: rest)) := by
  simp [opening]

theorem closing_eq : closing name = opening ('/' :: name) := rfl

/-- An opening tag is not in a text without brackets. -/
theorem passes_opening_text (h : '<' ∉ value) : Passes (opening name) value := Text.passes_of_not_mem h

/-- It is not in another tag. -/
theorem passes_opening_tag (hname : '>' ∉ name) (htoken : '<' ∉ token ∧ '>' ∉ token) (hne : token ≠ name) :
    Passes (opening name) (opening token) := by
  show Passes ('<' :: (name ++ ['>'])) ('<' :: (token ++ ['>']))
  refine Text.passes_cons_of_not_mem (fun rest hprefix => hne ?_) ?_
  · obtain ⟨behind, hbehind⟩ := hprefix
    -- both end at the first bracket
    have hleft : Text.splitOnce '>' (name ++ '>' :: behind) = some (name, behind) :=
      Text.splitOnce_eq_some.mpr ⟨rfl, hname⟩
    have hright : Text.splitOnce '>' (token ++ '>' :: rest) = some (token, rest) :=
      Text.splitOnce_eq_some.mpr ⟨rfl, htoken.2⟩
    have heq : name ++ '>' :: behind = token ++ '>' :: rest := by simpa using hbehind
    rw [heq, hright, Option.some.injEq] at hleft
    exact (Prod.mk.inj hleft).1
  · rw [List.mem_append, not_or]
    exact ⟨htoken.1, by decide⟩

/-- It is not in another element. -/
theorem passes_opening_element (value : Text) (hname : IsName name) (hother : IsName token) (hne : token ≠ name) :
    Passes (opening name) (opening token ++ (escape value ++ closing token)) := by
  -- the end of another element is no beginning of this one, since names begin with no slash
  have hend : '/' :: token ≠ name := by
    rintro rfl
    exact hname.2.2.2 rfl
  refine (passes_opening_tag hname.2.1 ⟨hother.1, hother.2.1⟩ hne).append ((passes_opening_text ?_).append ?_)
  · exact not_mem_escape (.inl rfl) value
  · exact passes_opening_tag hname.2.1 ⟨by simpa using hother.1, by simpa using hother.2.1⟩ hend

/-! ### A document -/

def header : Text := "?xml version=\"1.0\" encoding=\"utf-8\"?".toList

def messageAttribute : Option Text → Text
  | some message => ' ' :: ("status_message=\"".toList ++ (escape message ++ ['"']))
  | none => []

/-- The root's attributes: the status code, and the message, if there is one. -/
def attributes (code : ℕ) (message : Option Text) : Text :=
  ' ' :: ("status_code=\"".toList ++ (Nat.toDigits 10 code ++ '"' :: messageAttribute message))

def rootTag (code : ℕ) (message : Option Text) : Text := "root".toList ++ attributes code message

theorem response_eq (code : ℕ) (message : Option Text) (elements : List (Text × Text)) :
    response code message elements = opening header ++ ('\n' :: (opening (rootTag code message) ++
      ((elements.flatMap fun e => opening e.1 ++ (escape e.2 ++ closing e.1)) ++ closing "root".toList))) := by
  have hhead : "<?xml version=\"1.0\" encoding=\"utf-8\"?>\n<root status_code=\"".toList =
      opening header ++ '\n' :: '<' :: ("root".toList ++ ' ' :: "status_code=\"".toList) := rfl
  have hmessage : " status_message=\"".toList = ' ' :: "status_message=\"".toList := rfl
  have hend : "</root>".toList = closing "root".toList := rfl
  unfold response rootTag attributes messageAttribute
  generalize "<?xml version=\"1.0\" encoding=\"utf-8\"?>\n<root status_code=\"".toList = head at hhead ⊢
  generalize " status_message=\"".toList = behind at hmessage ⊢
  generalize "</root>".toList = last at hend ⊢
  generalize "root".toList = root at hhead hend ⊢
  generalize "status_code=\"".toList = first at hhead ⊢
  generalize "status_message=\"".toList = second at hmessage ⊢
  subst hhead hmessage hend
  have helement : (fun e : Text × Text => '<' :: e.1 ++ '>' :: escape e.2 ++ "</".toList ++ e.1 ++ ['>']) =
      fun e => opening e.1 ++ (escape e.2 ++ closing e.1) := by
    funext e
    simp [opening, closing]
  rw [helement]
  cases message with
  | none => simp only [opening, List.append_assoc, List.cons_append, List.nil_append]
  | some message => simp only [opening, List.append_assoc, List.cons_append, List.nil_append]

/-- The digits of a number are no tag. -/
theorem not_mem_toDigits {d : Char} (hd : d.isDigit = false) (n : ℕ) : d ∉ Nat.toDigits 10 n := fun h => by
  have hdigit := Nat.isDigit_of_mem_toDigits (by decide) (by decide) h
  rw [hd] at hdigit
  cases hdigit

theorem not_mem_attributes {d : Char} (hd : d = '<' ∨ d = '>') (code : ℕ) (message : Option Text) :
    d ∉ attributes code message := by
  have hdigits : d ∉ Nat.toDigits 10 code := not_mem_toDigits (by rcases hd with rfl | rfl <;> rfl) code
  have hplain : d ∉ "status_code=\"".toList ∧ d ∉ "status_message=\"".toList ∧ d ≠ ' ' ∧ d ≠ '"' := by
    rcases hd with rfl | rfl <;> decide
  obtain ⟨hfirst, hsecond, hblank, hquote⟩ := hplain
  have hescape := not_mem_escape (d := d) (hd.imp_right .inl)
  unfold attributes messageAttribute
  generalize "status_code=\"".toList = first at hfirst ⊢
  generalize "status_message=\"".toList = second at hsecond ⊢
  cases message with
  | none =>
    simp only [List.mem_cons, List.mem_append, List.not_mem_nil, or_false, not_or]
    exact ⟨hblank, hfirst, hdigits, hquote⟩
  | some message =>
    simp only [List.mem_cons, List.mem_append, List.not_mem_nil, or_false, not_or]
    exact ⟨hblank, hfirst, hdigits, hquote, hblank, hsecond, hescape message, hquote⟩

theorem not_mem_rootTag {d : Char} (hd : d = '<' ∨ d = '>') (code : ℕ) (message : Option Text) :
    d ∉ rootTag code message := by
  have hroot : d ∉ "root".toList := by rcases hd with rfl | rfl <;> decide
  exact fun h => (List.mem_append.mp h).elim hroot (not_mem_attributes hd code message)

/-- An element is found where it is. -/
theorem cut_opening_elements (rest : Text) (hnames : ∀ e ∈ elements, IsName e.1)
    (hdistinct : (elements.map Prod.fst).Nodup) (hmem : (name, value) ∈ elements) :
    ∃ before behind, Text.cut (opening name)
      ((elements.flatMap fun e => opening e.1 ++ (escape e.2 ++ closing e.1)) ++ rest) =
        some (before, escape value ++ (closing name ++ behind)) := by
  induction elements with
  | nil => cases hmem
  | cons e elements ih =>
    rw [List.map_cons, List.nodup_cons] at hdistinct
    rw [List.flatMap_cons, List.append_assoc]
    rcases List.mem_cons.mp hmem with rfl | hmem
    · refine ⟨[], (elements.flatMap fun e => opening e.1 ++ (escape e.2 ++ closing e.1)) ++ rest, ?_⟩
      dsimp only
      rw [List.append_assoc, List.append_assoc, Text.cut_append]
    · have hne : e.1 ≠ name := fun h => hdistinct.1 (h ▸ List.mem_map_of_mem hmem)
      obtain ⟨before, behind, hcut⟩ :=
        ih (fun e' he' => hnames e' (List.mem_cons_of_mem _ he')) hdistinct.2 hmem
      -- nothing is found in an element of another name, whatever its text
      have hpass := passes_opening_element e.2 (hnames _ (List.mem_cons_of_mem _ hmem))
        (hnames e List.mem_cons_self) hne
      refine ⟨opening e.1 ++ (escape e.2 ++ closing e.1) ++ before, behind, ?_⟩
      rw [Text.cut_append_of_passes hpass, hcut]
      rfl

/-- The text of an element is read of its document. -/
theorem text_response (hnames : ∀ e ∈ elements, IsName e.1) (hdistinct : (elements.map Prod.fst).Nodup)
    (hmem : (name, value) ∈ elements) : text (response code message elements) name = some value.trim := by
  have hname := hnames _ hmem
  obtain ⟨before, behind, hcut⟩ := cut_opening_elements (closing "root".toList) hnames hdistinct hmem
  have hblank {tag : Text} (htag : ' ' ∈ tag) : tag ≠ name := fun h => hname.2.2.1 (h ▸ htag)
  have hheader : Passes (opening name) (opening header) :=
    passes_opening_tag hname.2.1 (by decide) (hblank (by decide))
  have hline : Passes (opening name) ['\n'] := passes_opening_text (by decide)
  have hroot : Passes (opening name) (opening (rootTag code message)) := by
    refine passes_opening_tag hname.2.1 ⟨not_mem_rootTag (.inl rfl) _ _, not_mem_rootTag (.inr rfl) _ _⟩ (hblank ?_)
    exact List.mem_append_right _ List.mem_cons_self
  have hvalue : Text.cut (closing name) (escape value ++ (closing name ++ behind)) = some (escape value, behind) :=
    Text.cut_eq_some (Text.passes_of_not_mem (not_mem_escape (.inl rfl) value))
  rw [text, response_eq, Text.cut_append_of_passes hheader, ← List.singleton_append,
    Text.cut_append_of_passes hline, Text.cut_append_of_passes hroot, hcut]
  dsimp only [Option.map_some]
  rw [hvalue, Option.map_some, trim_escape, unescape_escape]

/-! ### The status -/

/-- An attribute is looked for in the root's tag. -/
theorem rootAttribute_response (name : Text) :
    rootAttribute (response code message elements) name =
      (Text.cut (name ++ "=\"".toList) ("<root".toList ++ attributes code message)).bind fun p =>
        (Text.splitOnce '"' p.2).map fun p => unescape p.1 := by
  have hheader : Passes "<root".toList (opening header) := by
    show Passes ('<' :: 'r' :: "oot".toList) ('<' :: '?' :: ("xml version=\"1.0\" encoding=\"utf-8\"?".toList ++ ['>']))
    refine Text.passes_cons_of_not_mem (fun rest hprefix => ?_) (by decide)
    rw [List.cons_append, List.cons_prefix_cons] at hprefix
    exact absurd hprefix.1 (by decide)
  have hline : Passes "<root".toList ['\n'] := by
    show Passes ('<' :: "root".toList) ['\n']
    exact Text.passes_of_not_mem (by decide)
  have hroot (rest : Text) : opening (rootTag code message) ++ rest =
      "<root".toList ++ (attributes code message ++ '>' :: rest) := by
    have hcons : "<root".toList = '<' :: "root".toList := rfl
    rw [hcons, opening_append, rootTag, List.append_assoc]
    rfl
  have hsplit (rest : Text) : Text.splitOnce '>' ("<root".toList ++ (attributes code message ++ '>' :: rest)) =
      some ("<root".toList ++ attributes code message, rest) := by
    have hnot : '>' ∉ "<root".toList := by decide
    refine Text.splitOnce_eq_some.mpr ⟨(List.append_assoc _ _ _).symm, fun h => ?_⟩
    exact (List.mem_append.mp h).elim hnot (not_mem_attributes (.inr rfl) code message)
  rw [rootAttribute, response_eq, Text.cut_append_of_passes hheader, ← List.singleton_append,
    Text.cut_append_of_passes hline, hroot, Text.cut_append]
  dsimp only [Option.map_some]
  rw [hsplit]
  dsimp only
  cases Text.cut (name ++ "=\"".toList) ("<root".toList ++ attributes code message) with
  | none => rfl
  | some p => rfl

theorem passes_root (pattern : Text) : Passes ('s' :: pattern) ("<root".toList ++ [' ']) :=
  Text.passes_of_not_mem (by decide)

theorem passes_digits (pattern : Text) (code : ℕ) : Passes ('s' :: pattern) (Nat.toDigits 10 code ++ ['"']) := by
  refine Text.passes_of_not_mem fun h => ?_
  rw [List.mem_append, List.mem_singleton] at h
  exact h.elim (not_mem_toDigits rfl code) (by decide)

/-- The message's name is not in that of the code. -/
theorem passes_status_code : Passes "status_message=\"".toList "status_code=\"".toList := by
  have hpattern : "status_message=\"".toList = 's' :: "tatus_message=\"".toList := rfl
  have htext : "status_code=\"".toList = 's' :: ("tatu".toList ++ 's' :: "_code=\"".toList) := rfl
  rw [hpattern, htext]
  refine Text.passes_cons (fun rest => ?_) ((Text.passes_of_not_mem (by decide)).append
    (Text.passes_cons_of_not_mem (fun rest => ?_) (by decide)))
  · simp [List.cons_prefix_cons]
  · simp [List.cons_prefix_cons]

theorem unescape_toDigits (code : ℕ) : unescape (Nat.toDigits 10 code) = Nat.toDigits 10 code := by
  have hescape : escape (Nat.toDigits 10 code) = Nat.toDigits 10 code := by
    conv_rhs => rw [← List.flatMap_singleton' (Nat.toDigits 10 code)]
    refine List.flatMap_congr fun c hc => ?_
    rcases entity_cases c with ⟨hplain, -⟩ | ⟨name, hname, -⟩
    · exact hplain
    · have hnone : ∀ e ∈ entities, e.1.isDigit = false := by decide
      exact absurd hc (not_mem_toDigits (hnone _ hname) code)
  conv_lhs => rw [← hescape]
  exact unescape_escape _

theorem signed_toDigits (code : ℕ) : signed (Nat.toDigits 10 code) = (false, Nat.toDigits 10 code) := by
  have hsign {d : Char} (hd : d.isDigit = false) (rest : Text) : Nat.toDigits 10 code ≠ d :: rest := fun h =>
    not_mem_toDigits hd code (h ▸ List.mem_cons_self)
  rw [signed]
  · exact fun digits => hsign rfl digits
  · exact fun digits => hsign rfl digits

theorem parseI64_toDigits {code : ℕ} (hlt : code < 2 ^ 63) : parseI64 (Nat.toDigits 10 code) = some (code : ℤ) := by
  have hdigits : Nat.toDigits 10 code ≠ [] ∧ (Nat.toDigits 10 code).all Char.isDigit :=
    ⟨Nat.toDigits_ne_nil, List.all_eq_true.mpr fun c hc => Nat.isDigit_of_mem_toDigits (by decide) (by decide) hc⟩
  have hrange : -2 ^ 63 ≤ (code : ℤ) ∧ (code : ℤ) < 2 ^ 63 := by omega
  rw [parseI64, signed_toDigits]
  dsimp only
  rw [if_pos hdigits, if_neg Bool.false_ne_true, Nat.ofDigitChars_ten_toDigits, if_pos hrange]

theorem root_attributes (code : ℕ) (message : Option Text) :
    "<root".toList ++ attributes code message = ("<root".toList ++ [' ']) ++
      ("status_code=\"".toList ++ (Nat.toDigits 10 code ++ '"' :: messageAttribute message)) :=
  (List.append_assoc _ [' '] _).symm

/-- The code is the first that is called so, and ends at the quote behind its digits. -/
theorem rootAttribute_code :
    rootAttribute (response code message elements) "status_code".toList = some (Nat.toDigits 10 code) := by
  have hname : "status_code".toList ++ "=\"".toList = "status_code=\"".toList := rfl
  have hpass : Passes "status_code=\"".toList ("<root".toList ++ [' ']) := passes_root "tatus_code=\"".toList
  have hsplit (behind : Text) : Text.splitOnce '"' (Nat.toDigits 10 code ++ '"' :: behind) =
      some (Nat.toDigits 10 code, behind) := Text.splitOnce_eq_some.mpr ⟨rfl, not_mem_toDigits rfl code⟩
  rw [rootAttribute_response, hname, root_attributes, Text.cut_eq_some hpass]
  dsimp only [Option.bind_some]
  rw [hsplit, Option.map_some, unescape_toDigits]

/-- The message is behind the code, or there is none. -/
theorem rootAttribute_message :
    rootAttribute (response code message elements) "status_message".toList = message := by
  have hname : "status_message".toList ++ "=\"".toList = "status_message=\"".toList := rfl
  have hpass : Passes "status_message=\"".toList
      ("<root".toList ++ [' '] ++ ("status_code=\"".toList ++ (Nat.toDigits 10 code ++ ['"']))) :=
    (passes_root "tatus_message=\"".toList).append
      (passes_status_code.append (passes_digits "tatus_message=\"".toList code))
  have hbehind : "<root".toList ++ attributes code message = "<root".toList ++ [' '] ++
      ("status_code=\"".toList ++ (Nat.toDigits 10 code ++ ['"'])) ++ messageAttribute message := by
    rw [root_attributes, ← List.singleton_append (l := messageAttribute message)]
    simp only [List.append_assoc]
  rw [rootAttribute_response, hname, hbehind]
  cases message with
  | none =>
    rw [messageAttribute, List.append_nil, Text.cut_eq_none (by decide) hpass]
    rfl
  | some message =>
    have hblank : Passes "status_message=\"".toList [' '] := by
      show Passes ('s' :: "tatus_message=\"".toList) [' ']
      exact Text.passes_of_not_mem (by decide)
    -- a quote in the message was escaped, so the first one ends it
    have hsplit : Text.splitOnce '"' (escape message ++ ['"']) = some (escape message, []) :=
      Text.splitOnce_eq_some.mpr ⟨rfl, not_mem_escape (.inr (.inr rfl)) message⟩
    have hcons : messageAttribute (some message) =
        [' '] ++ ("status_message=\"".toList ++ (escape message ++ ['"'])) := rfl
    rw [hcons, Text.cut_append_of_passes hpass, Text.cut_eq_some hblank]
    dsimp only [Option.map_some, Option.bind_some]
    rw [hsplit, Option.map_some, unescape_escape]

/-- The status is read of the root. -/
theorem status_response (hlt : code < 2 ^ 63) :
    status (response code message elements) = (some (code : ℤ), message) := by
  rw [status, rootAttribute_code, rootAttribute_message, Option.bind_some, parseI64_toDigits hlt]

end

/-- **What is written of elements, a code and a message is read of their document.** -/
theorem response_reads_back (code : UInt16) (message : Option Text) (elements : List (Text × Text))
    (hnames : ∀ e ∈ elements, IsName e.1) (hdistinct : (elements.map Prod.fst).Nodup) :
    (∀ e ∈ elements, text (response code.toNat message elements) e.1 = some e.2.trim) ∧
      status (response code.toNat message elements) = (some (code.toNat : ℤ), message) ∧
      ∀ s, unescape (escape s) = s := by
  have hlt : code.toNat < 2 ^ 63 := code.toNat_lt.trans (by decide)
  exact ⟨fun e he => text_response hnames hdistinct he, status_response hlt, unescape_escape⟩

theorem response_reads_back_refusal :
    (∀ e ∈ [("paired".toList, "0".toList)], text (response (400 : UInt16).toNat (some "Salt too short".toList)
        [("paired".toList, "0".toList)]) e.1 = some (Text.trim e.2)) ∧
      status (response (400 : UInt16).toNat (some "Salt too short".toList) [("paired".toList, "0".toList)]) =
        (some ((400 : UInt16).toNat : ℤ), some "Salt too short".toList) ∧
      ∀ s, unescape (escape s) = s :=
  response_reads_back 400 (some "Salt too short".toList) [("paired".toList, "0".toList)] (by decide) (by decide)

/-- An element whose name is that of an end is read from the end of another. -/
theorem end_read_as_element :
    (["a".toList, "/a".toList].Nodup) ∧
      text (response 200 none [("a".toList, "1".toList), ("/a".toList, "2".toList)]) "/a".toList ≠
        some (Text.trim "2".toList) := by
  decide +kernel

end Xml

end WindowCast.GameStream
