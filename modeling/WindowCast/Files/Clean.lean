import WindowCast.Lib.Text

/-!
# The spelling of a path

A client names a file by a path inside a share, written with `/`.  Its parts are
checked before anything is done with them, and so are those of the paths that a
host announces.

## Main definitions

* `clean` — the parts of a path, or why it is refused.
* `CleanPart` — a part that can be joined to a folder's path on any system.

## Main results

* `cleanPart_ok` — what a part has to be to pass.
* `clean_parts` — **the parts of a path that passes are clean.**
-/

namespace WindowCast.Files

/-- The longest path a request may name, in bytes. -/
def MAX_PATH : ℕ := 1024

/-- The ending of a file being uploaded; a file with this ending is never listed,
read or written by name. -/
def PART_SUFFIX : Text := ".wcpart".toList

/-- Names Windows treats as devices, with or without an extension. -/
def RESERVED : List Text :=
  ["CON", "PRN", "AUX", "NUL", "COM1", "COM2", "COM3", "COM4", "COM5", "COM6", "COM7", "COM8",
    "COM9", "LPT1", "LPT2", "LPT3", "LPT4", "LPT5", "LPT6", "LPT7", "LPT8", "LPT9"].map String.toList

/-- Why a path is refused; the part a message quotes is with it. -/
inductive PathError
  /-- that path is too long -/
  | tooLong
  /-- give a path inside the share, not an absolute one -/
  | absolute
  /-- a path may not contain . or .. -/
  | dots
  /-- … has a character a path may not have -/
  | character (part : Text)
  /-- … ends with a dot or a space -/
  | ending (part : Text)
  /-- … is a reserved name -/
  | reserved (part : Text)
  /-- a name may not end with .wcpart -/
  | partSuffix
  deriving DecidableEq, Repr

/-- The characters of names that Windows or a shell gives a meaning. -/
def isReserved (c : Char) : Bool := c ∈ ['\\', ':', '*', '?', '"', '<', '>', '|']

variable [Casing]

/-- Whether a name is that of a file being uploaded. -/
def isPart (name : Text) : Bool := PART_SUFFIX.isSuffixOf (Casing.toLowercase name)

/-- Whether a name is a device's on Windows, whatever its extension. -/
def isDevice (name : Text) : Bool :=
  RESERVED.contains (Casing.toUppercase ((Text.split '.' name).headD name))

/-- One part of a path, in the loop of `clean`. -/
def cleanPart (part : Text) : Except PathError Unit :=
  if part = ".".toList ∨ part = "..".toList then .error .dots
  else if part.any fun c => Text.isControl c || isReserved c then .error (.character part)
  else if part.getLast? = some '.' ∨ part.getLast? = some ' ' then .error (.ending part)
  else if isDevice part then .error (.reserved part)
  else if isPart part then .error .partSuffix
  else .ok ()

/-- The loop of `clean`. -/
def cleanParts : List Text → Except PathError (List Text)
  | [] => .ok []
  | part :: rest =>
    match cleanPart part with
    | .error e => .error e
    | .ok () => (cleanParts rest).map fun parts => part :: parts

/-- The parts of a path a client named, or why it is refused.  The path is written
with `/` and is relative to the share's folder; the empty path is the folder
itself. -/
def clean (path : Text) : Except PathError (List Text) :=
  if Text.utf8Size path > MAX_PATH then .error .tooLong
  else if path.head? = some '/' then .error .absolute
  else cleanParts ((Text.split '/' path).filter fun part => part ≠ [])

/-- A part that can be joined to a folder's path on any system: it names something
in that folder, and no device and no file being uploaded. -/
structure CleanPart (part : Text) : Prop where
  ne_nil : part ≠ []
  ne_dot : part ≠ ".".toList
  ne_dotdot : part ≠ "..".toList
  no_separator : ∀ c ∈ part, c ≠ '/' ∧ c ≠ '\\'
  no_control : ∀ c ∈ part, Text.isControl c = false
  no_reserved : ∀ c ∈ part, isReserved c = false
  no_device : isDevice part = false
  no_part : isPart part = false

/-- What a part has to be to pass. -/
theorem cleanPart_ok {part : Text} (h : cleanPart part = .ok ()) (hne : part ≠ [])
    (hslash : ∀ c ∈ part, c ≠ '/') : CleanPart part := by
  unfold cleanPart at h
  split at h
  · cases h
  rename_i hdots
  split at h
  · cases h
  rename_i hchars
  split at h
  · cases h
  split at h
  · cases h
  rename_i hdevice
  split at h
  · cases h
  rename_i hpart
  rw [not_or] at hdots
  have hchar : ∀ c ∈ part, Text.isControl c = false ∧ isReserved c = false := by
    simpa only [List.any_eq_true, not_exists, not_and, Bool.or_eq_true, not_or,
      Bool.not_eq_true] using hchars
  exact
    { ne_nil := hne
      ne_dot := hdots.1
      ne_dotdot := hdots.2
      no_separator := by
        intro c hc
        refine ⟨hslash c hc, ?_⟩
        rintro rfl
        have := (hchar _ hc).2
        revert this
        decide
      no_control := fun c hc => (hchar c hc).1
      no_reserved := fun c hc => (hchar c hc).2
      no_device := Bool.not_eq_true _ ▸ hdevice
      no_part := Bool.not_eq_true _ ▸ hpart }

theorem cleanParts_ok {pieces parts : List Text} (h : cleanParts pieces = .ok parts) :
    parts = pieces ∧ ∀ part ∈ parts, cleanPart part = .ok () := by
  induction pieces generalizing parts with
  | nil =>
    cases h
    exact ⟨rfl, fun part hpart => absurd hpart List.not_mem_nil⟩
  | cons piece pieces ih =>
    unfold cleanParts at h
    split at h
    · cases h
    rename_i hpiece
    cases hrest : cleanParts pieces with
    | error e =>
      rw [hrest] at h
      cases h
    | ok rest =>
      rw [hrest] at h
      cases h
      obtain ⟨rfl, hall⟩ := ih hrest
      refine ⟨rfl, ?_⟩
      intro part hpart
      rcases List.mem_cons.mp hpart with rfl | hpart
      · exact hpiece
      · exact hall part hpart

/-- **The parts of a path that passes are clean.** -/
theorem clean_parts {path : Text} {parts : List Text} (h : clean path = .ok parts) :
    ∀ part ∈ parts, CleanPart part := by
  unfold clean at h
  split at h
  · cases h
  split at h
  · cases h
  obtain ⟨rfl, hall⟩ := cleanParts_ok h
  intro part hpart
  obtain ⟨hsplit, hne⟩ := List.mem_filter.mp hpart
  apply cleanPart_ok (hall part hpart) (of_decide_eq_true hne)
  intro c hc
  exact (Text.mem_split part hsplit c hc).1

end WindowCast.Files
