import WindowCast.Files.Clean
import WindowCast.Lib.FileTree

/-!
# Shared folders

The folders a host application shares, and where a client's path in one of them
is.  A path is checked twice: its spelling, and where it really lands.

## Main definitions

* `Platform.join` — a path with another one put behind it, as Unix and Windows
  take them apart.
* `Shares` — the folders a host shares.
* `Shares.resolveExisting`, `Shares.resolveNew` — where a path is, or would be.

## Main results

* `Platform.join_clean` — a clean part goes one step down, on either platform.
* `Shares.resolveExisting_ok`, `Shares.resolveNew_ok` — **what is resolved is in
  the share's folder.**
-/

namespace WindowCast.Files

/-! ### Joining paths -/

/-- A path as its components. -/
abbrev PathBuf := List (Component Text)

/-- How a host takes paths apart. -/
inductive Platform
  | unix
  | windows
  deriving DecidableEq, Repr

namespace Platform

def isSeparator : Platform → Char → Bool
  | .unix, c => c = '/'
  | .windows, c => c = '/' || c = '\\'

/-- The components of a path behind its root. -/
def names (self : Platform) (text : Text) : PathBuf :=
  (text.splitOnP self.isSeparator).filterMap fun piece =>
    if piece = [] ∨ piece = ".".toList then none
    else if piece = "..".toList then some .parent
    else some (.normal piece)

/-- The components of a path; a root without a drive is on the drive `drive`. -/
def components (self : Platform) (drive text : Text) : PathBuf :=
  match self, text with
  | .unix, c :: rest => if c = '/' then .root [] :: self.names rest else self.names text
  | .windows, a :: b :: rest =>
    if a.isAlpha && b = ':' then .root [a, b] :: self.names rest
    else if self.isSeparator a && self.isSeparator b then
      -- two separators start a name of the network: a server and its share
      let server := rest.takeWhile fun c => !self.isSeparator c
      let rest := (rest.dropWhile fun c => !self.isSeparator c).tail
      let share := rest.takeWhile fun c => !self.isSeparator c
      .root (['\\', '\\'] ++ server ++ ['\\'] ++ share)
        :: self.names (rest.dropWhile fun c => !self.isSeparator c)
    else if self.isSeparator a then .root drive :: self.names (b :: rest)
    else self.names text
  | .windows, [a] => if self.isSeparator a then [.root drive] else self.names text
  | _, [] => []

/-- The root directory a path is from. -/
def drive : PathBuf → Text
  | .root name :: _ => name
  | _ => []

/-- `path` with `part` put behind it; one with a root of its own takes its place. -/
def join (self : Platform) (path : PathBuf) (part : Text) : PathBuf :=
  match self.components (drive path) part with
  | .root name :: rest => .root name :: rest
  | parts => path ++ parts

variable [Casing]

/-- A clean part is no separator, on either platform. -/
theorem isSeparator_clean (self : Platform) {part : Text} (h : CleanPart part) {c : Char} (hc : c ∈ part) :
    self.isSeparator c = false := by
  obtain ⟨hslash, hbackslash⟩ := h.no_separator c hc
  cases self with
  | unix => exact decide_eq_false hslash
  | windows => exact Bool.or_eq_false_iff.mpr ⟨decide_eq_false hslash, decide_eq_false hbackslash⟩

theorem names_clean (self : Platform) {part : Text} (h : CleanPart part) :
    self.names part = [.normal part] := by
  unfold names
  have hsplit : part.splitOnP self.isSeparator = [part] := by
    apply List.splitOnP_eq_singleton
    intro c hc
    rw [self.isSeparator_clean h hc]
  rw [hsplit, List.filterMap_cons, if_neg, if_neg h.ne_dotdot, List.filterMap_nil]
  rw [not_or]
  exact ⟨h.ne_nil, h.ne_dot⟩

theorem components_clean (self : Platform) (drive : Text) {part : Text} (h : CleanPart part) :
    self.components drive part = [.normal part] := by
  rw [← self.names_clean h]
  unfold components
  split
  · rename_i c rest
    rw [if_neg (h.no_separator c List.mem_cons_self).1]
  · rename_i a b rest
    have hcolon : ¬ (a.isAlpha && b = ':') = true := by
      intro hcolon
      rw [Bool.and_eq_true, decide_eq_true_eq] at hcolon
      have hreserved := h.no_reserved b (List.mem_cons_of_mem _ List.mem_cons_self)
      rw [hcolon.2] at hreserved
      cases hreserved
    have ha := Platform.windows.isSeparator_clean h List.mem_cons_self
    rw [if_neg hcolon, ha, Bool.false_and, if_neg Bool.false_ne_true, if_neg Bool.false_ne_true]
  · rename_i a
    rw [Platform.windows.isSeparator_clean h List.mem_cons_self, if_neg Bool.false_ne_true]
  · exact absurd rfl h.ne_nil

/-- A clean part goes one step down, on either platform. -/
theorem join_clean (self : Platform) (path : PathBuf) {part : Text} (h : CleanPart part) :
    self.join path part = path ++ [.normal part] := by
  unfold join
  rw [self.components_clean _ h]

/-- Clean parts go one step down each. -/
theorem foldl_join_clean (self : Platform) {parts : List Text} :
    ∀ {path : PathBuf}, (∀ part ∈ parts, CleanPart part) →
      parts.foldl self.join path = path ++ parts.map .normal := by
  induction parts with
  | nil =>
    intro path _
    rw [List.map_nil, List.append_nil]
    rfl
  | cons part parts ih =>
    intro path h
    obtain ⟨hpart, hparts⟩ := List.forall_mem_cons.mp h
    rw [List.foldl_cons, self.join_clean path hpart, ih hparts, List.append_assoc]
    rfl

end Platform

/-! ### Shares -/

/-- What a file or a folder holds and says of itself. -/
structure FileData where
  bytes : List UInt8
  /-- Seconds since the Unix epoch, when the system gives it. -/
  modified : Option ℕ
  deriving DecidableEq, Repr

/-- The files of a host. -/
abbrev Tree := FileTree Text FileData

/-- A folder shared under a name. -/
structure Share where
  name : Text
  root : PathBuf
  writable : Bool
  deriving DecidableEq, Repr

/-- The folders a host shares. -/
structure Shares where
  shares : List Share
  /-- The largest file an upload may be, in bytes. -/
  maxFileSize : ℕ
  deriving DecidableEq, Repr

/-- Why a request is not carried out. -/
inductive FileError
  /-- there is no share named … -/
  | noShare (name : Text)
  | path (error : PathError)
  /-- the folder of share … is not available -/
  | unavailable (name : Text)
  /-- there is no such file or folder -/
  | missing
  /-- that path is outside the share -/
  | outside
  /-- name the file to write -/
  | unnamed
  /-- the folder does not exist -/
  | noFolder
  /-- that name is a link -/
  | link
  /-- that is not a folder -/
  | notFolder
  /-- that is not a file -/
  | notFile
  /-- the offset is past the end of the file -/
  | pastEnd
  /-- that share is read-only -/
  | readOnly
  /-- the file is larger than the … bytes this host accepts -/
  | tooLarge (max : ℕ)
  /-- that name is a folder -/
  | folder
  /-- no upload is open -/
  | noUpload
  /-- more bytes arrived than the file was announced to have -/
  | tooMany
  /-- the file is incomplete: … of … bytes arrived -/
  | incomplete (written size : ℕ)
  /-- What the system says. -/
  | system
  deriving DecidableEq, Repr

/-- What goes through two steps that may fail goes through both. -/
theorem bind_ok {ε α β : Type} {x : Except ε α} {f : α → Except ε β} {b : β} :
    x >>= f = .ok b ↔ ∃ a, x = .ok a ∧ f a = .ok b := by
  cases x with
  | error e => exact ⟨nofun, nofun⟩
  | ok a => exact ⟨fun h => ⟨a, rfl, h⟩, fun ⟨_, ha, h⟩ => by cases ha; exact h⟩

theorem mapError_ok {ε ε' α : Type} {x : Except ε α} {f : ε → ε'} {a : α} :
    x.mapError f = .ok a ↔ x = .ok a := by
  cases x <;> simp only [Except.mapError, reduceCtorEq, Except.ok.injEq]

variable [Casing] (platform : Platform) (tree : Tree)

def canonicalRoot (share : Share) : Except FileError (RealPath Text) :=
  match tree.resolve share.root with
  | some (root, _) => .ok root
  | none => .error (.unavailable share.name)

namespace Shares

def share (self : Shares) (name : Text) : Except FileError Share :=
  match self.shares.find? fun s => s.name = name with
  | some share => .ok share
  | none => .error (.noShare name)

def writable (self : Shares) (name : Text) : Except FileError Bool := do
  let share ← self.share name
  return share.writable

/-- Where `path` of share `name` is, which must exist and be inside the share; and
the share's canonical root. -/
def resolveExisting (self : Shares) (name path : Text) :
    Except FileError (RealPath Text × RealPath Text) := do
  let share ← self.share name
  let parts ← (clean path).mapError .path
  let root ← canonicalRoot tree share
  match tree.resolve (parts.foldl platform.join root.path) with
  | none => .error .missing
  | some (found, _) =>
    if root.path <+: found.path then .ok (found, root) else .error .outside

/-- Where a file that may not exist yet would go: its folder must exist inside the
share, and the name must not be a symbolic link. -/
def resolveNew (self : Shares) (name path : Text) : Except FileError PathBuf := do
  let share ← self.share name
  let parts ← (clean path).mapError .path
  match parts.getLast? with
  | none => .error .unnamed
  | some last =>
    let root ← canonicalRoot tree share
    match tree.resolve (parts.dropLast.foldl platform.join root.path) with
    | none => .error .noFolder
    | some (folder, _) =>
      if root.path <+: folder.path then
        let target := platform.join folder.path last
        if tree.isLink target then .error .link else .ok target
      else .error .outside

/-- The root directory of the share under a name. -/
def HasRoot (self : Shares) (name : Text) (root : RealPath Text) : Prop :=
  ∃ share, self.share name = .ok share ∧ canonicalRoot tree share = .ok root

/-- A path is inside a share: its spelling is, and what it leads to. -/
def Inside (self : Shares) (name : Text) (path : PathBuf) : Prop :=
  ∃ root, self.HasRoot tree name root ∧ root.path <+: path ∧
    ∀ found kind, tree.resolve path = some (found, kind) → root.path <+: found.path

variable {platform tree}

omit [Casing] in
/-- A share has one root. -/
theorem HasRoot.unique {self : Shares} {name : Text} {root root' : RealPath Text}
    (h : self.HasRoot tree name root) (h' : self.HasRoot tree name root') : root = root' := by
  obtain ⟨share, hshare, hroot⟩ := h
  obtain ⟨share', hshare', hroot'⟩ := h'
  cases hshare.symm.trans hshare'
  cases hroot.symm.trans hroot'
  rfl

/-- **What is resolved is real, and in the share's folder.** -/
theorem resolveExisting_ok {self : Shares} {name path : Text} {found root : RealPath Text}
    (h : self.resolveExisting platform tree name path = .ok (found, root)) :
    self.HasRoot tree name root ∧ root.path <+: found.path ∧ ∃ kind, tree.IsReal found kind := by
  unfold resolveExisting at h
  obtain ⟨share, hshare, h⟩ := bind_ok.mp h
  obtain ⟨parts, hparts, h⟩ := bind_ok.mp h
  obtain ⟨root', hroot, h⟩ := bind_ok.mp h
  split at h
  · cases h
  · rename_i found' kind hfound
    split at h
    · rename_i hinside
      cases h
      exact ⟨⟨share, hshare, hroot⟩, hinside, kind, FileTree.resolve_real hfound⟩
    · cases h

/-- **What may be written is a name, and no link, in a folder in the share's:** the
folder that the parts of the path before the name lead to. -/
theorem resolveNew_ok {self : Shares} {name path : Text} {target : PathBuf} :
    self.resolveNew platform tree name path = .ok target ↔
      ∃ parts last root folder kind, clean path = .ok (parts ++ [last]) ∧
        self.HasRoot tree name root ∧
        tree.resolve (root.path ++ parts.map .normal) = some (folder, kind) ∧
        root.path <+: folder.path ∧ target = folder.path ++ [.normal last] ∧
        tree.isLink target = false := by
  unfold resolveNew
  constructor
  · intro h
    obtain ⟨share, hshare, h⟩ := bind_ok.mp h
    obtain ⟨parts, hparts, h⟩ := bind_ok.mp h
    have hclean := clean_parts (mapError_ok.mp hparts)
    split at h
    · cases h
    rename_i last hlast
    obtain ⟨parts, rfl⟩ := List.getLast?_eq_some_iff.mp hlast
    obtain ⟨root, hroot, h⟩ := bind_ok.mp h
    obtain ⟨hbefore, hname⟩ := List.forall_mem_append.mp hclean
    simp only [List.dropLast_concat, platform.foldl_join_clean hbefore] at h
    split at h
    · cases h
    rename_i folder kind hfolder
    split at h
    · rename_i hinside
      simp only [platform.join_clean _ (hname last (List.mem_singleton_self _))] at h
      split at h
      · cases h
      · rename_i hlink
        cases h
        exact ⟨parts, last, root, folder, kind, mapError_ok.mp hparts, ⟨share, hshare, hroot⟩,
          hfolder, hinside, rfl, Bool.not_eq_true _ ▸ hlink⟩
    · cases h
  · rintro ⟨parts, last, root, folder, kind, hparts, ⟨share, hshare, hroot⟩, hfolder, hinside, rfl, hlink⟩
    obtain ⟨hbefore, hname⟩ := List.forall_mem_append.mp (clean_parts hparts)
    refine bind_ok.mpr ⟨share, hshare, bind_ok.mpr ⟨_, mapError_ok.mpr hparts, ?_⟩⟩
    simp only [List.getLast?_concat, List.dropLast_concat, platform.foldl_join_clean hbefore]
    refine bind_ok.mpr ⟨root, hroot, ?_⟩
    simp only [hfolder, if_pos hinside,
      platform.join_clean _ (hname last (List.mem_singleton_self _)), hlink, Bool.false_eq_true, if_false]

/-- What is resolved is inside the share. -/
theorem inside_resolveExisting {self : Shares} {name path : Text} {found root : RealPath Text}
    (h : self.resolveExisting platform tree name path = .ok (found, root)) :
    self.HasRoot tree name root ∧ self.Inside tree name found.path := by
  obtain ⟨hroot, hinside, kind, hreal⟩ := resolveExisting_ok h
  refine ⟨hroot, root, hroot, hinside, ?_⟩
  intro found' kind' hfound
  rw [FileTree.resolve_path hreal] at hfound
  cases hfound
  exact hinside

/-- So is a name that may be written. -/
theorem inside_resolveNew {self : Shares} {name path : Text} {target : PathBuf}
    (h : self.resolveNew platform tree name path = .ok target) : self.Inside tree name target := by
  obtain ⟨parts, last, root, folder, kind, -, hroot, hfolder, hinside, rfl, hlink⟩ :=
    resolveNew_ok.mp h
  refine ⟨root, hroot, hinside.trans (List.prefix_append _ _), ?_⟩
  intro found kind' hfound
  obtain ⟨real, rfl⟩ := FileTree.lead_child (FileTree.resolve_real hfolder) hlink hfound
  exact RealPath.prefix_child hinside real

end Shares

end WindowCast.Files
