import Mathlib

/-!
# File trees

Directories, files and symbolic links, and where a path leads in them.  What a
directory has under a name is under a real name of its own, which may be spelled
otherwise (in another case, or in short); the real path of a file is made of
those.  The names are of any type.

## Main definitions

* `Component`, `RealPath` — the parts of a path, and the path of a directory or a
  file without links.
* `FileTree` — a tree.
* `FileTree.walk` — the way a path takes, following at most so many links.
* `FileTree.resolve`, `FileTree.create` — where a path leads, and where a file is
  opened that is made if need be.
* `FileTree.IsDir`, `FileTree.IsFile` — the real paths of directories and files.

## Main results

* `FileTree.resolve_real` — a path leads to a real one.
* `FileTree.resolve_path` — **a real path leads to itself.**
* `FileTree.lead_child` — a name that is no link leads no further than one step.
* `FileTree.create_child` — a file that is made in a directory, under a name that
  is no link, is in that directory.
-/

variable {N M : Type*}

/-- A part of a path. -/
inductive Component (N : Type*)
  /-- A root directory: `/`, or that of a drive. -/
  | root (name : N)
  | parent
  | normal (name : N)
  deriving DecidableEq, Repr

/-- Where a directory or a file really is: the names that lead there from a root
directory. -/
@[ext] structure RealPath (N : Type*) where
  root : N
  names : List N
  deriving DecidableEq, Repr

namespace RealPath

/-- What is in a directory under its real name. -/
def child (self : RealPath N) (name : N) : RealPath N := ⟨self.root, self.names ++ [name]⟩

/-- The directory it is in; a root directory is in itself. -/
def parent (self : RealPath N) : RealPath N := ⟨self.root, self.names.dropLast⟩

/-- The path that spells it. -/
def path (self : RealPath N) : List (Component N) := .root self.root :: self.names.map .normal

theorem path_child (self : RealPath N) (name : N) :
    (self.child name).path = self.path ++ [.normal name] := by
  unfold path child
  rw [List.map_append, List.cons_append]
  rfl

theorem prefix_child {root self : RealPath N} (h : root.path <+: self.path) (name : N) :
    root.path <+: (self.child name).path := by
  rw [path_child]
  exact h.trans (List.prefix_append _ _)

theorem parent_child (self : RealPath N) (name : N) : (self.child name).parent = self := by
  unfold parent child
  rw [List.dropLast_concat]

end RealPath

/-- What a directory has under a name. -/
inductive DirEntry (N : Type*)
  | file
  | dir
  | link (target : List (Component N))
  deriving DecidableEq, Repr

/-- What a path leads to. -/
inductive Kind
  | file
  | dir
  deriving DecidableEq, Repr

/-- A tree of directories, files and links. -/
structure FileTree (N M : Type*) where
  /-- Which root directories there are. -/
  hasRoot : N → Bool
  /-- What the directory has under a name, and its real name. -/
  find : RealPath N → N → Option (N × DirEntry N)
  /-- What a directory has. -/
  names : RealPath N → List N
  /-- What is known of a directory or a file. -/
  data : RealPath N → M
  /-- Where a path starts that does not start at a root directory. -/
  current : List (Component N)
  /-- How many links a path may lead through. -/
  maxLinks : ℕ
  /-- A real name is that of what it finds. -/
  find_real : ∀ {dir : RealPath N} {asked real : N} {there : DirEntry N},
    find dir asked = some (real, there) → find dir real = some (real, there)

namespace FileTree

/-! ### Where a path leads -/

/-- The way of a path from a directory; `follow` goes on behind a link.  With
`create`, a last name that is not there is that of a new file. -/
def walkWith (tree : FileTree N M) (create : Bool)
    (follow : RealPath N → List (Component N) → Option (RealPath N × Kind)) :
    RealPath N → List (Component N) → Option (RealPath N × Kind)
  | dir, [] => some (dir, .dir)
  | _, .root name :: rest =>
    if tree.hasRoot name then walkWith tree create follow ⟨name, []⟩ rest else none
  | dir, .parent :: rest => walkWith tree create follow dir.parent rest
  | dir, .normal name :: rest =>
    match tree.find dir name with
    | none => if create && rest.isEmpty then some (dir.child name, .file) else none
    | some (real, .dir) => walkWith tree create follow (dir.child real) rest
    | some (real, .file) => if rest.isEmpty then some (dir.child real, .file) else none
    | some (_, .link target) => follow dir (target ++ rest)

/-- The way of a path from a directory through at most `links` links. -/
def walk (tree : FileTree N M) (create : Bool) (links : ℕ) :
    RealPath N → List (Component N) → Option (RealPath N × Kind) :=
  match links with
  | 0 => tree.walkWith create fun _ _ => none
  | links + 1 => tree.walkWith create (tree.walk create links)

/-- The way of a path, from a root directory or from the current directory. -/
def lead (tree : FileTree N M) (create : Bool) (path : List (Component N)) :
    Option (RealPath N × Kind) :=
  let path := match path with
    | .root _ :: _ => path
    | _ => tree.current ++ path
  match path with
  | .root name :: rest =>
    if tree.hasRoot name then tree.walk create tree.maxLinks ⟨name, []⟩ rest else none
  | _ => none

/-- Where a path leads. -/
def resolve (tree : FileTree N M) (path : List (Component N)) : Option (RealPath N × Kind) :=
  tree.lead false path

/-- The file that is opened at a path, which is made if there is none. -/
def create (tree : FileTree N M) (path : List (Component N)) : Option (RealPath N) :=
  match tree.lead true path with
  | some (file, .file) => some file
  | _ => none

/-- Where the entry is that a path names: its last name in the directory before
it, no link followed there. -/
def entry (tree : FileTree N M) (path : List (Component N)) : Option (RealPath N × Option (DirEntry N)) :=
  match path.getLast? with
  | some (.normal name) =>
    match tree.resolve path.dropLast with
    | some (dir, .dir) =>
      match tree.find dir name with
      | some (real, there) => some (dir.child real, some there)
      | none => some (dir.child name, none)
    | _ => none
  | _ => none

/-- Whether a path names a link. -/
def isLink (tree : FileTree N M) (path : List (Component N)) : Bool :=
  match tree.entry path with
  | some (_, some (.link _)) => true
  | _ => false

/-! ### Real paths -/

/-- A real path of a directory. -/
inductive IsDir (tree : FileTree N M) : RealPath N → Prop
  | root {name : N} (h : tree.hasRoot name = true) : IsDir tree ⟨name, []⟩
  | child {dir : RealPath N} {name : N} (hdir : IsDir tree dir)
      (hfind : tree.find dir name = some (name, .dir)) : IsDir tree (dir.child name)

/-- A real path of a file. -/
inductive IsFile (tree : FileTree N M) : RealPath N → Prop
  | child {dir : RealPath N} {name : N} (hdir : IsDir tree dir)
      (hfind : tree.find dir name = some (name, .file)) : IsFile tree (dir.child name)

/-- A real path of what is there. -/
def IsReal (tree : FileTree N M) (p : RealPath N) : Kind → Prop
  | .dir => tree.IsDir p
  | .file => tree.IsFile p

variable {tree : FileTree N M}

theorem IsDir.parent {p : RealPath N} (h : tree.IsDir p) : tree.IsDir p.parent := by
  cases h with
  | root h => exact .root h
  | @child dir name hdir hfind =>
    rw [RealPath.parent_child]
    exact hdir

/-- What holds of the ways of a path behind links holds of the way itself, if it
leads to real paths only. -/
theorem walkWith_real
    {follow : RealPath N → List (Component N) → Option (RealPath N × Kind)}
    (hfollow : ∀ {dir : RealPath N} {path : List (Component N)} {p : RealPath N} {kind : Kind},
      tree.IsDir dir → follow dir path = some (p, kind) → tree.IsReal p kind)
    {path : List (Component N)} :
    ∀ {dir p : RealPath N} {kind : Kind}, tree.IsDir dir →
      tree.walkWith false follow dir path = some (p, kind) → tree.IsReal p kind := by
  induction path with
  | nil =>
    intro dir p kind hdir h
    cases h
    exact hdir
  | cons component rest ih =>
    intro dir p kind hdir h
    cases component with
    | root name =>
      unfold walkWith at h
      split at h
      · rename_i hroot
        exact ih (.root hroot) h
      · cases h
    | parent => exact ih hdir.parent h
    | normal name =>
      unfold walkWith at h
      split at h
      · cases h
      · rename_i real hfind
        exact ih (.child hdir (tree.find_real hfind)) h
      · rename_i real hfind
        split at h
        · cases h
          exact .child hdir (tree.find_real hfind)
        · cases h
      · exact hfollow hdir h

/-- However many links it may follow, a path leads to real paths only. -/
theorem walk_real {links : ℕ} :
    ∀ {dir p : RealPath N} {path : List (Component N)} {kind : Kind}, tree.IsDir dir →
      tree.walk false links dir path = some (p, kind) → tree.IsReal p kind := by
  induction links with
  | zero =>
    intro dir p path kind hdir h
    refine walkWith_real ?_ hdir h
    nofun
  | succ links ih =>
    intro dir p path kind hdir h
    exact walkWith_real ih hdir h

/-- A path leads to a real one. -/
theorem resolve_real {path : List (Component N)} {p : RealPath N} {kind : Kind}
    (h : tree.resolve path = some (p, kind)) : tree.IsReal p kind := by
  unfold resolve lead at h
  simp only at h
  split at h
  · split at h
    · rename_i hroot
      exact walk_real (.root hroot) h
    · cases h
  · cases h

/-- Through a directory's real path, no link is followed. -/
theorem walkWith_dir {create : Bool}
    {follow : RealPath N → List (Component N) → Option (RealPath N × Kind)} {p : RealPath N}
    (h : tree.IsDir p) : ∀ rest : List (Component N),
      tree.walkWith create follow ⟨p.root, []⟩ (p.names.map .normal ++ rest)
        = tree.walkWith create follow p rest := by
  induction h with
  | root h => exact fun rest => rfl
  | @child dir name hdir hfind ih =>
    intro rest
    have hnames : (dir.child name).names.map Component.normal ++ rest
        = dir.names.map .normal ++ .normal name :: rest := by
      unfold RealPath.child
      rw [List.map_append, List.append_assoc]
      rfl
    rw [hnames]
    refine (ih _).trans ?_
    rw [walkWith, hfind]

theorem walk_dir {create : Bool} {links : ℕ} {p : RealPath N} (h : tree.IsDir p)
    (rest : List (Component N)) :
    tree.walk create links ⟨p.root, []⟩ (p.names.map .normal ++ rest)
      = tree.walk create links p rest := by
  cases links with
  | zero => exact walkWith_dir h rest
  | succ links => exact walkWith_dir h rest

theorem IsDir.hasRoot {p : RealPath N} (h : tree.IsDir p) : tree.hasRoot p.root = true := by
  induction h with
  | root h => exact h
  | child _ _ ih => exact ih

/-- A path that goes on from a directory's real path goes on from that directory. -/
theorem lead_dir {create : Bool} {p : RealPath N} (h : tree.IsDir p) (rest : List (Component N)) :
    tree.lead create (p.path ++ rest) = tree.walk create tree.maxLinks p rest := by
  unfold lead RealPath.path
  simp only [List.cons_append, if_pos h.hasRoot]
  exact walk_dir h rest

/-- One name from a directory, as far as no link is followed. -/
theorem walk_name {create : Bool} {links : ℕ} {dir : RealPath N} {name : N}
    (h : ∀ real target, tree.find dir name ≠ some (real, .link target)) :
    tree.walk create links dir [.normal name] =
      match tree.find dir name with
      | none => if create then some (dir.child name, .file) else none
      | some (real, .dir) => some (dir.child real, .dir)
      | some (real, _) => some (dir.child real, .file) := by
  have hwith : ∀ follow, tree.walkWith create follow dir [.normal name] =
      match tree.find dir name with
      | none => if create then some (dir.child name, .file) else none
      | some (real, .dir) => some (dir.child real, .dir)
      | some (real, _) => some (dir.child real, .file) := by
    intro follow
    unfold walkWith
    cases hfind : tree.find dir name with
    | none => simp only [List.isEmpty_nil, Bool.and_true]
    | some found =>
      obtain ⟨real, there⟩ := found
      cases there with
      | file => rfl
      | dir => rfl
      | link target => exact absurd hfind (h real target)
  cases links with
  | zero => exact hwith _
  | succ links => exact hwith _

/-- **A real path leads to itself.** -/
theorem resolve_path {p : RealPath N} {kind : Kind} (h : tree.IsReal p kind) :
    tree.resolve p.path = some (p, kind) := by
  cases kind with
  | dir =>
    have hlead := @lead_dir N M tree false p h []
    rw [List.append_nil] at hlead
    refine hlead.trans ?_
    cases tree.maxLinks <;> rfl
  | file =>
    cases h with
    | @child dir name hdir hfind =>
      rw [RealPath.path_child]
      refine (lead_dir hdir _).trans ?_
      rw [walk_name (by rw [hfind]; nofun), hfind]

/-- The entry under a name in a directory. -/
theorem entry_child {dir : RealPath N} (hdir : tree.IsDir dir) (name : N) :
    tree.entry (dir.path ++ [.normal name]) =
      match tree.find dir name with
      | some (real, there) => some (dir.child real, some there)
      | none => some (dir.child name, none) := by
  unfold entry
  rw [List.getLast?_concat, List.dropLast_concat]
  have hdir' : tree.resolve dir.path = some (dir, .dir) := resolve_path hdir
  simp only [hdir']

/-- Which names in a directory are links. -/
theorem isLink_child {dir : RealPath N} (hdir : tree.IsDir dir) {name : N} :
    tree.isLink (dir.path ++ [.normal name]) = true ↔
      ∃ real target, tree.find dir name = some (real, .link target) := by
  unfold isLink
  rw [entry_child hdir]
  cases hfind : tree.find dir name with
  | none => exact ⟨nofun, nofun⟩
  | some found =>
    obtain ⟨real, there⟩ := found
    cases there with
    | file => exact ⟨nofun, nofun⟩
    | dir => exact ⟨nofun, nofun⟩
    | link target => exact ⟨fun _ => ⟨real, target, rfl⟩, fun _ => rfl⟩

theorem find_ne_link {dir : RealPath N} (hdir : tree.IsDir dir) {name : N}
    (hlink : tree.isLink (dir.path ++ [.normal name]) = false) (real : N) (target : List (Component N)) :
    tree.find dir name ≠ some (real, .link target) := by
  intro hfind
  rw [(isLink_child hdir).mpr ⟨real, target, hfind⟩] at hlink
  cases hlink

/-- Where a name leads that is no link. -/
theorem resolve_child {dir : RealPath N} (hdir : tree.IsDir dir) {name : N}
    (hlink : tree.isLink (dir.path ++ [.normal name]) = false) :
    tree.resolve (dir.path ++ [.normal name]) =
      match tree.find dir name with
      | none => none
      | some (real, .dir) => some (dir.child real, .dir)
      | some (real, _) => some (dir.child real, .file) :=
  (lead_dir hdir _).trans (walk_name (find_ne_link hdir hlink))

/-- An entry is in the directory that the path before its name leads to. -/
theorem entry_real {dir p : RealPath N} {kind : Kind} {name : N} {there : Option (DirEntry N)}
    (hreal : tree.IsReal dir kind) (h : tree.entry (dir.path ++ [.normal name]) = some (p, there)) :
    ∃ real, p = dir.child real := by
  cases kind with
  | dir =>
    rw [entry_child hreal] at h
    split at h
    · cases h
      exact ⟨_, rfl⟩
    · cases h
      exact ⟨name, rfl⟩
  | file =>
    unfold entry at h
    rw [List.getLast?_concat, List.dropLast_concat] at h
    simp only [resolve_path hreal] at h
    cases h

/-- Behind a file there is nothing. -/
theorem lead_file {create : Bool} {p : RealPath N} (h : tree.IsFile p) (name : N) :
    tree.lead create (p.path ++ [.normal name]) = none := by
  cases h with
  | @child dir real hdir hfind =>
    rw [RealPath.path_child, List.append_assoc]
    refine (lead_dir hdir _).trans ?_
    have hwith : ∀ follow, tree.walkWith create follow dir [.normal real, .normal name] = none := by
      intro follow
      rw [walkWith, hfind]
      rfl
    cases tree.maxLinks with
    | zero => exact hwith _
    | succ links => exact hwith _

/-- A name in a directory that is no link leads to what is in that directory. -/
theorem lead_child {create : Bool} {dir p : RealPath N} {kind kind' : Kind}
    (hreal : tree.IsReal dir kind) {name : N} (hlink : tree.isLink (dir.path ++ [.normal name]) = false)
    (h : tree.lead create (dir.path ++ [.normal name]) = some (p, kind')) :
    ∃ real, p = dir.child real := by
  cases kind with
  | file =>
    rw [lead_file hreal] at h
    cases h
  | dir =>
    rw [lead_dir hreal, walk_name (find_ne_link hreal hlink)] at h
    split at h
    · split at h
      · cases h
        exact ⟨name, rfl⟩
      · cases h
    · cases h
      exact ⟨_, rfl⟩
    · cases h
      exact ⟨_, rfl⟩

/-- A file that is made in a directory, under a name that is no link, is in that
directory. -/
theorem create_child {dir file : RealPath N} {kind : Kind} (hreal : tree.IsReal dir kind) {name : N}
    (hlink : tree.isLink (dir.path ++ [.normal name]) = false)
    (h : tree.create (dir.path ++ [.normal name]) = some file) : ∃ real, file = dir.child real := by
  unfold create at h
  split at h
  · rename_i hlead
    cases h
    exact lead_child hreal hlink hlead
  · cases h

end FileTree
