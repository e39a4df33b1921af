import WindowCast.Files.Service
import WindowCast.Lib.Lines

/-!
# Watched folders

A host looks at a folder of a share from time to time, and announces the files in it that
have changed and then stopped changing, each by its path in the folder.  Names that are
no text are not modelled: no look takes them into account.

## Main definitions

* `Watcher.scan` — the files there are now.
* `Watcher.new`, `Watcher.poll` — the start of a watch, and what is announced at a look.
* `Portable` — a name that any system takes for what it is.

## Main results

* `Watcher.scan_spelled` — a path that is announced is made of names in the tree.
* `clean_spelled` — which such paths are accepted, with the same parts.
* `announced_iff` — **a path that is announced, or that a listing leads to, is accepted
  just if its names are portable and it is not too long**.
-/

namespace WindowCast.Files

/-! ### Patterns -/

/-- Whether a name matches a pattern: `*` stands for any run of characters, and `?` for one. -/
def globGo : List Char → List Char → Bool
  | [], name => name.isEmpty
  | '*' :: rest, name => name.tails.any fun name => globGo rest name
  | '?' :: rest, name => !name.isEmpty && globGo rest name.tail
  | c :: rest, name => name.head? = some c && globGo rest name.tail

def globMatches [Casing] (pattern name : Text) : Bool :=
  globGo (Casing.toLowercase pattern) (Casing.toLowercase name)

/-! ### The watcher -/

/-- The most files one watch follows. -/
def MAX_FILES : ℕ := 5000

/-- How deep into the folder it looks. -/
def MAX_DEPTH : ℕ := 4

/-- How long a file must be unchanged before it is sent, in milliseconds. -/
def DEBOUNCE : ℕ := 2000

/-- The size of a file, and when it was modified. -/
abbrev Stamp := ℕ × Option ℕ

structure Seen where
  stamp : Stamp
  /-- When the stamp was first seen. -/
  since : ℕ
  /-- The stamp last sent, if any. -/
  sent : Option Stamp
  deriving DecidableEq

/-- A file ready to send. -/
structure Ready where
  /-- In the watched folder, written with `/`. -/
  path : Text
  file : RealPath Text
  size : ℕ
  deriving DecidableEq

/-- The files of a folder: where each is, and its stamp. -/
abbrev Found := List (Text × RealPath Text × Stamp)

def Found.insert (self : Found) (path : Text) (value : RealPath Text × Stamp) : Found :=
  self.filter (fun entry => entry.1 ≠ path) ++ [(path, value)]

/-- What changed in a folder, from one look to the next. -/
structure Watcher where
  root : RealPath Text
  folder : RealPath Text
  pattern : Option Text
  debounce : ℕ
  seen : Text → Option Seen

inductive WatchError
  | file (error : FileError)
  /-- a pattern matches file names: * and ?, no folders -/
  | pattern
  deriving DecidableEq

namespace Watcher

section

variable [Casing] (platform : Platform) (tree : Tree)

/-- One item of a folder: a file that is found, or a folder that is looked at later, of
those that are on the stack.  Nothing is found any more once there are enough. -/
def scanItem (self : Watcher) (dir : RealPath Text) (before : Text) (deeper : Bool)
    (acc : Found × List (RealPath Text × Text)) (name : Text) : Found × List (RealPath Text × Text) :=
  let (found, folders) := acc
  if found.length ≥ MAX_FILES then (found, folders)
  else if isPart name then (found, folders)
  else
    match tree.resolve (dir.path ++ [.normal name]) with
    | none => (found, folders)
    | some (real, _) =>
      if self.root.path <+: real.path then
        match tree.resolve real.path with
        | none => (found, folders)
        | some (_, .dir) => if deeper then (found, (real, before ++ name ++ ['/']) :: folders) else (found, folders)
        | some (place, .file) =>
          if self.pattern.all fun pattern => globMatches pattern name then
            (found.insert (before ++ name) (real, (tree.data place).bytes.length, (tree.data place).modified), folders)
          else (found, folders)
      else (found, folders)

/-- The files of a folder, and then those of the folders in it, the last one first, `left`
folders deep. -/
def scanFolder (self : Watcher) : ℕ → Found → RealPath Text × Text → Found
  | left, found, (dir, before) =>
    match tree.resolve dir.path with
    | some (place, .dir) =>
      let (found, folders) := (tree.names place).foldl (self.scanItem tree dir before (left ≠ 0)) (found, [])
      match left with
      | 0 => found
      | left + 1 => folders.foldl (scanFolder self left) found
    | _ => found

/-- Every watched file now. -/
def scan (self : Watcher) : Found := self.scanFolder tree MAX_DEPTH [] (self.folder, [])

end

/-- What a look makes of a file that it finds, and whether it is to be sent. -/
def visit (self : Watcher) (opens : RealPath Text → Bool) (now : ℕ) (path : Text) (file : RealPath Text)
    (stamp : Stamp) : Seen × Option Ready :=
  let seen := (self.seen path).getD ⟨stamp, now, none⟩
  let seen := if seen.stamp ≠ stamp then { seen with stamp := stamp, since := now } else seen
  if self.debounce ≤ now - seen.since ∧ seen.sent ≠ some stamp ∧ opens file = true then
    ({ seen with sent := some stamp }, some ⟨path, file, stamp.1⟩)
  else (seen, none)

/-- Looks at the files that are found, and returns those to send, marking them sent. -/
def pollFound (self : Watcher) (found : Found) (opens : RealPath Text → Bool) (now : ℕ) : Watcher × List Ready :=
  ({ self with
      seen := fun path => (found.lookup path).map fun (file, stamp) => (self.visit opens now path file stamp).1 },
    (found.filterMap fun (path, file, stamp) => (self.visit opens now path file stamp).2).insertionSort
      fun a b => a.path ≤ b.path)

section

variable {self : Watcher} {opens : RealPath Text → Bool} {now : ℕ} {path : Text} {file : RealPath Text} {stamp : Stamp}

/-- A file is taken for sent when it is to be sent, or was before. -/
theorem sent_visit {sent : Stamp} (h : (self.visit opens now path file stamp).1.sent = some sent) :
    (∃ ready, (self.visit opens now path file stamp).2 = some ready) ∨ (self.seen path).bind Seen.sent = some sent := by
  unfold visit at h ⊢
  dsimp only at h ⊢
  cases hseen : self.seen path with
  | none =>
    rw [hseen] at h
    split_ifs at h ⊢ <;> first | exact Or.inl ⟨_, rfl⟩ | cases h
  | some seen =>
    rw [hseen] at h
    split_ifs at h ⊢ <;> first | exact Or.inl ⟨_, rfl⟩ | exact Or.inr h

/-- What is sent is the file that was found. -/
theorem ready_visit {ready : Ready} (h : (self.visit opens now path file stamp).2 = some ready) :
    ready = ⟨path, file, stamp.1⟩ := by
  unfold visit at h
  dsimp only at h
  split_ifs at h <;> cases h <;> rfl

theorem mem_pollFound {found : Found} {ready : Ready} (hlookup : found.lookup path = some (file, stamp))
    (h : (self.visit opens now path file stamp).2 = some ready) :
    ready ∈ (self.pollFound found opens now).2 ∧ ready.path = path ∧ ready.size = stamp.1 := by
  refine ⟨(List.mem_insertionSort _).mpr (List.mem_filterMap.mpr ⟨(path, file, stamp), ?_, h⟩), ?_⟩
  · obtain ⟨before, after, rfl, -⟩ := List.lookup_eq_some_iff.mp hlookup
    exact List.mem_append_right _ List.mem_cons_self
  · rw [ready_visit h]
    exact ⟨rfl, rfl⟩

/-- A file that has not changed for the debounce is sent, unless it was as it is. -/
theorem visit_settled {seen : Seen} (hseen : self.seen path = some seen) (hstamp : seen.stamp = stamp)
    (hsettled : self.debounce ≤ now - seen.since) (hopens : opens file = true) :
    (∃ ready, (self.visit opens now path file stamp).2 = some ready) ∨ seen.sent = some stamp := by
  by_cases hsent : seen.sent = some stamp
  · exact Or.inr hsent
  · left
    unfold visit
    dsimp only
    rw [hseen, Option.getD_some, if_neg (not_not_intro hstamp), if_pos ⟨hsettled, hsent, hopens⟩]
    exact ⟨_, rfl⟩

end

variable [Casing] (platform : Platform) (tree : Tree)

def poll (self : Watcher) (opens : RealPath Text → Bool) (now : ℕ) : Watcher × List Ready :=
  self.pollFound (self.scan tree) opens now

/-- Starts watching a folder of a share; the files that are there count as sent, unless
they are asked for. -/
def new (shares : Shares) (share path : Text) (pattern : Option Text) (existing : Bool) (debounce now : ℕ) :
    Except WatchError (Watcher × ℕ) := do
  let (folder, root) ← (shares.resolveExisting platform tree share path).mapError .file
  if isDir tree folder.path = false then .error (.file .notFolder)
  else if pattern.any fun pattern => pattern.utf8Size > 128 || pattern.contains '/' || pattern.contains '\\' then
    .error .pattern
  else
    let watcher : Watcher := ⟨root, folder, pattern, debounce, fun _ => none⟩
    let found := watcher.scan tree
    .ok ({ watcher with
        seen := fun path => (found.lookup path).map fun (_, stamp) =>
          ⟨stamp, now, if existing then none else some stamp⟩ }, found.length)

end Watcher

/-! ### Paths that are announced -/

/-- The path of names, written with `/`. -/
def spelled (names : List Text) : Text := List.intercalate ['/'] names

/-- A name that any system takes for what it is. -/
structure Portable [Casing] (name : Text) : Prop where
  dots : name ≠ ".".toList ∧ name ≠ "..".toList
  characters : ∀ c ∈ name, Text.isControl c = false ∧ isReserved c = false
  ending : name.getLast? ≠ some '.' ∧ name.getLast? ≠ some ' '
  device : isDevice name = false

/-- The names of a directory are not empty, and have no slash in them. -/
def Named (tree : Tree) : Prop := ∀ dir, ∀ name ∈ tree.names dir, name ≠ [] ∧ '/' ∉ name

theorem spelled_concat (names : List Text) (name : Text) :
    (names.flatMap fun name => name ++ ['/']) ++ name = spelled (names ++ [name]) := by
  induction names with
  | nil => exact (List.intercalate_singleton).symm
  | cons first names ih =>
    have hne : names ++ [name] ≠ [] := List.append_ne_nil_of_right_ne_nil _ (List.cons_ne_nil _ _)
    rw [List.flatMap_cons, List.append_assoc, ih, spelled, spelled, List.cons_append,
      List.intercalate_cons_of_ne_nil hne]

theorem split_spelled {names : List Text} (hne : names ≠ []) (h : ∀ name ∈ names, '/' ∉ name) :
    Text.split '/' (spelled names) = names := by
  induction names with
  | nil => exact absurd rfl hne
  | cons first names ih =>
    have hfirst : '/' ∉ first := h first List.mem_cons_self
    by_cases hnil : names = []
    · subst hnil
      rw [spelled, List.intercalate_singleton, Text.split_of_not_mem hfirst]
    · rw [spelled, List.intercalate_cons_of_ne_nil hnil, List.append_assoc, List.singleton_append,
        Text.split_append, Text.split_of_not_mem hfirst, ← spelled,
        ih hnil fun name hname => h name (List.mem_cons_of_mem _ hname)]
      rfl

section

variable [Casing] {tree : Tree}

/-- What is checked of a part. -/
theorem cleanPart_iff {name : Text} : cleanPart name = .ok () ↔ Portable name ∧ isPart name = false := by
  unfold cleanPart
  constructor
  · intro h
    split_ifs at h with hdots hchars hending hdevice hpart
    rw [not_or] at hdots hending
    have hchar : ∀ c ∈ name, Text.isControl c = false ∧ isReserved c = false := by
      simpa only [List.any_eq_true, not_exists, not_and, Bool.or_eq_true, not_or, Bool.not_eq_true] using hchars
    exact ⟨⟨hdots, hchar, hending, Bool.not_eq_true _ ▸ hdevice⟩, Bool.not_eq_true _ ▸ hpart⟩
  · rintro ⟨⟨hdots, hchar, hending, hdevice⟩, hpart⟩
    have hchars : ¬ (name.any fun c => Text.isControl c || isReserved c) = true := by
      simpa only [List.any_eq_true, not_exists, not_and, Bool.or_eq_true, not_or, Bool.not_eq_true] using hchar
    rw [if_neg (not_or.mpr hdots), if_neg hchars, if_neg (not_or.mpr hending), hdevice, hpart]
    rfl

theorem cleanParts_iff {parts : List Text} : cleanParts parts = .ok parts ↔ ∀ part ∈ parts, cleanPart part = .ok () := by
  refine ⟨fun h => (cleanParts_ok h).2, fun h => ?_⟩
  induction parts with
  | nil => rfl
  | cons part parts ih =>
    rw [cleanParts, h part List.mem_cons_self, ih fun other hother => h other (List.mem_cons_of_mem _ hother)]
    rfl

/-- Which paths are accepted. -/
theorem clean_iff {path : Text} {parts : List Text} (hparts : (Text.split '/' path).filter (fun part => part ≠ []) = parts) :
    clean path = .ok parts ↔
      path.utf8Size ≤ MAX_PATH ∧ path.head? ≠ some '/' ∧ ∀ part ∈ parts, cleanPart part = .ok () := by
  rw [clean, hparts, ← cleanParts_iff]
  constructor
  · intro h
    split_ifs at h with hlong hslash
    exact ⟨Nat.not_lt.mp hlong, hslash, h⟩
  · rintro ⟨hlong, hslash, h⟩
    rw [if_neg (Nat.not_lt.mpr hlong), if_neg hslash, h]

theorem clean_spelled {names : List Text} (hne : names ≠ []) (hnamed : ∀ name ∈ names, name ≠ [] ∧ '/' ∉ name) :
    clean (spelled names) = .ok names ↔
      (spelled names).utf8Size ≤ MAX_PATH ∧ ∀ name ∈ names, cleanPart name = .ok () := by
  have hsplit := split_spelled hne fun name hname => (hnamed name hname).2
  have hparts : (Text.split '/' (spelled names)).filter (fun part => part ≠ []) = names := by
    rw [hsplit, List.filter_eq_self]
    intro name hname
    rw [decide_eq_true_eq]
    exact (hnamed name hname).1
  have hhead : (spelled names).head? ≠ some '/' := by
    obtain ⟨first, names, rfl⟩ := List.exists_cons_of_ne_nil hne
    obtain ⟨hfirst, hslash⟩ := hnamed first List.mem_cons_self
    obtain ⟨c, first, rfl⟩ := List.exists_cons_of_ne_nil hfirst
    have hc : c ≠ '/' := fun heq => hslash (heq ▸ List.mem_cons_self)
    cases names with
    | nil =>
      rw [spelled, List.intercalate_singleton]
      exact fun h => hc (Option.some.inj h)
    | cons second names =>
      rw [spelled, List.intercalate_cons_cons]
      exact fun h => hc (Option.some.inj h)
  rw [clean_iff hparts, and_iff_right hhead]

/-- What the client asks for, behind a listing of a folder. -/
def under (path name : Text) : Text := if path = [] then name else path ++ '/' :: name

theorem clean_under {path name : Text} {parts : List Text} (h : clean path = .ok parts) (hne : name ≠ [])
    (hslash : '/' ∉ name) :
    clean (under path name) = .ok (parts ++ [name]) ↔
      (under path name).utf8Size ≤ MAX_PATH ∧ cleanPart name = .ok () := by
  have hparts : (Text.split '/' path).filter (fun part => part ≠ []) = parts := by
    unfold clean at h
    split_ifs at h
    exact (cleanParts_ok h).1.symm
  obtain ⟨-, hhead, hall⟩ := (clean_iff hparts).mp h
  have hname : [name].filter (fun part => part ≠ []) = [name] := by
    rw [List.filter_cons_of_pos (by rw [decide_eq_true_eq]; exact hne), List.filter_nil]
  have hunder : (Text.split '/' (under path name)).filter (fun part => part ≠ []) = parts ++ [name] := by
    rw [under]
    split
    · rename_i hnil
      subst hnil
      rw [Text.split_of_not_mem hslash, hname, ← hparts]
      rfl
    · rw [Text.split_append, List.filter_append, hparts, Text.split_of_not_mem hslash, hname]
  have hhead' : (under path name).head? ≠ some '/' := by
    rw [under]
    split
    · exact fun h => hslash (List.mem_of_head? h)
    · rename_i hpath
      obtain ⟨c, path, rfl⟩ := List.exists_cons_of_ne_nil hpath
      exact hhead
  rw [clean_iff hunder, and_iff_right hhead']
  refine and_congr_right fun _ => ⟨fun h => h name (by simp), fun hok part hpart => ?_⟩
  rcases List.mem_append.mp hpart with hpart | hpart
  · exact hall part hpart
  · rw [List.mem_singleton.mp hpart]
    exact hok

/-! ### What a look finds -/

/-- Names that a look goes along. -/
def Along (tree : Tree) (names : List Text) : Prop :=
  ∀ name ∈ names, (∃ dir, name ∈ tree.names dir) ∧ isPart name = false

theorem Along.concat {names : List Text} (h : Along tree names) {dir : RealPath Text} {name : Text}
    (hname : name ∈ tree.names dir) (hpart : isPart name = false) : Along tree (names ++ [name]) := by
  intro other hother
  rcases List.mem_append.mp hother with hother | hother
  · exact h other hother
  · rw [List.mem_singleton.mp hother]
    exact ⟨⟨dir, hname⟩, hpart⟩

/-- A path that is found is that of such names. -/
def Spelled (tree : Tree) (path : Text) : Prop := ∃ names, names ≠ [] ∧ path = spelled names ∧ Along tree names

/-- What is before the names of a folder's items. -/
def SpelledFolder (tree : Tree) (before : Text) : Prop :=
  ∃ names, before = names.flatMap (fun name => name ++ ['/']) ∧ Along tree names

namespace Watcher

variable {self : Watcher}

theorem scanItem_spelled {dir place : RealPath Text} {before name : Text} {deeper : Bool}
    {acc : Found × List (RealPath Text × Text)} (hbefore : SpelledFolder tree before) (hname : name ∈ tree.names place)
    (h : (∀ entry ∈ acc.1, Spelled tree entry.1) ∧ ∀ folder ∈ acc.2, SpelledFolder tree folder.2) :
    (∀ entry ∈ (self.scanItem tree dir before deeper acc name).1, Spelled tree entry.1) ∧
      ∀ folder ∈ (self.scanItem tree dir before deeper acc name).2, SpelledFolder tree folder.2 := by
  obtain ⟨names, rfl, hnames⟩ := hbefore
  obtain ⟨found, folders⟩ := acc
  unfold scanItem
  dsimp only
  split
  · exact h
  split
  · exact h
  rename_i hpart
  have halong := hnames.concat hname (Bool.not_eq_true _ ▸ hpart)
  split
  · exact h
  split
  · split
    · exact h
    · split
      · refine ⟨h.1, List.forall_mem_cons.mpr ⟨⟨names ++ [name], ?_, halong⟩, h.2⟩⟩
        rw [List.flatMap_append, List.flatMap_singleton, List.append_assoc]
      · exact h
    · split
      · refine ⟨fun entry hentry => ?_, h.2⟩
        rcases List.mem_append.mp hentry with hentry | hentry
        · exact h.1 entry (List.mem_filter.mp hentry).1
        · rw [List.mem_singleton.mp hentry]
          exact ⟨names ++ [name], by simp, spelled_concat names name, halong⟩
      · exact h
  · exact h

/-- The items of a folder, one after the other. -/
theorem scanItems_spelled {dir place : RealPath Text} {before : Text} {deeper : Bool} {found : Found}
    (hbefore : SpelledFolder tree before) (hfound : ∀ entry ∈ found, Spelled tree entry.1) :
    (∀ entry ∈ ((tree.names place).foldl (self.scanItem tree dir before deeper) (found, [])).1,
        Spelled tree entry.1) ∧
      ∀ folder ∈ ((tree.names place).foldl (self.scanItem tree dir before deeper) (found, [])).2,
        SpelledFolder tree folder.2 := by
  refine List.foldlRecOn (motive := fun acc : Found × List (RealPath Text × Text) => (∀ entry ∈ acc.1, Spelled tree entry.1) ∧
    ∀ folder ∈ acc.2, SpelledFolder tree folder.2) _ _ ⟨hfound, fun _ h => absurd h List.not_mem_nil⟩ ?_
  intro acc hacc name hname
  exact scanItem_spelled hbefore hname hacc

theorem scanFolder_spelled {left : ℕ} {found : Found} {folder : RealPath Text × Text}
    (hfound : ∀ entry ∈ found, Spelled tree entry.1) (hfolder : SpelledFolder tree folder.2) :
    ∀ entry ∈ self.scanFolder tree left found folder, Spelled tree entry.1 := by
  induction left generalizing found folder with
  | zero =>
    rw [scanFolder]
    split
    · exact (scanItems_spelled hfolder hfound).1
    · exact hfound
  | succ left ih =>
    rw [scanFolder]
    split
    · obtain ⟨hfound, hfolders⟩ := scanItems_spelled hfolder hfound
      refine List.foldlRecOn (motive := fun found : Found => ∀ entry ∈ found, Spelled tree entry.1) _ _ hfound ?_
      intro found hfound folder hmem
      exact ih hfound (hfolders folder hmem)
    · exact hfound

theorem scan_spelled : ∀ entry ∈ self.scan tree, Spelled tree entry.1 :=
  scanFolder_spelled (fun _ h => absurd h List.not_mem_nil) ⟨[], rfl, fun _ h => absurd h List.not_mem_nil⟩

/-- What is announced was found. -/
theorem mem_poll {opens : RealPath Text → Bool} {now : ℕ} {ready : Ready}
    (h : ready ∈ (self.poll tree opens now).2) : ∃ entry ∈ self.scan tree, entry.1 = ready.path := by
  obtain ⟨⟨path, file, stamp⟩, hentry, hvisit⟩ := List.mem_filterMap.mp ((List.mem_insertionSort _).mp h)
  refine ⟨_, hentry, ?_⟩
  rw [ready_visit hvisit]

end Watcher

/-- What is listed is a name in the folder, whose path was accepted. -/
theorem list_named {platform : Platform} {service : FileService} {share path : Text} {entries : List Entry}
    {places : List (RealPath Text)} (h : service.list platform tree share path = .ok (entries, places)) :
    (∃ parts, clean path = .ok parts) ∧
      ∀ entry ∈ entries, (∃ dir, entry.name ∈ tree.names dir) ∧ isPart entry.name = false := by
  unfold FileService.list at h
  obtain ⟨⟨dir, root⟩, hresolve, h⟩ := bind_ok.mp h
  unfold Shares.resolveExisting at hresolve
  obtain ⟨share, -, hresolve⟩ := bind_ok.mp hresolve
  obtain ⟨parts, hparts, -⟩ := bind_ok.mp hresolve
  refine ⟨⟨parts, mapError_ok.mp hparts⟩, ?_⟩
  dsimp only at h
  split at h
  · rename_i place hplace
    cases h
    intro entry hentry
    obtain ⟨⟨entry', place'⟩, hitem, rfl⟩ := List.mem_map.mp (List.mem_mergeSort.mp hentry)
    obtain ⟨name, hname, hlist⟩ := List.mem_filterMap.mp (List.mem_of_mem_take hitem)
    unfold FileService.listItem at hlist
    split_ifs at hlist with hpart
    split at hlist
    · cases hlist
    split_ifs at hlist
    split at hlist
    · cases hlist
    · cases hlist
      exact ⟨⟨place, hname⟩, Bool.not_eq_true _ ▸ hpart⟩
  · cases h

end

/-- A path that is announced, or that a listing leads to, is made of names in the tree, and
is accepted with these as its parts just if they are portable and it is not too long. -/
theorem announced_iff [Casing] (platform : Platform) {tree : Tree} (hnamed : Named tree) :
    (∀ (watcher : Watcher) (opens : RealPath Text → Bool) (now : ℕ), ∀ ready ∈ (watcher.poll tree opens now).2,
      ∃ names, ready.path = spelled names ∧ (∀ name ∈ names, ∃ dir, name ∈ tree.names dir) ∧
        (clean ready.path = .ok names ↔ ready.path.utf8Size ≤ MAX_PATH ∧ ∀ name ∈ names, Portable name)) ∧
    ∀ (service : FileService) (share path : Text) (entries : List Entry) (places : List (RealPath Text)),
      service.list platform tree share path = .ok (entries, places) → ∀ entry ∈ entries,
        ∃ parts, clean path = .ok parts ∧ (∃ dir, entry.name ∈ tree.names dir) ∧
          (clean (under path entry.name) = .ok (parts ++ [entry.name]) ↔
            (under path entry.name).utf8Size ≤ MAX_PATH ∧ Portable entry.name) := by
  constructor
  · intro watcher opens now ready hready
    obtain ⟨entry, hentry, hpath⟩ := Watcher.mem_poll hready
    obtain ⟨names, hne, hspelled, halong⟩ := Watcher.scan_spelled entry hentry
    have hnames : ∀ name ∈ names, name ≠ [] ∧ '/' ∉ name := by
      intro name hname
      obtain ⟨⟨dir, hdir⟩, -⟩ := halong name hname
      exact hnamed dir name hdir
    refine ⟨names, hpath ▸ hspelled, fun name hname => (halong name hname).1, ?_⟩
    rw [← hpath, hspelled, clean_spelled hne hnames]
    refine and_congr_right fun _ => forall₂_congr fun name hname => ?_
    rw [cleanPart_iff, and_iff_left (halong name hname).2]
  · intro service share path entries places hlist entry hentry
    obtain ⟨⟨parts, hparts⟩, hentries⟩ := list_named hlist
    obtain ⟨⟨dir, hdir⟩, hpart⟩ := hentries entry hentry
    obtain ⟨hne, hslash⟩ := hnamed dir entry.name hdir
    refine ⟨parts, hparts, ⟨dir, hdir⟩, ?_⟩
    rw [clean_under hparts hne hslash, cleanPart_iff, and_iff_left hpart]

/-! ### One file -/

/-- A tree with one folder, and one file in it. -/
def oneFile (file : Text) : Tree where
  hasRoot name := name = []
  find dir name :=
    if dir.names = [] ∧ name = "saves".toList then some (name, .dir)
    else if dir.names = ["saves".toList] ∧ name = file then some (name, .file)
    else none
  names dir := if dir.names = [] then ["saves".toList] else if dir.names = ["saves".toList] then [file] else []
  data _ := ⟨[], none⟩
  current := []
  maxLinks := 40
  find_real := by
    intro dir asked real there h
    split_ifs at h with hfolder hfile <;> cases h
    · exact if_pos hfolder
    · rw [if_neg hfolder, if_pos hfile]

theorem mem_names_oneFile {file name : Text} {dir : RealPath Text} (h : name ∈ (oneFile file).names dir) :
    name = "saves".toList ∨ name = file := by
  change name ∈ (if _ then _ else _) at h
  split_ifs at h
  · exact Or.inl (List.mem_singleton.mp h)
  · exact Or.inr (List.mem_singleton.mp h)
  · cases h

/-- The folder is watched from when there was nothing in it. -/
def emptyWatcher : Watcher := ⟨⟨[], ["saves".toList]⟩, ⟨[], ["saves".toList]⟩, none, DEBOUNCE, fun _ => none⟩

/-- The watcher when it has looked once. -/
def seenOnce (file : Text) : Watcher :=
  (@Watcher.poll Text.asciiCasing (oneFile file) emptyWatcher (fun _ => true) 0).1

/-- What is announced when the file has been there for the debounce. -/
def announced (file : Text) : List Ready :=
  (@Watcher.poll Text.asciiCasing (oneFile file) (seenOnce file) (fun _ => true) DEBOUNCE).2

theorem named_oneFile {file : Text} (hne : file ≠ []) (hslash : '/' ∉ file) : Named (oneFile file) := by
  intro dir name hname
  rcases mem_names_oneFile hname with rfl | rfl
  · exact ⟨by decide, by decide⟩
  · exact ⟨hne, hslash⟩

theorem announced_iff_plain : ∃ ready ∈ announced "slot1.sav".toList, ∃ names,
    ready.path = spelled names ∧ @clean Text.asciiCasing ready.path = .ok names := by
  have hready : ⟨"slot1.sav".toList, ⟨[], ["saves".toList, "slot1.sav".toList]⟩, 0⟩ ∈
      announced "slot1.sav".toList := by decide
  refine ⟨_, hready, ?_⟩
  obtain ⟨names, hspelled, hnames, hclean⟩ := (@announced_iff Text.asciiCasing .unix _
    (named_oneFile (by decide) (by decide))).1 (seenOnce "slot1.sav".toList) (fun _ => true) DEBOUNCE _ hready
  refine ⟨names, hspelled, hclean.mpr ⟨by decide, fun name hname => ?_⟩⟩
  obtain ⟨dir, hdir⟩ := hnames name hname
  rcases mem_names_oneFile hdir with rfl | rfl
  · exact ((@cleanPart_iff Text.asciiCasing _).mp (by rfl)).1
  · exact ((@cleanPart_iff Text.asciiCasing _).mp (by rfl)).1

/-- A file whose name has a colon is announced, and its path is not accepted. -/
theorem colon_announced : ¬ ∀ (_ : Casing) (tree : Tree), Named tree → ∀ (watcher : Watcher)
    (opens : RealPath Text → Bool) (now : ℕ), ∀ ready ∈ (watcher.poll tree opens now).2,
      ∃ names, ready.path = spelled names ∧ clean ready.path = .ok names := by
  intro h
  have hready : ⟨"slot:1".toList, ⟨[], ["saves".toList, "slot:1".toList]⟩, 0⟩ ∈ announced "slot:1".toList := by decide
  obtain ⟨names, -, hclean⟩ := h Text.asciiCasing _ (named_oneFile (by decide) (by decide))
    (seenOnce "slot:1".toList) (fun _ => true) DEBOUNCE _ hready
  have hrefused : @clean Text.asciiCasing "slot:1".toList = .error (.character "slot:1".toList) := by rfl
  cases hrefused.symm.trans hclean

end WindowCast.Files
