import WindowCast.Files.Watch

/-!
# What a watch makes of what happens in its folder

The looks of a watch, one after the other, at a folder in which anything may have happened
in between.  A look takes into account no more than so many files, in the order in which
the file system has them, so that a file can be there and not be found.

## Main definitions

* `Watcher.There` — a file is in the folder, as far as the watch goes, found or not.
* `Watcher.Keeps` — of the files that did not change, a look finds those the last one found.

## Main results

* `Watcher.there_of_found` — what is found is there.
* `Watcher.found_of_few` — where there are not too many files, what is there is found.
* `Watcher.settled_once` — **what is sent has settled, and is not sent twice**.
* `Watcher.unsent_since_start` — **what has not changed since the start is not sent**.
-/

namespace WindowCast.Files

/-- A look at the folder: what there is, which files can be opened, and the time. -/
structure Look where
  tree : Tree
  opens : RealPath Text → Bool
  now : ℕ

/-- The look with which a watch starts, which opens nothing. -/
def Look.start (tree : Tree) (now : ℕ) : Look := ⟨tree, fun _ => false, now⟩

namespace Found

/-- Nothing is found twice where nothing was, and what was found is found still. -/
structure Grows (found found' : Found) : Prop where
  nodup : (found.map Prod.fst).Nodup → (found'.map Prod.fst).Nodup
  paths : found.map Prod.fst ⊆ found'.map Prod.fst

namespace Grows

variable {found found' found'' : Found}

theorem refl (found : Found) : Grows found found := ⟨id, List.Subset.refl _⟩

theorem trans (h : Grows found found') (h' : Grows found' found'') : Grows found found'' :=
  ⟨h'.nodup ∘ h.nodup, List.Subset.trans h.paths h'.paths⟩

theorem insert (found : Found) (path : Text) (value : RealPath Text × Stamp) :
    Grows found (found.insert path value) := by
  constructor
  · intro h
    rw [Found.insert, List.map_append, List.map_singleton]
    refine List.Nodup.append (h.sublist (List.filter_sublist.map _)) (List.nodup_singleton path) ?_
    intro path' hmem heq
    obtain ⟨entry, hentry, rfl⟩ := List.mem_map.mp hmem
    exact of_decide_eq_true (List.mem_filter.mp hentry).2 (List.mem_singleton.mp heq)
  · intro path' hmem
    obtain ⟨entry, hentry, rfl⟩ := List.mem_map.mp hmem
    rw [Found.insert, List.map_append, List.map_singleton]
    by_cases heq : entry.1 = path
    · rw [heq]
      exact List.mem_append_right _ (List.mem_singleton_self path)
    · exact List.mem_append_left _ (List.mem_map_of_mem (List.mem_filter.mpr ⟨hentry, decide_eq_true heq⟩))

theorem length_le (h : Grows found found') (hnodup : (found.map Prod.fst).Nodup) : found.length ≤ found'.length := by
  have hle := (List.subperm_of_subset hnodup h.paths).length_le
  rwa [List.length_map, List.length_map] at hle

theorem foldl {α : Type} {f : Found → α → Found} (h : ∀ found a, Grows found (f found a)) (as : List α) (found : Found) :
    Grows found (as.foldl f found) := by
  induction as generalizing found with
  | nil => exact refl found
  | cons a as ih => exact (h found a).trans (ih (f found a))

end Grows

/-- Where nothing is found twice, a file is looked up as it was found. -/
theorem lookup_of_mem {found : Found} {path : Text} {value : RealPath Text × Stamp}
    (hnodup : (found.map Prod.fst).Nodup) (h : (path, value) ∈ found) : found.lookup path = some value := by
  obtain ⟨before, behind, rfl⟩ := List.append_of_mem h
  refine List.lookup_eq_some_iff.mpr ⟨before, behind, rfl, fun entry hentry => ?_⟩
  rw [List.map_append, List.map_cons, List.nodup_middle, List.nodup_cons] at hnodup
  rw [bne_iff_ne]
  rintro rfl
  exact hnodup.1 (List.mem_append_left _ (List.mem_map.mpr ⟨entry, hentry, rfl⟩))

end Found

namespace Watcher

section

variable {self : Watcher} {path : Text} {stamp : Stamp}

/-- Since when a file has been as it is, as far as the watch has seen. -/
def since (self : Watcher) (now : ℕ) (path : Text) (stamp : Stamp) : ℕ :=
  match self.seen path with
  | some seen => if seen.stamp = stamp then seen.since else now
  | none => now

theorem since_cases (now : ℕ) (path : Text) (stamp : Stamp) :
    self.since now path stamp = now ∨
      ∃ seen, self.seen path = some seen ∧ seen.stamp = stamp ∧ seen.since = self.since now path stamp := by
  unfold since
  cases hseen : self.seen path with
  | none => exact .inl rfl
  | some seen =>
    by_cases hstamp : seen.stamp = stamp
    · exact .inr ⟨seen, rfl, hstamp, (if_pos hstamp).symm⟩
    · exact .inl (if_neg hstamp)

/-- What a look makes of a file, and whether it is sent. -/
theorem visit_spec (opens : RealPath Text → Bool) (now : ℕ) (file : RealPath Text) :
    self.visit opens now path file stamp =
      if self.debounce ≤ now - self.since now path stamp ∧ (self.seen path).bind Seen.sent ≠ some stamp ∧
          opens file = true then
        (⟨stamp, self.since now path stamp, some stamp⟩, some ⟨path, file, stamp.1⟩)
      else (⟨stamp, self.since now path stamp, (self.seen path).bind Seen.sent⟩, none) := by
  unfold visit
  cases hseen : self.seen path with
  | none =>
    have hsince : self.since now path stamp = now := by rw [since, hseen]
    rw [hsince, Option.getD_none]
    dsimp only
    rw [if_neg (not_not_intro rfl)]
    rfl
  | some seen =>
    rw [Option.getD_some]
    dsimp only
    by_cases hstamp : seen.stamp = stamp
    · have hsince : self.since now path stamp = seen.since := by
        rw [since, hseen]
        exact if_pos hstamp
      rw [hsince, if_neg (not_not_intro hstamp), ← hstamp]
      rfl
    · have hsince : self.since now path stamp = now := by
        rw [since, hseen]
        exact if_neg hstamp
      rw [hsince, if_pos hstamp]
      rfl

end

variable [Casing]

/-- The watcher, when it has looked. -/
def after (self : Watcher) (looks : List Look) : Watcher :=
  looks.foldl (fun self look => (self.poll look.tree look.opens look.now).1) self

/-- The stamp with which a look finds a file. -/
def found (self : Watcher) (look : Look) (path : Text) : Option Stamp :=
  ((self.scan look.tree).lookup path).map Prod.snd

/-- A look sends a file with a stamp. -/
def Sends (self : Watcher) (look : Look) (path : Text) (stamp : Stamp) : Prop :=
  (∃ ready ∈ (self.poll look.tree look.opens look.now).2, ready.path = path) ∧ self.found look path = some stamp

/-! ### What is there -/

/-- A name in a folder leads to something that is watched. -/
structure Leads (w : Watcher) (tree : Tree) (dir : RealPath Text) (name : Text) (real place : RealPath Text)
    (kind : Kind) : Prop where
  listed : ∃ there, tree.resolve dir.path = some (there, .dir) ∧ name ∈ tree.names there
  whole : isPart name = false
  resolves : ∃ kind, tree.resolve (dir.path ++ [.normal name]) = some (real, kind)
  inside : w.root.path <+: real.path
  leads : tree.resolve real.path = some (place, kind)

/-- The folders that are watched: how much deeper the watch goes, and what is before the
names of what is in them. -/
inductive Folder (self : Watcher) (tree : Tree) : ℕ → RealPath Text → Text → Prop
  | top : Folder self tree MAX_DEPTH self.folder []
  | sub {left : ℕ} {dir real place : RealPath Text} {before name : Text} (hdir : Folder self tree (left + 1) dir before)
      (hname : self.Leads tree dir name real place .dir) : Folder self tree left real (before ++ name ++ ['/'])

/-- A file is there, whether it is found or not. -/
inductive There (self : Watcher) (tree : Tree) : Text → Stamp → Prop
  | mk {left : ℕ} {dir real place : RealPath Text} {before name : Text} (hdir : self.Folder tree left dir before)
      (hname : self.Leads tree dir name real place .file)
      (hpattern : (self.pattern.all fun pattern => globMatches pattern name) = true) :
      There self tree (before ++ name) ((tree.data place).bytes.length, (tree.data place).modified)

/-- Of the files that did not change from one look to the next, the next finds those that
the one before it found. -/
def Keeps (self : Watcher) (look next : Look) : Prop :=
  ∀ path stamp, self.There look.tree path stamp → self.There next.tree path stamp →
    (self.found look path = some stamp ↔ self.found next path = some stamp)

section

variable {self : Watcher} {tree : Tree} {dir real place : RealPath Text} {before name : Text}
  {acc : Found × List (RealPath Text × Text)} {left : ℕ}

/-- What an item of a folder is taken for. -/
theorem scanItem_cases {deeper : Bool} (hname : ∃ there, tree.resolve dir.path = some (there, .dir) ∧ name ∈ tree.names there) :
    self.scanItem tree dir before deeper acc name = acc ∨
    (∃ real place, self.Leads tree dir name real place .dir ∧ deeper = true ∧
      self.scanItem tree dir before deeper acc name = (acc.1, (real, before ++ name ++ ['/']) :: acc.2)) ∨
    ∃ real place, self.Leads tree dir name real place .file ∧
      (self.pattern.all fun pattern => globMatches pattern name) = true ∧
      self.scanItem tree dir before deeper acc name =
        (acc.1.insert (before ++ name) (real, (tree.data place).bytes.length, (tree.data place).modified), acc.2) := by
  obtain ⟨found, folders⟩ := acc
  unfold scanItem
  dsimp only
  split
  · exact .inl rfl
  split
  · exact .inl rfl
  rename_i hpart
  split
  · exact .inl rfl
  rename_i real kind hreal
  split
  · rename_i hinside
    split
    · exact .inl rfl
    · rename_i place hplace
      split
      · rename_i hdeeper
        exact .inr (.inl ⟨real, place, ⟨hname, Bool.not_eq_true _ ▸ hpart, ⟨kind, hreal⟩, hinside, hplace⟩, hdeeper, rfl⟩)
      · exact .inl rfl
    · rename_i place hplace
      split
      · rename_i hpattern
        exact .inr (.inr ⟨real, place, ⟨hname, Bool.not_eq_true _ ▸ hpart, ⟨kind, hreal⟩, hinside, hplace⟩, hpattern, rfl⟩)
      · exact .inl rfl
  · exact .inl rfl

/-- What is found so far is there, and so are the folders that are still to be looked at. -/
structure Sound (w : Watcher) (tree : Tree) (left : ℕ) (acc : Found × List (RealPath Text × Text)) : Prop where
  files : ∀ entry ∈ acc.1, w.There tree entry.1 entry.2.2
  folders : ∀ folder ∈ acc.2, w.Folder tree left folder.1 folder.2

theorem Sound.scanItem (h : self.Sound tree left acc) {deeper : Bool}
    (hdir : if deeper then self.Folder tree (left + 1) dir before else self.Folder tree left dir before)
    (hname : ∃ there, tree.resolve dir.path = some (there, .dir) ∧ name ∈ tree.names there) :
    self.Sound tree left (self.scanItem tree dir before deeper acc name) := by
  rcases @scanItem_cases _ self tree dir before name acc deeper hname with
    heq | ⟨real, place, hleads, rfl, heq⟩ | ⟨real, place, hleads, hpattern, heq⟩
  · rw [heq]
    exact h
  · rw [heq]
    exact ⟨h.files, List.forall_mem_cons.mpr ⟨.sub hdir hleads, h.folders⟩⟩
  · rw [heq]
    refine ⟨fun entry hentry => ?_, h.folders⟩
    rcases List.mem_append.mp hentry with hentry | hentry
    · exact h.files entry (List.mem_filter.mp hentry).1
    · rw [List.mem_singleton.mp hentry]
      cases deeper <;> exact .mk hdir hleads hpattern

theorem Sound.foldl (h : self.Sound tree left acc) {deeper : Bool}
    (hdir : if deeper then self.Folder tree (left + 1) dir before else self.Folder tree left dir before)
    {there : RealPath Text} (hthere : tree.resolve dir.path = some (there, .dir)) :
    self.Sound tree left ((tree.names there).foldl (self.scanItem tree dir before deeper) acc) := by
  refine List.foldlRecOn (motive := self.Sound tree left) _ _ h ?_
  intro acc hacc name hname
  exact hacc.scanItem hdir ⟨there, hthere, hname⟩

theorem scanFolder_sound {found : Found} {folder : RealPath Text × Text}
    (hfound : ∀ entry ∈ found, self.There tree entry.1 entry.2.2) (hfolder : self.Folder tree left folder.1 folder.2) :
    ∀ entry ∈ self.scanFolder tree left found folder, self.There tree entry.1 entry.2.2 := by
  have hstart : ∀ left, self.Sound tree left (found, []) := fun _ => ⟨hfound, fun _ h => absurd h List.not_mem_nil⟩
  induction left generalizing found folder with
  | zero =>
    rw [scanFolder]
    split
    · rename_i there hthere
      exact (@Sound.foldl _ self tree _ _ _ 0 (hstart 0) false hfolder _ hthere).files
    · exact hfound
  | succ left ih =>
    rw [scanFolder]
    split
    · rename_i there hthere
      have hsound := @Sound.foldl _ self tree _ _ _ left (hstart left) true hfolder _ hthere
      refine List.foldlRecOn (motive := fun found : Found => ∀ entry ∈ found, self.There tree entry.1 entry.2.2) _ _
        hsound.files ?_
      intro found hfound folder hmem
      exact ih hfound (hsound.folders folder hmem) fun _ => ⟨hfound, fun _ h => absurd h List.not_mem_nil⟩
    · exact hfound

/-- What is found is there. -/
theorem there_of_found {look : Look} {path : Text} {stamp : Stamp} (h : self.found look path = some stamp) :
    self.There look.tree path stamp := by
  obtain ⟨⟨file, stamp⟩, hlookup, rfl⟩ := Option.map_eq_some_iff.mp h
  obtain ⟨entries, entries', heq, -⟩ := List.lookup_eq_some_iff.mp hlookup
  have hmem : (path, file, stamp) ∈ self.scan look.tree := heq ▸ List.mem_append_right _ List.mem_cons_self
  exact scanFolder_sound (fun _ h => absurd h List.not_mem_nil) .top _ hmem

end

/-! ### Nothing is found twice, and nothing is dropped -/

section

variable {self : Watcher} {tree : Tree} {dir real place : RealPath Text} {before name : Text}
  {acc : Found × List (RealPath Text × Text)} {left : ℕ}

theorem scanItem_grows {deeper : Bool} :
    Found.Grows acc.1 (self.scanItem tree dir before deeper acc name).1 ∧
      acc.2 ⊆ (self.scanItem tree dir before deeper acc name).2 := by
  obtain ⟨found, folders⟩ := acc
  have hsame : Found.Grows found found ∧ folders ⊆ folders := ⟨.refl found, List.Subset.refl folders⟩
  unfold scanItem
  dsimp only
  split
  · exact hsame
  split
  · exact hsame
  split
  · exact hsame
  split
  · split
    · exact hsame
    · split
      · exact ⟨.refl found, List.subset_cons_self _ _⟩
      · exact hsame
    · split
      · exact ⟨.insert _ _ _, List.Subset.refl folders⟩
      · exact hsame
  · exact hsame

theorem scanItems_grows {deeper : Bool} (names : List Text) :
    Found.Grows acc.1 (names.foldl (self.scanItem tree dir before deeper) acc).1 ∧
      acc.2 ⊆ (names.foldl (self.scanItem tree dir before deeper) acc).2 := by
  induction names generalizing acc with
  | nil => exact ⟨.refl acc.1, List.Subset.refl acc.2⟩
  | cons name names ih =>
    obtain ⟨hfound, hfolders⟩ := @scanItem_grows _ self tree dir before name acc deeper
    exact ⟨hfound.trans ih.1, List.Subset.trans hfolders ih.2⟩

theorem scanFolder_grows (found : Found) (folder : RealPath Text × Text) :
    Found.Grows found (self.scanFolder tree left found folder) := by
  induction left generalizing found folder with
  | zero =>
    rw [scanFolder]
    split
    · exact (@scanItems_grows _ self tree _ _ (found, []) _ _).1
    · exact .refl found
  | succ left ih =>
    rw [scanFolder]
    split
    · exact (@scanItems_grows _ self tree _ _ (found, []) _ _).1.trans (.foldl ih _ _)
    · exact .refl found

theorem nodup_scan : ((self.scan tree).map Prod.fst).Nodup :=
  (scanFolder_grows [] _).nodup List.nodup_nil

end

/-! ### What is there is found -/

section

variable {self : Watcher} {tree : Tree} {dir real place : RealPath Text} {before name path : Text}
  {acc : Found × List (RealPath Text × Text)} {left : ℕ}

theorem scanItem_dir (hroom : acc.1.length < MAX_FILES) (hname : self.Leads tree dir name real place .dir) :
    self.scanItem tree dir before true acc name = (acc.1, (real, before ++ name ++ ['/']) :: acc.2) := by
  obtain ⟨kind, hreal⟩ := hname.resolves
  unfold scanItem
  dsimp only
  rw [if_neg (Nat.not_le_of_lt hroom), if_neg (Bool.not_eq_true _ ▸ hname.whole), hreal]
  dsimp only
  rw [if_pos hname.inside, hname.leads]
  rfl

theorem scanItem_file {deeper : Bool} (hroom : acc.1.length < MAX_FILES)
    (hname : self.Leads tree dir name real place .file)
    (hpattern : (self.pattern.all fun pattern => globMatches pattern name) = true) :
    before ++ name ∈ (self.scanItem tree dir before deeper acc name).1.map Prod.fst := by
  obtain ⟨kind, hreal⟩ := hname.resolves
  unfold scanItem
  dsimp only
  rw [if_neg (Nat.not_le_of_lt hroom), if_neg (Bool.not_eq_true _ ▸ hname.whole), hreal]
  dsimp only
  rw [if_pos hname.inside, hname.leads]
  dsimp only
  rw [if_pos hpattern, Found.insert, List.map_append]
  exact List.mem_append_right _ (List.mem_singleton_self _)

/-- Every item of a folder is looked at. -/
theorem scanItems_visit {deeper : Bool} {names : List Text} (hname : name ∈ names) :
    ∃ acc', Found.Grows acc.1 acc'.1 ∧
      Found.Grows (self.scanItem tree dir before deeper acc' name).1
        (names.foldl (self.scanItem tree dir before deeper) acc).1 ∧
      (self.scanItem tree dir before deeper acc' name).2 ⊆
        (names.foldl (self.scanItem tree dir before deeper) acc).2 := by
  obtain ⟨ahead, behind, rfl⟩ := List.append_of_mem hname
  refine ⟨ahead.foldl (self.scanItem tree dir before deeper) acc, (scanItems_grows ahead).1, ?_⟩
  rw [List.foldl_append, List.foldl_cons]
  exact scanItems_grows behind

theorem scanFolder_items {there : RealPath Text} (hthere : tree.resolve dir.path = some (there, .dir)) (found : Found) :
    Found.Grows ((tree.names there).foldl (self.scanItem tree dir before (left ≠ 0)) (found, [])).1
      (self.scanFolder tree left found (dir, before)) := by
  cases left with
  | zero =>
    rw [scanFolder, hthere]
    exact .refl _
  | succ left =>
    rw [scanFolder, hthere]
    exact .foldl scanFolder_grows _ _

/-- Every folder is looked at, if there is room for what is found. -/
theorem scan_visits (hroom : (self.scan tree).length < MAX_FILES) (h : self.Folder tree left dir before) :
    ∃ found : Found, (found.map Prod.fst).Nodup ∧
      Found.Grows (self.scanFolder tree left found (dir, before)) (self.scan tree) := by
  induction h with
  | top => exact ⟨[], List.nodup_nil, .refl _⟩
  | @sub left dir real place before name hdir hname ih =>
    obtain ⟨found, hnodup, hgrows⟩ := ih
    obtain ⟨there, hthere, hlisted⟩ := hname.listed
    obtain ⟨acc', hstart, hitem, hfolders⟩ := @scanItems_visit _ self tree dir before _ (found, []) true _ hlisted
    have hitems := @scanFolder_items _ self tree dir before (left + 1) _ hthere found
    have hshort : acc'.1.length < MAX_FILES :=
      lt_of_le_of_lt (((scanItem_grows.1.trans hitem).trans (hitems.trans hgrows)).length_le (hstart.nodup hnodup)) hroom
    rw [scanItem_dir hshort hname] at hfolders
    -- the folder is on the stack behind the items, and is looked at in its turn
    obtain ⟨ahead, behind, hstack⟩ := List.append_of_mem (hfolders List.mem_cons_self)
    rw [scanFolder, hthere] at hgrows
    dsimp only at hgrows
    have hdeeper : (decide (left + 1 ≠ 0)) = true := rfl
    rw [hdeeper, hstack, List.foldl_append, List.foldl_cons] at hgrows
    refine ⟨_, ?_, (Found.Grows.foldl scanFolder_grows behind _).trans hgrows⟩
    exact (Found.Grows.foldl scanFolder_grows ahead _).nodup ((scanItems_grows _).1.nodup hnodup)

theorem found_of_room {look : Look} {stamp : Stamp} (hroom : (self.scan look.tree).length < MAX_FILES)
    (h : self.There look.tree path stamp) : path ∈ (self.scan look.tree).map Prod.fst := by
  cases h with
  | @mk left dir real place before name hdir hname hpattern =>
    obtain ⟨found, hnodup, hgrows⟩ := scan_visits hroom hdir
    obtain ⟨there, hthere, hlisted⟩ := hname.listed
    obtain ⟨acc', hstart, hitem, -⟩ := @scanItems_visit _ self look.tree dir before _ (found, []) (left ≠ 0) _ hlisted
    have hitems := (@scanFolder_items _ self look.tree dir before left _ hthere found).trans hgrows
    have hshort : acc'.1.length < MAX_FILES :=
      lt_of_le_of_lt (((scanItem_grows.1.trans hitem).trans hitems).length_le (hstart.nodup hnodup)) hroom
    exact hitems.paths (hitem.paths (scanItem_file hshort hname hpattern))

/-- What comes before a name: nothing, or what ends with a slash. -/
def Ends (before : Text) : Prop := before = [] ∨ ∃ text, before = text ++ ['/']

omit [Casing] in
theorem eq_nil_of_ends {between : Text} (h : Ends (before ++ between)) (hslash : '/' ∉ between) : between = [] := by
  rcases List.eq_nil_or_concat' between with hnil | ⟨start, c, rfl⟩
  · exact hnil
  rcases h with hnil | ⟨text, heq⟩
  · exact (List.append_eq_nil_iff.mp hnil).2
  · rw [← List.append_assoc] at heq
    obtain rfl : c = '/' := List.singleton_inj.mp (List.append_inj_right' heq rfl)
    exact absurd (List.mem_append_right _ (List.mem_singleton_self _)) hslash

omit [Casing] in
/-- Where what comes before a name ends, and the name begins. -/
theorem append_name_inj {before' name' : Text} (hbefore : Ends before) (hbefore' : Ends before') (hname : '/' ∉ name)
    (hname' : '/' ∉ name') (h : before ++ name = before' ++ name') : before = before' ∧ name = name' := by
  rcases List.append_eq_append_iff.mp h with ⟨between, rfl, rfl⟩ | ⟨between, rfl, rfl⟩
  · obtain rfl := eq_nil_of_ends hbefore' fun hmem => hname (List.mem_append_left _ hmem)
    exact ⟨(List.append_nil _).symm, rfl⟩
  · obtain rfl := eq_nil_of_ends hbefore fun hmem => hname' (List.mem_append_left _ hmem)
    exact ⟨List.append_nil _, rfl⟩

theorem Folder.ends (h : self.Folder tree left dir before) : Ends before := by
  cases h with
  | top => exact .inl rfl
  | sub _ _ => exact .inr ⟨_, rfl⟩

theorem Leads.noSlash {kind : Kind} (hnamed : Named tree) (h : self.Leads tree dir name real place kind) :
    '/' ∉ name := by
  obtain ⟨there, -, hlisted⟩ := h.listed
  exact (hnamed there name hlisted).2

/-- A name in a folder leads to one place. -/
theorem Leads.unique {real' place' : RealPath Text} {kind kind' : Kind} (h : self.Leads tree dir name real place kind)
    (h' : self.Leads tree dir name real' place' kind') : real = real' ∧ place = place' := by
  obtain ⟨_, hreal⟩ := h.resolves
  obtain ⟨_, hreal'⟩ := h'.resolves
  rw [hreal] at hreal'
  cases hreal'
  have hplace := h'.leads
  rw [h.leads] at hplace
  cases hplace
  exact ⟨rfl, rfl⟩

/-- What is before the names in a folder tells which folder it is. -/
theorem Folder.unique (hnamed : Named tree) (h : self.Folder tree left dir before) :
    ∀ {left' : ℕ} {dir' : RealPath Text}, self.Folder tree left' dir' before → left = left' ∧ dir = dir' := by
  induction h with
  | top =>
    intro left' dir' h'
    generalize hbefore : ([] : Text) = before' at h'
    cases h' with
    | top => exact ⟨rfl, rfl⟩
    | sub _ _ => exact absurd hbefore (by simp)
  | @sub left dir real place before name hdir hname ih =>
    intro left' dir' h'
    generalize hbefore : before ++ name ++ ['/'] = before' at h'
    cases h' with
    | top => exact absurd hbefore (by simp)
    | @sub _ dir' _ place' before' name' hdir' hname' =>
      obtain ⟨rfl, rfl⟩ := append_name_inj hdir.ends hdir'.ends (hname.noSlash hnamed) (hname'.noSlash hnamed)
        (List.append_cancel_right hbefore)
      obtain ⟨hleft, rfl⟩ := ih hdir'
      exact ⟨Nat.succ_injective hleft, (hname.unique hname').1⟩

/-- A file that is there has one stamp. -/
theorem There.unique (hnamed : Named tree) {stamp stamp' : Stamp} (h : self.There tree path stamp)
    (h' : self.There tree path stamp') : stamp = stamp' := by
  obtain @⟨_, dir, _, _, before, name, hdir, hname, -⟩ := h
  generalize hpath : before ++ name = path' at h'
  obtain ⟨hdir', hname', -⟩ := h'
  obtain ⟨rfl, rfl⟩ := append_name_inj hdir.ends hdir'.ends (hname.noSlash hnamed) (hname'.noSlash hnamed) hpath
  obtain ⟨-, rfl⟩ := hdir.unique hnamed hdir'
  obtain ⟨-, rfl⟩ := hname.unique hname'
  rfl

/-- **Where there are no more files than a watch follows, what is there is found.** -/
theorem found_of_few {look : Look} {stamp : Stamp} (hnamed : Named look.tree)
    (hfew : {path | ∃ stamp, self.There look.tree path stamp}.encard ≤ MAX_FILES)
    (h : self.There look.tree path stamp) : self.found look path = some stamp := by
  have hpath : path ∈ (self.scan look.tree).map Prod.fst := by
    by_cases hroom : (self.scan look.tree).length < MAX_FILES
    · exact found_of_room hroom h
    · -- as many are found as there are
      have hsub : (((self.scan look.tree).map Prod.fst).toFinset : Set Text) ⊆
          {path | ∃ stamp, self.There look.tree path stamp} := by
        intro path hmem
        obtain ⟨⟨path, value⟩, hentry, rfl⟩ := List.mem_map.mp (List.mem_toFinset.mp hmem)
        refine ⟨value.2, there_of_found ?_⟩
        rw [found, Found.lookup_of_mem nodup_scan hentry]
        rfl
      have hcard : ((self.scan look.tree).map Prod.fst).toFinset.card = (self.scan look.tree).length := by
        rw [List.toFinset_card_of_nodup nodup_scan, List.length_map]
      have hle : {path | ∃ stamp, self.There look.tree path stamp}.encard ≤
          (((self.scan look.tree).map Prod.fst).toFinset : Set Text).encard := by
        rw [Set.encard_coe_eq_coe_finsetCard, hcard]
        exact hfew.trans (Nat.cast_le.mpr (Nat.not_lt.mp hroom))
      have hsame := (Finset.finite_toSet _).eq_of_subset_of_encard_le hsub hle
      have hmem : path ∈ {path | ∃ stamp, self.There look.tree path stamp} := ⟨stamp, h⟩
      rw [← hsame] at hmem
      exact List.mem_toFinset.mp hmem
  obtain ⟨⟨path, value⟩, hentry, rfl⟩ := List.mem_map.mp hpath
  have hfound : self.found look path = some value.2 := by
    rw [found, Found.lookup_of_mem nodup_scan hentry]
    rfl
  rw [hfound, (there_of_found hfound).unique hnamed h]

/-- Where there are never more files than a watch follows, no look leaves out a file. -/
theorem keeps_of_few {look next : Look} (hnamed : Named look.tree) (hnamed' : Named next.tree)
    (hfew : {path | ∃ stamp, self.There look.tree path stamp}.encard ≤ MAX_FILES)
    (hfew' : {path | ∃ stamp, self.There next.tree path stamp}.encard ≤ MAX_FILES) : self.Keeps look next := by
  intro path stamp hthere hthere'
  exact ⟨fun _ => found_of_few hnamed' hfew' hthere', fun _ => found_of_few hnamed hfew hthere⟩

end

/-! ### One look -/

section

variable {self : Watcher} {look : Look} {path : Text} {stamp : Stamp}

/-- What a look has seen of a file that it finds. -/
theorem seen_poll_of_found (h : self.found look path = some stamp) :
    ∃ file, (self.scan look.tree).lookup path = some (file, stamp) ∧
      (self.poll look.tree look.opens look.now).1.seen path =
        some (self.visit look.opens look.now path file stamp).1 := by
  obtain ⟨⟨file, stamp⟩, hlookup, rfl⟩ := Option.map_eq_some_iff.mp h
  refine ⟨file, hlookup, ?_⟩
  change ((self.scan look.tree).lookup path).map _ = _
  rw [hlookup]
  rfl

/-- What is not found is forgotten. -/
theorem seen_poll_of_not_found (h : self.found look path = none) :
    (self.poll look.tree look.opens look.now).1.seen path = none := by
  change ((self.scan look.tree).lookup path).map _ = none
  rw [Option.map_eq_none_iff.mp h]
  rfl

/-- A look finds what it has seen. -/
theorem seen_poll {seen : Seen} (h : (self.poll look.tree look.opens look.now).1.seen path = some seen) :
    self.found look path = some seen.stamp ∧ seen.since = self.since look.now path seen.stamp := by
  cases hfound : self.found look path with
  | none =>
    rw [seen_poll_of_not_found hfound] at h
    cases h
  | some stamp =>
    obtain ⟨file, -, hseen⟩ := seen_poll_of_found hfound
    rw [h, Option.some.injEq, visit_spec] at hseen
    rw [hseen]
    split <;> exact ⟨rfl, rfl⟩

/-- What a look sends was not sent before, and counts as sent. -/
theorem Sends.spec (h : self.Sends look path stamp) :
    (self.seen path).bind Seen.sent ≠ some stamp ∧ self.debounce ≤ look.now - self.since look.now path stamp ∧
      (self.poll look.tree look.opens look.now).1.seen path =
        some ⟨stamp, self.since look.now path stamp, some stamp⟩ := by
  obtain ⟨⟨ready, hready, rfl⟩, hfound⟩ := h
  obtain ⟨file, hlookup, hseen⟩ := seen_poll_of_found hfound
  obtain ⟨⟨path, file', stamp'⟩, hentry, hvisit⟩ := List.mem_filterMap.mp ((List.mem_insertionSort _).mp hready)
  have hpath : path = ready.path := by rw [ready_visit hvisit]
  subst hpath
  -- nothing is found twice
  have hsame : (file', stamp') = (file, stamp) :=
    Option.some.inj ((Found.lookup_of_mem nodup_scan hentry).symm.trans hlookup)
  cases hsame
  dsimp only at hvisit
  rw [visit_spec] at hvisit hseen
  split at hvisit
  · rename_i hcond
    rw [if_pos hcond] at hseen
    exact ⟨hcond.2.1, hcond.1, hseen⟩
  · cases hvisit

/-- A file that is found, and not sent as it is, is sent when it has settled. -/
theorem sends_of_settled (hfound : self.found look path = some stamp) (hsent : (self.seen path).bind Seen.sent ≠ some stamp)
    (hopens : ∀ file, look.opens file = true) (hsettled : self.debounce ≤ look.now - self.since look.now path stamp) :
    self.Sends look path stamp := by
  obtain ⟨file, hlookup, -⟩ := seen_poll_of_found hfound
  have hvisit : (self.visit look.opens look.now path file stamp).2 = some ⟨path, file, stamp.1⟩ := by
    rw [visit_spec, if_pos ⟨hsettled, hsent, hopens file⟩]
  exact ⟨⟨_, (mem_pollFound hlookup hvisit).1, rfl⟩, hfound⟩

/-- What was sent counts as sent as long as it is found as it was. -/
theorem sent_poll (hfound : self.found look path = some stamp) (hsent : (self.seen path).bind Seen.sent = some stamp) :
    ((self.poll look.tree look.opens look.now).1.seen path).bind Seen.sent = some stamp := by
  obtain ⟨file, -, hseen⟩ := seen_poll_of_found hfound
  rw [hseen, visit_spec, Option.bind_some]
  split
  · rfl
  · exact hsent

end

/-! ### One look after the other -/

section

variable {self : Watcher} {look start : Look} {looks polls : List Look} {path : Text} {stamp : Stamp}

theorem scanFolder_seen (tree : Tree) (seen : Text → Option Seen) (left : ℕ) :
    ({ self with seen := seen } : Watcher).scanFolder tree left = self.scanFolder tree left := by
  have hitem : ({ self with seen := seen } : Watcher).scanItem tree = self.scanItem tree := by
    unfold scanItem
    rfl
  induction left with
  | zero =>
    funext found folder
    rw [scanFolder, scanFolder, hitem]
  | succ left ih =>
    funext found folder
    rw [scanFolder, scanFolder, hitem]
    dsimp only
    rw [ih]

/-- What was seen before has no bearing on what is found. -/
theorem found_seen (seen : Text → Option Seen) : ({ self with seen := seen } : Watcher).found = self.found := by
  funext look path
  rw [found, found, scan, scan, scanFolder_seen]

theorem after_append (polls polls' : List Look) : self.after (polls ++ polls') = (self.after polls).after polls' :=
  List.foldl_append

theorem after_concat : self.after (polls ++ [look]) =
    ((self.after polls).poll look.tree look.opens look.now).1 := by
  rw [after_append]
  rfl

/-- The watch goes on as it was set up. -/
theorem after_eq (polls : List Look) : ∃ seen, self.after polls = { self with seen := seen } := by
  induction polls using List.reverseRecOn with
  | nil => exact ⟨self.seen, rfl⟩
  | append_singleton polls look ih =>
    obtain ⟨seen, hseen⟩ := ih
    rw [after_concat, hseen]
    exact ⟨_, rfl⟩

@[simp] theorem found_after (polls : List Look) (look : Look) (path : Text) :
    (self.after polls).found look path = self.found look path := by
  obtain ⟨seen, hseen⟩ := self.after_eq polls
  rw [hseen, found_seen]

@[simp] theorem debounce_after (polls : List Look) : (self.after polls).debounce = self.debounce := by
  obtain ⟨seen, hseen⟩ := self.after_eq polls
  rw [hseen]

/-- What is seen has been as it is since the time that is noted. -/
theorem since_after
    (hstart : ∀ path seen, self.seen path = some seen → self.found start path = some seen.stamp ∧ seen.since = start.now)
    (polls : List Look) {seen : Seen} (hseen : (self.after polls).seen path = some seen) :
    ∃ before first rest, start :: polls = before ++ first :: rest ∧ first.now = seen.since ∧
      ∀ l ∈ first :: rest, self.found l path = some seen.stamp := by
  induction polls using List.reverseRecOn generalizing seen with
  | nil =>
    obtain ⟨hfound, hsince⟩ := hstart path seen hseen
    refine ⟨[], start, [], rfl, hsince.symm, fun l hl => ?_⟩
    rw [List.mem_singleton.mp hl]
    exact hfound
  | append_singleton polls look ih =>
    rw [after_concat] at hseen
    obtain ⟨hfound, hnow⟩ := seen_poll hseen
    rw [found_after] at hfound
    rw [hnow]
    rcases @since_cases (self.after polls) look.now path seen.stamp with
      hsince | ⟨seen', hseen', hstamp, hsince⟩
    · refine ⟨start :: polls, look, [], rfl, hsince.symm, fun l hl => ?_⟩
      rw [List.mem_singleton.mp hl]
      exact hfound
    · obtain ⟨before, first, rest, hlooks, hfirst, hall⟩ := ih hseen'
      refine ⟨before, first, rest ++ [look], ?_, hfirst.trans hsince, fun l hl => ?_⟩
      · rw [← List.cons_append, hlooks, List.append_assoc, List.cons_append]
      · rw [← List.cons_append] at hl
        rcases List.mem_append.mp hl with hl | hl
        · exact hstamp ▸ hall l hl
        · rw [List.mem_singleton.mp hl]
          exact hfound

/-- What was sent counts as sent as long as every look finds it as it was. -/
theorem sent_after (hsent : (self.seen path).bind Seen.sent = some stamp)
    (hfound : ∀ look ∈ polls, self.found look path = some stamp) :
    ((self.after polls).seen path).bind Seen.sent = some stamp := by
  induction polls using List.reverseRecOn with
  | nil => exact hsent
  | append_singleton polls look ih =>
    rw [after_concat]
    refine sent_poll ?_ (ih fun l hl => hfound l (List.mem_append_left _ hl))
    rw [found_after]
    exact hfound look (List.mem_append_right _ (List.mem_singleton_self look))

/-- A file that is there as it was is found by every look if it is by the first. -/
theorem found_iff_of_keeps (hkeeps : List.IsChain self.Keeps (look :: looks))
    (hthere : ∀ l ∈ look :: looks, self.There l.tree path stamp) :
    ∀ l ∈ look :: looks, (self.found look path = some stamp ↔ self.found l path = some stamp) := by
  induction looks generalizing look with
  | nil =>
    intro l hl
    rw [List.mem_singleton.mp hl]
  | cons next looks ih =>
    obtain ⟨hnext, hkeeps⟩ := List.isChain_cons_cons.mp hkeeps
    obtain ⟨hlook, hthere⟩ := List.forall_mem_cons.mp hthere
    have hstep := hnext path stamp hlook (hthere next List.mem_cons_self)
    intro l hl
    rcases List.mem_cons.mp hl with rfl | hl
    · rfl
    · exact hstep.trans (ih hkeeps hthere l hl)

end

/-! ### What is sent, and when -/

section

variable {platform : Platform} {tree : Tree} {shares : Shares} {share folder : Text} {pattern : Option Text}
  {existing : Bool} {debounce now count : ℕ} {w : Watcher}

/-- What a watch has seen when it starts. -/
theorem new_spec (h : new platform tree shares share folder pattern existing debounce now = .ok (w, count)) :
    w.debounce = debounce ∧ ∀ path, w.seen path =
      (w.found (.start tree now) path).map fun stamp => ⟨stamp, now, if existing then none else some stamp⟩ := by
  obtain ⟨⟨real, root⟩, -, h⟩ := bind_ok.mp h
  dsimp only at h
  split at h
  · cases h
  split at h
  · cases h
  cases h
  refine ⟨rfl, fun path => ?_⟩
  rw [@found_seen _ ⟨root, real, pattern, debounce, fun _ => none⟩, found, Option.map_map]
  rfl

/-- What is sent has been as it is for the debounce at least. -/
theorem settled (h : new platform tree shares share folder pattern existing debounce now = .ok (w, count))
    {polls : List Look} {look : Look} {path : Text} {stamp : Stamp} (hsends : (w.after polls).Sends look path stamp) :
    ∃ before first rest, .start tree now :: polls ++ [look] = before ++ first :: rest ∧
      first.now + debounce ≤ look.now ∧ ∀ l ∈ first :: rest, w.There l.tree path stamp := by
  obtain ⟨hdebounce, hnew⟩ := new_spec h
  obtain ⟨-, hsettled, hseen⟩ := hsends.spec
  rw [debounce_after, hdebounce] at hsettled
  by_cases hzero : debounce = 0
  · refine ⟨.start tree now :: polls, look, [], rfl, by omega, fun l hl => ?_⟩
    rw [List.mem_singleton.mp hl]
    exact there_of_found (found_after polls look path ▸ hsends.2)
  · have hstart : ∀ path seen, w.seen path = some seen →
        w.found (.start tree now) path = some seen.stamp ∧ seen.since = (Look.start tree now).now := by
      intro path seen hseen
      rw [hnew, Option.map_eq_some_iff] at hseen
      obtain ⟨stamp, hfound, rfl⟩ := hseen
      exact ⟨hfound, rfl⟩
    rw [← after_concat] at hseen
    obtain ⟨before, first, rest, hlooks, hfirst, hall⟩ := since_after hstart (polls ++ [look]) hseen
    have hfirst : first.now = (w.after polls).since look.now path stamp := hfirst
    exact ⟨before, first, rest, hlooks, by omega, fun l hl => there_of_found (hall l hl)⟩

/-- Each file that a look returns is sent, with the stamp that it was found with. -/
theorem exists_sends {polls : List Look} {look : Look} {ready : Ready}
    (hready : ready ∈ ((w.after polls).poll look.tree look.opens look.now).2) :
    ∃ stamp, (w.after polls).Sends look ready.path stamp ∧ ready.size = stamp.1 := by
  obtain ⟨⟨path, file, stamp⟩, hentry, hvisit⟩ := List.mem_filterMap.mp ((List.mem_insertionSort _).mp hready)
  obtain rfl := ready_visit hvisit
  have hlookup := Found.lookup_of_mem nodup_scan hentry
  refine ⟨stamp, ⟨⟨_, hready, rfl⟩, ?_⟩, rfl⟩
  rw [found, hlookup]
  rfl

end

end Watcher

/-! ### A folder with too many files -/

namespace Crowd

/-- The folder that is shared. -/
def saves : RealPath Text := ⟨[], ["saves".toList]⟩

/-- Names that are told apart are different. -/
local instance lawfulNames : LawfulBEq (List Char) := inferInstance

/-- A tree with one folder, and empty files in it. -/
def folderOf (files : List Text) : Tree where
  hasRoot name := name = []
  find dir name :=
    if dir.names = [] ∧ name = "saves".toList then some (name, .dir)
    else if dir.names = saves.names ∧ name ∈ files then some (name, .file)
    else none
  names dir := if dir.names = [] then ["saves".toList] else if dir.names = saves.names then files else []
  data _ := ⟨[], none⟩
  current := []
  maxLinks := 40
  find_real := by
    intro dir asked real there h
    split_ifs at h with hfolder hfile <;> cases h
    · exact if_pos hfolder
    · rw [if_neg hfolder, if_pos hfile]

def shares : Shares := ⟨[⟨"saves".toList, saves.path, false⟩], 0⟩

section

variable {files : List Text} {name : Text}

theorem isDir_saves (files : List Text) : (folderOf files).IsDir saves := .child (.root rfl) rfl

theorem isFile_child (hname : name ∈ files) : (folderOf files).IsFile (saves.child name) :=
  .child (isDir_saves files) (if_pos ⟨rfl, hname⟩)

variable [Casing] {w : Watcher}

theorem leads_file (hroot : w.root = saves) (hname : name ∈ files) (hwhole : isPart name = false) :
    w.Leads (folderOf files) saves name (saves.child name) (saves.child name) .file where
  listed := ⟨saves, FileTree.resolve_path (isDir_saves files), hname⟩
  whole := hwhole
  resolves := ⟨.file, by
    rw [← RealPath.path_child]
    exact FileTree.resolve_path (isFile_child hname)⟩
  inside := by
    rw [hroot]
    exact RealPath.prefix_child (List.prefix_refl _) name
  leads := FileTree.resolve_path (isFile_child hname)

theorem there_file (hroot : w.root = saves) (hfolder : w.folder = saves) (hpattern : w.pattern = none)
    (hname : name ∈ files) (hwhole : isPart name = false) : w.There (folderOf files) name (0, none) := by
  have htop : w.Folder (folderOf files) MAX_DEPTH saves [] := hfolder ▸ .top
  refine .mk htop (leads_file hroot hname hwhole) ?_
  rw [hpattern]
  rfl

/-- Of the files of a folder, the first are found. -/
theorem scanItems_folderOf {names : List Text} (hnames : ∀ name ∈ names, name ∈ files ∧ isPart name = false)
    (hnodup : names.Nodup) {found : Found} (hnew : ∀ name ∈ names, name ∉ found.map Prod.fst) :
    ∃ found' : Found, names.foldl (emptyWatcher.scanItem (folderOf files) saves [] true) (found, []) = (found', []) ∧
      found'.map Prod.fst = found.map Prod.fst ++ names.take (MAX_FILES - found.length) := by
  induction names generalizing found with
  | nil => exact ⟨found, rfl, by rw [List.take_nil, List.append_nil]⟩
  | cons name names ih =>
    obtain ⟨⟨hname, hwhole⟩, hnames⟩ := List.forall_mem_cons.mp hnames
    obtain ⟨hnot, hnodup⟩ := List.nodup_cons.mp hnodup
    obtain ⟨hfresh, hnew⟩ := List.forall_mem_cons.mp hnew
    rw [List.foldl_cons]
    by_cases hfull : MAX_FILES ≤ found.length
    · have hitem : emptyWatcher.scanItem (folderOf files) saves [] true (found, []) name = (found, []) := if_pos hfull
      obtain ⟨found', hfold, hkeys⟩ := ih hnames hnodup hnew
      rw [Nat.sub_eq_zero_of_le hfull, List.take_zero] at hkeys ⊢
      exact ⟨found', by rw [hitem, hfold], hkeys⟩
    · have hleads := leads_file (w := emptyWatcher) rfl hname hwhole
      have hkept : found.filter (fun entry => entry.1 ≠ name) = found := by
        refine List.filter_eq_self.mpr fun entry hentry => decide_eq_true fun heq => hfresh ?_
        exact List.mem_map.mpr ⟨entry, hentry, heq⟩
      have hitem : emptyWatcher.scanItem (folderOf files) saves [] true (found, []) name =
          (found ++ [(name, saves.child name, 0, none)], []) := by
        obtain ⟨kind, hreal⟩ := hleads.resolves
        unfold Watcher.scanItem
        dsimp only
        rw [if_neg hfull, if_neg (Bool.not_eq_true _ ▸ hwhole), hreal]
        dsimp only
        rw [if_pos hleads.inside, hleads.leads]
        have hall : (emptyWatcher.pattern.all fun pattern => globMatches pattern name) = true := rfl
        dsimp only
        rw [if_pos hall, Found.insert, List.nil_append, hkept]
        rfl
      have hnew : ∀ other ∈ names, other ∉ (found ++ [(name, saves.child name, 0, none)]).map Prod.fst := by
        intro other hother hmem
        rw [List.map_append, List.map_singleton] at hmem
        rcases List.mem_append.mp hmem with hmem | hmem
        · exact hnew other hother hmem
        · rw [List.mem_singleton.mp hmem] at hother
          exact hnot hother
      obtain ⟨found', hfold, hkeys⟩ := ih hnames hnodup hnew
      refine ⟨found', by rw [hitem, hfold], ?_⟩
      have hroom : MAX_FILES - found.length = MAX_FILES - (found.length + 1) + 1 := by omega
      rw [hkeys, List.map_append, List.map_singleton, List.length_append, List.length_singleton, hroom,
        List.take_succ_cons, List.append_assoc, List.singleton_append]

theorem scan_folderOf (hwhole : ∀ name ∈ files, isPart name = false) (hnodup : files.Nodup) :
    (emptyWatcher.scan (folderOf files)).map Prod.fst = files.take MAX_FILES := by
  have hnone : ∀ name ∈ files, name ∉ ([] : Found).map Prod.fst := fun _ _ => List.not_mem_nil
  obtain ⟨found, hfold, hkeys⟩ := scanItems_folderOf (fun name hname => ⟨hname, hwhole name hname⟩) hnodup hnone
  have hfolder : (folderOf files).resolve saves.path = some (saves, .dir) :=
    FileTree.resolve_path (isDir_saves files)
  have hnames : (folderOf files).names saves = files := rfl
  have hscan : emptyWatcher.scan (folderOf files) = found := by
    change Watcher.scanFolder (folderOf files) emptyWatcher (3 + 1) [] (saves, []) = found
    have hdeeper : (decide (3 + 1 ≠ 0)) = true := rfl
    rw [Watcher.scanFolder, hfolder]
    dsimp only
    rw [hdeeper, hnames, hfold]
    rfl
  rw [hscan, hkeys]
  rfl

end

/-- The names of many files. -/
def others : List Text := (List.range MAX_FILES).map fun i => [Char.ofNat (0x4e00 + i)]

theorem nodup_others : others.Nodup := by
  have htoNat : ∀ i < MAX_FILES, (Char.ofNat (0x4e00 + i)).toNat = 0x4e00 + i := by
    intro i hi
    have hvalid : (0x4e00 + i).isValidChar := .inl (by unfold MAX_FILES at hi; omega)
    rw [Char.ofNat, dif_pos hvalid]
    rfl
  refine List.Nodup.map_on ?_ List.nodup_range
  intro i hi j hj heq
  have hnat := congrArg Char.toNat (List.singleton_inj.mp heq)
  rw [htoNat i (List.mem_range.mp hi), htoNat j (List.mem_range.mp hj)] at hnat
  omega

/-- The file that is watched. -/
def slot : Text := "slot1.sav".toList

theorem slot_not_mem : slot ∉ others := by
  intro h
  obtain ⟨i, -, heq⟩ := List.mem_map.mp h
  have hlength := congrArg List.length heq
  cases hlength

theorem isPart_singleton (c : Char) : @isPart Text.asciiCasing [c] = false := by
  refine Bool.eq_false_iff.mpr fun h => ?_
  have hlength : PART_SUFFIX.length ≤ 1 := (List.isSuffixOf_iff_suffix.mp h).length_le
  exact absurd hlength (by decide)

/-- The watch of the folder, as it starts with the file alone in it. -/
theorem exists_new (existing : Bool) : ∃ seen, @Watcher.new Text.asciiCasing .unix (folderOf [slot]) shares
    "saves".toList [] none existing DEBOUNCE 0 = .ok ({ emptyWatcher with seen := seen }, 1) := by
  let _ : Casing := Text.asciiCasing
  exact ⟨fun path => ((emptyWatcher.scan (folderOf [slot])).lookup path).map fun found =>
    ⟨found.2, 0, if existing then none else some found.2⟩, rfl⟩

/-- A look at the file alone. -/
def alone (now : ℕ) : Look := ⟨folderOf [slot], fun _ => true, now⟩

/-- A look at the file behind many others. -/
def crowded (now : ℕ) : Look := ⟨folderOf (others ++ [slot]), fun _ => true, now⟩

section

variable {seen : Text → Option Seen} (now : ℕ)

theorem found_alone :
    @Watcher.found Text.asciiCasing { emptyWatcher with seen := seen } (alone now) slot = some (0, none) := by
  rw [@Watcher.found_seen Text.asciiCasing emptyWatcher]
  change @Watcher.found Text.asciiCasing emptyWatcher (alone 0) slot = some (0, none)
  decide

theorem found_crowded :
    @Watcher.found Text.asciiCasing { emptyWatcher with seen := seen } (crowded now) slot = none := by
  let _ : Casing := Text.asciiCasing
  have hwhole : ∀ name ∈ others ++ [slot], isPart name = false := by
    intro name hname
    rcases List.mem_append.mp hname with hname | hname
    · obtain ⟨i, -, rfl⟩ := List.mem_map.mp hname
      exact isPart_singleton _
    · rw [List.mem_singleton.mp hname]
      decide
  have hnodup : (others ++ [slot]).Nodup := by
    rw [List.nodup_append_comm, List.singleton_append, List.nodup_cons]
    exact ⟨slot_not_mem, nodup_others⟩
  have hfull : (others ++ [slot]).take MAX_FILES = others := by
    rw [List.take_append_of_le_length, List.take_of_length_le]
    all_goals rw [others, List.length_map, List.length_range]
  have hscan := scan_folderOf hwhole hnodup
  rw [hfull] at hscan
  rw [@Watcher.found_seen _ emptyWatcher, Watcher.found, Option.map_eq_none_iff,
    List.lookup_eq_none_iff]
  intro entry hentry
  rw [bne_iff_ne]
  intro heq
  have hmem : entry.1 ∈ (emptyWatcher.scan (folderOf (others ++ [slot]))).map Prod.fst := List.mem_map_of_mem hentry
  rw [hscan, ← heq] at hmem
  exact slot_not_mem hmem

theorem there_alone : @Watcher.There Text.asciiCasing { emptyWatcher with seen := seen } (alone now).tree slot (0, none) :=
  @Watcher.there_of_found Text.asciiCasing _ (alone now) _ _ (found_alone now)

theorem there_crowded :
    @Watcher.There Text.asciiCasing { emptyWatcher with seen := seen } (crowded now).tree slot (0, none) := by
  let _ : Casing := Text.asciiCasing
  exact there_file rfl rfl rfl (List.mem_append_right _ (List.mem_singleton_self slot)) (by decide)

/-- A file that is there when the watch starts, and asked for, is sent when it has settled. -/
theorem sends_first (h : @Watcher.new Text.asciiCasing .unix (folderOf [slot]) shares "saves".toList [] none true
    DEBOUNCE 0 = .ok ({ emptyWatcher with seen := seen }, 1)) :
    @Watcher.Sends Text.asciiCasing { emptyWatcher with seen := seen } (alone DEBOUNCE) slot (0, none) := by
  let _ : Casing := Text.asciiCasing
  let w : Watcher := { emptyWatcher with seen := seen }
  have hseen : w.seen slot = some ⟨(0, none), 0, none⟩ := by
    have hfound : w.found (.start (folderOf [slot]) 0) slot = some (0, none) := found_alone 0
    rw [(Watcher.new_spec h).2, hfound]
    rfl
  refine Watcher.sends_of_settled (found_alone DEBOUNCE) ?_ (fun _ => rfl) ?_
  · rw [hseen]
    nofun
  · have hsince : w.since DEBOUNCE slot (0, none) = 0 := by
      rw [Watcher.since, hseen]
      exact if_pos rfl
    have hnow : (alone DEBOUNCE).now = DEBOUNCE := rfl
    rw [hnow, hsince]
    exact Nat.le_refl DEBOUNCE

/-- When the others have come and gone, the file is taken for a new one. -/
theorem sends_anew (before : List Look) :
    @Watcher.Sends Text.asciiCasing (@Watcher.after Text.asciiCasing { emptyWatcher with seen := seen }
      (before ++ [crowded now] ++ [alone (now + 1)])) (alone (now + 1 + DEBOUNCE)) slot (0, none) := by
  let _ : Casing := Text.asciiCasing
  let w : Watcher := { emptyWatcher with seen := seen }
  have hgone : (w.after (before ++ [crowded now])).seen slot = none := by
    rw [Watcher.after_concat]
    refine Watcher.seen_poll_of_not_found ?_
    rw [Watcher.found_after]
    exact found_crowded now
  have hback : (w.after (before ++ [crowded now] ++ [alone (now + 1)])).seen slot =
      some ⟨(0, none), now + 1, none⟩ := by
    have hfound : (w.after (before ++ [crowded now])).found (alone (now + 1)) slot = some (0, none) := by
      rw [Watcher.found_after]
      exact found_alone (now + 1)
    obtain ⟨file, -, hseen⟩ := Watcher.seen_poll_of_found hfound
    have hsince : (w.after (before ++ [crowded now])).since (now + 1) slot (0, none) = now + 1 := by
      rw [Watcher.since, hgone]
    have hnow : (alone (now + 1)).now = now + 1 := rfl
    rw [Watcher.after_concat, hseen, Watcher.visit_spec, hnow, hsince, hgone, Nat.sub_self, Watcher.debounce_after]
    exact congrArg some (congrArg Prod.fst (if_neg fun h => absurd (show DEBOUNCE ≤ 0 from h.1) (by decide)))
  refine Watcher.sends_of_settled ?_ ?_ (fun _ => rfl) ?_
  · rw [Watcher.found_after]
    exact found_alone _
  · rw [hback]
    nofun
  · have hsince : (w.after (before ++ [crowded now] ++ [alone (now + 1)])).since (now + 1 + DEBOUNCE) slot (0, none) =
        now + 1 := by
      rw [Watcher.since, hback]
      exact if_pos rfl
    have hnow : (alone (now + 1 + DEBOUNCE)).now = now + 1 + DEBOUNCE := rfl
    rw [hnow, hsince, Watcher.debounce_after, Nat.add_sub_cancel_left]
    exact Nat.le_refl DEBOUNCE

end

end Crowd

/-! ### What is sent once, and what is not sent -/

namespace Watcher

section

variable [Casing] {platform : Platform} {tree : Tree} {shares : Shares} {share folder : Text} {pattern : Option Text}
  {existing : Bool} {debounce now count : ℕ} {w : Watcher}

/-- **What a watch sends has settled, and is sent once.**  A file that is returned was there
with its stamp at every look of a debounce at least.  Where no look leaves out a file that
the one before it found and that has not changed, it is not returned with this stamp again
as long as it is there with it. -/
theorem settled_once (h : new platform tree shares share folder pattern existing debounce now = .ok (w, count))
    (polls : List Look) (look : Look) :
    (∀ ready ∈ ((w.after polls).poll look.tree look.opens look.now).2, ∃ stamp,
      (w.after polls).Sends look ready.path stamp ∧ ready.size = stamp.1 ∧
        ∃ before first rest, .start tree now :: polls ++ [look] = before ++ first :: rest ∧
          first.now + debounce ≤ look.now ∧ ∀ l ∈ first :: rest, w.There l.tree ready.path stamp) ∧
    ∀ earlier first between, polls = earlier ++ first :: between →
      List.IsChain w.Keeps (first :: (between ++ [look])) → ∀ path stamp, (w.after earlier).Sends first path stamp →
        (∀ l ∈ first :: (between ++ [look]), w.There l.tree path stamp) → ¬ (w.after polls).Sends look path stamp := by
  constructor
  · intro ready hready
    obtain ⟨stamp, hsends, hsize⟩ := exists_sends hready
    exact ⟨stamp, hsends, hsize, settled h hsends⟩
  · rintro earlier first between rfl hkeeps path stamp hfirst hthere hsends
    have hfound : w.found first path = some stamp := found_after earlier first path ▸ hfirst.2
    have hall := found_iff_of_keeps hkeeps hthere
    obtain ⟨-, -, hseen⟩ := hfirst.spec
    -- it counts as sent from the first time to the second
    have hlater : (((w.after (earlier ++ [first])).after between).seen path).bind Seen.sent = some stamp := by
      refine sent_after ?_ fun l hl => ?_
      · rw [after_concat, hseen]
        rfl
      · rw [found_after]
        exact (hall l (List.mem_cons_of_mem _ (List.mem_append_left _ hl))).mp hfound
    refine hsends.spec.1 ?_
    rwa [← after_append, List.append_assoc] at hlater

end

/-- A file that is there when the watch starts is sent when it has settled, and then never again. -/
theorem settled_once_alone : ∃ w count,
    @Watcher.new Text.asciiCasing .unix (Crowd.folderOf [Crowd.slot]) Crowd.shares "saves".toList [] none true
      DEBOUNCE 0 = .ok (w, count) ∧
    @Watcher.Sends Text.asciiCasing w (Crowd.alone DEBOUNCE) Crowd.slot (0, none) ∧
    ¬ @Watcher.Sends Text.asciiCasing (@Watcher.after Text.asciiCasing w [Crowd.alone DEBOUNCE])
      (Crowd.alone 5000) Crowd.slot (0, none) := by
  let _ : Casing := Text.asciiCasing
  obtain ⟨seen, hnew⟩ := Crowd.exists_new true
  refine ⟨_, 1, hnew, Crowd.sends_first hnew, ?_⟩
  refine (settled_once hnew [Crowd.alone DEBOUNCE] (Crowd.alone 5000)).2 [] (Crowd.alone DEBOUNCE) [] rfl ?_
    Crowd.slot (0, none) (Crowd.sends_first hnew) ?_
  · -- the tree is the same
    exact List.isChain_pair.mpr fun _ _ _ _ => Iff.rfl
  · intro l hl
    fin_cases hl
    · exact Crowd.there_alone _
    · exact Crowd.there_alone _

/-- A file that has not changed is sent twice, when many others have come and gone. -/
theorem sent_twice : ¬ ∀ (_ : Casing) (platform : Platform) (tree : Tree) (shares : Shares) (share folder : Text)
    (pattern : Option Text) (existing : Bool) (debounce now count : ℕ) (w : Watcher),
    new platform tree shares share folder pattern existing debounce now = .ok (w, count) →
    ∀ (earlier : List Look) (first : Look) (between : List Look) (look : Look) (path : Text) (stamp : Stamp),
      (w.after earlier).Sends first path stamp → (∀ l ∈ first :: (between ++ [look]), w.There l.tree path stamp) →
        ¬ (w.after (earlier ++ first :: between)).Sends look path stamp := by
  intro h
  obtain ⟨seen, hnew⟩ := Crowd.exists_new true
  refine h Text.asciiCasing _ _ _ _ _ _ _ _ _ _ _ hnew [] (Crowd.alone DEBOUNCE)
    [Crowd.crowded 2500, Crowd.alone 2501] (Crowd.alone (2501 + DEBOUNCE)) Crowd.slot (0, none)
    (Crowd.sends_first hnew) ?_ (Crowd.sends_anew 2500 [Crowd.alone DEBOUNCE])
  intro l hl
  fin_cases hl
  · exact Crowd.there_alone _
  · exact Crowd.there_crowded _
  · exact Crowd.there_alone _
  · exact Crowd.there_alone _

section

variable [Casing] {platform : Platform} {tree : Tree} {shares : Shares} {share folder : Text} {pattern : Option Text}
  {debounce now count : ℕ} {w : Watcher}

/-- **What has not changed since the start is not sent.**  That is, where of the files that
did not change each look finds those that the one before it found. -/
theorem unsent_since_start (h : new platform tree shares share folder pattern false debounce now = .ok (w, count))
    (polls : List Look) (look : Look) (hkeeps : List.IsChain w.Keeps (.start tree now :: (polls ++ [look])))
    (path : Text) (stamp : Stamp) (hthere : ∀ l ∈ Look.start tree now :: (polls ++ [look]), w.There l.tree path stamp) :
    ¬ (w.after polls).Sends look path stamp := by
  intro hsends
  have hall := found_iff_of_keeps hkeeps hthere
  have hlook : w.found look path = some stamp := found_after polls look path ▸ hsends.2
  have hstart : w.found (.start tree now) path = some stamp :=
    (hall look (List.mem_cons_of_mem _ (List.mem_append_right _ (List.mem_singleton_self look)))).mpr hlook
  refine hsends.spec.1 (sent_after ?_ fun l hl => ?_)
  · rw [(new_spec h).2, hstart]
    rfl
  · exact (hall l (List.mem_cons_of_mem _ (List.mem_append_left _ hl))).mp hstart

end

/-- A file that is there when the watch starts, and stays as it is, is not sent. -/
theorem quiet_alone : ∃ w count,
    @Watcher.new Text.asciiCasing .unix (Crowd.folderOf [Crowd.slot]) Crowd.shares "saves".toList [] none false
      DEBOUNCE 0 = .ok (w, count) ∧
    ¬ @Watcher.Sends Text.asciiCasing (@Watcher.after Text.asciiCasing w []) (Crowd.alone 5000) Crowd.slot
      (0, none) := by
  let _ : Casing := Text.asciiCasing
  obtain ⟨seen, hnew⟩ := Crowd.exists_new false
  refine ⟨_, 1, hnew, unsent_since_start hnew [] (Crowd.alone 5000) (List.isChain_pair.mpr fun _ _ _ _ => Iff.rfl)
    Crowd.slot (0, none) fun l hl => ?_⟩
  fin_cases hl
  · exact Crowd.there_alone 0
  · exact Crowd.there_alone _

/-- A file that has not changed since the start is sent, when many others have come and gone. -/
theorem sent_unchanged : ¬ ∀ (_ : Casing) (platform : Platform) (tree : Tree) (shares : Shares) (share folder : Text)
    (pattern : Option Text) (debounce now count : ℕ) (w : Watcher),
    new platform tree shares share folder pattern false debounce now = .ok (w, count) →
    ∀ (polls : List Look) (look : Look) (path : Text) (stamp : Stamp),
      (∀ l ∈ Look.start tree now :: (polls ++ [look]), w.There l.tree path stamp) →
        ¬ (w.after polls).Sends look path stamp := by
  intro h
  obtain ⟨seen, hnew⟩ := Crowd.exists_new false
  refine h Text.asciiCasing _ _ _ _ _ _ _ _ _ _ hnew [Crowd.crowded 500, Crowd.alone 501]
    (Crowd.alone (501 + DEBOUNCE)) Crowd.slot (0, none) ?_ (Crowd.sends_anew 500 [])
  intro l hl
  fin_cases hl
  · exact Crowd.there_alone 0
  · exact Crowd.there_crowded _
  · exact Crowd.there_alone _
  · exact Crowd.there_alone _

end Watcher

end WindowCast.Files
