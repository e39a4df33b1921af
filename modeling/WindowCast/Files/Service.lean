import WindowCast.Files.Shares

/-!
# The file service

What a host does for the requests on a files channel, in a tree whose folders and
links stay as they are: which files and folders it reads and lists, and which it
writes.  An upload is written beside its target, under the target's name with an
ending of its own; the tree does not gain the files that uploads make.

## Main definitions

* `FileRequest`, `FileReply`.
* `FileService.handle` — the answer to a request, with what it has touched.
* `FileService.serve` — what a channel's requests touch.
* `LinksOut` — an upload whose name with the ending is a link out of the share.

## Main results

* `FileService.handle_confined` — a request stays inside its share, unless its
  upload links out.
* `FileService.confined_iff` — **no request leaves its share exactly if no upload
  links out.**
-/

namespace WindowCast.Files

/-! ### Requests and replies -/

/-- The most file bytes one chunk carries. -/
def FILE_CHUNK : ℕ := 16 * 1024 - 256

/-- An upload is acknowledged each time this many more bytes have been written. -/
def ACK_EVERY : ℕ := 256 * 1024

/-- The most entries one listing returns. -/
def MAX_ENTRIES : ℕ := 5000

structure ShareInfo where
  name : Text
  writable : Bool
  deriving DecidableEq, Repr

structure Entry where
  name : Text
  dir : Bool
  size : ℕ
  /-- Seconds since the Unix epoch, when the system gives it. -/
  modified : Option ℕ
  deriving DecidableEq, Repr

inductive FileRequest
  /-- The shares this host offers this client. -/
  | shares
  | list (share path : Text)
  | stat (share path : Text)
  /-- Download from `offset`: chunks, then the end. -/
  | read (share path : Text) (offset : ℕ)
  /-- Upload a file of `size` bytes; with `resume`, go on with a partial upload. -/
  | write (share path : Text) (size : ℕ) (resume : Bool)
  | chunk (bytes : List UInt8)
  | finish
  deriving DecidableEq, Repr

inductive FileReply
  | shares (infos : List ShareInfo)
  | entries (entries : List Entry)
  | info (entry : Entry)
  | chunk (bytes : List UInt8)
  /-- The download is complete. -/
  | ended (size : ℕ)
  /-- The upload may go on from `offset`. -/
  | ready (offset : ℕ)
  | ack (written : ℕ)
  | done (size : ℕ)
  | error (reason : FileError)
  deriving DecidableEq, Repr

/-! ### The service -/

/-- An upload: the file it is written to, and where that goes when it is complete. -/
structure Upload where
  /-- The name of the share it is to. -/
  share : Text
  file : RealPath Text
  part : PathBuf
  target : PathBuf
  size : ℕ
  written : ℕ
  acked : ℕ

/-- Answers one channel's requests. -/
structure FileService where
  shares : Shares
  upload : Option Upload

/-- A place that is read, listed or written for a request on a share. -/
structure Touched where
  share : Text
  place : RealPath Text
  deriving DecidableEq

def partPath (target : PathBuf) : PathBuf :=
  match target.getLast? with
  | some (.normal name) => target.dropLast ++ [.normal (name ++ PART_SUFFIX)]
  | _ => target

def isDir (tree : Tree) (path : PathBuf) : Bool :=
  match tree.resolve path with
  | some (_, .dir) => true
  | _ => false

def entryOf (tree : Tree) (name : Text) (place : RealPath Text) (kind : Kind) : Entry where
  name := name
  dir := kind = .dir
  size := if kind = .dir then 0 else (tree.data place).bytes.length
  modified := (tree.data place).modified

namespace FileService

section

variable [Casing] (platform : Platform) (tree : Tree)

/-- One item of a folder, with its place: through any link, and only what is still
inside the share. -/
def listItem (dir root : RealPath Text) (name : Text) : Option (Entry × RealPath Text) :=
  if isPart name then none
  else
    match tree.resolve (dir.path ++ [.normal name]) with
    | none => none
    | some (real, _) =>
      if root.path <+: real.path then
        match tree.resolve real.path with
        | none => none
        | some (place, kind) => some (entryOf tree name place kind, place)
      else none

def list (self : FileService) (share path : Text) :
    Except FileError (List Entry × List (RealPath Text)) := do
  let (dir, root) ← self.shares.resolveExisting platform tree share path
  match tree.resolve dir.path with
  | some (place, .dir) =>
    let items := ((tree.names place).filterMap (listItem tree dir root)).take MAX_ENTRIES
    return ((items.map Prod.fst).mergeSort fun a b => a.name ≤ b.name, place :: items.map Prod.snd)
  | _ => .error .notFolder

def stat (self : FileService) (share path : Text) : Except FileError (Entry × RealPath Text) := do
  let (found, _) ← self.shares.resolveExisting platform tree share path
  match tree.resolve found.path with
  | none => .error .system
  | some (place, kind) =>
    let parts ← (clean path).mapError .path
    return (entryOf tree (parts.getLast?.getD share) place kind, place)

/-- The chunks of a download, its size, and its file; the channel may be gone before
the last chunk is sent. -/
def read (self : FileService) (share path : Text) (offset : ℕ) :
    Except FileError (List (List UInt8) × ℕ × RealPath Text) := do
  let (found, _) ← self.shares.resolveExisting platform tree share path
  match tree.resolve found.path with
  | none => .error .system
  | some (_, .dir) => .error .notFile
  | some (place, .file) =>
    let bytes := (tree.data place).bytes
    if offset > bytes.length then .error .pastEnd
    else return ((bytes.drop offset).toChunks FILE_CHUNK, bytes.length, place)

/-- Opens an upload. -/
def beginUpload (self : FileService) (share path : Text) (size : ℕ) (resume : Bool) :
    Except FileError Upload := do
  let writable ← self.shares.writable share
  if !writable then .error .readOnly
  else if size > self.shares.maxFileSize then .error (.tooLarge self.shares.maxFileSize)
  else
    let target ← self.shares.resolveNew platform tree share path
    if isDir tree target then .error .folder
    else
      let part := partPath target
      let there := if resume then
        match tree.resolve part with
        | some (place, _) => (tree.data place).bytes.length
        | none => 0
      else 0
      let held := if there > size then 0 else there
      match tree.create part with
      | none => .error .system
      | some file => return ⟨share, file, part, target, size, held, held⟩

/-- Carries out a request: the service after it, the replies, and what was touched. -/
def handle (self : FileService) (request : FileRequest) :
    FileService × List FileReply × List Touched :=
  match request with
  | .shares => (self, [.shares (self.shares.shares.map fun s => ⟨s.name, s.writable⟩)], [])
  | .list share path =>
    match self.list platform tree share path with
    | .error e => (self, [.error e], [])
    | .ok (entries, places) => (self, [.entries entries], places.map (⟨share, ·⟩))
  | .stat share path =>
    match self.stat platform tree share path with
    | .error e => (self, [.error e], [])
    | .ok (entry, place) => (self, [.info entry], [⟨share, place⟩])
  | .read share path offset =>
    match self.read platform tree share path offset with
    | .error e => (self, [.error e], [])
    | .ok (chunks, size, place) =>
      (self, chunks.map .chunk ++ [.ended size], [⟨share, place⟩])
  | .write share path size resume =>
    match self.beginUpload platform tree share path size resume with
    | .error e => ({ self with upload := none }, [.error e], [])
    | .ok upload =>
      ({ self with upload := some upload }, [.ready upload.written], [⟨share, upload.file⟩])
  | .chunk bytes =>
    match self.upload with
    | none => (self, [.error .noUpload], [])
    | some upload =>
      if upload.written + bytes.length > upload.size then
        ({ self with upload := none }, [.error .tooMany], [])
      else
        let written := upload.written + bytes.length
        let touched := [⟨upload.share, upload.file⟩]
        if written - upload.acked ≥ ACK_EVERY then
          ({ self with upload := some { upload with written := written, acked := written } },
            [.ack written], touched)
        else ({ self with upload := some { upload with written := written } }, [], touched)
  | .finish =>
    match self.upload with
    | none => (self, [.error .noUpload], [])
    | some upload =>
      if upload.written ≠ upload.size then
        (self, [.error (.incomplete upload.written upload.size)], [])
      else
        -- the file is synced, the target removed, and the part renamed to it
        let entries := [upload.part, upload.target].filterMap tree.entry
        ({ self with upload := none }, [.done upload.size],
          (upload.file :: entries.map Prod.fst).map (⟨upload.share, ·⟩))

/-- What the requests on a channel touch. -/
def serve (self : FileService) : List FileRequest → List Touched
  | [] => []
  | request :: rest =>
    let (service, _, touched) := self.handle platform tree request
    touched ++ service.serve rest

end

end FileService

/-! ### What a request touches -/

/-- A place in the folder of the share it is touched for. -/
def Touched.Inside (shares : Shares) (tree : Tree) (touched : Touched) : Prop :=
  ∃ root, shares.HasRoot tree touched.share root ∧ root.path <+: touched.place.path

/-- An upload whose files are all in the folder of its share. -/
def Upload.Confined (shares : Shares) (tree : Tree) (upload : Upload) : Prop :=
  ∃ root folder kind name, shares.HasRoot tree upload.share root ∧ root.path <+: upload.file.path ∧
    root.path <+: folder.path ∧ tree.IsReal folder kind ∧
    upload.target = folder.path ++ [.normal name] ∧
    upload.part = folder.path ++ [.normal (name ++ PART_SUFFIX)]

theorem partPath_concat (folder : PathBuf) (name : Text) :
    partPath (folder ++ [.normal name]) = folder ++ [.normal (name ++ PART_SUFFIX)] := by
  unfold partPath
  rw [List.getLast?_concat, List.dropLast_concat]

/-- The file of a confined upload is in the folder of its share. -/
theorem Upload.Confined.inside_file {shares : Shares} {tree : Tree} {upload : Upload} (h : upload.Confined shares tree) :
    Touched.Inside shares tree ⟨upload.share, upload.file⟩ := by
  obtain ⟨root, folder, kind, name, hroot, hfile, -⟩ := h
  exact ⟨root, hroot, hfile⟩

/-- So are the entries that its part and its target name. -/
theorem Upload.Confined.inside_entry {shares : Shares} {tree : Tree} {upload : Upload}
    (h : upload.Confined shares tree) {path : PathBuf} (hpath : path = upload.part ∨ path = upload.target) {place : RealPath Text}
    {node : Option (DirEntry Text)} (hentry : tree.entry path = some (place, node)) :
    Touched.Inside shares tree ⟨upload.share, place⟩ := by
  obtain ⟨root, folder, kind, name, hroot, -, hfolder, hreal, htarget, hpart⟩ := h
  rw [hpart, htarget] at hpath
  refine ⟨root, hroot, ?_⟩
  rcases hpath with rfl | rfl
  · obtain ⟨real, rfl⟩ := FileTree.entry_real hreal hentry
    exact RealPath.prefix_child hfolder real
  · obtain ⟨real, rfl⟩ := FileTree.entry_real hreal hentry
    exact RealPath.prefix_child hfolder real

section

variable [Casing]

/-- An upload whose name with the ending is a link out of the share, and that
nothing else is in the way of: the share takes it, its folder is in the share, and
its name is free or that of a file. -/
def LinksOut (tree : Tree) (shares : Shares) : FileRequest → Prop
  | .write share path size _ =>
    shares.writable share = .ok true ∧ size ≤ shares.maxFileSize ∧
      ∃ parts last root folder, clean path = .ok (parts ++ [last]) ∧ shares.HasRoot tree share root ∧
        tree.resolve (root.path ++ parts.map .normal) = some (folder, .dir) ∧
        root.path <+: folder.path ∧
        (∀ real there, tree.find folder last = some (real, there) → there = .file) ∧
        ∃ real link file, tree.find folder (last ++ PART_SUFFIX) = some (real, .link link) ∧
          tree.create (folder.path ++ [.normal (last ++ PART_SUFFIX)]) = some file ∧
          ¬ root.path <+: file.path
  | _ => False

omit [Casing] in
/-- A name that may be written is free or that of a file. -/
theorem isDir_child {tree : Tree} {folder : RealPath Text} (hdir : tree.IsDir folder) {name : Text} :
    (tree.isLink (folder.path ++ [.normal name]) = false ∧
        isDir tree (folder.path ++ [.normal name]) = false) ↔
      ∀ real there, tree.find folder name = some (real, there) → there = .file := by
  cases hlink : tree.isLink (folder.path ++ [.normal name]) with
  | true =>
    obtain ⟨real, link, hfind⟩ := (FileTree.isLink_child hdir).mp hlink
    refine iff_of_false (fun h => nomatch h.1) fun h => ?_
    cases h real _ hfind
  | false =>
    unfold isDir
    rw [FileTree.resolve_child hdir hlink]
    cases hfind : tree.find folder name with
    | none => exact iff_of_true ⟨rfl, rfl⟩ nofun
    | some found =>
      obtain ⟨real, there⟩ := found
      cases there with
      | file =>
        refine iff_of_true ⟨rfl, rfl⟩ ?_
        rintro _ _ ⟨⟩
        rfl
      | dir => exact iff_of_false nofun fun h => nomatch h real _ rfl
      | link link => exact absurd hfind (FileTree.find_ne_link hdir hlink real link)

namespace FileService

variable {platform : Platform} {tree : Tree}

/-- What is listed is in the share's folder, and so is the folder listed. -/
theorem list_inside {self : FileService} {share path : Text} {entries : List Entry}
    {places : List (RealPath Text)} (h : self.list platform tree share path = .ok (entries, places)) :
    ∀ place ∈ places, Touched.Inside self.shares tree ⟨share, place⟩ := by
  unfold list at h
  obtain ⟨⟨dir, root⟩, hresolve, h⟩ := bind_ok.mp h
  obtain ⟨hroot, hinside, kind, hreal⟩ := Shares.resolveExisting_ok hresolve
  simp only [FileTree.resolve_path hreal] at h
  split at h
  · rename_i heq
    cases heq
    cases h
    intro place hplace
    rcases List.mem_cons.mp hplace with rfl | hplace
    · exact ⟨root, hroot, hinside⟩
    obtain ⟨⟨entry, place'⟩, hitem, rfl⟩ := List.mem_map.mp hplace
    obtain ⟨name, -, hname⟩ := List.mem_filterMap.mp (List.mem_of_mem_take hitem)
    unfold listItem at hname
    split at hname
    · cases hname
    split at hname
    · cases hname
    rename_i real kind hfound
    split at hname
    · rename_i hin
      rw [FileTree.resolve_path (FileTree.resolve_real hfound)] at hname
      cases hname
      exact ⟨root, hroot, hin⟩
    · cases hname
  · cases h

/-- What is described is in the share's folder. -/
theorem stat_inside {self : FileService} {share path : Text} {entry : Entry} {place : RealPath Text}
    (h : self.stat platform tree share path = .ok (entry, place)) :
    Touched.Inside self.shares tree ⟨share, place⟩ := by
  unfold stat at h
  obtain ⟨⟨found, root⟩, hresolve, h⟩ := bind_ok.mp h
  obtain ⟨hroot, hinside, kind, hreal⟩ := Shares.resolveExisting_ok hresolve
  simp only [FileTree.resolve_path hreal] at h
  obtain ⟨parts, -, h⟩ := bind_ok.mp h
  cases h
  exact ⟨root, hroot, hinside⟩

/-- What is downloaded is in the share's folder. -/
theorem read_inside {self : FileService} {share path : Text} {offset size : ℕ}
    {chunks : List (List UInt8)} {place : RealPath Text}
    (h : self.read platform tree share path offset = .ok (chunks, size, place)) :
    Touched.Inside self.shares tree ⟨share, place⟩ := by
  unfold read at h
  obtain ⟨⟨found, root⟩, hresolve, h⟩ := bind_ok.mp h
  obtain ⟨hroot, hinside, kind, hreal⟩ := Shares.resolveExisting_ok hresolve
  simp only [FileTree.resolve_path hreal] at h
  split at h
  · cases h
  · cases h
  · rename_i heq
    cases heq
    split at h
    · cases h
    · cases h
      exact ⟨root, hroot, hinside⟩

/-- What an upload is opened with. -/
theorem beginUpload_ok {self : FileService} {share path : Text} {size : ℕ} {resume : Bool}
    {upload : Upload} (h : self.beginUpload platform tree share path size resume = .ok upload) :
    self.shares.writable share = .ok true ∧ size ≤ self.shares.maxFileSize ∧
      self.shares.resolveNew platform tree share path = .ok upload.target ∧
      isDir tree upload.target = false ∧ upload.share = share ∧
      upload.part = partPath upload.target ∧ tree.create upload.part = some upload.file := by
  unfold beginUpload at h
  obtain ⟨writable, hwritable, h⟩ := bind_ok.mp h
  split at h
  · cases h
  rename_i hwrite
  split at h
  · cases h
  rename_i hsize
  obtain ⟨target, htarget, h⟩ := bind_ok.mp h
  split at h
  · cases h
  rename_i hdir
  simp only at h
  split at h
  · cases h
  rename_i file hfile
  cases h
  refine ⟨?_, Nat.le_of_not_lt hsize, htarget, Bool.not_eq_true _ ▸ hdir, rfl, rfl, hfile⟩
  rw [hwritable]
  simpa using hwrite

/-- An upload that links out is opened, outside. -/
theorem beginUpload_linksOut {self : FileService} {share path : Text} {size : ℕ} {resume : Bool}
    (h : LinksOut tree self.shares (.write share path size resume)) :
    ∃ upload, self.beginUpload platform tree share path size resume = .ok upload ∧
      ¬ Touched.Inside self.shares tree ⟨share, upload.file⟩ := by
  obtain ⟨hwritable, hsize, parts, last, root, folder, hparts, hroot, hfolder, hinside, hlast,
    real, link, file, -, hfile, hout⟩ := h
  obtain ⟨hlink, hdir⟩ := (isDir_child (FileTree.resolve_real hfolder)).mpr hlast
  have htarget : self.shares.resolveNew platform tree share path = .ok _ :=
    Shares.resolveNew_ok.mpr ⟨parts, last, root, folder, .dir, hparts, hroot, hfolder, hinside, rfl, hlink⟩
  rw [← partPath_concat] at hfile
  cases hbegin : self.beginUpload platform tree share path size resume with
  | error e =>
    unfold beginUpload at hbegin
    simp only [hwritable, htarget, hdir, hfile, bind, Except.bind, Bool.not_true, Bool.false_eq_true,
      if_false, if_neg (Nat.not_lt.mpr hsize)] at hbegin
    cases hbegin
  | ok upload =>
    refine ⟨upload, rfl, ?_⟩
    rintro ⟨root', hroot', hin⟩
    obtain ⟨-, -, htarget', -, -, hpart, hfile'⟩ := beginUpload_ok hbegin
    have heq := Except.ok.inj (htarget.symm.trans htarget')
    rw [hpart, ← heq, hfile] at hfile'
    cases hfile'
    cases hroot.unique hroot'
    exact hout hin

/-- An upload that does not link out is confined. -/
theorem beginUpload_confined {self : FileService} {share path : Text} {size : ℕ} {resume : Bool}
    {upload : Upload} (h : self.beginUpload platform tree share path size resume = .ok upload)
    (hlinks : ¬ LinksOut tree self.shares (.write share path size resume)) :
    upload.Confined self.shares tree := by
  obtain ⟨hwritable, hsize, htarget, hdir, rfl, hpart, hfile⟩ := beginUpload_ok h
  obtain ⟨parts, last, root, folder, kind, hparts, hroot, hfolder, hinside, heq, hnew⟩ :=
    Shares.resolveNew_ok.mp htarget
  have hreal := FileTree.resolve_real hfolder
  have hpart' : upload.part = folder.path ++ [.normal (last ++ PART_SUFFIX)] := by
    rw [hpart, heq, partPath_concat]
  refine ⟨root, folder, kind, last, hroot, ?_, hinside, hreal, heq, hpart'⟩
  rw [hpart'] at hfile
  rw [heq] at hdir hnew
  cases kind with
  | file =>
    unfold FileTree.create at hfile
    rw [FileTree.lead_file hreal] at hfile
    cases hfile
  | dir =>
    cases hlink : tree.isLink (folder.path ++ [.normal (last ++ PART_SUFFIX)]) with
    | true =>
      obtain ⟨real, link, hfind⟩ := (FileTree.isLink_child hreal).mp hlink
      by_contra hout
      exact hlinks ⟨hwritable, hsize, parts, last, root, folder, hparts, hroot, hfolder, hinside,
        (isDir_child hreal).mp ⟨hnew, hdir⟩, real, link, upload.file, hfind, hfile, hout⟩
    | false =>
      obtain ⟨real, hreal'⟩ := @FileTree.create_child _ _ _ _ _ .dir hreal _ hlink hfile
      rw [hreal']
      exact RealPath.prefix_child hinside real

/-- A request stays inside its share, unless its upload links out; what is open
after it is confined. -/
theorem handle_confined {self service : FileService} {request : FileRequest}
    {replies : List FileReply} {touched : List Touched}
    (hupload : ∀ upload, self.upload = some upload → upload.Confined self.shares tree)
    (hlinks : ¬ LinksOut tree self.shares request)
    (h : self.handle platform tree request = (service, replies, touched)) :
    (∀ t ∈ touched, t.Inside self.shares tree) ∧
      ∀ upload, service.upload = some upload → upload.Confined self.shares tree := by
  have hnone : ∀ t ∈ ([] : List Touched), t.Inside self.shares tree := fun t ht => nomatch ht
  have hone : ∀ {t : Touched}, t.Inside self.shares tree → ∀ t' ∈ [t], t'.Inside self.shares tree := by
    intro t ht t' ht'
    rw [List.mem_singleton.mp ht']
    exact ht
  unfold handle at h
  cases request with
  | shares =>
    cases h
    exact ⟨hnone, hupload⟩
  | list share path =>
    simp only at h
    split at h
    · cases h
      exact ⟨hnone, hupload⟩
    · rename_i entries places hlist
      cases h
      refine ⟨?_, hupload⟩
      intro t ht
      obtain ⟨place, hplace, rfl⟩ := List.mem_map.mp ht
      exact list_inside hlist place hplace
  | stat share path =>
    simp only at h
    split at h
    · cases h
      exact ⟨hnone, hupload⟩
    · rename_i entry place hstat
      cases h
      exact ⟨hone (stat_inside hstat), hupload⟩
  | read share path offset =>
    simp only at h
    split at h
    · cases h
      exact ⟨hnone, hupload⟩
    · rename_i chunks size place hread
      cases h
      exact ⟨hone (read_inside hread), hupload⟩
  | write share path size resume =>
    simp only at h
    split at h
    · cases h
      exact ⟨hnone, nofun⟩
    · rename_i upload hbegin
      cases h
      have hconfined := beginUpload_confined hbegin hlinks
      constructor
      · obtain ⟨-, -, -, -, rfl, -, -⟩ := beginUpload_ok hbegin
        exact hone hconfined.inside_file
      · rintro _ ⟨⟩
        exact hconfined
  | chunk bytes =>
    simp only at h
    split at h
    · cases h
      exact ⟨hnone, hupload⟩
    rename_i upload hopen
    have hconfined := hupload upload hopen
    split at h
    · cases h
      exact ⟨hnone, nofun⟩
    split at h
    · cases h
      refine ⟨hone hconfined.inside_file, ?_⟩
      rintro _ ⟨⟩
      exact hconfined
    · cases h
      refine ⟨hone hconfined.inside_file, ?_⟩
      rintro _ ⟨⟩
      exact hconfined
  | finish =>
    simp only at h
    split at h
    · cases h
      exact ⟨hnone, hupload⟩
    rename_i upload hopen
    split at h
    · cases h
      exact ⟨hnone, hupload⟩
    · cases h
      refine ⟨?_, nofun⟩
      have hconfined := hupload upload hopen
      intro t ht
      obtain ⟨place, hplace, rfl⟩ := List.mem_map.mp ht
      rcases List.mem_cons.mp hplace with rfl | hplace
      · exact hconfined.inside_file
      · obtain ⟨⟨p, node⟩, hp, rfl⟩ := List.mem_map.mp hplace
        obtain ⟨path, hpath, hentry⟩ := List.mem_filterMap.mp hp
        rw [List.mem_cons, List.mem_singleton] at hpath
        exact hconfined.inside_entry hpath hentry

/-- No request changes the shares. -/
theorem handle_shares {self service : FileService} {request : FileRequest}
    {replies : List FileReply} {touched : List Touched}
    (h : self.handle platform tree request = (service, replies, touched)) :
    service.shares = self.shares := by
  unfold handle at h
  cases request with
  | shares =>
    cases h
    rfl
  | list share path | stat share path | read share path offset | write share path size resume =>
    simp only at h
    split at h <;> (cases h; rfl)
  | chunk bytes =>
    simp only at h
    split at h
    · cases h
      rfl
    · split at h
      · cases h
        rfl
      · split at h <;> (cases h; rfl)
  | finish =>
    simp only at h
    split at h
    · cases h
      rfl
    · split at h <;> (cases h; rfl)

/-- An upload that links out is touched, outside its share. -/
theorem handle_linksOut {self service : FileService} {request : FileRequest}
    {replies : List FileReply} {touched : List Touched}
    (hlinks : LinksOut tree self.shares request)
    (h : self.handle platform tree request = (service, replies, touched)) :
    ∃ t ∈ touched, ¬ t.Inside self.shares tree := by
  cases request with
  | write share path size resume =>
    obtain ⟨upload, hbegin, hout⟩ := @beginUpload_linksOut _ platform tree self share path size resume hlinks
    unfold handle at h
    simp only [hbegin] at h
    cases h
    exact ⟨_, List.mem_singleton_self _, hout⟩
  | _ => exact absurd hlinks id

/-- The requests on a channel stay inside their shares exactly if no upload of
them links out. -/
theorem serve_inside_iff {requests : List FileRequest} :
    ∀ {self : FileService},
      (∀ upload, self.upload = some upload → upload.Confined self.shares tree) →
      ((∀ t ∈ self.serve platform tree requests, t.Inside self.shares tree) ↔
        ∀ request ∈ requests, ¬ LinksOut tree self.shares request) := by
  induction requests with
  | nil =>
    intro self _
    constructor
    · intro _ request hrequest
      cases hrequest
    · intro _ t ht
      cases ht
  | cons request requests ih =>
    intro self hupload
    unfold serve
    rcases hhandle : self.handle platform tree request with ⟨service, replies, touched⟩
    rw [List.forall_mem_append, List.forall_mem_cons]
    have hshares := handle_shares hhandle
    by_cases hlinks : LinksOut tree self.shares request
    · obtain ⟨t, ht, hout⟩ := handle_linksOut hlinks hhandle
      exact iff_of_false (fun h => hout (h.1 t ht)) fun h => h.1 hlinks
    · obtain ⟨htouched, hopen⟩ := handle_confined hupload hlinks hhandle
      rw [← hshares] at hopen htouched hlinks ⊢
      rw [ih hopen]
      exact and_congr_left fun _ => iff_of_true htouched hlinks

/-- **No request leaves its share exactly if no upload links out.**  What `clean`
accepts is made of clean parts, what is resolved is inside the share's canonical
root, by its spelling and where it leads, and so is every place that the requests
read, list or write: unless an upload's name with the ending of a part is a link
out of the share, which the upload then writes through. -/
theorem confined_iff (platform : Platform) (tree : Tree) (shares : Shares)
    (requests : List FileRequest) :
    ((∀ path parts, clean path = .ok parts → ∀ part ∈ parts, CleanPart part) ∧
      (∀ name path found root, shares.resolveExisting platform tree name path = .ok (found, root) →
        shares.HasRoot tree name root ∧ shares.Inside tree name found.path) ∧
      (∀ name path target, shares.resolveNew platform tree name path = .ok target →
        shares.Inside tree name target) ∧
      ∀ t ∈ serve platform tree ⟨shares, none⟩ requests, t.Inside shares tree) ↔
    ∀ request ∈ requests, ¬ LinksOut tree shares request := by
  have hnone : ∀ upload, (⟨shares, none⟩ : FileService).upload = some upload →
      upload.Confined shares tree := nofun
  rw [← serve_inside_iff hnone]
  constructor
  · rintro ⟨-, -, -, hserve⟩
    exact hserve
  · intro hserve
    refine ⟨fun path parts => clean_parts, ?_, ?_, hserve⟩
    · intro name path found root
      exact Shares.inside_resolveExisting
    · intro name path target
      exact Shares.inside_resolveNew

end FileService

end

/-! ### A link beside an upload -/

/-- The names and what is under them in a tree for the examples: a shared folder
with a link in it to a file of someone's own. -/
def linkedNames : List (List Text × Text × DirEntry Text) :=
  [([], "share".toList, .dir), ([], "home".toList, .dir), (["home".toList], "diary".toList, .file),
    (["share".toList], "save.wcpart".toList,
      .link [.root [], .normal "home".toList, .normal "diary".toList])]

def linkedTree : Tree where
  hasRoot name := name = []
  find dir name := ((linkedNames.find? fun e => e.1 = dir.names && e.2.1 = name).map fun e => e.2.2).map
    fun node => (name, node)
  names _ := []
  data _ := ⟨[], none⟩
  current := []
  maxLinks := 40
  find_real := by
    intro dir asked real node h
    obtain ⟨found, hfound, heq⟩ := Option.map_eq_some_iff.mp h
    cases heq
    exact h

/-- A writable share of the folder with the link. -/
def linkedShares : Shares := ⟨[⟨"saves".toList, [.root [], .normal "share".toList], true⟩], 4 * 2 ^ 30⟩

/-- **An upload writes through a link out of its share.** -/
theorem FileService.upload_links_out :
    ¬ ∀ (_ : Casing) (platform : Platform) (tree : Tree) (shares : Shares)
        (requests : List FileRequest),
      (∀ path parts, clean path = .ok parts → ∀ part ∈ parts, CleanPart part) ∧
        (∀ name path found root, shares.resolveExisting platform tree name path = .ok (found, root) →
          shares.HasRoot tree name root ∧ shares.Inside tree name found.path) ∧
        (∀ name path target, shares.resolveNew platform tree name path = .ok target →
          shares.Inside tree name target) ∧
        ∀ t ∈ FileService.serve platform tree ⟨shares, none⟩ requests, t.Inside shares tree := by
  intro h
  obtain ⟨root, hroot, hin⟩ := (h Text.asciiCasing .unix linkedTree linkedShares
    [.write "saves".toList "save".toList 3 false]).2.2.2
    ⟨"saves".toList, ⟨[], ["home".toList, "diary".toList]⟩⟩ (by decide +kernel)
  have hshare : linkedShares.HasRoot linkedTree "saves".toList ⟨[], ["share".toList]⟩ :=
    ⟨_, rfl, rfl⟩
  cases hroot.unique hshare
  revert hin
  decide

end WindowCast.Files
