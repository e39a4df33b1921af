import WindowCast.Files.Finish
import WindowCast.Files.Service

/-!
# Uploads on a disk that may fail

The upload state machine of `host-core/src/files.rs` with what the disk holds and with
every file operation working or failing: an upload is opened, maybe on a part that an
earlier one left, takes chunks, and is put in place.  Folders and links stay as they
are, and the name of a part is taken to be no link.

## Main definitions

* `Uploads` — the service, the disk, and what came of the upload that is open.
* `Uploads.handle` — one request, with which of its file operations work.
* `Uploads.Ok` — what is wanted of a request; `Uploads.Keeps` — its finish does not lose
  the file it replaces.

## Main results

* `Uploads.Inv.handle` — what every request preserves.
* `Uploads.uploads_ok_iff` — **uploads are as wanted exactly if no rename fails once
  the old file is removed.**
-/

namespace WindowCast.Files

/-- What is at each path. -/
abbrev Disk := PathBuf → Option Node

def Node.len : Node → ℕ
  | .file bytes _ => bytes.length
  | .folder => 0

/-- Bytes written into a file at an offset. -/
def writeAt (content : List UInt8) (offset : ℕ) (bytes : List UInt8) : List UInt8 :=
  content.take offset ++ bytes ++ content.drop (offset + bytes.length)

theorem writeAt_length (content bytes : List UInt8) :
    writeAt content content.length bytes = content ++ bytes := by
  unfold writeAt
  rw [List.take_length, List.drop_eq_nil_of_le (by omega), List.append_nil]

namespace Disk

def set (self : Disk) (path : PathBuf) (node : Option Node) : Disk :=
  Function.update self path node

@[simp] theorem set_self (self : Disk) (path : PathBuf) (node : Option Node) :
    self.set path node path = node := Function.update_self _ _ _

theorem set_of_ne (self : Disk) {path other : PathBuf} (node : Option Node) (h : other ≠ path) :
    self.set path node other = self other := Function.update_of_ne h _ _

/-- Opens a file to write, creating it if it is not there, and maybe truncates it. -/
def openFile (self : Disk) (path : PathBuf) (truncate : Bool) : Option Disk :=
  match self path with
  | none => some (self.set path (some (.file [] false)))
  | some (.file bytes synced) =>
    if truncate then some (self.set path (some (.file [] false)))
    else some (self.set path (some (.file bytes synced)))
  | some .folder => none

/-- Writes into the file at a path. -/
def write (self : Disk) (path : PathBuf) (offset : ℕ) (bytes : List UInt8) : Disk :=
  match self path with
  | some (.file content _) => self.set path (some (.file (writeAt content offset bytes) false))
  | _ => self

/-- Puts the file at a path on the disk. -/
def sync (self : Disk) (path : PathBuf) : Disk :=
  match self path with
  | some (.file content _) => self.set path (some (.file content true))
  | _ => self

/-- Renames, over no folder. -/
def rename (self : Disk) (path target : PathBuf) : Option Disk :=
  match self path with
  | none => none
  | some node =>
    if self target = some .folder then none
    else some ((self.set path none).set target (some node))

theorem write_of_ne (self : Disk) {path other : PathBuf} (offset : ℕ) (bytes : List UInt8)
    (h : other ≠ path) : self.write path offset bytes other = self other := by
  unfold write
  cases self path with
  | none => rfl
  | some node =>
    cases node with
    | folder => rfl
    | file content synced => exact set_of_ne _ _ h

/-- What opening a file leaves of it. -/
theorem openFile_some {disk disk' : Disk} {path : PathBuf} {truncate : Bool}
    (h : disk.openFile path truncate = some disk') :
    (∀ other, other ≠ path → disk' other = disk other) ∧
      ∃ bytes synced, disk' path = some (.file bytes synced) ∧
        (bytes = [] ∨ truncate = false ∧ disk path = some (.file bytes synced)) := by
  unfold Disk.openFile at h
  split at h
  · cases h
    exact ⟨fun other hne => Disk.set_of_ne _ _ hne, [], false, Disk.set_self _ _ _, .inl rfl⟩
  · rename_i bytes synced hfile
    split at h
    · cases h
      exact ⟨fun other hne => Disk.set_of_ne _ _ hne, [], false, Disk.set_self _ _ _, .inl rfl⟩
    · rename_i htruncate
      cases h
      exact ⟨fun other hne => Disk.set_of_ne _ _ hne, bytes, synced, Disk.set_self _ _ _,
        .inr ⟨Bool.not_eq_true _ ▸ htruncate, hfile⟩⟩
  · cases h

end Disk

/-! ### The service -/

namespace Uploads

structure Upload where
  part : PathBuf
  target : PathBuf
  size : ℕ
  written : ℕ
  acked : ℕ
  deriving DecidableEq

end Uploads

open Uploads (Upload)

/-- The service of one channel and the disk; and of the upload that was opened last the
part it went on from, the chunks that were accepted and the offsets that were answered. -/
structure Uploads where
  shares : Shares
  disk : Disk
  upload : Option Uploads.Upload
  held : List UInt8
  chunks : List (List UInt8)
  acks : List ℕ

namespace Uploads

inductive Event
  /-- An upload is asked for: whether the part's size can be read, and whether opening
  it and seeking in it work. -/
  | write (share path : Text) (size : ℕ) (resume seen opens seeks : Bool)
  /-- Bytes arrive: all are written, or only so many. -/
  | chunk (bytes : List UInt8) (failsAfter : Option ℕ)
  /-- The upload is to be put in place: whether syncing, removing and renaming work. -/
  | finish (syncs removes renames : Bool)
  /-- The channel is closed. -/
  | cancel
  deriving DecidableEq, Repr

def new (shares : Shares) (disk : Disk) : Uploads := ⟨shares, disk, none, [], [], []⟩

section

variable [Casing] (platform : Platform) (tree : Tree)

/-- Where an upload may go. -/
def targetFor (self : Uploads) (share path : Text) (size : ℕ) : Except FileError PathBuf := do
  let writable ← self.shares.writable share
  if !writable then .error .readOnly
  else if size > self.shares.maxFileSize then .error (.tooLarge self.shares.maxFileSize)
  else
    let target ← self.shares.resolveNew platform tree share path
    if self.disk target = some .folder then .error .folder else return target

def beginUpload (self : Uploads) (share path : Text) (size : ℕ) (resume seen opens seeks : Bool) :
    Except FileError ℕ × Uploads :=
  let self := { self with upload := none }
  match self.targetFor platform tree share path size with
  | .error e => (.error e, self)
  | .ok target =>
    let part := partPath target
    let held := if resume && seen then ((self.disk part).map Node.len).getD 0 else 0
    let held := if held > size then 0 else held
    match self.disk.openFile part (held = 0) with
    | none => (.error .system, self)
    | some disk =>
      if !opens then (.error .system, self)
      else if !seeks then (.error .system, { self with disk := disk })
      else
        let kept := match disk part with
          | some (.file bytes _) => bytes
          | _ => []
        (.ok held, { self with
          disk := disk, upload := some ⟨part, target, size, held, held⟩,
          held := kept, chunks := [], acks := [held] })

/-- Writes upload bytes; the count to acknowledge, when enough have arrived. -/
def chunk (self : Uploads) (bytes : List UInt8) (failsAfter : Option ℕ) :
    Except FileError (Option ℕ) × Uploads :=
  match self.upload with
  | none => (.error .noUpload, self)
  | some upload =>
    if upload.written + bytes.length > upload.size then (.error .tooMany, { self with upload := none })
    else
      match failsAfter with
      | some n =>
        (.error .system, { self with
          disk := self.disk.write upload.part upload.written (bytes.take n), upload := none })
      | none =>
        let written := upload.written + bytes.length
        let self := { self with
          disk := self.disk.write upload.part upload.written bytes,
          chunks := self.chunks ++ [bytes] }
        if written - upload.acked ≥ ACK_EVERY then
          (.ok (some written), { self with
            upload := some { upload with written := written, acked := written },
            acks := self.acks ++ [written] })
        else (.ok none, { self with upload := some { upload with written := written } })

/-- Puts the file in place. -/
def finish (self : Uploads) (syncs removes renames : Bool) : Except FileError ℕ × Uploads :=
  match self.upload with
  | none => (.error .noUpload, self)
  | some upload =>
    if upload.written ≠ upload.size then (.error (.incomplete upload.written upload.size), self)
    else if !syncs then (.error .system, self)
    else
      let self := { self with disk := self.disk.sync upload.part, upload := none }
      let isFile := ((self.disk upload.target).map Node.isFile).getD false
      if isFile && !removes then (.error .system, self)
      else
        let self := if isFile then { self with disk := self.disk.set upload.target none } else self
        match self.disk.rename upload.part upload.target with
        | none => (.error .system, self)
        | some disk =>
          if !renames then (.error .system, self) else (.ok upload.size, { self with disk := disk })

/-- Carries out a request: the service and the disk after it, and the replies. -/
def handle (self : Uploads) : Event → Uploads × List FileReply
  | .write share path size resume seen opens seeks =>
    match self.beginUpload platform tree share path size resume seen opens seeks with
    | (.ok offset, self) => (self, [.ready offset])
    | (.error e, self) => (self, [.error e])
  | .chunk bytes failsAfter =>
    match self.chunk bytes failsAfter with
    | (.ok acked, self) => (self, (acked.map .ack).toList)
    | (.error e, self) => (self, [.error e])
  | .finish syncs removes renames =>
    match self.finish syncs removes renames with
    | (.ok size, self) => (self, [.done size])
    | (.error e, self) => (self, [.error e])
  | .cancel => ({ self with upload := none }, [])

/-- The state after a sequence of requests. -/
def run (self : Uploads) (es : List Event) : Uploads :=
  es.foldl (fun self e => (self.handle platform tree e).1) self

/-- The target a request is about. -/
def targetOf (self : Uploads) : Event → Option PathBuf
  | .write share path size _ _ _ _ =>
    match self.targetFor platform tree share path size with
    | .ok target => some target
    | .error _ => none
  | .chunk _ _ | .finish _ _ _ => self.upload.map Upload.target
  | .cancel => none

/-- What is wanted of a request.  A file put in place has the size that was announced, and
its bytes are the part that was held and the accepted chunks; the part that was held is
what the file held before, or nothing; no more is written than was announced, nor than
the host accepts; what is acknowledged has arrived and never goes back; and a request
that fails changes nothing but the part. -/
structure Ok (s : Uploads) (e : Event) : Prop where
  placed : ∀ size, .done size ∈ (s.handle platform tree e).2 →
    ∃ upload synced, s.upload = some upload ∧ upload.size = size ∧
      (s.handle platform tree e).1.disk upload.target
        = some (.file (s.held ++ s.chunks.flatten) synced) ∧
      (s.held ++ s.chunks.flatten).length = size
  resumed : ∀ offset, .ready offset ∈ (s.handle platform tree e).2 →
    ∃ upload, (s.handle platform tree e).1.upload = some upload ∧
      (s.handle platform tree e).1.held.length = offset ∧
      (s.handle platform tree e).1.chunks = [] ∧
      ((s.handle platform tree e).1.held = [] ∨
        ∃ synced, s.disk upload.part = some (.file (s.handle platform tree e).1.held synced))
  bounded : ∀ upload, (s.upload = some upload ∨ (s.handle platform tree e).1.upload = some upload) →
    upload.size ≤ s.shares.maxFileSize ∧
      ∀ bytes synced, (s.handle platform tree e).1.disk upload.part = some (.file bytes synced) →
        bytes.length ≤ upload.size
  ordered : ∀ acked, .ack acked ∈ (s.handle platform tree e).2 →
    (∀ before ∈ s.acks, before ≤ acked) ∧
      acked = ((s.handle platform tree e).1.held ++ (s.handle platform tree e).1.chunks.flatten).length
  untouched : ∀ error, .error error ∈ (s.handle platform tree e).2 →
    ∀ path, (s.targetOf platform tree e = some path ∨
        (s.targetOf platform tree e).map partPath ≠ some path) →
      (s.handle platform tree e).1.disk path = s.disk path

/-- The request is no finish of a complete upload that syncs the part and removes the file
it is to replace, but cannot rename. -/
def Keeps (self : Uploads) : Event → Prop
  | .finish syncs removes renames =>
    ∀ upload, self.upload = some upload → upload.written = upload.size → syncs = true →
      ∀ bytes synced, self.disk upload.target = some (.file bytes synced) → removes = true →
        renames = true
  | _ => True

/-- The open upload: its part holds what came, no more than was announced and is accepted. -/
structure Open (s : Uploads) (upload : Upload) : Prop where
  part_eq : upload.part = partPath upload.target
  part_ne : upload.part ≠ upload.target
  content : ∃ synced, s.disk upload.part = some (.file (s.held ++ s.chunks.flatten) synced)
  written : upload.written = (s.held ++ s.chunks.flatten).length
  written_le : upload.written ≤ upload.size
  size_le : upload.size ≤ s.shares.maxFileSize
  acks_le : ∀ acked ∈ s.acks, acked ≤ upload.acked
  acked_le : upload.acked ≤ upload.written

def Inv (self : Uploads) : Prop := ∀ upload, self.upload = some upload → self.Open upload

variable {platform tree}

/-! ### What each request does -/

/-- Where an upload may go is no part, and it may be as large. -/
theorem targetFor_ok {self : Uploads} {share path : Text} {size : ℕ} {target : PathBuf}
    (h : self.targetFor platform tree share path size = .ok target) :
    size ≤ self.shares.maxFileSize ∧ partPath target ≠ target ∧ self.disk target ≠ some .folder := by
  unfold targetFor at h
  obtain ⟨writable, -, h⟩ := bind_ok.mp h
  split at h
  · cases h
  split at h
  · cases h
  rename_i hsize
  obtain ⟨target', htarget, h⟩ := bind_ok.mp h
  split at h
  · cases h
  rename_i hfolder
  cases h
  refine ⟨not_lt.mp hsize, ?_, hfolder⟩
  obtain ⟨-, last, -, folder, -, -, -, -, -, rfl, -⟩ := Shares.resolveNew_ok.mp htarget
  rw [partPath_concat]
  intro heq
  have hname : last ++ PART_SUFFIX = last :=
    Component.normal.inj (List.cons.inj (List.append_cancel_left heq)).1
  exact absurd (List.append_right_eq_self.mp hname) (by decide)

/-- An upload that is refused: the one before it is closed, and at most its part is emptied. -/
theorem beginUpload_error {self self' : Uploads} {share path : Text} {size : ℕ}
    {resume seen opens seeks : Bool} {error : FileError}
    (h : self.beginUpload platform tree share path size resume seen opens seeks = (.error error, self')) :
    self'.upload = none ∧ self'.shares = self.shares ∧
      (self'.disk = self.disk ∨ ∃ target truncate,
        self.targetFor platform tree share path size = .ok target ∧
        self.disk.openFile (partPath target) truncate = some self'.disk) := by
  unfold beginUpload at h
  simp only at h
  split at h
  · cases h
    exact ⟨rfl, rfl, .inl rfl⟩
  rename_i target htarget
  split at h
  · cases h
    exact ⟨rfl, rfl, .inl rfl⟩
  rename_i disk hdisk
  split at h
  · cases h
    exact ⟨rfl, rfl, .inl rfl⟩
  split at h
  · cases h
    exact ⟨rfl, rfl, .inr ⟨target, _, htarget, hdisk⟩⟩
  · cases h

/-- An upload that is opened: it goes on behind what its part held, or from an empty part. -/
theorem beginUpload_ok {self self' : Uploads} {share path : Text} {size offset : ℕ}
    {resume seen opens seeks : Bool}
    (h : self.beginUpload platform tree share path size resume seen opens seeks = (.ok offset, self')) :
    ∃ target, self.targetFor platform tree share path size = .ok target ∧
      self'.upload = some ⟨partPath target, target, size, offset, offset⟩ ∧
      self'.shares = self.shares ∧ self'.chunks = [] ∧ self'.acks = [offset] ∧
      self'.held.length = offset ∧ offset ≤ size ∧
      (∀ other, other ≠ partPath target → self'.disk other = self.disk other) ∧
      ∃ synced, self'.disk (partPath target) = some (.file self'.held synced) ∧
        (self'.held = [] ∨ self.disk (partPath target) = some (.file self'.held synced)) := by
  unfold beginUpload at h
  simp only at h
  split at h
  · cases h
  rename_i target htarget
  split at h
  · cases h
  rename_i disk hdisk
  split at h
  · cases h
  split at h
  · cases h
  obtain ⟨hother, bytes, synced, hpart, hbytes⟩ := Disk.openFile_some hdisk
  -- how much is held: nothing, or all that the part has
  generalize hthere : (if resume && seen then ((self.disk (partPath target)).map Node.len).getD 0 else 0)
    = there at h hdisk hbytes
  rw [hpart] at h
  cases h
  have hlength : bytes.length = if there > size then 0 else there := by
    rcases hbytes with rfl | ⟨htruncate, hfile⟩
    · -- an empty part that is not truncated is not held
      by_cases hzero : (if there > size then 0 else there) = 0
      · rw [hzero]
        rfl
      · exfalso
        have hfalse : decide ((if there > size then 0 else there) = 0) = false := decide_eq_false hzero
        rw [hfalse] at hdisk
        unfold Disk.openFile at hdisk
        have hthere' : there ≠ 0 := by
          intro heq
          rw [heq] at hzero
          exact hzero (ite_self 0)
        cases hnode : self.disk (partPath target) with
        | none =>
          rw [hnode] at hthere
          refine hthere' (hthere.symm.trans ?_)
          split <;> rfl
        | some node =>
          rw [hnode] at hdisk hthere
          cases node with
          | folder => cases hdisk
          | file bytes' synced' =>
            simp only [Bool.false_eq_true, if_false, Option.some.injEq] at hdisk
            rw [← hdisk, Disk.set_self] at hpart
            cases hpart
            refine hthere' (hthere.symm.trans ?_)
            split <;> rfl
    · have hzero : (if there > size then 0 else there) ≠ 0 := of_decide_eq_false htruncate
      have hsome : there = bytes.length := by
        rw [← hthere, hfile]
        split
        · rfl
        · rename_i hnot
          exfalso
          rw [if_neg hnot] at hthere
          rw [← hthere] at hzero
          exact hzero (ite_self 0)
      split at hzero
      · exact absurd rfl hzero
      · rename_i hle
        rw [if_neg hle, hsome]
  refine ⟨target, htarget, rfl, rfl, rfl, rfl, hlength, ?_, hother, synced, hpart, ?_⟩
  · split
    · exact Nat.zero_le _
    · rename_i hle
      exact not_lt.mp hle
  · exact hbytes.imp_right fun hfile => hfile.2

omit [Casing] in
/-- The part of an open upload, written on. -/
theorem Open.write_part {self : Uploads} {upload : Upload} (h : self.Open upload) (bytes : List UInt8) :
    self.disk.write upload.part upload.written bytes upload.part
      = some (.file (self.held ++ self.chunks.flatten ++ bytes) false) := by
  obtain ⟨synced, hpart⟩ := h.content
  unfold Disk.write
  rw [hpart, h.written]
  simp only [Disk.set_self, writeAt_length]

omit [Casing] in
/-- A chunk that is refused or fails closes the upload, and at most its part has more. -/
theorem chunk_error {self self' : Uploads} {bytes : List UInt8} {failsAfter : Option ℕ}
    {error : FileError} (h : self.chunk bytes failsAfter = (.error error, self')) :
    self'.shares = self.shares ∧ self'.upload = none ∧
      (self'.disk = self.disk ∨ ∃ upload n, self.upload = some upload ∧
        upload.written + bytes.length ≤ upload.size ∧
        self'.disk = self.disk.write upload.part upload.written (bytes.take n)) := by
  unfold chunk at h
  split at h
  · rename_i hnone
    cases h
    exact ⟨rfl, hnone, .inl rfl⟩
  rename_i upload hupload
  split at h
  · cases h
    exact ⟨rfl, rfl, .inl rfl⟩
  rename_i hsize
  split at h
  · rename_i n
    cases h
    exact ⟨rfl, rfl, .inr ⟨upload, n, hupload, not_lt.mp hsize, rfl⟩⟩
  · simp only at h
    split at h <;> cases h

omit [Casing] in
/-- A chunk that is accepted is written behind the others, and acknowledged or not. -/
theorem chunk_ok {self self' : Uploads} {bytes : List UInt8} {failsAfter : Option ℕ}
    {acked : Option ℕ} (h : self.chunk bytes failsAfter = (.ok acked, self')) :
    ∃ upload, self.upload = some upload ∧ upload.written + bytes.length ≤ upload.size ∧
      self'.shares = self.shares ∧ self'.held = self.held ∧ self'.chunks = self.chunks ++ [bytes] ∧
      self'.disk = self.disk.write upload.part upload.written bytes ∧
      ((acked = none ∧ self'.acks = self.acks ∧
          self'.upload = some { upload with written := upload.written + bytes.length }) ∨
        (acked = some (upload.written + bytes.length) ∧
          self'.acks = self.acks ++ [upload.written + bytes.length] ∧
          self'.upload = some { upload with
            written := upload.written + bytes.length, acked := upload.written + bytes.length })) := by
  unfold chunk at h
  split at h
  · cases h
  rename_i upload hupload
  split at h
  · cases h
  rename_i hsize
  split at h
  · cases h
  simp only at h
  split at h
  · cases h
    exact ⟨upload, hupload, not_lt.mp hsize, rfl, rfl, rfl, rfl, .inr ⟨rfl, rfl, rfl⟩⟩
  · cases h
    exact ⟨upload, hupload, not_lt.mp hsize, rfl, rfl, rfl, rfl, .inl ⟨rfl, rfl, rfl⟩⟩

/-- The part put at the target. -/
def place (disk : Disk) (upload : Upload) (bytes : List UInt8) : Disk :=
  (disk.set upload.part none).set upload.target (some (.file bytes true))

omit [Casing] in
/-- The finish of a complete upload, when its part is on the disk. -/
theorem Open.finish_eq {self : Uploads} {upload : Upload} (h : self.Open upload)
    (hupload : self.upload = some upload) (hsize : upload.written = upload.size) (removes renames : Bool) :
    self.finish true removes renames =
      let bytes := self.held ++ self.chunks.flatten
      let disk := self.disk.set upload.part (some (.file bytes true))
      match self.disk upload.target with
      | some .folder => (.error .system, { self with disk := disk, upload := none })
      | none =>
        if renames then (.ok upload.size, { self with disk := place disk upload bytes, upload := none })
        else (.error .system, { self with disk := disk, upload := none })
      | some (.file _ _) =>
        if !removes then (.error .system, { self with disk := disk, upload := none })
        else if renames then
          (.ok upload.size, { self with
            disk := place (disk.set upload.target none) upload bytes, upload := none })
        else (.error .system, { self with disk := disk.set upload.target none, upload := none }) := by
  obtain ⟨synced, hpart⟩ := h.content
  have hne : upload.target ≠ upload.part := fun heq => h.part_ne heq.symm
  have hsync : self.disk.sync upload.part
      = self.disk.set upload.part (some (.file (self.held ++ self.chunks.flatten) true)) := by
    unfold Disk.sync
    rw [hpart]
  unfold Uploads.finish
  simp only [hupload, hsize, ne_eq, not_true_eq_false, if_false, Bool.not_true, Bool.false_eq_true, hsync,
    Disk.set_of_ne _ _ hne]
  cases htarget : self.disk upload.target with
  | none =>
    simp only [Option.map_none, Option.getD_none, Bool.false_and, Bool.false_eq_true, if_false,
      Disk.rename, Disk.set_self, Disk.set_of_ne _ _ hne, htarget, reduceCtorEq]
    cases renames <;> rfl
  | some node =>
    cases node with
    | folder =>
      simp only [Option.map_some, Option.getD_some, Node.isFile, Bool.false_and, Bool.false_eq_true,
        if_false, Disk.rename, Disk.set_self, Disk.set_of_ne _ _ hne, htarget, if_true]
    | file old oldSynced =>
      cases removes with
      | false => rfl
      | true =>
        simp only [Option.map_some, Option.getD_some, Node.isFile, Bool.true_and, Bool.not_true,
          Bool.false_eq_true, if_false, if_true, Disk.rename, Disk.set_self,
          Disk.set_of_ne _ _ h.part_ne, reduceCtorEq]
        cases renames <;> rfl

omit [Casing] in
/-- The part of an open upload has no more than was announced. -/
theorem Open.length_le {self : Uploads} {upload : Upload} (h : self.Open upload) {bytes : List UInt8}
    {synced : Bool} (hpart : self.disk upload.part = some (.file bytes synced)) :
    bytes.length ≤ upload.size := by
  obtain ⟨synced', hcontent⟩ := h.content
  rw [hcontent] at hpart
  cases hpart
  exact h.written ▸ h.written_le

omit [Casing] in
/-- Opening a file leaves of every file all or nothing. -/
theorem length_le_of_openFile {disk disk' : Disk} {path : PathBuf} {truncate : Bool}
    (h : disk.openFile path truncate = some disk') {other : PathBuf} {bytes : List UInt8} {synced : Bool}
    (hfile : disk' other = some (.file bytes synced)) :
    bytes = [] ∨ disk other = some (.file bytes synced) := by
  obtain ⟨hother, bytes', synced', hpath, hbytes⟩ := Disk.openFile_some h
  by_cases heq : other = path
  · subst heq
    rw [hpath] at hfile
    cases hfile
    exact hbytes.imp_right fun h => h.2
  · rw [hother other heq] at hfile
    exact .inr hfile

/-! ### What every request preserves -/

/-- A request that fails, and leaves no file but a part otherwise than it was. -/
theorem Inv.ok_of_failed {self self' : Uploads} (h : self.Inv) {e : Event} {error : FileError}
    (hhandle : self.handle platform tree e = (self', [.error error]))
    (hnew : ∀ upload, self'.upload = some upload → self.upload = some upload)
    (hpart : ∀ upload, self.upload = some upload → ∀ bytes synced,
      self'.disk upload.part = some (.file bytes synced) → bytes.length ≤ upload.size)
    (huntouched : ∀ path, (self.targetOf platform tree e = some path ∨
      (self.targetOf platform tree e).map partPath ≠ some path) → self'.disk path = self.disk path) :
    self.Ok platform tree e := by
  refine ⟨?_, ?_, ?_, ?_, ?_⟩ <;> rw [hhandle]
  · intro size hmem
    exact absurd (List.mem_singleton.mp hmem) (by simp)
  · intro offset hmem
    exact absurd (List.mem_singleton.mp hmem) (by simp)
  · intro upload hupload
    have hupload : self.upload = some upload := hupload.elim id (hnew upload)
    exact ⟨(h upload hupload).size_le, hpart upload hupload⟩
  · intro acked hmem
    exact absurd (List.mem_singleton.mp hmem) (by simp)
  · intro error' _ path hpath
    exact huntouched path hpath

/-- An upload that is asked for. -/
theorem Inv.write {self : Uploads} (h : self.Inv) (share path : Text) (size : ℕ)
    (resume seen opens seeks : Bool) :
    (self.handle platform tree (.write share path size resume seen opens seeks)).1.Inv ∧
      self.Ok platform tree (.write share path size resume seen opens seeks) := by
  have htarget {target : PathBuf} (ht : self.targetFor platform tree share path size = .ok target) :
      self.targetOf platform tree (.write share path size resume seen opens seeks) = some target := by
    simp only [targetOf, ht]
  cases hbegin : self.beginUpload platform tree share path size resume seen opens seeks with
  | mk result self' =>
    cases result with
    | error e =>
      obtain ⟨hnone, hshares, hdisk⟩ := beginUpload_error hbegin
      have hhandle : self.handle platform tree (.write share path size resume seen opens seeks)
          = (self', [.error e]) := by simp only [handle, hbegin]
      have hnew : ∀ upload, self'.upload = some upload → self.upload = some upload := by
        intro upload hupload
        rw [hnone] at hupload
        cases hupload
      refine ⟨?_, h.ok_of_failed hhandle hnew ?_ ?_⟩
      · rw [hhandle]
        exact fun upload hupload => absurd (hnone.symm.trans hupload) nofun
      · intro upload hupload bytes synced hpart
        rcases hdisk with hdisk | ⟨target, truncate, -, hdisk⟩
        · rw [hdisk] at hpart
          exact (h upload hupload).length_le hpart
        · rcases length_le_of_openFile hdisk hpart with rfl | hpart
          · exact Nat.zero_le _
          · exact (h upload hupload).length_le hpart
      · intro path' hpath
        rcases hdisk with hdisk | ⟨target, truncate, ht, hdisk⟩
        · rw [hdisk]
        · rw [htarget ht] at hpath
          refine (Disk.openFile_some hdisk).1 path' ?_
          rintro rfl
          rcases hpath with hpath | hpath
          · exact (targetFor_ok ht).2.1 (Option.some.inj hpath).symm
          · exact hpath rfl
    | ok offset =>
      obtain ⟨target, ht, hupload', hshares, hchunks, hacks, hheld, hle, hother, synced, hpart, hbefore⟩ :=
        beginUpload_ok hbegin
      obtain ⟨hsize, hne, -⟩ := targetFor_ok ht
      have hhandle : self.handle platform tree (.write share path size resume seen opens seeks)
          = (self', [.ready offset]) := by simp only [handle, hbegin]
      have hopen : self'.Open ⟨partPath target, target, size, offset, offset⟩ := by
        refine ⟨rfl, hne, ⟨synced, ?_⟩, ?_, hle, ?_, ?_, Nat.le_refl _⟩
        · rw [hchunks, List.flatten_nil, List.append_nil]
          exact hpart
        · rw [hchunks, List.flatten_nil, List.append_nil, hheld]
        · rw [hshares]
          exact hsize
        · intro acked hmem
          rw [hacks] at hmem
          exact (List.mem_singleton.mp hmem).le
      refine ⟨?_, ⟨?_, ?_, ?_, ?_, ?_⟩⟩ <;> rw [hhandle]
      · intro upload hupload
        rw [hupload'] at hupload
        cases hupload
        exact hopen
      · intro size hmem
        exact absurd (List.mem_singleton.mp hmem) (by simp)
      · intro offset' hmem
        obtain rfl : offset' = offset := by simpa using hmem
        exact ⟨_, hupload', hheld, hchunks, hbefore.imp_right fun hfile => ⟨synced, hfile⟩⟩
      · rintro upload (hupload | hupload)
        · refine ⟨(h upload hupload).size_le, ?_⟩
          intro bytes synced' hpart'
          by_cases heq : upload.part = partPath target
          · rw [heq, hpart] at hpart'
            cases hpart'
            rcases hbefore with hnil | hbefore
            · rw [hnil]
              exact Nat.zero_le _
            · rw [← heq] at hbefore
              exact (h upload hupload).length_le hbefore
          · rw [hother _ heq] at hpart'
            exact (h upload hupload).length_le hpart'
        · rw [hupload'] at hupload
          cases hupload
          refine ⟨hsize, ?_⟩
          intro bytes synced' hpart'
          exact hopen.length_le hpart'
      · intro acked hmem
        exact absurd (List.mem_singleton.mp hmem) (by simp)
      · intro error hmem
        exact absurd (List.mem_singleton.mp hmem) (by simp)

/-- Bytes that arrive. -/
theorem Inv.chunk {self : Uploads} (h : self.Inv) (bytes : List UInt8) (failsAfter : Option ℕ) :
    (self.handle platform tree (.chunk bytes failsAfter)).1.Inv ∧
      self.Ok platform tree (.chunk bytes failsAfter) := by
  cases hchunk : self.chunk bytes failsAfter with
  | mk result self' =>
    cases result with
    | error e =>
      obtain ⟨hshares, hnone, hdisk⟩ := chunk_error hchunk
      have hhandle : self.handle platform tree (.chunk bytes failsAfter) = (self', [.error e]) := by
        simp only [handle, hchunk]
      have hnew : ∀ upload, self'.upload = some upload → self.upload = some upload := by
        intro upload hupload
        rw [hnone] at hupload
        cases hupload
      refine ⟨?_, h.ok_of_failed hhandle hnew ?_ ?_⟩
      · rw [hhandle]
        exact fun upload hupload => absurd (hnone.symm.trans hupload) nofun
      · intro upload hupload content synced hpart
        rcases hdisk with hdisk | ⟨upload', n, hupload', hfits, hdisk⟩
        · rw [hdisk] at hpart
          exact (h upload hupload).length_le hpart
        · -- what was written before it failed fits too
          rw [hupload] at hupload'
          cases hupload'
          rw [hdisk, (h upload hupload).write_part] at hpart
          cases hpart
          rw [List.length_append, ← (h upload hupload).written, List.length_take]
          omega
      · intro path hpath
        rcases hdisk with hdisk | ⟨upload, n, hupload, -, hdisk⟩
        · rw [hdisk]
        · rw [hdisk]
          refine Disk.write_of_ne _ _ _ ?_
          rintro rfl
          simp only [targetOf, hupload, Option.map_some] at hpath
          rcases hpath with hpath | hpath
          · exact (h upload hupload).part_ne (Option.some.inj hpath).symm
          · exact hpath (congrArg some (h upload hupload).part_eq.symm)
    | ok acked =>
      obtain ⟨upload, hupload, hfits, hshares, hheld, hchunks, hdisk, hacked⟩ := chunk_ok hchunk
      have hopen := h upload hupload
      have hhandle : self.handle platform tree (.chunk bytes failsAfter)
          = (self', (acked.map .ack).toList) := by simp only [handle, hchunk]
      -- what has come with these bytes
      have hcontent : self'.held ++ self'.chunks.flatten = self.held ++ self.chunks.flatten ++ bytes := by
        rw [hheld, hchunks, List.flatten_concat, List.append_assoc]
      have hpart : self'.disk upload.part = some (.file (self'.held ++ self'.chunks.flatten) false) := by
        rw [hdisk, hopen.write_part, hcontent]
      have hwritten : upload.written + bytes.length = (self'.held ++ self'.chunks.flatten).length := by
        rw [hcontent, List.length_append, hopen.written]
      have hopen' {upload' : Upload} (hupload' : self'.upload = some upload') :
          self'.Open upload' ∧ upload'.part = upload.part ∧ upload'.size = upload.size := by
        rcases hacked with ⟨-, hacks, hnew⟩ | ⟨-, hacks, hnew⟩
        · rw [hnew] at hupload'
          cases hupload'
          refine ⟨⟨hopen.part_eq, hopen.part_ne, ⟨false, hpart⟩, hwritten, hfits, ?_, ?_, ?_⟩, rfl, rfl⟩
          · rw [hshares]
            exact hopen.size_le
          · rw [hacks]
            exact hopen.acks_le
          · exact hopen.acked_le.trans (Nat.le_add_right _ _)
        · rw [hnew] at hupload'
          cases hupload'
          refine ⟨⟨hopen.part_eq, hopen.part_ne, ⟨false, hpart⟩, hwritten, hfits, ?_, ?_, ?_⟩, rfl, rfl⟩
          · rw [hshares]
            exact hopen.size_le
          · rw [hacks]
            intro before hmem
            rcases List.mem_append.mp hmem with hmem | hmem
            · exact (hopen.acks_le before hmem).trans (hopen.acked_le.trans (Nat.le_add_right _ _))
            · exact (List.mem_singleton.mp hmem).le
          · exact Nat.le_refl _
      have hreply {reply : FileReply} (hmem : reply ∈ (acked.map FileReply.ack).toList) :
          reply = .ack (upload.written + bytes.length) ∧ acked = some (upload.written + bytes.length) := by
        rcases hacked with ⟨rfl, -⟩ | ⟨rfl, -⟩
        · cases hmem
        · exact ⟨List.mem_singleton.mp hmem, rfl⟩
      refine ⟨?_, ⟨?_, ?_, ?_, ?_, ?_⟩⟩ <;> rw [hhandle]
      · intro upload' hupload'
        exact (hopen' hupload').1
      · intro size hmem
        exact absurd (hreply hmem).1 (by simp)
      · intro offset hmem
        exact absurd (hreply hmem).1 (by simp)
      · rintro upload' (hupload' | hupload')
        · rw [hupload] at hupload'
          cases hupload'
          refine ⟨hopen.size_le, ?_⟩
          intro content synced hfile
          rw [hpart] at hfile
          cases hfile
          exact hwritten ▸ hfits
        · obtain ⟨hopened, heq, hsize⟩ := hopen' hupload'
          refine ⟨hshares ▸ hopened.size_le, ?_⟩
          intro content synced hfile
          exact hopened.length_le hfile
      · intro before hmem
        obtain ⟨heq, -⟩ := hreply hmem
        cases heq
        refine ⟨?_, hwritten⟩
        intro acked' hacked'
        exact (hopen.acks_le acked' hacked').trans (hopen.acked_le.trans (Nat.le_add_right _ _))
      · intro error hmem
        exact absurd (hreply hmem).1 (by simp)

omit [Casing] in
/-- What `place` leaves of the paths. -/
theorem place_target (disk : Disk) (upload : Upload) (bytes : List UInt8) :
    place disk upload bytes upload.target = some (.file bytes true) := Disk.set_self _ _ _

omit [Casing] in
theorem place_part (disk : Disk) {upload : Upload} (h : upload.part ≠ upload.target) (bytes : List UInt8) :
    place disk upload bytes upload.part = none := by
  rw [place, Disk.set_of_ne _ _ h, Disk.set_self]

/-- A request that fails, and leaves every file as it was. -/
theorem Inv.ok_of_error {self self' : Uploads} (h : self.Inv) {e : Event} {error : FileError}
    (hhandle : self.handle platform tree e = (self', [.error error]))
    (hnew : ∀ upload, self'.upload = some upload → self.upload = some upload)
    (hbytes : ∀ path bytes synced, self'.disk path = some (.file bytes synced) →
      ∃ synced', self.disk path = some (.file bytes synced'))
    (huntouched : ∀ path, (self.targetOf platform tree e = some path ∨
      (self.targetOf platform tree e).map partPath ≠ some path) → self'.disk path = self.disk path) :
    self.Ok platform tree e := by
  refine h.ok_of_failed hhandle hnew ?_ huntouched
  intro upload hupload bytes synced hpart
  obtain ⟨synced', hpart⟩ := hbytes _ _ _ hpart
  exact (h upload hupload).length_le hpart

omit [Casing] in
/-- Closing the upload keeps everything. -/
theorem inv_of_none {self : Uploads} (h : self.upload = none) : self.Inv := by
  intro upload hupload
  rw [h] at hupload
  cases hupload

theorem handle_finish_error {self self' : Uploads} {syncs removes renames : Bool} {error : FileError}
    (h : self.finish syncs removes renames = (.error error, self')) :
    self.handle platform tree (.finish syncs removes renames) = (self', [.error error]) := by
  simp only [handle, h]

theorem handle_finish_ok {self self' : Uploads} {syncs removes renames : Bool} {size : ℕ}
    (h : self.finish syncs removes renames = (.ok size, self')) :
    self.handle platform tree (.finish syncs removes renames) = (self', [.done size]) := by
  simp only [handle, h]

/-- A complete upload that is put in place. -/
theorem Open.ok_done {self self' : Uploads} {upload : Upload} (h : self.Open upload)
    (hupload : self.upload = some upload) (hsize : upload.written = upload.size)
    {syncs removes renames : Bool}
    (hfinish : self.finish syncs removes renames = (.ok upload.size, self'))
    (hnone : self'.upload = none) {disk : Disk}
    (hdisk : self'.disk = place disk upload (self.held ++ self.chunks.flatten)) :
    self.Ok platform tree (.finish syncs removes renames) := by
  have hhandle : self.handle platform tree (.finish syncs removes renames) = (self', [.done upload.size]) :=
    handle_finish_ok hfinish
  refine ⟨?_, ?_, ?_, ?_, ?_⟩ <;> rw [hhandle]
  · intro size hmem
    obtain rfl : size = upload.size := by simpa using hmem
    refine ⟨upload, true, hupload, rfl, ?_, ?_⟩
    · rw [hdisk, place_target]
    · rw [← h.written, hsize]
  · intro offset hmem
    exact absurd (List.mem_singleton.mp hmem) (by simp)
  · rintro upload' (hupload' | hupload')
    · rw [hupload] at hupload'
      cases hupload'
      refine ⟨h.size_le, ?_⟩
      intro bytes synced hpart
      rw [hdisk, place_part _ h.part_ne] at hpart
      cases hpart
    · rw [hnone] at hupload'
      cases hupload'
  · intro acked hmem
    exact absurd (List.mem_singleton.mp hmem) (by simp)
  · intro error hmem
    exact absurd (List.mem_singleton.mp hmem) (by simp)

/-- A finish is as wanted exactly if it keeps the file it was to replace. -/
theorem Inv.finish {self : Uploads} (h : self.Inv) (syncs removes renames : Bool) :
    (self.handle platform tree (.finish syncs removes renames)).1.Inv ∧
      (self.Ok platform tree (.finish syncs removes renames) ↔ self.Keeps (.finish syncs removes renames)) := by
  -- an upload that is not put in place, and stays as it is
  have hsame (error : FileError) (hfinish : self.finish syncs removes renames = (.error error, self))
      (hkeeps : self.Keeps (.finish syncs removes renames)) :
      (self.handle platform tree (.finish syncs removes renames)).1.Inv ∧
        (self.Ok platform tree (.finish syncs removes renames)
          ↔ self.Keeps (.finish syncs removes renames)) := by
    have hhandle : self.handle platform tree (.finish syncs removes renames) = (self, [.error error]) :=
      handle_finish_error hfinish
    refine ⟨by rw [hhandle]; exact h, iff_of_true ?_ hkeeps⟩
    exact h.ok_of_error hhandle (fun _ => id) (fun _ _ synced hfile => ⟨synced, hfile⟩) fun _ _ => rfl
  cases hupload : self.upload with
  | none =>
    refine hsame .noUpload ?_ ?_
    · simp only [Uploads.finish, hupload]
    · intro upload hsome
      rw [hupload] at hsome
      cases hsome
  | some upload =>
    have hopen := h upload hupload
    by_cases hsize : upload.written = upload.size
    rotate_left
    · refine hsame (.incomplete upload.written upload.size) ?_ ?_
      · simp only [Uploads.finish, hupload, ne_eq, hsize, not_false_eq_true, if_true]
      · intro upload' hsome hsize'
        rw [hupload] at hsome
        cases hsome
        exact absurd hsize' hsize
    cases syncs with
    | false =>
      refine hsame .system ?_ ?_
      · simp only [Uploads.finish, hupload, ne_eq, hsize, not_true_eq_false, if_false, Bool.not_false,
          if_true]
      · intro upload' _ _ hsyncs
        cases hsyncs
    | true =>
      have hfinish := hopen.finish_eq hupload hsize removes renames
      have hne : upload.target ≠ upload.part := fun heq => hopen.part_ne heq.symm
      have htargetOf : self.targetOf platform tree (.finish true removes renames) = some upload.target := by
        simp only [targetOf, hupload, Option.map_some]
      -- a failure once the part is synced
      have hsynced {error : FileError} (hfinish : self.finish true removes renames = (.error error,
          { self with
            disk := self.disk.set upload.part (some (.file (self.held ++ self.chunks.flatten) true))
            upload := none })) : self.Ok platform tree (.finish true removes renames) := by
        refine h.ok_of_error (handle_finish_error hfinish) nofun ?_ ?_
        · intro path bytes synced hfile
          simp only at hfile
          by_cases heq : path = upload.part
          · subst heq
            rw [Disk.set_self] at hfile
            cases hfile
            exact hopen.content
          · rw [Disk.set_of_ne _ _ heq] at hfile
            exact ⟨synced, hfile⟩
        · intro path hpath
          refine Disk.set_of_ne _ _ ?_
          rintro rfl
          rw [htargetOf] at hpath
          rcases hpath with hpath | hpath
          · exact hne (Option.some.inj hpath)
          · exact hpath (congrArg some hopen.part_eq.symm)
      have hnone : (self.handle platform tree (.finish true removes renames)).1.upload = none := by
        simp only [handle, hfinish]
        cases self.disk upload.target with
        | none => cases renames <;> rfl
        | some node =>
          cases node with
          | folder => rfl
          | file old oldSynced => cases removes <;> cases renames <;> rfl
      refine ⟨inv_of_none hnone, ?_⟩
      cases htarget : self.disk upload.target with
      | none =>
        rw [htarget] at hfinish
        have hkeeps : self.Keeps (.finish true removes renames) := by
          intro upload' hsome _ _ bytes synced hfile
          rw [hupload] at hsome
          cases hsome
          rw [htarget] at hfile
          cases hfile
        cases renames with
        | false => exact iff_of_true (hsynced hfinish) hkeeps
        | true =>
          exact iff_of_true (hopen.ok_done hupload hsize hfinish rfl rfl) hkeeps
      | some node =>
        rw [htarget] at hfinish
        cases node with
        | folder =>
          refine iff_of_true (hsynced hfinish) ?_
          intro upload' hsome _ _ bytes synced hfile
          rw [hupload] at hsome
          cases hsome
          rw [htarget] at hfile
          cases hfile
        | file old oldSynced =>
          cases removes with
          | false =>
            refine iff_of_true (hsynced hfinish) ?_
            intro upload' _ _ _ bytes synced _ hremoves
            cases hremoves
          | true =>
            cases renames with
            | true =>
              refine iff_of_true (hopen.ok_done hupload hsize hfinish rfl rfl) ?_
              exact fun _ _ _ _ _ _ _ _ => rfl
            | false =>
              -- the old file is gone
              refine iff_of_false (fun hok => ?_) fun hkeeps => ?_
              · have hhandle : self.handle platform tree (.finish true true false) = _ :=
                  handle_finish_error hfinish
                have hgone := hok.untouched .system (by rw [hhandle]; exact List.mem_singleton_self _)
                  upload.target (.inl htargetOf)
                rw [hhandle, htarget] at hgone
                simp only [Disk.set_self, reduceCtorEq] at hgone
              · have := hkeeps upload hupload hsize rfl old oldSynced htarget rfl
                cases this

/-- **What every request preserves**, and when it is as wanted. -/
theorem Inv.handle {self : Uploads} (h : self.Inv) (e : Event) :
    (self.handle platform tree e).1.Inv ∧ (self.Ok platform tree e ↔ self.Keeps e) := by
  cases e with
  | write share path size resume seen opens seeks =>
    obtain ⟨hinv, hok⟩ := h.write share path size resume seen opens seeks
    exact ⟨hinv, iff_of_true hok trivial⟩
  | chunk bytes failsAfter =>
    obtain ⟨hinv, hok⟩ := h.chunk bytes failsAfter
    exact ⟨hinv, iff_of_true hok trivial⟩
  | finish syncs removes renames => exact h.finish syncs removes renames
  | cancel =>
    refine ⟨inv_of_none rfl, iff_of_true ⟨nofun, nofun, ?_, nofun, nofun⟩ trivial⟩
    rintro upload (hupload | hupload)
    · exact ⟨(h upload hupload).size_le, fun _ _ => (h upload hupload).length_le⟩
    · cases hupload

theorem inv_run {shares : Shares} {disk : Disk} (es : List Event) :
    ((new shares disk).run platform tree es).Inv := by
  induction es using List.reverseRecOn with
  | nil => exact inv_of_none rfl
  | append_singleton es e ih =>
    rw [run, List.foldl_concat]
    exact (ih.handle e).1

/-- **Uploads are as wanted exactly if no rename fails once the old file is removed**: in
every run of requests on every disk, with file operations that work or fail in any way,
every request is as wanted if and only if no finish of a complete upload, which syncs its
part and removes the file it is to replace, fails to rename. -/
theorem uploads_ok_iff (platform : Platform) (tree : Tree) (shares : Shares) (disk : Disk)
    (es : List Event) :
    Run.Always (fun before e => ((new shares disk).run platform tree before).Ok platform tree e) es ↔
      Run.Always (fun before e => ((new shares disk).run platform tree before).Keeps e) es := by
  refine Run.always_congr (I := fun before _ => ((new shares disk).run platform tree before).Inv) ?_ ?_
  · exact fun before _ _ _ => inv_run before
  · exact fun before e h => (h.handle e).2

end

/-- A disk with one file in the shared folder. -/
def notes : PathBuf := [.root [], .normal "share".toList, .normal "notes".toList]

def notesDisk : Disk := fun path => if path = notes then some (.file [2] true) else none

/-- A new version of it, whose rename fails. -/
def newNotes : List Event :=
  [.write "saves".toList "notes".toList 1 false true true true, .chunk [1] none, .finish true true false]

/-- **A finish that fails leaves nothing at its target**, where there was a file. -/
theorem failed_rename_loses_file :
    ¬ ∀ (_ : Casing) (platform : Platform) (tree : Tree) (shares : Shares) (disk : Disk) (es : List Event),
      Run.Always (fun before e => ((new shares disk).run platform tree before).Ok platform tree e) es := by
  intro h
  have hlast := h Text.asciiCasing .unix linkedTree linkedShares notesDisk newNotes (newNotes.take 2)
    (.finish true true false) [] rfl
  have hkept := @Ok.untouched Text.asciiCasing _ _ _ _ hlast .system (by decide +kernel) notes
    (.inl (by decide +kernel))
  revert hkept
  decide +kernel

end Uploads

end WindowCast.Files
