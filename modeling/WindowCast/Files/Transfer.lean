import WindowCast.Files.Uploads

/-!
# An upload from end to end

The client's `upload` of `client-core/src/files.rs`, the host's service of `host-core/src/files.rs`
and the two directions of the channel between them, in any order of steps: the host takes requests
in the order they were sent, the client hears replies in theirs or gives up waiting, and every
file operation works or fails.

## Main definitions

* `Transfer.upload` — what the client does with what it hears.
* `Transfer.step` — one step of the client or of the host.
* `Transfer.Placed` — the file is in place: what the part held, and the rest of the client's file.
* `Transfer.Proper` — a step in which nothing fails and nobody gives up.

## Main results

* `Transfer.upload_places` — **an upload that returns has put the file in place.**
* `Transfer.upload_flows` — **what is on the way fits in the window, and nobody waits for nothing.**
* `Transfer.upload_completes` — **an upload in which nothing fails ends, and with the file's size.**
-/

namespace WindowCast.Files

/-- Only a folder cannot be opened to write. -/
theorem Disk.openFile_none {disk : Disk} {path : PathBuf} {truncate : Bool}
    (h : disk.openFile path truncate = none) : disk path = some .folder := by
  unfold Disk.openFile at h
  split at h
  · cases h
  · split at h <;> cases h
  · assumption

/-- A client keeps no more than this many bytes unacknowledged. -/
def UPLOAD_WINDOW : ℕ := 1024 * 1024

namespace Transfer

/-! ### The client -/

/-- Why a call on a files channel fails. -/
inductive ClientError
  /-- The client's own file cannot be read. -/
  | io
  | refused (reason : FileError)
  /-- the download is incomplete: … of … bytes -/
  | incomplete (got size : ℕ)
  /-- the host answered unexpectedly: … -/
  | unexpected (reply : FileReply)
  /-- the file channel closed -/
  | closed
  /-- the host did not answer -/
  | noAnswer
  deriving DecidableEq, Repr

/-- What comes of waiting for the host's next reply. -/
inductive Heard
  | reply (reply : FileReply)
  | closed
  | nothing

/-- Where the client is in `upload`. -/
inductive Phase
  /-- The upload is asked for. -/
  | asked
  /-- So much is sent, and so much of it acknowledged; a chunk is next. -/
  | sending (sent acked : ℕ)
  /-- All is sent, and the end of it too. -/
  | finishing
  | returned (result : Except ClientError ℕ)
  deriving DecidableEq

/-- Whether the client cannot go on without a reply. -/
def Phase.Waits : Phase → Prop
  | .asked => True
  | .sending sent acked => UPLOAD_WINDOW ≤ sent - acked
  | .finishing => True
  | .returned _ => False

instance : DecidablePred Phase.Waits
  | .asked => inferInstanceAs (Decidable True)
  | .sending sent acked => inferInstanceAs (Decidable (UPLOAD_WINDOW ≤ sent - acked))
  | .finishing => inferInstanceAs (Decidable True)
  | .returned _ => inferInstanceAs (Decidable False)

section

variable (content : List UInt8)

/-- The head of the loop over the chunks, and what is behind it. -/
def more (sent acked : ℕ) : Phase × List FileRequest :=
  if sent < content.length then (.sending sent acked, []) else (.finishing, [.finish])

/-- Sends the next chunk, if it can be read. -/
def sendChunk (sent acked : ℕ) (reads : Bool) : Phase × List FileRequest :=
  if reads then
    let want := min FILE_CHUNK (content.length - sent)
    let (phase, requests) := more content (sent + want) acked
    (phase, .chunk ((content.drop sent).take want) :: requests)
  else (.returned (.error .io), [])

/-- A reply that is not the one that was waited for, or none. -/
def refuse : Heard → Phase × List FileRequest
  | .reply (.error reason) => (.returned (.error (.refused reason)), [])
  | .reply reply => (.returned (.error (.unexpected reply)), [])
  | .closed => (.returned (.error .closed), [])
  | .nothing => (.returned (.error .noAnswer), [])

/-- Uploads a file: what the client does with what it hears, when its own file can be read or
not. -/
def upload : Phase → Heard → (reads : Bool) → Phase × List FileRequest
  | .asked, heard, reads =>
    match heard with
    | .reply (.ready offset) => if reads then more content offset offset else (.returned (.error .io), [])
    | heard => refuse heard
  | .sending sent acked, heard, reads =>
    match heard with
    | .reply (.ack written) =>
      let acked := max acked written
      -- with the window full, the next acknowledgement is waited for
      if sent - acked < UPLOAD_WINDOW then sendChunk content sent acked reads
      else (.sending sent acked, [])
    | .nothing =>
      if sent - acked ≥ UPLOAD_WINDOW then refuse .nothing else sendChunk content sent acked reads
    | heard => refuse heard
  | .finishing, heard, _ =>
    match heard with
    | .reply (.ack _) => (.finishing, [])
    | .reply (.done size) => (.returned (.ok size), [])
    | heard => refuse heard
  | .returned result, _, _ => (.returned result, [])

end

/-! ### The client, the host and the channel -/

/-- Which file operations of the host work. -/
structure Fate where
  seen : Bool
  opens : Bool
  seeks : Bool
  failsAfter : Option ℕ
  syncs : Bool
  removes : Bool
  renames : Bool
  deriving DecidableEq

def Fate.works : Fate := ⟨true, true, true, none, true, true, true⟩

def Fate.eventOf (fate : Fate) : FileRequest → Option Uploads.Event
  | .write share path size resume => some (.write share path size resume fate.seen fate.opens fate.seeks)
  | .chunk bytes => some (.chunk bytes fate.failsAfter)
  | .finish => some (.finish fate.syncs fate.removes fate.renames)
  | _ => none

/-- The client, the host, and what is on the way between them. -/
structure System where
  client : Phase
  toHost : List FileRequest
  host : Uploads
  toClient : List FileReply

inductive Act
  /-- The host carries out the next request. -/
  | serve (fate : Fate)
  /-- The client hears the next reply. -/
  | hear (reads : Bool)
  /-- No reply comes in time. -/
  | wait (reads : Bool)
  /-- The client finds the channel closed. -/
  | close
  deriving DecidableEq

section

variable [Casing] (platform : Platform) (tree : Tree)

/-- An upload is asked for. -/
def start (host : Uploads) (share path : Text) (content : List UInt8) (resume : Bool) : System :=
  ⟨.asked, [.write share path content.length resume], host, []⟩

/-- The client goes on with what it heard. -/
def System.go (content : List UInt8) (t : System) (heard : Heard) (reads : Bool) : Option System :=
  match t.client with
  | .returned _ => none
  | phase =>
    let (client, requests) := upload content phase heard reads
    some { t with client := client, toHost := t.toHost ++ requests }

def step (content : List UInt8) (t : System) : Act → Option System
  | .serve fate =>
    match t.toHost with
    | [] => none
    | request :: toHost =>
      (fate.eventOf request).map fun e =>
        let (host, replies) := t.host.handle platform tree e
        { t with toHost := toHost, host := host, toClient := t.toClient ++ replies }
  | .hear reads =>
    match t.toClient with
    | [] => none
    | reply :: toClient => { t with toClient := toClient }.go content (.reply reply) reads
  | .wait reads => t.go content .nothing reads
  | .close => t.go content .closed true

end

/-- A step that goes as it should: every file operation works, and nobody gives up. -/
def Proper (t : System) : Act → Prop
  | .serve fate => fate = .works
  | .hear reads => reads = true
  | .wait reads => reads = true ∧ ¬ t.client.Waits
  | .close => False

instance (t : System) : DecidablePred (Proper t)
  | .serve fate => inferInstanceAs (Decidable (fate = .works))
  | .hear reads => inferInstanceAs (Decidable (reads = true))
  | .wait reads => inferInstanceAs (Decidable (reads = true ∧ ¬ t.client.Waits))
  | .close => inferInstanceAs (Decidable False)

/-! ### What the client sends -/

/-- The bytes of the chunks among requests. -/
def inFlight : List FileRequest → ℕ
  | [] => 0
  | .chunk bytes :: requests => bytes.length + inFlight requests
  | _ :: requests => inFlight requests

@[simp] theorem inFlight_nil : inFlight [] = 0 := rfl

@[simp] theorem inFlight_chunk (bytes : List UInt8) (requests : List FileRequest) :
    inFlight (.chunk bytes :: requests) = bytes.length + inFlight requests := rfl

@[simp] theorem inFlight_finish (requests : List FileRequest) :
    inFlight (.finish :: requests) = inFlight requests := rfl

@[simp] theorem inFlight_append (requests requests' : List FileRequest) :
    inFlight (requests ++ requests') = inFlight requests + inFlight requests' := by
  induction requests with
  | nil => exact (Nat.zero_add _).symm
  | cons request requests ih => cases request <;> simp only [List.cons_append, inFlight, ih, Nat.add_assoc]

@[simp] theorem inFlight_chunks (chunks : List (List UInt8)) :
    inFlight (chunks.map .chunk) = chunks.flatten.length := by
  induction chunks with
  | nil => rfl
  | cons bytes chunks ih => rw [List.map_cons, inFlight_chunk, ih, List.flatten_cons, List.length_append]

theorem inFlight_tail_le (request : FileRequest) (requests : List FileRequest) :
    inFlight requests ≤ inFlight (request :: requests) := by
  cases request <;> simp only [inFlight, Nat.le_add_left, Nat.le_refl]

/-- The next chunk: it goes on where the last one ended, and the last of them is followed by the
end. -/
theorem sendChunk_eq {content : List UInt8} {sent : ℕ} (hsent : sent < content.length) (acked : ℕ) :
    ∃ bytes : List UInt8, 0 < bytes.length ∧ bytes.length ≤ FILE_CHUNK ∧
      sent + bytes.length ≤ content.length ∧ content.take sent ++ bytes = content.take (sent + bytes.length) ∧
      (sent + bytes.length < content.length ∧
          sendChunk content sent acked true = (.sending (sent + bytes.length) acked, [.chunk bytes]) ∨
        sent + bytes.length = content.length ∧
          sendChunk content sent acked true = (.finishing, [.chunk bytes, .finish])) := by
  have hpos : 0 < FILE_CHUNK := by decide
  have hlength : ((content.drop sent).take (min FILE_CHUNK (content.length - sent))).length
      = min FILE_CHUNK (content.length - sent) := by
    rw [List.length_take, List.length_drop]
    omega
  refine ⟨(content.drop sent).take (min FILE_CHUNK (content.length - sent)), ?_⟩
  rw [hlength]
  refine ⟨by omega, by omega, by omega, List.take_add.symm, ?_⟩
  simp only [sendChunk, more, if_true]
  split
  · rename_i hlt
    exact .inl ⟨hlt, rfl⟩
  · exact .inr ⟨by omega, rfl⟩

/-! ### The course of an upload -/

section

variable [Casing] (platform : Platform) (tree : Tree) (before : Uploads) (share path : Text)
  (content : List UInt8) (resume : Bool)

/-- What an upload goes on from: nothing, or what its part held, if it is to be resumed. -/
def Held (target : PathBuf) (held : List UInt8) : Prop :=
  held = [] ∨ resume = true ∧ ∃ synced, before.disk (partPath target) = some (.file held synced)

/-- The file is in place: what the part held and the rest of the client's file; no part is left,
and every other path is as it was. -/
structure Placed (host : Uploads) (target : PathBuf) (held : List UInt8) : Prop where
  target_eq : before.targetFor platform tree share path content.length = .ok target
  kept : Held before resume target held
  held_le : held.length ≤ content.length
  placed : host.disk target = some (.file (held ++ content.drop held.length) true)
  part : host.disk (partPath target) = none
  frame : ∀ other, other ≠ target → other ≠ partPath target → host.disk other = before.disk other

/-- The upload goes on: `coming` is on its way to the host, and `acks` to the client. -/
structure Going (host : Uploads) (upload : Uploads.Upload) (coming : List (List UInt8)) (sent acked : ℕ)
    (acks : List ℕ) : Prop where
  target_eq : before.targetFor platform tree share path content.length = .ok upload.target
  upload_eq : host.upload = some upload
  opened : host.Open upload
  size : upload.size = content.length
  kept : Held before resume upload.target host.held
  held_le : host.held.length ≤ content.length
  sent_le : sent ≤ content.length
  bytes : content.take host.held.length ++ host.chunks.flatten ++ coming.flatten = content.take sent
  /-- The host acknowledges in time. -/
  prompt : upload.written < upload.acked + ACK_EVERY
  acked_le : acked ≤ upload.acked
  acks_le : ∀ written ∈ acks, written ≤ upload.acked
  /-- What the host acknowledged last is known, or on its way. -/
  known : upload.acked ∈ acked :: acks
  /-- No more than a window, and the chunk that filled it. -/
  window : sent < acked + UPLOAD_WINDOW + FILE_CHUNK
  frame : ∀ other, other ≠ partPath upload.target → host.disk other = before.disk other

/-- The upload has failed, and the client is still to hear of it. -/
inductive Unaware (requests : List FileRequest) (acks : List ℕ) : Phase → Prop
  | asked (h : inFlight requests = 0) : Unaware requests acks .asked
  | sending {sent acked : ℕ} (hsent : sent < content.length) (hwindow : sent < acked + UPLOAD_WINDOW + FILE_CHUNK)
      (hacks : ∀ written ∈ acked :: acks, written + inFlight requests ≤ sent) :
      Unaware requests acks (.sending sent acked)
  | finishing (h : inFlight requests < UPLOAD_WINDOW + FILE_CHUNK) : Unaware requests acks .finishing

/-- Nothing is in the way of the upload. -/
def Accepted (target : PathBuf) : Prop :=
  before.targetFor platform tree share path content.length = .ok target ∧
    before.disk (partPath target) ≠ some .folder

/-- The course of an upload; if everything `works`, without what may go wrong. -/
inductive Course (works : Prop) : System → Prop
  | asked (hinv : before.Inv) (h : works → ∃ target, Accepted platform tree before share path content target) :
      Course works ⟨.asked, [.write share path content.length resume], before, []⟩
  | ready {host : Uploads} {upload : Uploads.Upload}
      (h : Going platform tree before share path content resume host upload [] host.held.length
        host.held.length []) :
      Course works ⟨.asked, [], host, [.ready host.held.length]⟩
  | sending {host : Uploads} {upload : Uploads.Upload} {coming : List (List UInt8)} {sent acked : ℕ}
      {acks : List ℕ} (hsent : sent < content.length)
      (h : Going platform tree before share path content resume host upload coming sent acked acks) :
      Course works ⟨.sending sent acked, coming.map .chunk, host, acks.map .ack⟩
  | finishing {host : Uploads} {upload : Uploads.Upload} {coming : List (List UInt8)} {acked : ℕ}
      {acks : List ℕ}
      (h : Going platform tree before share path content resume host upload coming content.length acked acks) :
      Course works ⟨.finishing, coming.map .chunk ++ [.finish], host, acks.map .ack⟩
  | placed {host : Uploads} {target : PathBuf} {held : List UInt8} {acks : List ℕ}
      (h : Placed platform tree before share path content resume host target held) :
      Course works ⟨.finishing, [], host, acks.map .ack ++ [.done content.length]⟩
  | returned {host : Uploads} {target : PathBuf} {held : List UInt8}
      (h : Placed platform tree before share path content resume host target held) :
      Course works ⟨.returned (.ok content.length), [], host, []⟩
  | failing {client : Phase} {requests : List FileRequest} {host : Uploads} {acks : List ℕ} {reason : FileError}
      {replies : List FileReply} (hworks : ¬ works) (h : Unaware content requests acks client) :
      Course works ⟨client, requests, host, acks.map .ack ++ .error reason :: replies⟩
  | failed {reason : ClientError} {requests : List FileRequest} {host : Uploads} {replies : List FileReply}
      (hworks : ¬ works) (h : inFlight requests < UPLOAD_WINDOW + FILE_CHUNK) :
      Course works ⟨.returned (.error reason), requests, host, replies⟩

end

/-! ### What a request makes of it -/

section

variable [Casing] {platform : Platform} {tree : Tree} {before : Uploads} {share path : Text}
  {content : List UInt8} {resume : Bool}

/-- How much the host has, and how much is to come. -/
theorem Going.sent_eq {host : Uploads} {upload : Uploads.Upload} {coming : List (List UInt8)} {sent acked : ℕ}
    {acks : List ℕ} (h : Going platform tree before share path content resume host upload coming sent acked acks) :
    upload.written + coming.flatten.length = sent := by
  have hlength := congrArg List.length h.bytes
  have hwritten := h.opened.written
  have hheld := h.held_le
  have hsent := h.sent_le
  simp only [List.length_append, List.length_take] at hlength hwritten
  omega

/-- Without `resume`, an upload begins with nothing. -/
theorem beginUpload_kept {self self' : Uploads} {size offset : ℕ} {seen opens seeks : Bool}
    (h : self.beginUpload platform tree share path size resume seen opens seeks = (.ok offset, self')) :
    resume = true ∨ offset = 0 := by
  cases resume with
  | true => exact .inl rfl
  | false =>
    right
    unfold Uploads.beginUpload at h
    simp only [Bool.false_and, Bool.false_eq_true, if_false, Nat.not_lt_zero, gt_iff_lt, ite_self] at h
    split at h
    · cases h
    split at h
    · cases h
    split at h
    · cases h
    split at h
    · cases h
    · cases h
      rfl

/-- An upload that is accepted is opened, if the file operations work. -/
theorem beginUpload_accepted {target : PathBuf} (h : Accepted platform tree before share path content target)
    (seen : Bool) {error : FileError} {self' : Uploads} :
    before.beginUpload platform tree share path content.length resume seen true true ≠ (.error error, self') := by
  obtain ⟨htarget, hfolder⟩ := h
  have htarget' : ({ before with upload := none } : Uploads).targetFor platform tree share path content.length
      = .ok target := htarget
  intro hbegin
  unfold Uploads.beginUpload at hbegin
  simp only [htarget', Bool.not_true, Bool.false_eq_true, if_false] at hbegin
  split at hbegin
  · rename_i hopen
    exact hfolder (Disk.openFile_none hopen)
  · cases hbegin

/-- **The upload is asked for**: it goes on behind what the part held, or it is refused. -/
theorem serve_write (hinv : before.Inv) {fate : Fate} {host : Uploads} {replies : List FileReply}
    (h : before.handle platform tree (.write share path content.length resume fate.seen fate.opens fate.seeks)
      = (host, replies)) :
    (∃ upload, replies = [.ready host.held.length] ∧
        Going platform tree before share path content resume host upload [] host.held.length
          host.held.length []) ∨
      ∃ reason, replies = [.error reason] ∧
        ∀ target, Accepted platform tree before share path content target → fate ≠ .works := by
  have hinv' : host.Inv := by
    have hkept : (before.handle platform tree
        (.write share path content.length resume fate.seen fate.opens fate.seeks)).1.Inv :=
      (hinv.handle _).1
    rwa [h] at hkept
  cases hbegin : before.beginUpload platform tree share path content.length resume fate.seen fate.opens fate.seeks with
  | mk result self' =>
    simp only [Uploads.handle, hbegin] at h
    cases result with
    | error reason =>
      cases h
      refine .inr ⟨reason, rfl, ?_⟩
      rintro target haccepted rfl
      exact beginUpload_accepted haccepted true hbegin
    | ok offset =>
      cases h
      obtain ⟨target, htarget, hupload, -, hchunks, -, hheld, hle, hother, synced, -, hbefore⟩ :=
        Uploads.beginUpload_ok hbegin
      refine .inl ⟨_, by rw [hheld], htarget, hupload, hinv' _ hupload, rfl, ?_, ?_, ?_, ?_, ?_, ?_, ?_, ?_, ?_, ?_⟩
      · rcases beginUpload_kept hbegin with hresume | hzero
        · exact hbefore.imp_right fun hfile => ⟨hresume, synced, hfile⟩
        · exact .inl (List.eq_nil_of_length_eq_zero (hheld.trans hzero))
      · exact hheld ▸ hle
      · exact hheld ▸ hle
      · rw [hchunks, List.flatten_nil, List.append_nil, List.append_nil]
      · exact Nat.lt_add_of_pos_right (by decide)
      · exact hheld.le
      · exact fun written hmem => absurd hmem List.not_mem_nil
      · exact List.mem_singleton.mpr hheld.symm
      · have : 0 < UPLOAD_WINDOW := by decide
        omega
      · exact hother

/-- **A chunk arrives**: it is written behind the others, or the upload fails. -/
theorem Going.serve_chunk {host host' : Uploads} {upload : Uploads.Upload} {bytes : List UInt8}
    {coming : List (List UInt8)} {sent acked : ℕ} {acks : List ℕ}
    (h : Going platform tree before share path content resume host upload (bytes :: coming) sent acked acks)
    {fate : Fate} {replies : List FileReply}
    (hhandle : host.handle platform tree (.chunk bytes fate.failsAfter) = (host', replies)) :
    (∃ upload' acks', replies = acks'.map .ack ∧ acks'.length ≤ 1 ∧
        Going platform tree before share path content resume host' upload' coming sent acked (acks ++ acks')) ∨
      ∃ reason, replies = [.error reason] ∧ fate ≠ .works := by
  have hsent := h.sent_eq
  rw [List.flatten_cons, List.length_append] at hsent
  have hsize : upload.written + bytes.length ≤ upload.size := by
    have := h.sent_le
    have := h.size
    omega
  have hinv : host.Inv := by
    intro upload' hupload'
    rw [h.upload_eq] at hupload'
    cases hupload'
    exact h.opened
  have hinv' : host'.Inv := by
    have hkept : (host.handle platform tree (.chunk bytes fate.failsAfter)).1.Inv := (hinv.handle _).1
    rwa [hhandle] at hkept
  cases hchunk : host.chunk bytes fate.failsAfter with
  | mk result self' =>
    simp only [Uploads.handle, hchunk] at hhandle
    cases result with
    | error reason =>
      cases hhandle
      refine .inr ⟨reason, rfl, ?_⟩
      rintro rfl
      simp only [Uploads.chunk, h.upload_eq, Fate.works, gt_iff_lt, Nat.not_lt.mpr hsize, if_false] at hchunk
      split at hchunk <;> cases hchunk
    | ok answer =>
      cases hhandle
      obtain ⟨upload₀, hupload₀, -, hshares, hheld, hchunks, hdisk, hcases⟩ := Uploads.chunk_ok hchunk
      rw [h.upload_eq] at hupload₀
      cases hupload₀
      have hbytes : content.take host'.held.length ++ host'.chunks.flatten ++ coming.flatten = content.take sent := by
        rw [hheld, hchunks, List.flatten_concat, ← h.bytes, List.flatten_cons]
        simp only [List.append_assoc]
      have hframe : ∀ other, other ≠ partPath upload.target → host'.disk other = before.disk other := by
        intro other hother
        rw [hdisk, Disk.write_of_ne _ _ _ (h.opened.part_eq ▸ hother)]
        exact h.frame other hother
      have hwritten : upload.acked ≤ upload.written := h.opened.acked_le
      rcases hcases with ⟨rfl, -, hupload'⟩ | ⟨rfl, -, hupload'⟩
      · -- not yet acknowledged
        refine .inl ⟨{ upload with written := upload.written + bytes.length }, [], rfl, Nat.zero_le _, h.target_eq,
          hupload', hinv' _ hupload', h.size, hheld ▸ h.kept, hheld ▸ h.held_le, h.sent_le, hbytes, ?_,
          h.acked_le, ?_, ?_, h.window, hframe⟩
        · by_contra hge
          have hdue : ¬ upload.written + bytes.length < upload.acked + ACK_EVERY := hge
          simp only [Uploads.chunk, h.upload_eq, gt_iff_lt, Nat.not_lt.mpr hsize, if_false] at hchunk
          split at hchunk
          · cases hchunk
          · rw [if_pos (by omega)] at hchunk
            cases hchunk
        · rw [List.append_nil]
          exact h.acks_le
        · rw [List.append_nil]
          exact h.known
      · refine .inl ⟨{ upload with written := upload.written + bytes.length, acked := upload.written + bytes.length },
          [upload.written + bytes.length], rfl, Nat.le_refl _, h.target_eq, hupload', hinv' _ hupload',
          h.size, hheld ▸ h.kept, hheld ▸ h.held_le, h.sent_le, hbytes, ?_, ?_, ?_, ?_, h.window, hframe⟩
        · exact Nat.lt_add_of_pos_right (show 0 < ACK_EVERY by decide)
        · exact (h.acked_le.trans hwritten).trans (Nat.le_add_right _ _)
        · intro written hmem
          rcases List.mem_append.mp hmem with hmem | hmem
          · exact ((h.acks_le written hmem).trans hwritten).trans (Nat.le_add_right _ _)
          · exact (List.mem_singleton.mp hmem).le
        · rw [← List.cons_append]
          exact List.mem_append_right _ (List.mem_singleton_self _)

/-- **The end arrives**: the file is put in place, or the upload fails. -/
theorem Going.serve_finish {host host' : Uploads} {upload : Uploads.Upload} {acked : ℕ} {acks : List ℕ}
    (h : Going platform tree before share path content resume host upload [] content.length acked acks)
    {fate : Fate} {replies : List FileReply}
    (hhandle : host.handle platform tree (.finish fate.syncs fate.removes fate.renames) = (host', replies)) :
    (replies = [.done content.length] ∧
        Placed platform tree before share path content resume host' upload.target host.held) ∨
      ∃ reason, replies = [.error reason] ∧ fate ≠ .works := by
  have hwritten : upload.written = upload.size := by
    have hsent := h.sent_eq
    rw [List.flatten_nil, List.length_nil, Nat.add_zero] at hsent
    rw [hsent, h.size]
  have hpart := h.opened.part_eq
  have hne := h.opened.part_ne
  -- what the part holds is the file
  have hwhole : host.held ++ host.chunks.flatten = host.held ++ content.drop host.held.length := by
    have hbytes := h.bytes
    rw [List.flatten_nil, List.append_nil, List.take_length] at hbytes
    rw [← List.append_cancel_left (hbytes.trans (List.take_append_drop host.held.length content).symm)]
  have hplace (disk : Disk)
      (hdisk : ∀ other, other ≠ upload.target → other ≠ upload.part → disk other = host.disk other) :
      Placed platform tree before share path content resume
        { host with disk := Uploads.place disk upload (host.held ++ host.chunks.flatten), upload := none }
        upload.target host.held := by
    refine ⟨h.target_eq, h.kept, h.held_le, ?_, ?_, ?_⟩
    · rw [← hwhole]
      exact Uploads.place_target _ _ _
    · rw [← hpart]
      exact Uploads.place_part _ hne _
    · intro other htarget hother
      rw [← hpart] at hother
      refine Eq.trans ?_ (h.frame other (hpart ▸ hother))
      refine Eq.trans ?_ (hdisk other htarget hother)
      exact (Disk.set_of_ne _ _ htarget).trans (Disk.set_of_ne _ _ hother)
  cases hsyncs : fate.syncs with
  | false =>
    rw [hsyncs] at hhandle
    simp only [Uploads.handle, Uploads.finish, h.upload_eq, hwritten, ne_eq, not_true_eq_false, if_false,
      Bool.not_false, if_true] at hhandle
    cases hhandle
    refine .inr ⟨.system, rfl, ?_⟩
    rintro rfl
    cases hsyncs
  | true =>
    rw [hsyncs] at hhandle
    obtain ⟨-, -, hdir⟩ := Uploads.targetFor_ok h.target_eq
    have hfolder : host.disk upload.target ≠ some .folder := by
      rw [h.frame upload.target fun heq => hne (hpart.trans heq.symm)]
      exact hdir
    simp only [Uploads.handle, h.opened.finish_eq h.upload_eq hwritten] at hhandle
    cases htarget : host.disk upload.target with
    | none =>
      rw [htarget] at hhandle
      cases hrenames : fate.renames with
      | true =>
        rw [hrenames] at hhandle
        cases hhandle
        refine .inl ⟨by rw [h.size], hplace _ ?_⟩
        exact fun other _ hother => Disk.set_of_ne _ _ hother
      | false =>
        rw [hrenames] at hhandle
        cases hhandle
        refine .inr ⟨.system, rfl, ?_⟩
        rintro rfl
        cases hrenames
    | some node =>
      cases node with
      | folder => exact absurd htarget hfolder
      | file old oldSynced =>
        rw [htarget] at hhandle
        cases hremoves : fate.removes with
        | false =>
          rw [hremoves] at hhandle
          cases hhandle
          refine .inr ⟨.system, rfl, ?_⟩
          rintro rfl
          cases hremoves
        | true =>
          rw [hremoves] at hhandle
          cases hrenames : fate.renames with
          | true =>
            rw [hrenames] at hhandle
            cases hhandle
            refine .inl ⟨by rw [h.size], hplace _ ?_⟩
            exact fun other htarget hother => (Disk.set_of_ne _ _ htarget).trans (Disk.set_of_ne _ _ hother)
          | false =>
            rw [hrenames] at hhandle
            cases hhandle
            refine .inr ⟨.system, rfl, ?_⟩
            rintro rfl
            cases hrenames

/-! ### What the client makes of it -/

/-- An acknowledgement is heard. -/
theorem Going.hear_ack {host : Uploads} {upload : Uploads.Upload} {coming : List (List UInt8)}
    {sent acked written : ℕ} {acks : List ℕ}
    (h : Going platform tree before share path content resume host upload coming sent acked (written :: acks)) :
    Going platform tree before share path content resume host upload coming sent (max acked written) acks := by
  have hwritten := h.acks_le written List.mem_cons_self
  have hacked := h.acked_le
  refine { h with
    acked_le := max_le hacked hwritten
    acks_le := fun w hw => h.acks_le w (List.mem_cons_of_mem _ hw)
    known := ?_
    window := ?_ }
  · rcases List.mem_cons.mp h.known with heq | hmem
    · rw [← heq, max_eq_left hwritten]
      exact List.mem_cons_self
    rcases List.mem_cons.mp hmem with heq | hmem
    · rw [← heq, max_eq_right hacked]
      exact List.mem_cons_self
    · exact List.mem_cons_of_mem _ hmem
  · have := h.window
    omega

/-- A chunk is sent. -/
theorem Going.send {host : Uploads} {upload : Uploads.Upload} {coming : List (List UInt8)}
    {sent acked : ℕ} {acks : List ℕ}
    (h : Going platform tree before share path content resume host upload coming sent acked acks)
    (hwindow : sent - acked < UPLOAD_WINDOW) {bytes : List UInt8} (hlength : bytes.length ≤ FILE_CHUNK)
    (hle : sent + bytes.length ≤ content.length)
    (hbytes : content.take sent ++ bytes = content.take (sent + bytes.length)) :
    Going platform tree before share path content resume host upload (coming ++ [bytes]) (sent + bytes.length)
      acked acks := by
  refine { h with sent_le := hle, bytes := ?_, window := ?_ }
  · rw [List.flatten_concat, ← List.append_assoc, h.bytes, hbytes]
  · omega

omit [Casing] in
theorem window_pos : 0 < UPLOAD_WINDOW + FILE_CHUNK := by decide

/-- What is on its way fits in the window. -/
theorem Going.inFlight_lt {host : Uploads} {upload : Uploads.Upload} {coming : List (List UInt8)}
    {sent acked : ℕ} {acks : List ℕ}
    (h : Going platform tree before share path content resume host upload coming sent acked acks) :
    inFlight (coming.map .chunk) < UPLOAD_WINDOW + FILE_CHUNK := by
  have hwritten := h.opened.acked_le
  have hacked := h.acked_le
  have hall := h.sent_eq
  have hwindow := h.window
  rw [inFlight_chunks]
  omega

omit [Casing] in
/-- What the client does with a reply it did not wait for. -/
theorem refuse_eq (heard : Heard) : ∃ reason, refuse heard = (.returned (.error reason), []) := by
  rcases heard with reply | _ | _
  · cases reply <;> exact ⟨_, rfl⟩
  · exact ⟨_, rfl⟩
  · exact ⟨_, rfl⟩

omit [Casing] in
theorem Unaware.inFlight_lt {requests : List FileRequest} {acks : List ℕ} {client : Phase}
    (h : Unaware content requests acks client) : inFlight requests < UPLOAD_WINDOW + FILE_CHUNK := by
  cases h with
  | asked h =>
    rw [h]
    decide
  | sending hsent hwindow hacks =>
    have := hacks _ List.mem_cons_self
    omega
  | finishing h => exact h

omit [Casing] in
/-- Fewer requests are on the way. -/
theorem Unaware.mono {requests requests' : List FileRequest} {acks : List ℕ} {client : Phase}
    (h : Unaware content requests acks client) (hle : inFlight requests' ≤ inFlight requests) :
    Unaware content requests' acks client := by
  cases h with
  | asked h => exact .asked (by omega)
  | sending hsent hwindow hacks =>
    exact .sending hsent hwindow fun written hmem => le_trans (Nat.add_le_add_left hle _) (hacks written hmem)
  | finishing h => exact .finishing (by omega)

omit [Casing] in
/-- The client sends on, as it has not yet heard. -/
theorem Unaware.send {requests : List FileRequest} {acks : List ℕ} {sent acked : ℕ}
    (hsent : sent < content.length) (hacks : ∀ written ∈ acked :: acks, written + inFlight requests ≤ sent)
    (hwindow : sent - acked < UPLOAD_WINDOW) :
    Unaware content (requests ++ (sendChunk content sent acked true).2) acks (sendChunk content sent acked true).1 := by
  obtain ⟨bytes, -, hlength, -, -, ⟨hlt, heq⟩ | ⟨-, heq⟩⟩ := sendChunk_eq hsent acked
  · rw [heq]
    refine .sending hlt (by omega) ?_
    intro written hmem
    have := hacks written hmem
    rw [inFlight_append, inFlight_chunk, inFlight_nil]
    omega
  · rw [heq]
    refine .finishing ?_
    have := hacks acked List.mem_cons_self
    rw [inFlight_append, inFlight_chunk, inFlight_finish, inFlight_nil]
    omega

/-- What is on its way was not yet acknowledged. -/
theorem Going.unaware {host : Uploads} {upload : Uploads.Upload} {bytes : List UInt8}
    {coming : List (List UInt8)} {sent acked : ℕ} {acks : List ℕ}
    (h : Going platform tree before share path content resume host upload (bytes :: coming) sent acked acks) :
    ∀ written ∈ acked :: acks, written + inFlight (coming.map .chunk) ≤ sent := by
  intro written hmem
  have hacked : written ≤ upload.acked := by
    rcases List.mem_cons.mp hmem with rfl | hmem
    · exact h.acked_le
    · exact h.acks_le written hmem
  have hwritten := h.opened.acked_le
  have hsent := h.sent_eq
  rw [List.flatten_cons, List.length_append] at hsent
  rw [inFlight_chunks]
  omega

/-! ### What every step preserves -/

variable {works : Prop}

/-- What the host does in a step. -/
theorem step_serve {t t' : System} {fate : Fate} (h : step platform tree content t (.serve fate) = some t') :
    ∃ request toHost e host replies, t.toHost = request :: toHost ∧ fate.eventOf request = some e ∧
      t.host.handle platform tree e = (host, replies) ∧ t' = ⟨t.client, toHost, host, t.toClient ++ replies⟩ := by
  unfold step at h
  simp only at h
  split at h
  · cases h
  · rename_i request toHost hrequest
    obtain ⟨e, he, rfl⟩ := Option.map_eq_some_iff.mp h
    exact ⟨request, toHost, e, _, _, hrequest, he, rfl, rfl⟩

/-- The host carries out a request. -/
theorem Course.serve {t t' : System} (h : Course platform tree before share path content resume works t)
    {fate : Fate} (hfate : works → fate = .works) (hstep : step platform tree content t (.serve fate) = some t') :
    Course platform tree before share path content resume works t' := by
  obtain ⟨request, toHost, e, host', replies', hrequest, he, hhandle, rfl⟩ := step_serve hstep
  cases h with
  | asked hinv haccepted =>
    cases hrequest
    cases he
    rcases serve_write hinv hhandle with ⟨upload, rfl, hgoing⟩ | ⟨reason, rfl, hrefused⟩
    · exact .ready hgoing
    · refine @Course.failing _ platform tree before share path content resume works _ _ _ [] _ _ ?_ (.asked rfl)
      intro hworks
      obtain ⟨target, htarget⟩ := haccepted hworks
      exact hrefused target htarget (hfate hworks)
  | ready hgoing => cases hrequest
  | @sending host upload coming sent acked acks hsent hgoing =>
    cases coming with
    | nil => cases hrequest
    | cons bytes coming =>
      cases hrequest
      cases he
      rcases hgoing.serve_chunk hhandle with ⟨upload', acks', rfl, -, hgoing'⟩ | ⟨reason, rfl, hrefused⟩
      · rw [← List.map_append]
        exact .sending hsent hgoing'
      · exact .failing (fun hworks => hrefused (hfate hworks)) (.sending hsent hgoing.window hgoing.unaware)
  | @finishing host upload coming acked acks hgoing =>
    cases coming with
    | nil =>
      cases hrequest
      cases he
      rcases hgoing.serve_finish hhandle with ⟨rfl, hplaced⟩ | ⟨reason, rfl, hrefused⟩
      · exact .placed hplaced
      · exact .failing (fun hworks => hrefused (hfate hworks)) (.finishing (by decide))
    | cons bytes coming =>
      cases hrequest
      cases he
      rcases hgoing.serve_chunk hhandle with ⟨upload', acks', rfl, -, hgoing'⟩ | ⟨reason, rfl, hrefused⟩
      · rw [← List.map_append]
        exact .finishing hgoing'
      · have hlt : inFlight (coming.map .chunk ++ [.finish]) < UPLOAD_WINDOW + FILE_CHUNK := by
          have := hgoing.inFlight_lt
          rw [List.map_cons, inFlight_chunk] at this
          rw [inFlight_append, inFlight_finish, inFlight_nil]
          omega
        exact .failing (fun hworks => hrefused (hfate hworks)) (.finishing hlt)
  | placed hplaced => cases hrequest
  | returned hplaced => cases hrequest
  | failing hworks hunaware =>
    rw [List.append_assoc, List.cons_append]
    cases hrequest
    exact .failing hworks (hunaware.mono (inFlight_tail_le _ _))
  | failed hworks hlt =>
    cases hrequest
    exact .failed hworks ((inFlight_tail_le _ _).trans_lt hlt)

/-- The client stops waiting for what went wrong. -/
theorem Course.of_refuse {heard : Heard} {requests : List FileRequest} {host : Uploads} {replies : List FileReply}
    (hworks : ¬ works) (h : inFlight requests < UPLOAD_WINDOW + FILE_CHUNK) :
    Course platform tree before share path content resume works
      ⟨(refuse heard).1, requests ++ (refuse heard).2, host, replies⟩ := by
  obtain ⟨reason, heq⟩ := refuse_eq heard
  rw [heq, List.append_nil]
  exact .failed hworks h

/-- The client sends the next chunk. -/
theorem Course.send {host : Uploads} {upload : Uploads.Upload} {coming : List (List UInt8)} {sent acked : ℕ}
    {acks : List ℕ} (hsent : sent < content.length)
    (h : Going platform tree before share path content resume host upload coming sent acked acks)
    (hwindow : sent - acked < UPLOAD_WINDOW) {reads : Bool} (hreads : works → reads = true) :
    Course platform tree before share path content resume works
      ⟨(sendChunk content sent acked reads).1, coming.map .chunk ++ (sendChunk content sent acked reads).2, host,
        acks.map .ack⟩ := by
  cases reads with
  | false =>
    simp only [sendChunk, Bool.false_eq_true, if_false, List.append_nil]
    exact .failed (fun hworks => by cases hreads hworks) h.inFlight_lt
  | true =>
    obtain ⟨bytes, -, hlength, hle, hbytes, ⟨hlt, heq⟩ | ⟨hend, heq⟩⟩ := sendChunk_eq hsent acked
    · rw [heq]
      have hchunks : coming.map FileRequest.chunk ++ [.chunk bytes] = (coming ++ [bytes]).map .chunk := by
        rw [List.map_append, List.map_singleton]
      simp only [hchunks]
      exact .sending hlt (h.send hwindow hlength hle hbytes)
    · rw [heq]
      have hchunks : coming.map FileRequest.chunk ++ [.chunk bytes, .finish]
          = (coming ++ [bytes]).map .chunk ++ [.finish] := by
        rw [List.map_append, List.map_singleton, List.append_assoc, List.singleton_append]
      simp only [hchunks]
      have hgoing := h.send hwindow hlength hle hbytes
      rw [hend] at hgoing
      exact .finishing hgoing

/-- The client sends the next chunk, as it has not yet heard. -/
theorem Course.send_unaware {requests : List FileRequest} {host : Uploads} {acks : List ℕ} {sent acked : ℕ}
    {reason : FileError} {replies : List FileReply} (hworks : ¬ works) (hsent : sent < content.length)
    (hacks : ∀ written ∈ acked :: acks, written + inFlight requests ≤ sent) (hwindow : sent - acked < UPLOAD_WINDOW)
    (reads : Bool) :
    Course platform tree before share path content resume works
      ⟨(sendChunk content sent acked reads).1, requests ++ (sendChunk content sent acked reads).2, host,
        acks.map .ack ++ .error reason :: replies⟩ := by
  cases reads with
  | false =>
    simp only [sendChunk, Bool.false_eq_true, if_false, List.append_nil]
    refine .failed hworks ?_
    have := hacks acked List.mem_cons_self
    have : 0 < FILE_CHUNK := by decide
    omega
  | true => exact .failing hworks (Unaware.send hsent hacks hwindow)

omit [Casing] in
/-- What the client does in a step. -/
theorem System.go_eq_some {t t' : System} {heard : Heard} {reads : Bool} (h : t.go content heard reads = some t') :
    (∀ result, t.client ≠ .returned result) ∧
      t' = ⟨(upload content t.client heard reads).1, t.toHost ++ (upload content t.client heard reads).2, t.host,
        t.toClient⟩ := by
  obtain ⟨client, toHost, host, toClient⟩ := t
  unfold System.go at h
  cases client with
  | returned result => cases h
  | asked =>
    cases h
    exact ⟨fun _ heq => (by cases heq), rfl⟩
  | sending sent acked =>
    cases h
    exact ⟨fun _ heq => (by cases heq), rfl⟩
  | finishing =>
    cases h
    exact ⟨fun _ heq => (by cases heq), rfl⟩

/-- What the client does when it hears a reply. -/
theorem step_hear {t t' : System} {reads : Bool} (h : step platform tree content t (.hear reads) = some t') :
    ∃ reply toClient, t.toClient = reply :: toClient ∧ (∀ result, t.client ≠ .returned result) ∧
      t' = ⟨(upload content t.client (.reply reply) reads).1,
        t.toHost ++ (upload content t.client (.reply reply) reads).2, t.host, toClient⟩ := by
  unfold step at h
  simp only at h
  split at h
  · cases h
  · rename_i reply toClient hreplies
    obtain ⟨hreturned, rfl⟩ := System.go_eq_some h
    exact ⟨reply, toClient, hreplies, hreturned, rfl⟩

/-- What the client does when no reply comes. -/
theorem step_wait {t t' : System} {reads : Bool} (h : step platform tree content t (.wait reads) = some t') :
    (∀ result, t.client ≠ .returned result) ∧
      t' = ⟨(upload content t.client .nothing reads).1, t.toHost ++ (upload content t.client .nothing reads).2,
        t.host, t.toClient⟩ :=
  System.go_eq_some h

/-- What the client does when the channel is closed. -/
theorem step_close {t t' : System} (h : step platform tree content t .close = some t') :
    (∀ result, t.client ≠ .returned result) ∧
      t' = ⟨(upload content t.client .closed true).1, t.toHost ++ (upload content t.client .closed true).2,
        t.host, t.toClient⟩ :=
  System.go_eq_some h

/-- The client hears a reply. -/
theorem Course.hear {t t' : System} (h : Course platform tree before share path content resume works t)
    {reads : Bool} (hreads : works → reads = true) (hstep : step platform tree content t (.hear reads) = some t') :
    Course platform tree before share path content resume works t' := by
  obtain ⟨reply, toClient, hreplies, hreturned, rfl⟩ := step_hear hstep
  cases h with
  | asked hinv haccepted => cases hreplies
  | @ready host upload hgoing =>
    cases hreplies
    simp only [Transfer.upload]
    cases reads with
    | false =>
      simp only [Bool.false_eq_true, if_false, List.append_nil]
      exact .failed (fun hworks => by cases hreads hworks) (by decide)
    | true =>
      simp only [more, if_true, List.nil_append]
      split
      · rename_i hlt
        exact @Course.sending _ platform tree before share path content resume works _ _ [] _ _ [] hlt hgoing
      · rename_i hnot
        have heq : host.held.length = content.length := le_antisymm hgoing.held_le (not_lt.mp hnot)
        rw [heq] at hgoing
        exact @Course.finishing _ platform tree before share path content resume works _ _ [] _ [] hgoing
  | @sending host upload coming sent acked acks hsent hgoing =>
    cases acks with
    | nil => cases hreplies
    | cons written acks =>
      cases hreplies
      simp only [Transfer.upload]
      split
      · rename_i hwindow
        exact Course.send hsent hgoing.hear_ack hwindow hreads
      · rw [List.append_nil]
        exact .sending hsent hgoing.hear_ack
  | @finishing host upload coming acked acks hgoing =>
    cases acks with
    | nil => cases hreplies
    | cons written acks =>
      cases hreplies
      simp only [Transfer.upload, List.append_nil]
      exact .finishing hgoing.hear_ack
  | @placed host target held acks hplaced =>
    cases acks with
    | nil =>
      cases hreplies
      exact .returned hplaced
    | cons written acks =>
      cases hreplies
      exact .placed hplaced
  | returned hplaced => cases hreplies
  | @failing _ toHost _ acks reason replies hworks hunaware =>
    cases acks with
    | nil =>
      -- now it hears of it
      cases hreplies
      have hlt := hunaware.inFlight_lt
      cases hunaware with
      | asked _ => exact Course.of_refuse hworks hlt
      | sending _ _ _ => exact Course.of_refuse hworks hlt
      | finishing _ => exact Course.of_refuse hworks hlt
    | cons written acks =>
      cases hreplies
      have hlt := hunaware.inFlight_lt
      cases hunaware with
      | asked _ => exact Course.of_refuse hworks hlt
      | @sending sent acked hsent hwindow hacks =>
        have hacks' : ∀ w ∈ max acked written :: acks, w + inFlight toHost ≤ sent := by
          intro w hw
          rcases List.mem_cons.mp hw with rfl | hw
          · rcases max_choice acked written with heq | heq
            · rw [heq]
              exact hacks acked List.mem_cons_self
            · rw [heq]
              exact hacks written (List.mem_cons_of_mem _ List.mem_cons_self)
          · exact hacks w (List.mem_cons_of_mem _ (List.mem_cons_of_mem _ hw))
        simp only [Transfer.upload]
        split
        · rename_i hopen
          exact Course.send_unaware hworks hsent hacks' hopen reads
        · rw [List.append_nil]
          exact .failing hworks (.sending hsent (by omega) hacks')
      | finishing h =>
        simp only [Transfer.upload, List.append_nil]
        exact .failing hworks (.finishing h)
  | failed hworks hlt => exact absurd rfl (hreturned _)

/-- No reply comes in time: with nothing wrong, only where the client does not wait for one. -/
theorem Course.wait {t t' : System} (h : Course platform tree before share path content resume works t)
    {reads : Bool}
    (hproper : works → reads = true ∧ ¬ t.client.Waits)
    (hstep : step platform tree content t (.wait reads) = some t') :
    Course platform tree before share path content resume works t' := by
  obtain ⟨hreturned, rfl⟩ := step_wait hstep
  have hnot (hwaits : t.client.Waits) : ¬ works := fun hworks => (hproper hworks).2 hwaits
  cases h with
  | asked hinv haccepted =>
    exact Course.of_refuse (hnot trivial) window_pos
  | ready hgoing =>
    exact Course.of_refuse (hnot trivial) window_pos
  | @sending host upload coming sent acked acks hsent hgoing =>
    simp only [Transfer.upload]
    split
    · rename_i hfull
      exact Course.of_refuse (hnot hfull) hgoing.inFlight_lt
    · rename_i hopen
      exact Course.send hsent hgoing (not_le.mp hopen) fun hworks => (hproper hworks).1
  | @finishing host upload coming acked acks hgoing =>
    refine Course.of_refuse (hnot trivial) ?_
    rw [inFlight_append, inFlight_finish, inFlight_nil]
    exact hgoing.inFlight_lt
  | placed hplaced =>
    exact Course.of_refuse (hnot trivial) window_pos
  | returned hplaced => exact absurd rfl (hreturned _)
  | failing hworks hunaware =>
    have hlt := hunaware.inFlight_lt
    cases hunaware with
    | asked _ => exact Course.of_refuse hworks hlt
    | @sending sent acked hsent hwindow hacks =>
      simp only [Transfer.upload]
      split
      · exact Course.of_refuse hworks hlt
      · rename_i hopen
        exact Course.send_unaware hworks hsent hacks (not_le.mp hopen) reads
    | finishing _ => exact Course.of_refuse hworks hlt
  | failed hworks hlt => exact absurd rfl (hreturned _)

/-- **What every step preserves.** -/
theorem Course.step {t t' : System} {act : Act} (h : Course platform tree before share path content resume works t)
    (hproper : works → Proper t act) (hstep : Transfer.step platform tree content t act = some t') :
    Course platform tree before share path content resume works t' := by
  cases act with
  | serve fate => exact h.serve hproper hstep
  | hear reads => exact h.hear hproper hstep
  | wait reads => exact h.wait hproper hstep
  | close =>
    obtain ⟨hreturned, rfl⟩ := step_close hstep
    obtain ⟨client, toHost, host, toClient⟩ := t
    have hlt : inFlight toHost < UPLOAD_WINDOW + FILE_CHUNK := by
      cases h with
      | asked _ _ => exact window_pos
      | ready _ => exact window_pos
      | sending _ hgoing => exact hgoing.inFlight_lt
      | finishing hgoing =>
        rw [inFlight_append, inFlight_finish, inFlight_nil]
        exact hgoing.inFlight_lt
      | placed _ => exact window_pos
      | returned _ => exact window_pos
      | failing _ hunaware => exact hunaware.inFlight_lt
      | failed _ hlt => exact hlt
    cases client with
    | returned result => exact absurd rfl (hreturned result)
    | asked => exact Course.of_refuse hproper hlt
    | sending sent acked => exact Course.of_refuse hproper hlt
    | finishing => exact Course.of_refuse hproper hlt

/-- The host answers a request once, or not at all. -/
theorem handle_length_le (host : Uploads) (e : Uploads.Event) : (host.handle platform tree e).2.length ≤ 1 := by
  cases e with
  | write share path size resume seen opens seeks =>
    rw [Uploads.handle]
    split <;> exact Nat.le_refl 1
  | chunk bytes failsAfter =>
    rw [Uploads.handle]
    split
    · rename_i acked _ _
      cases acked
      · exact Nat.zero_le _
      · exact Nat.le_refl 1
    · exact Nat.le_refl 1
  | finish syncs removes renames =>
    rw [Uploads.handle]
    split <;> exact Nat.le_refl 1
  | cancel => exact Nat.zero_le _

/-- With nothing on the way, the window is open. -/
theorem Going.not_waits {host : Uploads} {upload : Uploads.Upload} {sent acked : ℕ}
    (h : Going platform tree before share path content resume host upload [] sent acked []) :
    ¬ (Phase.sending sent acked).Waits := by
  have hknown : upload.acked = acked := List.mem_singleton.mp h.known
  have hprompt := h.prompt
  have hsent := h.sent_eq
  have hevery : ACK_EVERY ≤ UPLOAD_WINDOW := by decide
  have hpos : 0 < ACK_EVERY := by decide
  rw [List.flatten_nil, List.length_nil] at hsent
  intro hwaits
  have hfull : UPLOAD_WINDOW ≤ sent - acked := hwaits
  omega

/-! ### How long it takes -/

variable (content) in
/-- What is left of it: each chunk that is still to be sent, served and acknowledged. -/
def rank (t : System) : ℕ :=
  (match t.client with
    | .asked => 3 * content.length + 4
    | .sending sent _ => 3 * (content.length - sent) + 3
    | .finishing => 1
    | .returned _ => 0) + 2 * t.toHost.length + t.toClient.length

omit [Casing] in
/-- Sending a chunk brings it nearer to its end. -/
theorem rank_send {sent acked : ℕ} (hsent : sent < content.length) (toHost : List FileRequest) (host : Uploads)
    (toClient : List FileReply) :
    rank content ⟨(sendChunk content sent acked true).1, toHost ++ (sendChunk content sent acked true).2, host,
        toClient⟩
      < 3 * (content.length - sent) + 3 + 2 * toHost.length + toClient.length := by
  obtain ⟨bytes, hpos, -, -, -, ⟨hlt, heq⟩ | ⟨hend, heq⟩⟩ := sendChunk_eq hsent acked
  · rw [heq]
    simp only [rank, List.length_append, List.length_cons, List.length_nil]
    omega
  · rw [heq]
    simp only [rank, List.length_append, List.length_cons, List.length_nil]
    omega

omit [Casing] in
theorem rank_refuse (heard : Heard) (toHost : List FileRequest) (host : Uploads) (toClient : List FileReply) :
    rank content ⟨(refuse heard).1, toHost ++ (refuse heard).2, host, toClient⟩
      = 2 * toHost.length + toClient.length := by
  obtain ⟨reason, heq⟩ := refuse_eq heard
  rw [heq, List.append_nil, rank, Nat.zero_add]

/-- A step that goes as it should brings it nearer to its end. -/
theorem Course.rank_lt {t t' : System} {act : Act}
    (h : Course platform tree before share path content resume works t) (hproper : Proper t act)
    (hstep : Transfer.step platform tree content t act = some t') : rank content t' < rank content t := by
  have hsending {sent acked : ℕ} (hclient : t.client = .sending sent acked) : sent < content.length := by
    cases h with
    | asked _ _ => cases hclient
    | ready _ => cases hclient
    | sending hsent _ =>
      cases hclient
      exact hsent
    | finishing _ => cases hclient
    | placed _ => cases hclient
    | returned _ => cases hclient
    | failing _ hunaware =>
      cases hclient
      cases hunaware
      assumption
    | failed _ _ => cases hclient
  clear h
  cases act with
  | serve fate =>
    obtain ⟨request, toHost, e, host', replies, hrequest, -, hhandle, rfl⟩ := step_serve hstep
    have hle : (t.host.handle platform tree e).2.length ≤ 1 := handle_length_le t.host e
    rw [hhandle] at hle
    simp only [rank, hrequest, List.length_cons, List.length_append]
    simp only at hle
    omega
  | hear reads =>
    obtain ⟨reply, toClient, hreplies, hreturned, rfl⟩ := step_hear hstep
    obtain rfl : reads = true := hproper
    obtain ⟨client, toHost, host, replies⟩ := t
    cases hreplies
    have hrefuse (heard : Heard) (base : ℕ) :
        rank content ⟨(refuse heard).1, toHost ++ (refuse heard).2, host, toClient⟩
          < base + 2 * toHost.length + (toClient.length + 1) := by
      rw [rank_refuse]
      omega
    cases client with
    | returned result => exact absurd rfl (hreturned result)
    | asked =>
      cases reply with
      | ready offset =>
        by_cases hlt : offset < content.length
        · simp only [Transfer.upload, more, hlt, if_true, rank, List.length_cons, List.append_nil]
          omega
        · simp only [Transfer.upload, more, hlt, if_true, if_false, rank, List.length_cons, List.length_append,
            List.length_nil]
          omega
      | _ => exact hrefuse _ _
    | sending sent acked =>
      cases reply with
      | ack written =>
        simp only [Transfer.upload]
        split
        · refine (rank_send (hsending rfl) toHost host toClient).trans ?_
          simp only [rank, List.length_cons]
          omega
        · simp only [rank, List.append_nil, List.length_cons]
          omega
      | _ => exact hrefuse _ _
    | finishing =>
      cases reply with
      | ack written =>
        simp only [Transfer.upload, rank, List.append_nil, List.length_cons]
        omega
      | done size =>
        simp only [Transfer.upload, rank, List.append_nil, List.length_cons]
        omega
      | _ => exact hrefuse _ _
  | wait reads =>
    obtain ⟨hreturned, rfl⟩ := step_wait hstep
    obtain ⟨rfl, hgoes⟩ := hproper
    obtain ⟨client, toHost, host, toClient⟩ := t
    cases client with
    | asked => exact absurd trivial hgoes
    | sending sent acked =>
      have hopen : ¬ UPLOAD_WINDOW ≤ sent - acked := hgoes
      simp only [Transfer.upload, ge_iff_le, hopen, if_false]
      exact rank_send (hsending rfl) toHost host toClient
    | finishing => exact absurd trivial hgoes
    | returned result => exact absurd rfl (hreturned result)
  | close => exact hproper.elim

/-- As long as it has not ended, there is a step that goes as it should. -/
theorem Course.exists_proper {t : System} (h : Course platform tree before share path content resume True t)
    (hclient : t.client ≠ .returned (.ok content.length)) :
    ∃ act, Proper t act ∧ Transfer.step platform tree content t act ≠ none := by
  cases h with
  | asked _ _ => exact ⟨.serve .works, rfl, fun h => by cases h⟩
  | ready _ => exact ⟨.hear true, rfl, fun h => by cases h⟩
  | @sending host upload coming sent acked acks hsent hgoing =>
    cases coming with
    | cons bytes coming => exact ⟨.serve .works, rfl, fun h => by cases h⟩
    | nil =>
      cases acks with
      | cons written acks => exact ⟨.hear true, rfl, fun h => by cases h⟩
      | nil =>
        refine ⟨.wait true, ⟨rfl, hgoing.not_waits⟩, fun h => by cases h⟩
  | @finishing host upload coming acked acks hgoing =>
    cases coming with
    | nil => exact ⟨.serve .works, rfl, fun h => by cases h⟩
    | cons bytes coming => exact ⟨.serve .works, rfl, fun h => by cases h⟩
  | @placed host target held acks hplaced =>
    cases acks with
    | nil => exact ⟨.hear true, rfl, fun h => by cases h⟩
    | cons written acks => exact ⟨.hear true, rfl, fun h => by cases h⟩
  | returned hplaced => exact absurd rfl hclient
  | failing hworks _ => exact absurd trivial hworks
  | failed hworks _ => exact absurd trivial hworks

/-- How much is on the way, and that somebody's turn it is. -/
theorem Course.flows {t : System} (h : Course platform tree before share path content resume works t) :
    inFlight t.toHost < UPLOAD_WINDOW + FILE_CHUNK ∧
      (∀ sent acked, t.client = .sending sent acked → acked ≤ sent ∧ sent - acked < UPLOAD_WINDOW + FILE_CHUNK) ∧
      (t.client.Waits → t.toHost ≠ [] ∨ t.toClient ≠ []) := by
  cases h with
  | asked _ _ =>
    exact ⟨window_pos, fun _ _ heq => (by cases heq), fun _ => .inl fun heq => (by cases heq)⟩
  | ready _ =>
    exact ⟨window_pos, fun _ _ heq => (by cases heq), fun _ => .inr fun heq => (by cases heq)⟩
  | @sending host upload coming sent acked acks hsent hgoing =>
    refine ⟨hgoing.inFlight_lt, ?_, ?_⟩
    · intro sent' acked' heq
      cases heq
      have hwritten := hgoing.opened.acked_le
      have hacked := hgoing.acked_le
      have hall := hgoing.sent_eq
      have hwindow := hgoing.window
      omega
    · intro hwaits
      cases coming with
      | cons bytes coming => exact .inl fun heq => (by cases heq)
      | nil =>
        cases acks with
        | cons written acks => exact .inr fun heq => (by cases heq)
        | nil => exact absurd hwaits hgoing.not_waits
  | finishing hgoing =>
    refine ⟨?_, fun _ _ heq => (by cases heq), fun _ => .inl ?_⟩
    · rw [inFlight_append, inFlight_finish, inFlight_nil]
      exact hgoing.inFlight_lt
    · exact List.append_ne_nil_of_right_ne_nil _ fun heq => (by cases heq)
  | placed _ =>
    refine ⟨window_pos, fun _ _ heq => (by cases heq), fun _ => .inr ?_⟩
    exact List.append_ne_nil_of_right_ne_nil _ fun heq => (by cases heq)
  | returned _ => exact ⟨window_pos, fun _ _ heq => (by cases heq), False.elim⟩
  | failing _ hunaware =>
    refine ⟨hunaware.inFlight_lt, ?_, fun _ => .inr ?_⟩
    · intro sent acked heq
      cases hunaware with
      | asked _ => cases heq
      | sending _ hwindow hacks =>
        cases heq
        have := hacks _ List.mem_cons_self
        omega
      | finishing _ => cases heq
    · exact List.append_ne_nil_of_right_ne_nil _ fun heq => (by cases heq)
  | failed _ hlt => exact ⟨hlt, fun _ _ heq => (by cases heq), False.elim⟩

/-- Every run of an upload is a course of it. -/
theorem course_run {acts : List Act} {t : System} (hinv : before.Inv)
    (hrun : acts.foldlM (step platform tree content) (start before share path content resume) = some t) :
    Course platform tree before share path content resume False t :=
  Run.invariant (I := Course platform tree before share path content resume False) (A := fun _ => True)
    (fun _ _ _ h _ hstep => h.step False.elim hstep) acts _ t (.asked hinv False.elim) (fun _ _ => trivial) hrun

end

section

variable [Casing] (platform : Platform) (tree : Tree)

/-- A new version of the file of the shared folder, and how it is uploaded. -/
def uploaded : List Act :=
  [.serve .works, .hear true, .wait true, .serve .works, .serve .works, .hear true]

/-- **What is on the way fits in the window, and nobody waits for nothing**: at every moment of every
upload the chunks on their way to the host, and those the client has no acknowledgement of, have
fewer bytes than a window and a chunk; and when the client cannot go on without a reply, one is
on its way to it or will be to a request that is on its way to the host. -/
theorem upload_flows (shares : Shares) (disk : Disk) (earlier : List Uploads.Event) (share path : Text)
    (content : List UInt8) (resume : Bool) (acts : List Act) (t : System)
    (hrun : acts.foldlM (step platform tree content)
      (start ((Uploads.new shares disk).run platform tree earlier) share path content resume) = some t) :
    inFlight t.toHost < UPLOAD_WINDOW + FILE_CHUNK ∧
      (∀ sent acked, t.client = .sending sent acked → acked ≤ sent ∧ sent - acked < UPLOAD_WINDOW + FILE_CHUNK) ∧
      (t.client.Waits → t.toHost ≠ [] ∨ t.toClient ≠ []) :=
  (course_run (Uploads.inv_run earlier) hrun).flows

omit [Casing] in
/-- The client waits for its window to be acknowledged, or not yet. -/
theorem upload_flows_notes :
    ∃ t : System, t.client = .finishing ∧ (t.toHost ≠ [] ∨ t.toClient ≠ []) := by
  letI := Text.asciiCasing
  have hrun : ((uploaded.take 4).foldlM (step .unix linkedTree [7, 8]) (start ((Uploads.new linkedShares
      Uploads.notesDisk).run .unix linkedTree []) "saves".toList "notes".toList [7, 8] false)).map System.client
        = some .finishing := by decide +kernel
  obtain ⟨t, ht, hclient⟩ := Option.map_eq_some_iff.mp hrun
  obtain ⟨-, -, hturn⟩ := upload_flows .unix linkedTree linkedShares Uploads.notesDisk [] "saves".toList
    "notes".toList [7, 8] false (uploaded.take 4) t ht
  exact ⟨t, hclient, hturn (hclient ▸ trivial)⟩

/-- **An upload in which nothing fails ends, and with the file's size**: it takes no more steps than
three for each byte and six more, and it does not stop before the client has returned. -/
theorem upload_completes (shares : Shares) (disk : Disk) (earlier : List Uploads.Event) (share path : Text)
    (content : List UInt8) (resume : Bool) (target : PathBuf)
    (haccepted : Accepted platform tree ((Uploads.new shares disk).run platform tree earlier) share path content
      target) (acts : List Act) (t : System)
    (hrun : Run.Guarded (step platform tree content) Proper acts
      (start ((Uploads.new shares disk).run platform tree earlier) share path content resume) t) :
    acts.length ≤ 3 * content.length + 6 ∧
      ((∀ act, Proper t act → step platform tree content t act = none) →
        t.client = .returned (.ok content.length)) := by
  have hstart : Course platform tree ((Uploads.new shares disk).run platform tree earlier) share path content resume
      True (start ((Uploads.new shares disk).run platform tree earlier) share path content resume) :=
    .asked (Uploads.inv_run earlier) fun _ => ⟨target, haccepted⟩
  constructor
  · have hlength := Run.Guarded.length_le (rank content)
      (fun s act s' hs hproper hstep => ⟨Course.step hs (fun _ => hproper) hstep, Course.rank_lt hs hproper hstep⟩)
      hrun hstart
    have hrank : rank content (start ((Uploads.new shares disk).run platform tree earlier) share path content resume)
        = 3 * content.length + 6 := rfl
    omega
  · intro hstuck
    have hcourse := hrun.invariant (fun s act s' hs hproper hstep => Course.step hs (fun _ => hproper) hstep) hstart
    by_contra hclient
    obtain ⟨act, hproper, hstep⟩ := hcourse.exists_proper hclient
    exact hstep (hstuck act hproper)

omit [Casing] in
/-- The new version takes six steps. -/
theorem upload_completes_notes : ∃ t : System, uploaded.length ≤ 12 ∧ t.client = .returned (.ok 2) := by
  letI := Text.asciiCasing
  have haccepted : Accepted .unix linkedTree ((Uploads.new linkedShares Uploads.notesDisk).run .unix linkedTree [])
      "saves".toList "notes".toList [7, 8] Uploads.notes := by
    unfold Accepted
    decide +kernel
  have hchecked : (uploaded.foldlM (fun s act => if Proper s act then step .unix linkedTree [7, 8] s act else none)
      (start ((Uploads.new linkedShares Uploads.notesDisk).run .unix linkedTree []) "saves".toList "notes".toList
        [7, 8] false)).map (fun t => (t.client, t.toHost, t.toClient)) = some (.returned (.ok 2), [], []) := by
    decide +kernel
  obtain ⟨⟨client, toHost, host, toClient⟩, ht, hends⟩ := Option.map_eq_some_iff.mp hchecked
  cases hends
  obtain ⟨hlength, hclient⟩ := upload_completes .unix linkedTree linkedShares Uploads.notesDisk [] "saves".toList
    "notes".toList [7, 8] false Uploads.notes haccepted uploaded _ (Run.Guarded.of_checked ht)
  refine ⟨_, hlength, hclient ?_⟩
  intro act _
  cases act <;> rfl

end

end Transfer

end WindowCast.Files
