import WindowCast.Lib.Gather
import WindowCast.Lib.Lines
import WindowCast.Lib.Utf8
import WindowCast.SecureHelper.Permission

/-!
# The requests of RTSP

A request comes over a connection of its own (`rtsp.rs`), in as many reads as it
happens to: a head of lines up to an empty one, and as much payload as an option of
the head says.

## Main definitions

* `Message.parse` — a message, from all of its bytes.
* `readRequest` — a request, from what is read.
* `Fair` — the bytes of which the limit on messages keeps no more and no less than it says.

## Main results

* `readRequest_of_found` — a request whose head is found is what the bytes say.
* `reads_alike_iff` — **for which bytes every way of reading gives the same, within the limit**.
-/

namespace WindowCast.GameStream.Rtsp

open Gather (find gather fill)
open WindowCast.SecureHelper (eqIgnoreAsciiCase parseUnsigned)

/-- Requests and responses larger than this are refused. -/
def MAX_MESSAGE : ℕ := 64 * 1024

/-- How much is read at once. -/
def CHUNK : ℕ := 4096

/-- The empty line behind a head. -/
def mark : List UInt8 := [13, 10, 13, 10]

structure Message where
  command : Text
  target : Text
  /-- For a response. -/
  status : ℕ
  reason : Text
  options : List (Text × Text)
  payload : List UInt8
  deriving DecidableEq

/-- The lines of a head. -/
def splitCrLf : Text → List Text
  | [] => [[]]
  | '\r' :: '\n' :: rest => [] :: splitCrLf rest
  | c :: rest =>
    match splitCrLf rest with
    | [] => [[c]]
    | line :: lines => (c :: line) :: lines

/-- At most `n` pieces, the last with all that is left. -/
def splitn (n : ℕ) (separator : Char) (text : Text) : List Text :=
  match n with
  | 0 => []
  | 1 => [text]
  | n + 1 =>
    match Text.splitOnce separator text with
    | some (piece, rest) => piece :: splitn n separator rest
    | none => [text]

/-- The option of a line, if it is one. -/
def optionOf (line : Text) : Option (Text × Text) :=
  (Text.splitOnce ':' line).map fun (name, value) => (Text.trim name, Text.trim value)

namespace Message

/-- An option's value; names compare without regard to case. -/
def option (self : Message) (name : Text) : Option Text :=
  (self.options.find? fun entry => eqIgnoreAsciiCase entry.1 name).map Prod.snd

/-- What a head says. -/
def parseHead (head : Text) : Except String Message :=
  let lines := splitCrLf head
  let first := lines.headD []
  let options := lines.tail.filterMap optionOf
  let parts := splitn 3 ' ' first
  if "RTSP/".toList.isPrefixOf first then
    match parts[1]?.bind (parseUnsigned (2 ^ 16)) with
    | some status => .ok ⟨[], [], status, parts[2]?.getD [], options, []⟩
    | none => .error "bad status line"
  else if parts.length < 3 then .error "bad request line"
  else .ok ⟨parts.getD 0 [], parts.getD 1 [], 0, [], options, []⟩

/-- What the bytes of a head say. -/
def parseText (bytes : List UInt8) : Except String Message :=
  match Utf8.decode bytes with
  | some head => parseHead head
  | none => .error "not text"

/-- A whole message (head and payload). -/
def parse (bytes : List UInt8) : Except String Message :=
  match find mark bytes with
  | some place => (parseText (bytes.take place)).map fun message => { message with payload := bytes.drop (place + 4) }
  | none => .error "no end of header"

/-- How much payload a head says there is. -/
def contentLength (self : Message) : ℕ :=
  ((self.option "Content-length".toList).bind (parseUnsigned (2 ^ 64))).getD 0

end Message

open Message

/-- A request, from what is read; nothing more is read when the connection is closed. -/
def readRequest (reads : List (List UInt8)) : Except String Message :=
  match gather mark MAX_MESSAGE [] reads with
  | .large => .error "header too large"
  | .closed => .error "closed before a request"
  | .found place buf rest =>
    match parse (buf.take (place + 4)) with
    | .error e => .error e
    | .ok head =>
      let length := head.contentLength
      if MAX_MESSAGE < length then .error "payload too large"
      else
        match fill (place + 4 + length) buf rest with
        | some buf => parse (buf.take (place + 4 + length))
        | none => .error "closed mid-payload"

/-- The ways in which bytes may be read. -/
abbrev Reads (bytes : List UInt8) := Gather.Pieces CHUNK bytes

/-! ### What the bytes say -/

/-- What the bytes say, with the end of a head at `place`. -/
def answer (bytes : List UInt8) (place : ℕ) : Except String Message :=
  match parseText (bytes.take place) with
  | .error e => .error e
  | .ok head =>
    if MAX_MESSAGE < head.contentLength then .error "payload too large"
    else if bytes.length < place + 4 + head.contentLength then .error "closed mid-payload"
    else .ok { head with payload := (bytes.drop (place + 4)).take head.contentLength }

/-- The bytes of which the limit keeps no more and no less than it says: a head ends within the limit
and one byte, or more than a read behind the limit, and what is taken with its payload is within it. -/
def Fair (bytes : List UInt8) : Prop :=
  ∀ place, find mark bytes = some place →
    (place + 4 ≤ MAX_MESSAGE + 1 ∨ MAX_MESSAGE + CHUNK < place + 4) ∧
      (place + 4 ≤ MAX_MESSAGE + 1 → ∀ head, parseText (bytes.take place) = .ok head →
        head.contentLength ≤ MAX_MESSAGE → place + 4 + head.contentLength ≤ bytes.length →
          place + 4 + head.contentLength ≤ MAX_MESSAGE)

section

variable {bytes buf : List UInt8} {place n : ℕ} {reads rest : List (List UInt8)} {head message : Message}

theorem parse_of_find (h : find mark bytes = some place) :
    parse bytes = (parseText (bytes.take place)).map fun message =>
      { message with payload := bytes.drop (place + 4) } := by
  rw [parse, h]

/-- Of a beginning with the head, the head is the same. -/
theorem parse_take (h : find mark bytes = some place) (hle : place + 4 ≤ n) (hn : n ≤ bytes.length) :
    parse (bytes.take n) = (parseText (bytes.take place)).map fun message =>
      { message with payload := (bytes.drop (place + 4)).take (n - (place + 4)) } := by
  have hfind : find mark (bytes.take n) = some place :=
    Gather.find_eq_some_of_beginning (List.take_prefix n bytes) h (by
      rw [List.length_take, Nat.min_eq_left hn]
      exact hle)
  rw [parse_of_find hfind, List.take_take, Nat.min_eq_left (by omega), List.drop_take]

/-- The payload is not looked at for its length. -/
theorem contentLength_payload (payload : List UInt8) :
    ({ message with payload := payload } : Message).contentLength = message.contentLength := rfl

theorem take_eq_of_beginning (hp : buf <+: bytes) (hle : n ≤ buf.length) : buf.take n = bytes.take n := by
  obtain ⟨more, rfl⟩ := hp
  exact (List.take_append_of_le_length hle).symm

/-- A request whose head is found is what the bytes say. -/
theorem readRequest_of_found (hgather : gather mark MAX_MESSAGE [] reads = .found place buf rest)
    (hflatten : buf ++ rest.flatten = bytes) (hfind : find mark bytes = some place) (hle : place + 4 ≤ buf.length) :
    readRequest reads = answer bytes place := by
  have hbuf : buf <+: bytes := hflatten ▸ List.prefix_append _ _
  have hhead : parse (buf.take (place + 4)) =
      (parseText (bytes.take place)).map fun message => { message with payload := [] } := by
    rw [take_eq_of_beginning hbuf hle, parse_take hfind (Nat.le_refl _) (hle.trans hbuf.length_le), Nat.sub_self]
    rfl
  rw [readRequest, hgather, answer]
  dsimp only
  rw [hhead]
  cases hparse : parseText (bytes.take place) with
  | error e => rfl
  | ok head =>
    dsimp only [Except.map]
    rw [contentLength_payload]
    by_cases hmax : MAX_MESSAGE < head.contentLength
    · rw [if_pos hmax, if_pos hmax]
    · rw [if_neg hmax, if_neg hmax]
      rcases Gather.fill_eq (place + 4 + head.contentLength) buf rest with
        ⟨hfill, hlt⟩ | ⟨buf', hfill, hlength, hp⟩
      · rw [hfill, if_pos (hflatten ▸ hlt)]
      · rw [hflatten] at hp
        have hle' := hlength.trans hp.length_le
        rw [hfill, if_neg (Nat.not_lt_of_le hle')]
        dsimp only
        rw [take_eq_of_beginning hp hlength, parse_take hfind (Nat.le_add_right _ _) hle', hparse,
          Nat.add_sub_cancel_left]
        rfl

/-! ### Which bytes are fair -/

/-- No head that is found is too large. -/
theorem parseText_ne_large : parseText bytes ≠ .error "header too large" := by
  rw [parseText]
  split
  · rw [parseHead]
    split
    · split
      · exact nofun
      · exact fun h => absurd (Except.error.inj h) (by decide)
    · split
      · exact fun h => absurd (Except.error.inj h) (by decide)
      · exact nofun
  · exact fun h => absurd (Except.error.inj h) (by decide)

theorem answer_ne_large : answer bytes place ≠ .error "header too large" := by
  rw [answer]
  split
  · next e hparse => exact fun h => parseText_ne_large (hparse.trans h)
  · split
    · exact fun h => absurd (Except.error.inj h) (by decide)
    · split
      · exact fun h => absurd (Except.error.inj h) (by decide)
      · exact nofun

theorem readRequest_of_none (hreads : reads.flatten = bytes) (h : find mark bytes = none) : readRequest reads =
    if MAX_MESSAGE < bytes.length then .error "header too large" else .error "closed before a request" := by
  rw [readRequest, Gather.gather_of_none hreads h]
  by_cases hmax : MAX_MESSAGE < bytes.length
  · rw [if_pos hmax, if_pos hmax]
  · rw [if_neg hmax, if_neg hmax]

theorem readRequest_of_le (hreads : reads.flatten = bytes) (h : find mark bytes = some place)
    (hle : place + 4 ≤ MAX_MESSAGE + 1) : readRequest reads = answer bytes place := by
  have hnil : [] ++ reads.flatten = bytes := hreads
  obtain ⟨buf, rest, hgather, hflatten, hbuf⟩ := Gather.gather_of_le hnil h hle
  exact readRequest_of_found hgather hflatten h hbuf

theorem readRequest_of_gt (hreads : reads.flatten = bytes) (h : find mark bytes = some place)
    (hgt : MAX_MESSAGE + CHUNK < place + 4) (hsmall : ∀ read ∈ reads, read.length ≤ CHUNK) :
    readRequest reads = .error "header too large" := by
  rw [readRequest, Gather.gather_of_gt hreads h hgt (Nat.zero_le _) hsmall]

/-- A head that ends between is found or not, as the reads are. -/
theorem reads_differ (hfind : find mark bytes = some place) (hgt : MAX_MESSAGE + 1 < place + 4)
    (hle : place + 4 ≤ MAX_MESSAGE + CHUNK) :
    ∃ reads reads' : Reads bytes, readRequest reads.pieces ≠ readRequest reads'.pieces := by
  have hchunk : 0 < CHUNK := by decide
  obtain ⟨reads, hlarge⟩ := Gather.exists_large hchunk hfind hgt
  obtain ⟨reads', buf, rest, hfound⟩ := Gather.exists_found hchunk hfind hgt hle
  obtain ⟨hflatten, hbuf⟩ := Gather.of_gather_found hfound
  rw [List.nil_append, reads'.flatten_eq] at hflatten
  have hread' := readRequest_of_found hfound hflatten hfind (Gather.le_length_of_find hbuf)
  refine ⟨reads, reads', fun heq => ?_⟩
  rw [← heq, readRequest, hlarge] at hread'
  exact answer_ne_large hread'.symm

theorem answer_eq_ok (h : answer bytes place = .ok message) :
    ∃ head, parseText (bytes.take place) = .ok head ∧ head.contentLength ≤ MAX_MESSAGE ∧
      place + 4 + head.contentLength ≤ bytes.length ∧ message.payload.length = head.contentLength := by
  rw [answer] at h
  split at h
  · exact nomatch h
  · next head hparse =>
    split at h
    · exact nomatch h
    · next hmax =>
      split at h
      · exact nomatch h
      · next hlength =>
        refine ⟨head, hparse, Nat.le_of_not_lt hmax, Nat.le_of_not_lt hlength, ?_⟩
        rw [← Except.ok.inj h]
        show ((bytes.drop (place + 4)).take head.contentLength).length = _
        rw [List.length_take, List.length_drop]
        omega

theorem answer_of_fits (hparse : parseText (bytes.take place) = .ok head) (hmax : head.contentLength ≤ MAX_MESSAGE)
    (hlength : place + 4 + head.contentLength ≤ bytes.length) : ∃ message, answer bytes place = .ok message := by
  rw [answer, hparse]
  dsimp only
  rw [if_neg (Nat.not_lt_of_le hmax), if_neg (Nat.not_lt_of_le hlength)]
  exact ⟨_, rfl⟩

end

/-- For which bytes every way of reading gives the same, and nothing is taken that is, with its
payload, beyond the limit. -/
theorem reads_alike_iff (bytes : List UInt8) :
    ((∀ reads reads' : Reads bytes, readRequest reads.pieces = readRequest reads'.pieces) ∧
      ∀ (reads : Reads bytes) (message : Message), readRequest reads.pieces = .ok message →
        ∃ place, find mark bytes = some place ∧ place + 4 + message.payload.length ≤ MAX_MESSAGE) ↔
      Fair bytes := by
  have hchunk : 0 < CHUNK := by decide
  constructor
  · rintro ⟨halike, hlimit⟩ place hfind
    refine ⟨?_, fun hle head hparse hmax hlength => ?_⟩
    · by_contra hbetween
      obtain ⟨reads, reads', hne⟩ := reads_differ hfind (by omega) (by omega)
      exact hne (halike reads reads')
    · have hread := readRequest_of_le (Gather.Pieces.singles hchunk bytes).flatten_eq hfind hle
      obtain ⟨message, hanswer⟩ := answer_of_fits hparse hmax hlength
      obtain ⟨place', hfind', hle'⟩ := hlimit _ message (hread.trans hanswer)
      obtain rfl := Option.some.inj (hfind.symm.trans hfind')
      obtain ⟨head', hparse', -, -, hpayload⟩ := answer_eq_ok hanswer
      obtain rfl := Except.ok.inj (hparse.symm.trans hparse')
      rwa [hpayload] at hle'
  · intro hfair
    -- whatever the reads are, they give the same
    have hsame (reads : Reads bytes) : readRequest reads.pieces =
        (find mark bytes).elim
          (if MAX_MESSAGE < bytes.length then .error "header too large" else .error "closed before a request")
          fun place => if place + 4 ≤ MAX_MESSAGE + 1 then answer bytes place else .error "header too large" := by
      cases hfind : find mark bytes with
      | none => exact readRequest_of_none reads.flatten_eq hfind
      | some place =>
        rw [Option.elim_some]
        split
        · next hle => exact readRequest_of_le reads.flatten_eq hfind hle
        · next hgt =>
          exact readRequest_of_gt reads.flatten_eq hfind ((hfair place hfind).1.resolve_left hgt)
            fun read hmem => (reads.small read hmem).2
    refine ⟨fun reads reads' => (hsame reads).trans (hsame reads').symm, fun reads message hok => ?_⟩
    rw [hsame reads] at hok
    cases hfind : find mark bytes with
    | none =>
      rw [hfind, Option.elim_none] at hok
      split at hok <;> cases hok
    | some place =>
      rw [hfind, Option.elim_some] at hok
      split at hok
      · next hle =>
        obtain ⟨head, hparse, hmax, hlength, hpayload⟩ := answer_eq_ok hok
        refine ⟨place, rfl, ?_⟩
        rw [hpayload]
        exact (hfair place hfind).2 hle head hparse hmax hlength
      · cases hok

/-- A head that ends two bytes behind the limit. -/
def longHead : List UInt8 := List.replicate (MAX_MESSAGE - 2) 97 ++ mark

/-- Read byte by byte, it is too large; read as fast as can be, it is not. -/
theorem longHead_read_differently :
    ¬ ∀ (bytes : List UInt8) (reads reads' : Reads bytes), readRequest reads.pieces = readRequest reads'.pieces := by
  intro h
  have hfind : find mark longHead = some (MAX_MESSAGE - 2) := by
    have := Gather.find_append_mark mark (List.replicate (MAX_MESSAGE - 2) 97) (by decide) (by
      intro a hmem
      rw [List.eq_of_mem_replicate hmem]
      decide)
    rwa [List.length_replicate] at this
  obtain ⟨reads, reads', hne⟩ := reads_differ hfind (by decide) (by decide)
  exact hne (h longHead reads reads')

end WindowCast.GameStream.Rtsp
