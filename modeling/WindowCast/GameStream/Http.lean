import WindowCast.GameStream.HostPairing
import WindowCast.Lib.Gather
import WindowCast.Lib.Percent

/-!
# The requests of HTTP

A client asks a host for a path, with values that it percent-encodes (`client.rs`); the host
reads the head of the request byte by byte, and of its first line the path and the values
(`server.rs`).

## Main definitions

* `url`, `target` — what a client asks for.
* `readHead`, `readRequest` — what a host reads.

## Main results

* `readHead_of_find` — a head is read up to its first empty line.
* `request_reads_back` — **what a client asks for is what the host reads**.
-/

namespace WindowCast.GameStream.Http

open Gather (find)
open Xml (encodeHex)

/-! ### What a client asks for -/

def urlencode (value : Text) : Text := Percent.encode value

/-- A host, as a client reaches it. -/
structure Host where
  address : Text
  httpPort : UInt16
  httpsPort : UInt16
  /-- The certificate from pairing. -/
  cert : Option (List UInt8)

/-- Path and values, behind where the host is. -/
def target (uniqueId : Text) (uuid : Vector UInt8 16) (path : Text) (query : Query) : Text :=
  '/' :: (path ++ ("?uniqueid=".toList ++ (uniqueId ++ ("&uuid=".toList ++ (encodeHex uuid.toList ++
    query.flatMap fun p => '&' :: (p.1 ++ '=' :: urlencode p.2))))))

def url (uniqueId : Text) (uuid : Vector UInt8 16) (scheme : Text) (host : Host) (port : UInt16) (path : Text)
    (query : Query) : Text :=
  let address :=
    if ':' ∈ host.address ∧ host.address.head? ≠ some '[' then '[' :: host.address ++ [']'] else host.address
  scheme ++ "://".toList ++ address ++ ':' :: Nat.toDigits 10 port.toNat ++ target uniqueId uuid path query

/-- What is sent for a target: the request line, and the fields behind it. -/
def requestHead (target : Text) (fields : List UInt8) : List UInt8 :=
  Utf8.encode ("GET ".toList ++ (target ++ " HTTP/1.1\r\n".toList)) ++ fields

/-! ### What a host reads -/

def urldecode (text : Text) : Text := Percent.decode text

/-- The empty line behind a head. -/
def mark : List UInt8 := [13, 10, 13, 10]

/-- A head longer than this is read no further. -/
def MAX_HEAD : ℕ := 64 * 1024

/-- The head of a request, byte by byte; `none`, where what comes ends before it. -/
def readHead (head : List UInt8) (stream : List UInt8) : Option (List UInt8) :=
  if mark <:+ head then some head
  else if MAX_HEAD < head.length then none
  else
    match stream with
    | [] => none
    | byte :: stream => readHead (head ++ [byte]) stream
termination_by structural stream

/-- What a pair of a query says. -/
def readPair (pair : Text) : Text × Text :=
  let (name, value) := (Text.splitOnce '=' pair).getD (pair, [])
  (urldecode name, urldecode value)

/-- What the head of a request asks for. -/
def parseHead (head : List UInt8) : Option (Text × Query) := do
  let line ← (Text.lines (Utf8.lossy head)).head?
  let target ← (Text.split ' ' line)[1]?
  let (path, query) := (Text.splitOnce '?' target).getD (target, [])
  some (path, ((Text.split '&' query).filter fun pair => pair ≠ []).map readPair)

/-- Path and values of a request. -/
def readRequest (stream : List UInt8) : Option (Text × Query) := (readHead [] stream).bind parseHead

/-! ### Heads -/

section

variable {head stream bytes : List UInt8} {place : ℕ}

/-- A head ends with the mark exactly where the mark is first. -/
theorem isSuffix_mark_iff (hhead : head <+: bytes) (hfind : find mark bytes = some place)
    (hle : head.length ≤ place + 4) : mark <:+ head ↔ head.length = place + 4 := by
  constructor
  · rintro ⟨front, rfl⟩
    by_contra hne
    have hlt : (front ++ mark).length < place + mark.length := lt_of_le_of_ne hle hne
    have hnone := Gather.find_eq_none_of_lt hhead hfind hlt
    have hat := Extent.first_eq_none.mp hnone front.length (by
      rw [List.length_append]
      omega)
    rw [List.drop_left, ← Bool.not_eq_true, List.isPrefixOf_iff_prefix] at hat
    exact hat (List.prefix_refl mark)
  · intro heq
    have hfound := Gather.find_eq_some_of_beginning hhead hfind heq.ge
    obtain ⟨-, hat, -⟩ := Extent.first_eq_some hfound
    have hdrop : mark = head.drop place := by
      refine (List.isPrefixOf_iff_prefix.mp hat).eq_of_length ?_
      rw [List.length_drop, heq]
      exact (Nat.add_sub_cancel_left place 4).symm
    rw [hdrop]
    exact List.drop_suffix _ _

/-- **A head is read up to its first empty line**, and no further. -/
theorem readHead_of_find (hfind : find mark bytes = some place) (hle : place + 4 ≤ MAX_HEAD + 1)
    (hhead : head ++ stream = bytes) (hlength : head.length ≤ place + 4) :
    readHead head stream = some (bytes.take (place + 4)) := by
  have hplace : place + 4 ≤ bytes.length := Gather.le_length_of_find hfind
  induction stream generalizing head with
  | nil =>
    rw [List.append_nil] at hhead
    subst hhead
    rw [readHead, if_pos ((isSuffix_mark_iff (List.prefix_refl _) hfind hlength).mpr (le_antisymm hlength hplace)),
      List.take_of_length_le hlength]
  | cons byte stream ih =>
    have hprefix : head <+: bytes := hhead ▸ List.prefix_append _ _
    rw [readHead]
    rcases Nat.eq_or_lt_of_le hlength with heq | hlt
    · rw [if_pos ((isSuffix_mark_iff hprefix hfind hlength).mpr heq), ← hhead, ← heq, List.take_left]
    · have hmark : ¬ mark <:+ head := fun h => hlt.ne ((isSuffix_mark_iff hprefix hfind hlength).mp h)
      have hmax : ¬ MAX_HEAD < head.length := by omega
      rw [if_neg hmark, if_neg hmax]
      refine ih ?_ ?_
      · rw [List.append_assoc, List.singleton_append]
        exact hhead
      · rw [List.length_append]
        exact hlt

end

/-! ### Targets -/

/-- A text of characters that stand for themselves in a URL. -/
def IsPlain (text : Text) : Prop := ∀ c ∈ text, Percent.isUnreserved c = true

instance (text : Text) : Decidable (IsPlain text) :=
  decidable_of_iff (text.all Percent.isUnreserved = true) List.all_eq_true

section

variable {text uniqueId path : Text} {uuid : Vector UInt8 16} {query : Query} {c : Char}

theorem isPlain_encodeHex (bytes : List UInt8) : IsPlain (encodeHex bytes) := by
  intro c hc
  obtain ⟨n, hn, rfl⟩ := Hex.mem_encode hc
  have hall : ∀ n < 16, Percent.isUnreserved (Nat.digitChar n) = true := by decide
  exact hall n hn

theorem IsPlain.not_mem (h : IsPlain text) (hc : Percent.isUnreserved c = false) : c ∉ text := fun hmem => by
  rw [h c hmem] at hc
  cases hc

theorem not_mem_urlencode (hc : Percent.isUnreserved c = false) (hpercent : c ≠ '%') :
    c ∉ urlencode text := fun hmem => by
  rcases Percent.mem_encode hmem with hself | rfl
  · rw [hself] at hc
    cases hc
  · exact hpercent rfl

/-- A plain text is read as it is. -/
theorem IsPlain.urldecode_eq (h : IsPlain text) : urldecode text = text := by
  rw [urldecode, ← Percent.encode_of_unreserved h, Percent.decode_encode, Percent.encode_of_unreserved h]

theorem isPlain_names : IsPlain "uniqueid".toList ∧ IsPlain "uuid".toList := by decide

/-- What stands between the ampersands. -/
def pairs (uniqueId : Text) (uuid : Vector UInt8 16) (query : Query) : List Text :=
  ("uniqueid".toList ++ '=' :: uniqueId) :: ("uuid".toList ++ '=' :: encodeHex uuid.toList) ::
    query.map fun p => p.1 ++ '=' :: urlencode p.2

theorem target_eq (uniqueId : Text) (uuid : Vector UInt8 16) (path : Text) (query : Query) :
    target uniqueId uuid path query = ('/' :: path) ++ '?' :: (("uniqueid".toList ++ '=' :: uniqueId) ++
      (((("uuid".toList ++ '=' :: encodeHex uuid.toList) ::
        query.map fun p => p.1 ++ '=' :: urlencode p.2).flatMap fun pair => '&' :: pair))) := by
  have hid : "?uniqueid=".toList = '?' :: ("uniqueid".toList ++ ['=']) := rfl
  have huuid : "&uuid=".toList = '&' :: ("uuid".toList ++ ['=']) := rfl
  rw [target, hid, huuid, List.flatMap_cons, List.flatMap_map]
  simp only [List.cons_append, List.append_assoc, List.nil_append]

/-- A pair that a client writes is read back. -/
theorem readPair_eq {name : Text} (hname : IsPlain name) (value : Text) :
    readPair (name ++ '=' :: urlencode value) = (name, value) := by
  have hsplit : Text.splitOnce '=' (name ++ '=' :: urlencode value) = some (name, urlencode value) :=
    Text.splitOnce_eq_some.mpr ⟨rfl, hname.not_mem rfl⟩
  rw [readPair, hsplit]
  dsimp only [Option.getD_some]
  rw [hname.urldecode_eq, urldecode, urlencode, Percent.decode_encode]

theorem readPair_plain {name value : Text} (hname : IsPlain name) (hvalue : IsPlain value) :
    readPair (name ++ '=' :: value) = (name, value) := by
  have hread := readPair_eq hname value
  rwa [urlencode, Percent.encode_of_unreserved hvalue] at hread

variable (uuid) in
/-- No character that parts a request is in a pair. -/
theorem not_mem_pairs (huniqueId : IsPlain uniqueId) (hquery : ∀ p ∈ query, IsPlain p.1)
    (hc : c = '&' ∨ c = ' ' ∨ c = '\n' ∨ c = '\r') : ∀ pair ∈ pairs uniqueId uuid query, c ∉ pair := by
  have hother : Percent.isUnreserved c = false ∧ c ≠ '=' ∧ c ≠ '%' := by
    rcases hc with rfl | rfl | rfl | rfl <;> decide
  obtain ⟨hreserved, hequals, hpercent⟩ := hother
  have hjoin {name value : Text} (hname : IsPlain name) (hvalue : c ∉ value) : c ∉ name ++ '=' :: value := by
    rw [List.mem_append, List.mem_cons, not_or, not_or]
    exact ⟨hname.not_mem hreserved, hequals, hvalue⟩
  intro pair hpair
  rcases List.mem_cons.mp hpair with rfl | hpair
  · exact hjoin isPlain_names.1 (huniqueId.not_mem hreserved)
  rcases List.mem_cons.mp hpair with rfl | hpair
  · exact hjoin isPlain_names.2 ((isPlain_encodeHex _).not_mem hreserved)
  · obtain ⟨p, hp, rfl⟩ := List.mem_map.mp hpair
    exact hjoin (hquery p hp) (not_mem_urlencode hreserved hpercent)

variable (uuid) in
/-- The values of a target are read of what is behind its question mark. -/
theorem readPairs_eq (huniqueId : IsPlain uniqueId) (hquery : ∀ p ∈ query, IsPlain p.1) :
    ((pairs uniqueId uuid query).filter fun pair => pair ≠ []).map readPair =
      ("uniqueid".toList, uniqueId) :: ("uuid".toList, encodeHex uuid.toList) :: query := by
  have hfilter : ((pairs uniqueId uuid query).filter fun pair => pair ≠ []) = pairs uniqueId uuid query := by
    refine List.filter_eq_self.mpr fun pair hpair => decide_eq_true ?_
    have hequals : '=' ∈ pair := by
      rcases List.mem_cons.mp hpair with rfl | hpair
      · exact List.mem_append_right _ List.mem_cons_self
      rcases List.mem_cons.mp hpair with rfl | hpair
      · exact List.mem_append_right _ List.mem_cons_self
      · obtain ⟨p, -, rfl⟩ := List.mem_map.mp hpair
        exact List.mem_append_right _ List.mem_cons_self
    exact List.ne_nil_of_mem hequals
  rw [hfilter, pairs, List.map_cons, List.map_cons, List.map_map, readPair_plain isPlain_names.1 huniqueId,
    readPair_plain isPlain_names.2 (isPlain_encodeHex _)]
  refine congrArg (_ :: _ :: ·) ?_
  conv_rhs => rw [← List.map_id query]
  exact List.map_congr_left fun p hp => readPair_eq (hquery p hp) p.2

variable (uuid) in
/-- What parts a request is not in a target. -/
theorem not_mem_target (hpath : IsPlain path) (huniqueId : IsPlain uniqueId) (hquery : ∀ p ∈ query, IsPlain p.1)
    (hc : c = ' ' ∨ c = '\n' ∨ c = '\r') : c ∉ target uniqueId uuid path query := by
  have hpairs := not_mem_pairs uuid huniqueId hquery (.inr hc)
  have hother : Percent.isUnreserved c = false ∧ c ≠ '/' ∧ c ≠ '?' ∧ c ≠ '&' := by
    rcases hc with rfl | rfl | rfl <;> decide
  obtain ⟨hreserved, hslash, hquestion, hampersand⟩ := hother
  rw [target_eq, List.mem_append, List.mem_cons, List.mem_cons, List.mem_append, List.mem_flatMap]
  rintro ((h | h) | h | h | ⟨pair, hpair, h⟩)
  · exact hslash h
  · exact hpath.not_mem hreserved h
  · exact hquestion h
  · exact hpairs _ List.mem_cons_self h
  · rcases List.mem_cons.mp h with h | h
    · exact hampersand h
    · exact hpairs pair (List.mem_cons_of_mem _ hpair) h

/-- A blank line is not in the request line. -/
theorem length_le_of_find {line : Text} {fields : List UInt8} {place : ℕ} (hline : '\n' ∉ line)
    (hfind : find mark (Utf8.encode (line ++ ['\r', '\n']) ++ fields) = some place) :
    (Utf8.encode (line ++ ['\r', '\n'])).length ≤ place + 4 := by
  obtain ⟨-, hat, -⟩ := Extent.first_eq_some hfind
  have hencode : Utf8.encode (line ++ ['\r', '\n']) = Utf8.encode (line ++ ['\r']) ++ [10] := by
    rw [Utf8.encode, Utf8.encode, List.flatMap_append, List.flatMap_append, List.append_assoc]
    rfl
  by_contra hlt
  rw [hencode, List.length_append, List.length_singleton] at hlt
  -- the mark's first line feed would be in the line
  have hbyte : (Utf8.encode (line ++ ['\r']))[place + 1]? = some 10 := by
    obtain ⟨rest, hrest⟩ := List.isPrefixOf_iff_prefix.mp hat
    have hsecond : ((Utf8.encode (line ++ ['\r', '\n']) ++ fields).drop place)[1]? = some 10 := by
      rw [← hrest]
      rfl
    rwa [List.getElem?_drop, hencode, List.append_assoc, List.getElem?_append_left (by omega)] at hsecond
  have hmem := Utf8.mem_of_mem_encode (List.mem_of_getElem? hbyte) (by decide)
  rw [List.mem_append] at hmem
  exact hmem.elim hline (by decide)

/-- **What a client asks for is what the host reads**, whatever fields are behind the request line
and whatever follows them: the path and, after the client's id and that of the request, the
very values. -/
theorem request_reads_back (hpath : IsPlain path) (huniqueId : IsPlain uniqueId)
    (hquery : ∀ p ∈ query, IsPlain p.1) {fields : List UInt8} {place : ℕ}
    (hfind : find mark (requestHead (target uniqueId uuid path query) fields) = some place)
    (hplace : place + 4 ≤ MAX_HEAD + 1) :
    readRequest (requestHead (target uniqueId uuid path query) fields) = some ('/' :: path,
      ("uniqueid".toList, uniqueId) :: ("uuid".toList, encodeHex uuid.toList) :: query) := by
  have hblank : ' ' ∉ target uniqueId uuid path query := not_mem_target uuid hpath huniqueId hquery (.inl rfl)
  have hfeed : '\n' ∉ target uniqueId uuid path query := not_mem_target uuid hpath huniqueId hquery (.inr (.inl rfl))
  have hquestion : '?' ∉ '/' :: path := by
    rw [List.mem_cons, not_or]
    exact ⟨by decide, hpath.not_mem rfl⟩
  have hpairs := readPairs_eq uuid huniqueId hquery
  have hampersand := not_mem_pairs uuid huniqueId hquery (.inl rfl)
  have htarget := target_eq uniqueId uuid path query
  generalize target uniqueId uuid path query = asked at *
  -- the request line, and what is behind it
  have hline : requestHead asked fields =
      Utf8.encode (("GET".toList ++ ' ' :: (asked ++ ' ' :: "HTTP/1.1".toList)) ++ ['\r', '\n']) ++ fields := by
    have hparts : "GET ".toList ++ (asked ++ " HTTP/1.1\r\n".toList) =
        ("GET".toList ++ ' ' :: (asked ++ ' ' :: "HTTP/1.1".toList)) ++ ['\r', '\n'] := by
      have hget : "GET ".toList = "GET".toList ++ [' '] := rfl
      have hversion : " HTTP/1.1\r\n".toList = ' ' :: ("HTTP/1.1".toList ++ ['\r', '\n']) := rfl
      rw [hget, hversion]
      simp only [List.append_assoc, List.cons_append, List.nil_append]
    rw [requestHead, hparts]
  generalize hfirst : "GET".toList ++ ' ' :: (asked ++ ' ' :: "HTTP/1.1".toList) = first at hline
  have hnot {c : Char} (hc : c ∉ asked) (hget : c ∉ "GET".toList ∧ c ≠ ' ' ∧ c ∉ "HTTP/1.1".toList) : c ∉ first := by
    rw [← hfirst, List.mem_append, List.mem_cons, List.mem_append, List.mem_cons]
    rintro (h | h | h | h | h)
    · exact hget.1 h
    · exact hget.2.1 h
    · exact hc h
    · exact hget.2.1 h
    · exact hget.2.2 h
  have hfeed' : '\n' ∉ first := hnot hfeed (by decide)
  rw [hline] at hfind ⊢
  have hlength := length_le_of_find hfeed' hfind
  obtain ⟨more, hmore⟩ : ∃ more, (Utf8.encode (first ++ ['\r', '\n']) ++ fields).take (place + 4) =
      Utf8.encode (first ++ ['\r', '\n']) ++ more :=
    ⟨_, by rw [List.take_append, List.take_of_length_le hlength]⟩
  have hlines : (Text.lines (Utf8.lossy (Utf8.encode (first ++ ['\r', '\n']) ++ more))).head? = some first := by
    have hend : first ++ ['\r', '\n'] ++ Utf8.lossy more = (first ++ ['\r']) ++ '\n' :: Utf8.lossy more := by
      rw [List.append_assoc, List.append_assoc]
      rfl
    have hstrip : Text.stripCr (first ++ ['\r']) = first := by
      rw [Text.stripCr, if_pos List.getLast?_concat, List.dropLast_concat]
    have hfeed'' : '\n' ∉ first ++ ['\r'] := by
      rw [List.mem_append, not_or]
      exact ⟨hfeed', by decide⟩
    rw [Utf8.lossy_encode_append, hend, Text.lines_append hfeed'', hstrip, List.head?_cons]
  have hsplit : Text.split ' ' first = ["GET".toList, asked, "HTTP/1.1".toList] := by
    rw [← hfirst, Text.split_append, Text.split_of_not_mem (by decide), Text.split_append, Text.split_of_not_mem hblank,
      Text.split_of_not_mem (by decide)]
    rfl
  have hvalues (first : Text) (others : List Text) (hpieces : ∀ pair ∈ first :: others, '&' ∉ pair) :
      Text.split '&' (first ++ others.flatMap fun pair => '&' :: pair) = first :: others :=
    Text.split_eq_cons_iff.mpr ⟨rfl, hpieces first List.mem_cons_self, fun pair hpair =>
      hpieces pair (List.mem_cons_of_mem _ hpair)⟩
  rw [readRequest, readHead_of_find hfind hplace (List.nil_append _) (Nat.zero_le _), Option.bind_some, hmore,
    parseHead, hlines]
  simp only [Option.bind_eq_bind, Option.bind_some, hsplit, List.getElem?_cons_succ, List.getElem?_cons_zero]
  rw [htarget, Text.splitOnce_eq_some.mpr ⟨rfl, hquestion⟩]
  dsimp only [Option.getD_some]
  rw [hvalues _ _ hampersand]
  exact congrArg (fun values => some ('/' :: path, values)) hpairs

end

/-- The name of a device arrives as it is, whatever is in it. -/
theorem request_reads_back_name :
    readRequest (requestHead (target "0123".toList (Vector.replicate 16 5) "pair".toList
        [("devicename".toList, "Jörg's PC & Söhne".toList)]) (Utf8.encode "Host: PC\r\n\r\nmore".toList)) =
      some ("/pair".toList, [("uniqueid".toList, "0123".toList),
        ("uuid".toList, encodeHex (Vector.replicate 16 5).toList),
        ("devicename".toList, "Jörg's PC & Söhne".toList)]) := by
  have hfind : find mark (requestHead (target "0123".toList (Vector.replicate 16 5) "pair".toList
      [("devicename".toList, "Jörg's PC & Söhne".toList)]) (Utf8.encode "Host: PC\r\n\r\nmore".toList)) =
        some 129 := by
    decide +kernel
  exact request_reads_back (by decide) (by decide) (by decide) hfind (by decide)

end WindowCast.GameStream.Http
