import WindowCast.Lib.BigEndian
import WindowCast.Lib.Buffer

/-!
# STUN responses

How a host learns the address it is seen at (`rendezvous/src/lib.rs`): the answer to a binding
request, whose attributes each have a kind, a length and a value that is padded to four bytes.
A result is none where the reader would read out of bounds.

## Main definitions

* `mappedAddress` — the address in a response, and `readAttributes` its loop.
* `Content`, `Attribute`, `Response` — what a response is, and its bytes.
* `Response.address` — the first masked address, or else the last plain one.

## Main results

* `readAttributes_attribute` — what one attribute does to the loop.
* `responses_read` — **every string of bytes is read to an end and within its bounds, and a response
  is read for its address**.
-/

namespace WindowCast.Rendezvous

open Buffer (slice)

namespace Stun

def COOKIE : Vector UInt8 4 := #v[0x21, 0x12, 0xa4, 0x42]

/-- An IPv4 address and a port. -/
structure SocketAddr where
  ip : Vector UInt8 4
  port : UInt16
  deriving DecidableEq

/-- Two bytes, the most significant first. -/
def number (data : List UInt8) (place : ℕ) : Option UInt16 :=
  data[place]?.bind fun high => data[place + 1]?.map fun low => UInt16.ofNat (BigEndian.ofBytes [high, low])

/-- Whether `data` looks like a STUN message. -/
def isStun (data : List UInt8) : Option Bool :=
  if data.length < 20 then some false
  else
    data[0]?.bind fun first =>
      (slice data 1 4).bind fun zeros =>
        (slice data 4 8).map fun cookie => first &&& 0xc0 = 0 ∧ zeros ≠ [0, 0, 0] ∧ cookie = COOKIE.toList

/-- The address a value says, as it is there. -/
def said (value : List UInt8) : Option SocketAddr :=
  (number value 2).bind fun port =>
    value[4]?.bind fun a => value[5]?.bind fun b => value[6]?.bind fun c => value[7]?.map fun d =>
      ⟨#v[a, b, c, d], port⟩

/-- The address, changed by the cookie, or changed back. -/
def SocketAddr.masked (addr : SocketAddr) : SocketAddr :=
  ⟨Vector.zipWith (· ^^^ ·) addr.ip COOKIE, addr.port ^^^ 0x2112⟩

/-- Whether it is a mapped address of IPv4. -/
def isIpv4 (kind : UInt16) (value : List UInt8) : Option Bool :=
  if (kind = 0x0020 ∨ kind = 0x0001) ∧ 8 ≤ value.length then value[1]?.map fun family => family = 0x01
  else some false

/-- The attributes from `place` on, where `plain` is what was found of the plain addresses. -/
def readAttributes (body : List UInt8) (place : ℕ) (plain : Option SocketAddr) : Option (Option SocketAddr) :=
  if place + 4 ≤ body.length then
    (number body place).bind fun kind =>
      (number body (place + 2)).bind fun size =>
        match slice body (place + 4) (place + 4 + size.toNat) with
        | none => some none
        | some value =>
          let next := place + (4 + (size.toNat + 3) / 4 * 4)
          (isIpv4 kind value).bind fun ipv4 =>
            if ipv4 then
              (said value).bind fun addr =>
                if kind = 0x0020 then some (some addr.masked) else readAttributes body next (some addr)
            else readAttributes body next plain
  else some plain
termination_by body.length - place

/-- The mapped address in a binding success response to `tx`. -/
def mappedAddress (data : List UInt8) (tx : Vector UInt8 12) : Option (Option SocketAddr) :=
  (isStun data).bind fun stun =>
    if ¬ stun then some none
    else
      (slice data 0 2).bind fun kind =>
        if kind ≠ [0x01, 0x01] then some none
        else
          (slice data 8 20).bind fun id =>
            if id ≠ tx.toList then some none
            else
              (number data 2).bind fun len =>
                match slice data 20 (20 + len.toNat) with
                | none => some none
                | some body => readAttributes body 0 none

/-! ### Every read is within bounds -/

theorem number_isSome {data : List UInt8} {place : ℕ} (h : place + 2 ≤ data.length) : (number data place).isSome := by
  have hhigh : place < data.length := by omega
  have hlow : place + 1 < data.length := by omega
  rw [number, List.getElem?_eq_getElem hhigh, List.getElem?_eq_getElem hlow]
  rfl

theorem slice_isSome {data : List UInt8} {start stop : ℕ} (hle : start ≤ stop) (h : stop ≤ data.length) :
    (slice data start stop).isSome := by
  rw [slice, if_pos ⟨hle, h⟩]
  rfl

theorem bind_isSome {α β : Type} {x : Option α} {f : α → Option β} (hx : x.isSome)
    (hf : ∀ a, x = some a → (f a).isSome) : (x.bind f).isSome := by
  obtain ⟨a, rfl⟩ := Option.isSome_iff_exists.mp hx
  exact hf a rfl

theorem said_isSome {value : List UInt8} (h : 8 ≤ value.length) : (said value).isSome := by
  have hget (i : ℕ) (hi : i < 8) : value[i]?.isSome := by
    rw [List.getElem?_eq_getElem (by omega)]
    rfl
  refine bind_isSome (number_isSome (by omega)) fun port _ => ?_
  refine bind_isSome (hget 4 (by omega)) fun a _ => bind_isSome (hget 5 (by omega)) fun b _ => ?_
  refine bind_isSome (hget 6 (by omega)) fun c _ => ?_
  rw [Option.isSome_map]
  exact hget 7 (by omega)

theorem isIpv4_isSome (kind : UInt16) (value : List UInt8) : (isIpv4 kind value).isSome := by
  rw [isIpv4]
  split
  · rename_i h
    rw [Option.isSome_map, List.getElem?_eq_getElem (by omega)]
    rfl
  · rfl

theorem length_of_isIpv4 {kind : UInt16} {value : List UInt8} (h : isIpv4 kind value = some true) :
    8 ≤ value.length := by
  rw [isIpv4] at h
  split at h
  · rename_i hlong
    exact hlong.2
  · cases h

/-- However the attributes are written, they are read to an end, and within their bounds. -/
theorem readAttributes_isSome (body : List UInt8) (place : ℕ) (plain : Option SocketAddr) :
    (readAttributes body place plain).isSome := by
  fun_induction readAttributes with
  | case1 place plain h ihFound ihOther =>
    refine bind_isSome (number_isSome (by omega)) fun kind _ => bind_isSome (number_isSome (by omega)) fun size _ => ?_
    split
    · rfl
    · rename_i value _
      refine bind_isSome (isIpv4_isSome kind value) fun ipv4 hipv4 => ?_
      split
      · rename_i htrue
        refine bind_isSome (said_isSome (length_of_isIpv4 (hipv4.trans (congrArg some htrue)))) fun addr _ => ?_
        split
        · rfl
        · exact ihFound size addr
      · exact ihOther size
  | case2 place plain h => rfl

theorem isStun_isSome (data : List UInt8) : (isStun data).isSome := by
  rw [isStun]
  split
  · rfl
  · rename_i h
    have hfirst : data[0]?.isSome := by
      rw [List.getElem?_eq_getElem (by omega)]
      rfl
    refine bind_isSome hfirst fun first _ => bind_isSome (slice_isSome (by omega) (by omega)) fun zeros _ => ?_
    rw [Option.isSome_map]
    exact slice_isSome (by omega) (by omega)

theorem length_of_isStun {data : List UInt8} (h : isStun data = some true) : 20 ≤ data.length := by
  rw [isStun] at h
  split at h
  · cases h
  · omega

/-- **Every string of bytes is read to an end, and within its bounds.** -/
theorem mappedAddress_isSome (data : List UInt8) (tx : Vector UInt8 12) : (mappedAddress data tx).isSome := by
  refine bind_isSome (isStun_isSome data) fun stun hstun => ?_
  split
  · rfl
  rename_i htrue
  have hlong := length_of_isStun (hstun.trans (congrArg some (not_not.mp htrue)))
  refine bind_isSome (slice_isSome (by omega) (by omega)) fun kind _ => ?_
  split
  · rfl
  refine bind_isSome (slice_isSome (by omega) (by omega)) fun id _ => ?_
  split
  · rfl
  refine bind_isSome (number_isSome (by omega)) fun len _ => ?_
  split
  · rfl
  · exact readAttributes_isSome _ _ _

/-! ### Responses -/

/-- What an attribute says: an address that is masked, one that is not, or anything else, also an address of
another family. -/
inductive Content where
  | xorMapped (reserved : UInt8) (addr : SocketAddr) : Content
  | mapped (reserved : UInt8) (addr : SocketAddr) : Content
  | other (kind : UInt16) (value : List UInt8)
      (h : kind = 0x0020 ∨ kind = 0x0001 → value.length < 8 ∨ value[1]? ≠ some 0x01) : Content

namespace Content

def kind : Content → UInt16
  | .xorMapped _ _ => 0x0020
  | .mapped _ _ => 0x0001
  | .other kind _ _ => kind

def ipv4 (reserved : UInt8) (addr : SocketAddr) : List UInt8 :=
  reserved :: 0x01 :: (BigEndian.toBytes 2 addr.port.toNat ++ addr.ip.toList)

def value : Content → List UInt8
  | .xorMapped reserved addr => ipv4 reserved addr.masked
  | .mapped reserved addr => ipv4 reserved addr
  | .other _ value _ => value

def xorMapped? : Content → Option SocketAddr
  | .xorMapped _ addr => some addr
  | _ => none

def mapped? : Content → Option SocketAddr
  | .mapped _ addr => some addr
  | _ => none

end Content

/-- An attribute, with what fills its last four bytes. -/
structure Attribute where
  content : Content
  padding : List UInt8
  length_padding : padding.length = (4 - content.value.length % 4) % 4

def Attribute.bytes (a : Attribute) : List UInt8 :=
  BigEndian.toBytes 2 a.content.kind.toNat ++ (BigEndian.toBytes 2 a.content.value.length ++
    (a.content.value ++ a.padding))

/-- A binding success response. -/
structure Response where
  tx : Vector UInt8 12
  attributes : List Attribute
  fits : (attributes.flatMap Attribute.bytes).length < 65536

namespace Response

def bytes (r : Response) : List UInt8 :=
  [0x01, 0x01] ++ (BigEndian.toBytes 2 (r.attributes.flatMap Attribute.bytes).length ++ (COOKIE.toList ++
    (r.tx.toList ++ r.attributes.flatMap Attribute.bytes)))

/-- The address of the first masked one, and if there is none of the last plain one. -/
def address (r : Response) : Option SocketAddr :=
  (r.attributes.findSome? fun a => a.content.xorMapped?).or
    (r.attributes.filterMap fun a => a.content.mapped?).getLast?

end Response

/-! ### An attribute -/

theorem number_append (before after : List UInt8) (x : UInt16) :
    number (before ++ (BigEndian.toBytes 2 x.toNat ++ after)) before.length = some x := by
  have hbytes : BigEndian.toBytes 2 x.toNat = [UInt8.ofNat (x.toNat / 256), UInt8.ofNat x.toNat] := rfl
  have hvalue := BigEndian.ofBytes_toBytes_of_lt (n := 2) x.toNat_lt
  rw [number, List.getElem?_append_right (Nat.le_refl _), List.getElem?_append_right (Nat.le_add_right _ 1),
    Nat.sub_self, Nat.add_sub_cancel_left, hbytes]
  rw [hbytes] at hvalue
  simp only [List.cons_append, List.getElem?_cons_zero, List.getElem?_cons_succ, Option.bind_some, Option.map_some]
  rw [hvalue, UInt16.ofNat_toNat]

theorem masked_masked (addr : SocketAddr) : addr.masked.masked = addr := by
  obtain ⟨ip, port⟩ := addr
  rw [SocketAddr.masked, SocketAddr.masked]
  congr 1
  · refine Vector.ext fun i hi => ?_
    simp only [Vector.getElem_zipWith, UInt8.xor_assoc, UInt8.xor_self, UInt8.xor_zero]
  · simp only [UInt16.xor_assoc, UInt16.xor_self, UInt16.xor_zero]

theorem exists_bytes (ip : Vector UInt8 4) : ∃ a b c d, ip = #v[a, b, c, d] := by
  obtain ⟨⟨bytes⟩, hsize⟩ := ip
  match bytes, hsize with
  | [a, b, c, d], _ => exact ⟨a, b, c, d, rfl⟩

theorem said_ipv4 (reserved : UInt8) (addr : SocketAddr) : said (Content.ipv4 reserved addr) = some addr := by
  obtain ⟨ip, port⟩ := addr
  obtain ⟨a, b, c, d, rfl⟩ := exists_bytes ip
  have hport := number_append [reserved, 0x01] [a, b, c, d] port
  unfold said
  rw [show number (Content.ipv4 reserved ⟨#v[a, b, c, d], port⟩) 2 = some port from hport]
  rfl

theorem length_ipv4 (reserved : UInt8) (addr : SocketAddr) : (Content.ipv4 reserved addr).length = 8 := by
  rw [Content.ipv4, List.length_cons, List.length_cons, List.length_append, BigEndian.length_toBytes,
    Vector.length_toList]

theorem isIpv4_ipv4 {kind : UInt16} (h : kind = 0x0020 ∨ kind = 0x0001) (reserved : UInt8) (addr : SocketAddr) :
    isIpv4 kind (Content.ipv4 reserved addr) = some true := by
  rw [isIpv4, if_pos ⟨h, (length_ipv4 reserved addr).ge⟩]
  rfl

theorem isIpv4_other {kind : UInt16} {value : List UInt8}
    (h : kind = 0x0020 ∨ kind = 0x0001 → value.length < 8 ∨ value[1]? ≠ some 0x01) :
    isIpv4 kind value = some false := by
  rw [isIpv4]
  split
  · rename_i hkind
    rcases h hkind.1 with hshort | hfamily
    · omega
    · have hlt : 1 < value.length := by omega
      rw [List.getElem?_eq_getElem hlt] at hfamily ⊢
      rw [Option.map_some, decide_eq_false fun heq => hfamily (congrArg some heq)]
  · rfl

theorem length_bytes (a : Attribute) : a.bytes.length = 4 + (a.content.value.length + 3) / 4 * 4 := by
  have hpadding := a.length_padding
  rw [Attribute.bytes, List.length_append, List.length_append, List.length_append, BigEndian.length_toBytes,
    BigEndian.length_toBytes]
  omega

/-- One attribute, and where it goes on. -/
theorem readAttributes_attribute {before after : List UInt8} {a : Attribute} (plain : Option SocketAddr)
    (hfits : a.content.value.length < 65536) :
    readAttributes (before ++ (a.bytes ++ after)) before.length plain =
      match a.content with
      | .xorMapped _ addr => some (some addr)
      | .mapped _ addr => readAttributes (before ++ (a.bytes ++ after)) (before ++ a.bytes).length (some addr)
      | .other _ _ _ => readAttributes (before ++ (a.bytes ++ after)) (before ++ a.bytes).length plain := by
  have hsize : (UInt16.ofNat a.content.value.length).toNat = a.content.value.length := by
    rw [UInt16.toNat_ofNat', Nat.mod_eq_of_lt hfits]
  have hlength := length_bytes a
  generalize hbody : before ++ (a.bytes ++ after) = body
  have hplace : before.length + 4 ≤ body.length := by
    rw [← hbody, List.length_append, List.length_append]
    omega
  have hkind : number body before.length = some a.content.kind := by
    rw [← hbody, Attribute.bytes, List.append_assoc]
    exact number_append _ _ _
  have hnumber : number body (before.length + 2) = some (UInt16.ofNat a.content.value.length) := by
    have hnext := number_append (before ++ BigEndian.toBytes 2 a.content.kind.toNat)
      (a.content.value ++ a.padding ++ after) (UInt16.ofNat a.content.value.length)
    rw [hsize, List.length_append, BigEndian.length_toBytes] at hnext
    rw [← hnext, ← hbody, Attribute.bytes]
    simp only [List.append_assoc]
  have hvalue : slice body (before.length + 4) (before.length + 4 + a.content.value.length) = some a.content.value := by
    have hfront : (before ++ (BigEndian.toBytes 2 a.content.kind.toNat ++
        BigEndian.toBytes 2 a.content.value.length)).length = before.length + 4 := by
      rw [List.length_append, List.length_append, BigEndian.length_toBytes, BigEndian.length_toBytes]
    have hslice : slice (before ++ (BigEndian.toBytes 2 a.content.kind.toNat ++
        BigEndian.toBytes 2 a.content.value.length) ++ (a.content.value ++ (a.padding ++ after))) (before.length + 4)
        (before.length + 4 + a.content.value.length) = some a.content.value := Buffer.slice_append hfront rfl
    rw [← hbody, Attribute.bytes]
    simp only [List.append_assoc] at hslice ⊢
    exact hslice
  rw [readAttributes, if_pos hplace, hkind, Option.bind_some, hnumber, Option.bind_some, hsize, hvalue]
  dsimp only
  rw [← hlength, ← List.length_append]
  generalize hcontent : a.content = content
  -- a masked address ends the loop, and every other attribute goes on behind itself
  cases content with
  | xorMapped reserved addr =>
    show (isIpv4 0x0020 (Content.ipv4 reserved addr.masked)).bind _ = _
    rw [isIpv4_ipv4 (.inl rfl), Option.bind_some, if_pos rfl]
    show (said (Content.ipv4 reserved addr.masked)).bind _ = _
    have hkind : (Content.xorMapped reserved addr).kind = 0x0020 := rfl
    rw [said_ipv4, Option.bind_some, if_pos hkind, masked_masked]
  | mapped reserved addr =>
    show (isIpv4 0x0001 (Content.ipv4 reserved addr)).bind _ = _
    rw [isIpv4_ipv4 (.inr rfl), Option.bind_some, if_pos rfl]
    show (said (Content.ipv4 reserved addr)).bind _ = _
    have hkind : ¬ (Content.mapped reserved addr).kind = 0x0020 := (by decide : ¬ (0x0001 : UInt16) = 0x0020)
    rw [said_ipv4, Option.bind_some, if_neg hkind]
  | other kind value h =>
    show (isIpv4 kind value).bind _ = _
    rw [isIpv4_other h, Option.bind_some, if_neg Bool.false_ne_true]

/-- All the attributes: the first masked address, or the last plain one, or what was found before. -/
theorem readAttributes_attributes (before : List UInt8) {attributes : List Attribute} (plain : Option SocketAddr)
    (hfits : (attributes.flatMap Attribute.bytes).length < 65536) :
    readAttributes (before ++ attributes.flatMap Attribute.bytes) before.length plain =
      some ((attributes.findSome? fun a => a.content.xorMapped?).or
        ((attributes.filterMap fun a => a.content.mapped?).getLast?.or plain)) := by
  induction attributes generalizing before plain with
  | nil =>
    rw [readAttributes, if_neg (by simp)]
    rfl
  | cons a attributes ih =>
    have hsplit : (a.bytes ++ attributes.flatMap Attribute.bytes).length < 65536 := hfits
    have hlength := length_bytes a
    rw [List.length_append] at hsplit
    have hrest (plain : Option SocketAddr) := ih (before ++ a.bytes) plain (by omega)
    simp only [List.append_assoc] at hrest
    rw [List.flatMap_cons, readAttributes_attribute plain (by omega), List.findSome?_cons, List.filterMap_cons]
    cases hcontent : a.content with
    | xorMapped reserved addr => rfl
    | mapped reserved addr =>
      dsimp only [Content.xorMapped?, Content.mapped?]
      rw [hrest, List.getLast?_cons, Option.or_some]
      rfl
    | other kind value h => exact hrest plain

/-! ### A response -/

/-- What every success response begins with, before its attributes. -/
def head (n : UInt16) (tx : Vector UInt8 12) : List UInt8 :=
  [0x01, 0x01] ++ (BigEndian.toBytes 2 n.toNat ++ (COOKIE.toList ++ tx.toList))

section

variable (n : UInt16) (tx : Vector UInt8 12) (tail : List UInt8)

theorem length_head : (head n tx).length = 20 := by
  rw [head, List.length_append, List.length_append, List.length_append, BigEndian.length_toBytes, Vector.length_toList,
    Vector.length_toList]
  rfl

theorem head_append : head n tx ++ tail =
    [0x01, 0x01] ++ (BigEndian.toBytes 2 n.toNat ++ (COOKIE.toList ++ (tx.toList ++ tail))) := by
  simp only [head, List.append_assoc]

theorem isStun_head : isStun (head n tx ++ tail) = some true := by
  have hlong : ¬ (head n tx ++ tail).length < 20 := by
    rw [List.length_append, length_head]
    omega
  have hzeros : slice ([0x01] ++ ((0x01 :: BigEndian.toBytes 2 n.toNat) ++ (COOKIE.toList ++ (tx.toList ++ tail)))) 1
      4 = some (0x01 :: BigEndian.toBytes 2 n.toNat) :=
    Buffer.slice_append rfl rfl
  have hcookie : slice (([0x01, 0x01] ++ BigEndian.toBytes 2 n.toNat) ++ (COOKIE.toList ++ (tx.toList ++ tail))) 4 8 =
      some COOKIE.toList :=
    Buffer.slice_append rfl rfl
  have hne : ¬ 0x01 :: BigEndian.toBytes 2 n.toNat = [0, 0, 0] := fun h => absurd (List.cons.inj h).1 (by decide)
  rw [isStun, if_neg hlong, head_append]
  rw [List.append_assoc] at hcookie
  have hfirst : ([0x01, 0x01] ++ (BigEndian.toBytes 2 n.toNat ++ (COOKIE.toList ++ (tx.toList ++ tail))))[0]? =
      some 0x01 := rfl
  rw [hfirst, Option.bind_some]
  show (slice ([0x01] ++ ((0x01 :: BigEndian.toBytes 2 n.toNat) ++ (COOKIE.toList ++ (tx.toList ++ tail)))) 1
    4).bind _ = _
  rw [hzeros, Option.bind_some, hcookie, Option.map_some]
  exact congrArg some (decide_eq_true ⟨rfl, hne, rfl⟩)

theorem slice_kind : slice (head n tx ++ tail) 0 2 = some [0x01, 0x01] := by
  have hslice : slice ([] ++ ([0x01, 0x01] ++ (BigEndian.toBytes 2 n.toNat ++
      (COOKIE.toList ++ (tx.toList ++ tail))))) 0 2 = some [0x01, 0x01] := Buffer.slice_append rfl rfl
  rw [head_append]
  exact hslice

theorem slice_tx : slice (head n tx ++ tail) 8 20 = some tx.toList := by
  have hfront : ([0x01, 0x01] ++ (BigEndian.toBytes 2 n.toNat ++ COOKIE.toList)).length = 8 := rfl
  have hslice : slice ([0x01, 0x01] ++ (BigEndian.toBytes 2 n.toNat ++ COOKIE.toList) ++ (tx.toList ++ tail)) 8 20 =
      some tx.toList := Buffer.slice_append hfront (by rw [Vector.length_toList])
  rw [head_append]
  simp only [List.append_assoc] at hslice
  exact hslice

theorem number_length : number (head n tx ++ tail) 2 = some n := by
  rw [head_append]
  exact number_append [0x01, 0x01] _ n

end

/-- **A response is read for the address of its first masked attribute, or else of its last plain one.** -/
theorem mappedAddress_bytes (r : Response) (rest : List UInt8) :
    mappedAddress (r.bytes ++ rest) r.tx = some r.address := by
  have hread := readAttributes_attributes [] none r.fits
  have hsize : (UInt16.ofNat (r.attributes.flatMap Attribute.bytes).length).toNat =
      (r.attributes.flatMap Attribute.bytes).length := by
    rw [UInt16.toNat_ofNat', Nat.mod_eq_of_lt r.fits]
  have hbytes : r.bytes ++ rest = head (UInt16.ofNat (r.attributes.flatMap Attribute.bytes).length) r.tx ++
      (r.attributes.flatMap Attribute.bytes ++ rest) := by
    rw [Response.bytes, head, hsize]
    simp only [List.append_assoc]
  have hbody : slice (head (UInt16.ofNat (r.attributes.flatMap Attribute.bytes).length) r.tx ++
      (r.attributes.flatMap Attribute.bytes ++ rest)) 20 (20 + (r.attributes.flatMap Attribute.bytes).length) =
      some (r.attributes.flatMap Attribute.bytes) := Buffer.slice_append (length_head _ _) rfl
  rw [mappedAddress, hbytes, isStun_head, Option.bind_some, if_neg (not_not_intro rfl), slice_kind, Option.bind_some,
    if_neg (not_not_intro rfl), slice_tx, Option.bind_some, if_neg (not_not_intro rfl), number_length, Option.bind_some,
    hsize, hbody]
  dsimp only
  rw [Option.or_none] at hread
  exact hread

/-- **Every string of bytes is read to an end and within its bounds, and a response is read for the address of
its first masked attribute, or else of its last plain one.** -/
theorem responses_read :
    (∀ (data : List UInt8) (tx : Vector UInt8 12), (mappedAddress data tx).isSome) ∧
      ∀ (r : Response) (rest : List UInt8), mappedAddress (r.bytes ++ rest) r.tx = some r.address :=
  ⟨mappedAddress_isSome, mappedAddress_bytes⟩

end Stun
end WindowCast.Rendezvous
