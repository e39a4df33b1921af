import WindowCast.Lib.Codec

/-!
# Beacons

`discovery/src/beacon.rs`: what a host broadcasts about itself to the local network.  Where a
slice of a text would be cut inside a character the beacon is none.

## Main definitions

* `Beacon`, `Beacon.new` — what a host says.
* `Beacon.encode`, `Beacon.decode` — its bytes, and what is read of bytes.
* `Beacon.Sound` — what can be said in a beacon.

## Main results

* `Beacon.decode_layout` — what is read of bytes that are laid out as a beacon.
* `Beacon.decode_eq_ok_iff` — a beacon is read from its own bytes, and from no others.
* `Beacon.beacons_exact` — **a new beacon is read from what it is written as, and what is read is
  written as it was**.
-/

namespace WindowCast.Discovery

/-- The letters `WCB`, and the format version. -/
def MAGIC : List UInt8 := [0x57, 0x43, 0x42, 0x01]
/-- A device id is the host's public key: 32 bytes. -/
def ID_LEN : ℕ := 32
/-- The longest display name a beacon carries, in bytes. -/
def MAX_NAME : ℕ := 64
/-- magic + id + port + name length + name. -/
def MAX_PACKET : ℕ := 4 + ID_LEN + 2 + 1 + MAX_NAME
def MIN_PACKET : ℕ := 4 + ID_LEN + 2 + 1

inductive BeaconError where
  | notABeacon
  | truncated
  | tooLong
  | badName
  | badPort
  deriving DecidableEq

/-- What a host says about itself: who it is and where it listens. -/
structure Beacon where
  deviceId : Vector UInt8 ID_LEN
  port : UInt16
  name : Text
  deriving DecidableEq

namespace Beacon

def isCharBoundary (text : Text) (index : ℕ) : Bool := (text.splitAtByte index).isSome

/-- The last boundary of a character that is not behind this. -/
def boundary (text : Text) : ℕ → ℕ
  | 0 => 0
  | n + 1 => if isCharBoundary text (n + 1) then n + 1 else boundary text n

/-- A beacon for a host. -/
def new (deviceId : Vector UInt8 ID_LEN) (port : UInt16) (name : Text) : Option Beacon :=
  let clean : Text := name.filter fun c => !Text.isControl c
  let stop := boundary clean (min clean.utf8Size MAX_NAME)
  (clean.splitAtByte stop).map fun p => ⟨deviceId, port, p.1.trim⟩

def encode (self : Beacon) : List UInt8 :=
  let name := Utf8.encode self.name
  let name := name.take (min name.length MAX_NAME)
  MAGIC ++ self.deviceId.toList ++ BigEndian.toBytes 2 self.port.toNat ++ [UInt8.ofNat name.length] ++ name

/-- Reads a beacon, refusing anything that is not exactly one. -/
def decode (bytes : List UInt8) : Except BeaconError Beacon :=
  if MAX_PACKET < bytes.length then .error .tooLong
  else if bytes.length < 4 ∨ bytes.take 4 ≠ MAGIC then .error .notABeacon
  else if bytes.length < MIN_PACKET then .error .truncated
  else
    let deviceId : Vector UInt8 ID_LEN := Vector.ofFn fun i => bytes.getD (4 + i) 0
    let port := UInt16.ofNat (BigEndian.ofBytes [bytes.getD (4 + ID_LEN) 0, bytes.getD (5 + ID_LEN) 0])
    if port = 0 then .error .badPort
    else
      let len := (bytes.getD (6 + ID_LEN) 0).toNat
      let body := bytes.drop MIN_PACKET
      if MAX_NAME < len then .error .tooLong
      else if body.length ≠ len then .error (if body.length < len then .truncated else .tooLong)
      else
        match Utf8.decode body with
        | none => .error .badName
        | some name => if name.any Text.isControl then .error .badName else .ok ⟨deviceId, port, name⟩

/-- What a beacon says can be said in one. -/
structure Sound (b : Beacon) : Prop where
  port_ne : b.port ≠ 0
  name_le : b.name.utf8Size ≤ MAX_NAME
  no_control : ∀ c ∈ b.name, Text.isControl c = false

/-! ### The layout -/

/-- The bytes of a beacon, part by part. -/
def layout (deviceId : Vector UInt8 ID_LEN) (high low len : UInt8) (body : List UInt8) : List UInt8 :=
  MAGIC ++ (deviceId.toList ++ high :: low :: len :: body)

section

variable {deviceId : Vector UInt8 ID_LEN} {high low len : UInt8} {body : List UInt8}

theorem length_layout : (layout deviceId high low len body).length = MIN_PACKET + body.length := by
  rw [layout, List.length_append, List.length_append, Vector.length_toList]
  simp only [List.length_cons, MIN_PACKET]
  change 4 + _ = _
  omega

variable (deviceId high low len body) in
/-- What is behind the id. -/
theorem getD_layout (k : ℕ) :
    (layout deviceId high low len body).getD (4 + ID_LEN + k) 0 = (high :: low :: len :: body).getD k 0 := by
  have hmagic : MAGIC.length = 4 := rfl
  rw [layout, List.getD_append_right _ _ _ _ (by omega), List.getD_append_right _ _ _ _ (by
    rw [Vector.length_toList]; omega), Vector.length_toList]
  congr 1
  omega

theorem deviceId_layout : (Vector.ofFn fun i : Fin ID_LEN => (layout deviceId high low len body).getD (4 + i) 0) =
    deviceId := by
  refine Vector.ext fun i hi => ?_
  have hmagic : MAGIC.length = 4 := rfl
  rw [Vector.getElem_ofFn, layout, List.getD_append_right _ _ _ _ (by omega), hmagic, Nat.add_sub_cancel_left,
    List.getD_append _ _ _ _ (by rwa [Vector.length_toList]),
    List.getD_eq_getElem _ _ (by rwa [Vector.length_toList])]
  exact Vector.getElem_toList _

theorem drop_layout : (layout deviceId high low len body).drop MIN_PACKET = body := by
  have hsplit : layout deviceId high low len body = (MAGIC ++ deviceId.toList ++ [high, low, len]) ++ body := by
    rw [layout, List.append_assoc, List.append_assoc]
    rfl
  rw [hsplit, List.drop_left']
  rw [List.length_append, List.length_append, Vector.length_toList]
  rfl

/-- Bytes that begin as a beacon does, and are long enough for one, are laid out as one. -/
theorem exists_layout {bytes : List UInt8} (hmagic : bytes.take 4 = MAGIC) (hlength : MIN_PACKET ≤ bytes.length) :
    ∃ deviceId high low len body, bytes = layout deviceId high low len body := by
  obtain ⟨id, hid⟩ : ∃ id : Vector UInt8 ID_LEN, id.toList = (bytes.drop 4).take ID_LEN := by
    refine ⟨⟨((bytes.drop 4).take ID_LEN).toArray, ?_⟩, ?_⟩
    · rw [List.size_toArray, List.length_take, List.length_drop]
      unfold MIN_PACKET at hlength
      omega
    · rfl
  obtain ⟨high, low, len, body, hbody⟩ : ∃ high low len body, bytes.drop (4 + ID_LEN) = high :: low :: len :: body := by
    have hrest : 3 ≤ (bytes.drop (4 + ID_LEN)).length := by
      rw [List.length_drop]
      unfold MIN_PACKET at hlength
      omega
    match bytes.drop (4 + ID_LEN), hrest with
    | high :: low :: len :: body, _ => exact ⟨high, low, len, body, rfl⟩
  refine ⟨id, high, low, len, body, ?_⟩
  rw [layout, hid, ← hbody, ← hmagic, ← List.drop_drop, List.take_append_drop, List.take_append_drop]

/-- What is read of bytes that are laid out as a beacon. -/
theorem decode_layout : decode (layout deviceId high low len body) =
    let port := UInt16.ofNat (BigEndian.ofBytes [high, low])
    if MAX_NAME < body.length then .error .tooLong
    else if port = 0 then .error .badPort
    else if MAX_NAME < len.toNat then .error .tooLong
    else if body.length ≠ len.toNat then .error (if body.length < len.toNat then .truncated else .tooLong)
    else
      match Utf8.decode body with
      | none => .error .badName
      | some name => if name.any Text.isControl then .error .badName else .ok ⟨deviceId, port, name⟩ := by
  have hhigh := getD_layout deviceId high low len body 0
  have hlow := getD_layout deviceId high low len body 1
  have hlen := getD_layout deviceId high low len body 2
  have hmagic : (layout deviceId high low len body).take 4 = MAGIC := List.take_left' rfl
  have hlong : MAX_PACKET < MIN_PACKET + body.length ↔ MAX_NAME < body.length := Nat.add_lt_add_iff_left
  have hhead : ¬ (MIN_PACKET + body.length < 4 ∨ (layout deviceId high low len body).take 4 ≠ MAGIC) := by
    rw [hmagic]
    exact not_or.mpr ⟨by unfold MIN_PACKET; omega, not_not_intro rfl⟩
  unfold decode
  dsimp only
  rw [length_layout, if_neg hhead, if_neg (Nat.not_lt.mpr (Nat.le_add_right MIN_PACKET body.length)),
    deviceId_layout, drop_layout, show 5 + ID_LEN = 4 + ID_LEN + 1 by omega, show 6 + ID_LEN = 4 + ID_LEN + 2 by omega]
  rw [hlow, hlen]
  rw [Nat.add_zero] at hhigh
  rw [hhigh]
  simp only [hlong]
  rfl

end

/-! ### Both ways -/

theorem length_name (b : Beacon) (h : b.name.utf8Size ≤ MAX_NAME) :
    (Utf8.encode b.name).take (min (Utf8.encode b.name).length MAX_NAME) = Utf8.encode b.name := by
  rw [Utf8.length_encode, Nat.min_eq_left h, ← Utf8.length_encode, List.take_length]

/-- A sound beacon is laid out, its name as it is. -/
theorem encode_eq {b : Beacon} (h : b.name.utf8Size ≤ MAX_NAME) :
    b.encode = layout b.deviceId (UInt8.ofNat (b.port.toNat / 256)) (UInt8.ofNat b.port.toNat)
      (UInt8.ofNat (Utf8.encode b.name).length) (Utf8.encode b.name) := by
  rw [encode, length_name b h, layout]
  simp only [List.append_assoc]
  rfl

/-- **What a sound beacon says is read.** -/
theorem decode_encode {b : Beacon} (h : b.Sound) : decode b.encode = .ok b := by
  have hport :
      UInt16.ofNat (BigEndian.ofBytes [UInt8.ofNat (b.port.toNat / 256), UInt8.ofNat b.port.toNat]) = b.port := by
    rw [show [UInt8.ofNat (b.port.toNat / 256), UInt8.ofNat b.port.toNat] = BigEndian.toBytes 2 b.port.toNat from rfl,
      BigEndian.ofBytes_toBytes_of_lt b.port.toNat_lt, UInt16.ofNat_toNat]
  have hle : (Utf8.encode b.name).length ≤ MAX_NAME := by
    rw [Utf8.length_encode]
    exact h.name_le
  have hlen : (UInt8.ofNat (Utf8.encode b.name).length).toNat = (Utf8.encode b.name).length := by
    rw [UInt8.toNat_ofNat']
    unfold MAX_NAME at hle
    omega
  have hcontrol : ¬ b.name.any Text.isControl = true := by
    rw [List.any_eq_true]
    rintro ⟨c, hc, hcontrol⟩
    rw [h.no_control c hc] at hcontrol
    cases hcontrol
  rw [encode_eq h.name_le, decode_layout]
  dsimp only
  rw [hport, hlen, if_neg (Nat.not_lt.mpr hle), if_neg h.port_ne, if_neg (Nat.not_lt.mpr hle),
    if_neg (not_not_intro rfl), Utf8.decode_encode]
  dsimp only
  rw [if_neg hcontrol]

/-- **What is read of bytes is sound, and is written as those bytes.** -/
theorem encode_of_decode {bytes : List UInt8} {b : Beacon} (h : decode bytes = .ok b) : b.Sound ∧ b.encode = bytes := by
  obtain ⟨deviceId, high, low, len, body, rfl⟩ :
      ∃ deviceId high low len body, bytes = layout deviceId high low len body := by
    unfold decode at h
    split at h
    · cases h
    split at h
    · cases h
    rename_i hhead
    split at h
    · cases h
    rename_i hlength
    exact exists_layout (not_not.mp (not_or.mp hhead).2) (Nat.not_lt.mp hlength)
  rw [decode_layout] at h
  dsimp only at h
  split at h
  · cases h
  rename_i hlong
  split at h
  · cases h
  rename_i hport
  split at h
  · cases h
  split at h
  · cases h
  rename_i hlen
  split at h
  · cases h
  rename_i name hname
  split at h
  · cases h
  rename_i hcontrol
  cases h
  have hbody := Utf8.encode_of_decode hname
  have hle : Text.utf8Size name ≤ MAX_NAME := by
    rw [← Utf8.length_encode, hbody]
    exact Nat.not_lt.mp hlong
  refine ⟨⟨hport, hle, fun c hc => ?_⟩, ?_⟩
  · by_contra hne
    exact hcontrol (List.any_eq_true.mpr ⟨c, hc, Bool.eq_true_of_not_eq_false hne⟩)
  · have hbytes : BigEndian.toBytes 2 (UInt16.ofNat (BigEndian.ofBytes [high, low])).toNat = [high, low] := by
      have hlt : BigEndian.ofBytes [high, low] < 2 ^ 16 := (BigEndian.ofBytes_lt [high, low]).trans_eq (by norm_num)
      rw [UInt16.toNat_ofNat', Nat.mod_eq_of_lt hlt]
      exact BigEndian.toBytes_ofBytes [high, low]
    obtain ⟨hhigh, hlow⟩ := List.cons.inj hbytes
    rw [encode_eq hle]
    dsimp only
    rw [hhigh, (List.cons.inj hlow).1, hbody, not_not.mp hlen, UInt8.ofNat_toNat]

/-- A beacon is read exactly from the bytes it is written as, if it is sound. -/
theorem decode_eq_ok_iff {bytes : List UInt8} {b : Beacon} : decode bytes = .ok b ↔ b.Sound ∧ bytes = b.encode :=
  ⟨fun h => (encode_of_decode h).imp_right Eq.symm, fun h => h.2 ▸ decode_encode h.1⟩

/-! ### A new beacon -/

theorem boundary_spec (text : Text) (n : ℕ) : isCharBoundary text (boundary text n) = true ∧ boundary text n ≤ n := by
  induction n with
  | zero =>
    refine ⟨?_, Nat.le_refl _⟩
    cases text <;> rfl
  | succ n ih =>
    rw [boundary]
    split
    · rename_i hboundary
      exact ⟨hboundary, Nat.le_refl _⟩
    · exact ⟨ih.1, Nat.le_succ_of_le ih.2⟩

/-- A new beacon is sound, unless its port is 0. -/
theorem new_sound (deviceId : Vector UInt8 ID_LEN) {port : UInt16} (name : Text) (hport : port ≠ 0) :
    ∃ b, new deviceId port name = some b ∧ b.Sound := by
  unfold new
  dsimp only
  generalize hclean : (name.filter fun c => !Text.isControl c : Text) = clean
  obtain ⟨hboundary, hle⟩ := boundary_spec clean (min (Text.utf8Size clean) MAX_NAME)
  obtain ⟨⟨before, behind⟩, hsplit⟩ := Option.isSome_iff_exists.mp hboundary
  obtain ⟨htext, hsize⟩ := Text.splitAtByte_eq_some hsplit
  refine ⟨⟨deviceId, port, before.trim⟩, by rw [hsplit]; rfl, hport, ?_, fun c hc => ?_⟩
  · calc before.trim.utf8Size ≤ before.utf8Size := Text.utf8Size_le_of_sublist (Text.trim_sublist before)
      _ ≤ MAX_NAME := hsize ▸ hle.trans (Nat.min_le_right _ _)
  · have hmem : c ∈ clean := htext ▸ List.mem_append_left behind ((Text.trim_sublist before).subset hc)
    rw [← hclean, List.mem_filter] at hmem
    exact (Bool.not_eq_true' _).mp hmem.2

/-- **A new beacon is read from what it is written as, and what is read is written as it was.** -/
theorem beacons_exact :
    (∀ (deviceId : Vector UInt8 ID_LEN) (port : UInt16) (name : Text), port ≠ 0 →
      ∃ b, new deviceId port name = some b ∧ decode b.encode = .ok b) ∧
    ∀ (bytes : List UInt8) (b : Beacon), decode bytes = .ok b → b.encode = bytes := by
  refine ⟨fun deviceId port name hport => ?_, fun bytes b h => (encode_of_decode h).2⟩
  obtain ⟨b, hnew, hsound⟩ := new_sound deviceId name hport
  exact ⟨b, hnew, decode_encode hsound⟩

theorem beacons_exact_sample :
    (∃ b, new (Vector.replicate ID_LEN 7) 47100 "PC".toList = some b ∧ decode b.encode = .ok b) ∧
      (⟨Vector.replicate ID_LEN 7, 47100, "PC".toList⟩ : Beacon).encode =
        MAGIC ++ List.replicate ID_LEN 7 ++ [0xb7, 0xfc, 2, 0x50, 0x43] :=
  ⟨beacons_exact.1 _ 47100 _ (by decide), beacons_exact.2 _ _ (by decide +kernel)⟩

end Beacon
end WindowCast.Discovery
