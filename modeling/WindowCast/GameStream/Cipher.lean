import WindowCast.GameStream.Video

/-!
# Sealed video

AES-128-GCM under a launch's input key, by a counter that begins with the stream.  The
cipher itself is a parameter.

## Main definitions

* `VideoCipher.seal` — a video packet, sealed.
* `VideoCipher.sealAll` — a frame's packets, as they are sent.

## Main results

* `VideoCipher.iv_inj` — when two of the initialization vectors are the same.
* `VideoCipher.ivs_sealAll` — those of a frame's packets, in order.
-/

namespace WindowCast.GameStream

/-- AES-128-GCM under a key and an initialization vector. -/
structure Aes128Gcm where
  /-- The tag of a plaintext, and its ciphertext. -/
  encrypt : Vector UInt8 16 → List UInt8 → List UInt8 → List UInt8 × List UInt8
  /-- The plaintext of a ciphertext that is genuine under its tag. -/
  decrypt : Vector UInt8 16 → List UInt8 → List UInt8 → List UInt8 → Option (List UInt8)

/-- What a key has sealed it opens, and sealing keeps the length and adds a tag of 16 bytes. -/
structure Aes128Gcm.Lawful (gcm : Aes128Gcm) : Prop where
  decrypt_encrypt : ∀ key iv m, gcm.decrypt key iv (gcm.encrypt key iv m).2 (gcm.encrypt key iv m).1 = some m
  length_tag : ∀ key iv m, (gcm.encrypt key iv m).1.length = 16
  length_cipher : ∀ key iv m, (gcm.encrypt key iv m).2.length = m.length

/-- Seals encrypted video packets. -/
structure VideoCipher where
  key : Vector UInt8 16
  counter : UInt64

namespace VideoCipher

def new (key : Vector UInt8 16) : VideoCipher := ⟨key, 0⟩

/-- The counter, and a `V` behind it. -/
def iv (counter : UInt64) : List UInt8 := LittleEndian.toBytes 8 counter.toNat ++ [0, 0, 0, 0x56]

/-- One packet, sealed, with the initialization vector it was sealed with. -/
def «seal» (gcm : Aes128Gcm) (self : VideoCipher) (packet : List UInt8) : List UInt8 × List UInt8 × VideoCipher :=
  let iv := iv self.counter
  let frame := if rtpSize + 8 ≤ packet.length then (packet.drop (rtpSize + 4)).take 4 else [0, 0, 0, 0]
  let (tag, body) := gcm.encrypt self.key iv packet
  (iv, iv ++ frame ++ tag ++ body, { self with counter := self.counter + 1 })

/-- A frame's packets as they are sent, and the initialization vectors they are sealed
with. -/
def sealAll (gcm : Aes128Gcm) : Option VideoCipher → List (List UInt8) →
    List (List UInt8) × List (List UInt8) × Option VideoCipher
  | cipher, [] => ([], [], cipher)
  | none, packets => ([], packets, none)
  | some self, packet :: packets =>
    let (iv, sealed, self) := self.seal gcm packet
    let (ivs, rest, cipher) := sealAll gcm (some self) packets
    (iv :: ivs, sealed :: rest, cipher)

theorem sealAll_none (gcm : Aes128Gcm) (packets : List (List UInt8)) : sealAll gcm none packets = ([], packets, none) := by
  cases packets <;> rfl

/-- The initialization vectors are those of the counters from the cipher's on. -/
theorem ivs_sealAll (gcm : Aes128Gcm) {self : VideoCipher} {n : ℕ} (hcounter : self.counter = UInt64.ofNat n)
    (packets : List (List UInt8)) :
    (sealAll gcm (some self) packets).1 = (List.range' n packets.length).map (fun k => iv (UInt64.ofNat k))
      ∧ ∃ after, (sealAll gcm (some self) packets).2.2 = some after
        ∧ after.counter = UInt64.ofNat (n + packets.length) := by
  induction packets generalizing self n with
  | nil => exact ⟨rfl, self, rfl, hcounter⟩
  | cons packet packets ih =>
    have hnext : (self.seal gcm packet).2.2.counter = UInt64.ofNat (n + 1) := by
      change self.counter + 1 = UInt64.ofNat (n + 1)
      rw [hcounter, UInt64.ofNat_add]
      rfl
    obtain ⟨hivs, after, hafter, hlast⟩ := ih hnext
    refine ⟨?_, after, hafter, ?_⟩
    · rw [List.length_cons, List.range'_succ, List.map_cons, ← hivs, ← hcounter]
      rfl
    · rw [hlast, List.length_cons, Nat.add_assoc, Nat.add_comm 1]

theorem iv_inj {c c' : UInt64} (h : iv c = iv c') : c = c' := by
  have hbytes := List.append_inj_left h (by rw [LittleEndian.length_toBytes, LittleEndian.length_toBytes])
  have hnat := congrArg LittleEndian.ofBytes hbytes
  rwa [LittleEndian.ofBytes_toBytes_of_lt c.toNat_lt, LittleEndian.ofBytes_toBytes_of_lt c'.toNat_lt,
    UInt64.toNat_inj] at hnat

end VideoCipher

end WindowCast.GameStream
