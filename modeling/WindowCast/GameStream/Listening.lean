import WindowCast.GameStream.Sound
import WindowCast.Lib.SerialNumber

/-!
# A stream's sound

A client plays the Opus packets of a host as their RTP packets come.  Of a block of four
any four of its six shards bring back all, and a packet that is waited for is given up
once a later block has enough; the numbers are of sixteen bits, so a packet is taken for
what it is as long as it is less than half of them away from the one that is waited for.

## Main definitions

* `Listening.step` — what a client has of a host's sound.
* `Listening.Near` — no packet comes so early or so late that its number is read as another.
* `Unbroken` — every block has four shards before a shard of a later one comes.
* `Held` — the shards a client holds are those of the blocks they are held for.

## Main results

* `Held.turn`, `Held.drain` — what a turn of the loop and the whole loop preserve.
* `Heard.step` — what a packet preserves.
* `sound_heard` — **what is played is in order and genuine, and all of it where nothing is
  broken**; and every packet is dealt with.
-/

namespace WindowCast.GameStream.Audio

open WindowCast.Fec (Shard)
open GameStream.Fec (DATA_SHARDS SHARDS)

/-! ### What a client has -/

/-- What a client has of a host's sound: its depacketizer, what came, the packet it waits
for, and what it has played. -/
structure Listening (aes : Aes128) (sound : Sound) where
  depacketizer : AudioDepacketizer
  arrived : List (Arrival aes sound)
  next : Option ℕ
  out : List (List UInt8)

namespace Listening

variable {aes : Aes128} {sound : Sound}

def new : Listening aes sound := ⟨.new sound.key, [], none, []⟩

/-- A packet comes; the loop has gone on by as many packets as the sequence number has. -/
def step (self : Listening aes sound) (a : Arrival aes sound) : Option (Listening aes sound) := do
  let (out, depacketizer) ← self.depacketizer.add aes a.packet
  some {
    depacketizer := depacketizer
    arrived := self.arrived ++ [a]
    next := depacketizer.next.map fun next =>
      self.next.getD a.placed + (next - self.depacketizer.next.getD (UInt16.ofNat a.placed)).toNat
    out := self.out ++ out }

/-- The packet is less than half the numbers away from the one that is waited for. -/
def Near (self : Listening aes sound) (a : Arrival aes sound) : Prop :=
  ∀ next ∈ self.next, a.placed < next + 32768 ∧ next < a.placed + 32768

end Listening

/-- How many shards of a block came. -/
def count {aes : Aes128} {sound : Sound} (k : ℕ) (arrivals : List (Arrival aes sound)) : ℕ :=
  ((arrivals.filter fun a => a.block = k).map Arrival.shard).toFinset.card

/-- From the first packet taken on, every block has four shards before a shard of a later
block comes. -/
def Unbroken {aes : Aes128} {sound : Sound} : List (Arrival aes sound) → Prop :=
  Run.Always fun before a => ∀ first ∈ before.find? Arrival.taken, ∀ k, first.block ≤ k → k < a.block →
    DATA_SHARDS ≤ count k before

/-! ### Shards that are what they are held for -/

/-- How far the host was when it sent a shard. -/
def reach (k i : ℕ) : ℕ := if i < 4 then 4 * k + i else 4 * k + 3

section

variable {aes : Aes128} {sound : Sound} {arrived : List (Arrival aes sound)} {d d' : AudioDepacketizer}
  {out : List (List UInt8)} {k K N M n : ℕ}

/-- A shard comes only once it was sent. -/
theorem Arrival.reach_le (a : Arrival aes sound) : reach a.block a.shard ≤ a.number := by
  unfold reach Arrival.block Arrival.shard
  have hgenuine := a.genuine
  rw [Sound.sent_eq] at hgenuine
  cases hindex : a.index with
  | zero =>
    rw [if_pos rfl, if_pos (Nat.mod_lt _ (by decide)), Nat.div_add_mod]
  | succ j =>
    rw [hindex, List.singleton_append, List.getElem?_cons_succ] at hgenuine
    split at hgenuine
    case isFalse => cases hgenuine
    case isTrue hlast =>
      rw [if_neg (Nat.succ_ne_zero j)]
      split <;> omega

/-- The shards of a block, of those that were sent by the time of some arrival. -/
def Genuine (arrived : List (Arrival aes sound)) (k : ℕ) (shards : Shards) : Prop :=
  ∀ i s, shards i = some s → (sound.shards aes k)[i.val]? = some s ∧ ∃ a ∈ arrived, reach k i ≤ a.number

theorem genuine_empty : Genuine arrived k Shards.empty := fun _ _ h => by cases h

theorem Genuine.mono {arrived' : List (Arrival aes sound)} {shards : Shards} (h : Genuine arrived k shards)
    (hsub : ∀ a ∈ arrived, a ∈ arrived') : Genuine arrived' k shards := by
  intro i s hs
  obtain ⟨hshard, a, ha, hreach⟩ := h i s hs
  exact ⟨hshard, a, hsub a ha, hreach⟩

theorem Genuine.update {shards : Shards} (h : Genuine arrived k shards) {i : Fin SHARDS} {s : Shard}
    (hs : (sound.shards aes k)[i.val]? = some s) (hreach : ∃ a ∈ arrived, reach k i ≤ a.number) :
    Genuine arrived k (Function.update shards i (some s)) := by
  intro j t ht
  by_cases hj : j = i
  · subst hj
    rw [Function.update_self] at ht
    cases ht
    exact ⟨hs, hreach⟩
  · rw [Function.update_of_ne hj] at ht
    exact h j t ht

/-- What is recovered of a block's shards is the block. -/
theorem Genuine.recover {shards : Shards} (h : Genuine arrived k shards) :
    Fec.recover shards = if DATA_SHARDS ≤ Fec.present shards then some (sound.data aes k) else none :=
  Fec.recover_eq (sound.whole k) fun i s hs => (h i s hs).1

/-- Where a data shard is missing and enough others are not, a parity shard is there. -/
theorem exists_parity {shards : Shards} {i : Fin SHARDS} (hi : i.val < 4) (hnone : shards i = none)
    (hmany : DATA_SHARDS ≤ Fec.present shards) : ∃ j s, 4 ≤ j.val ∧ shards j = some s := by
  by_contra hall
  have hsub : (Finset.univ.filter fun j => (shards j).isSome = true)
      ⊆ (Finset.univ.filter fun j : Fin SHARDS => j.val < 4).erase i := by
    intro j hj
    have hsome : (shards j).isSome = true := (Finset.mem_filter.mp hj).2
    obtain ⟨s, hs⟩ := Option.isSome_iff_exists.mp hsome
    refine Finset.mem_erase.mpr ⟨?_, Finset.mem_filter.mpr ⟨Finset.mem_univ j, ?_⟩⟩
    · rintro rfl
      rw [hnone] at hs
      cases hs
    · by_contra hge
      exact hall ⟨j, s, Nat.le_of_not_lt hge, hs⟩
  have hcard := Finset.card_le_card hsub
  rw [Finset.card_erase_of_mem (Finset.mem_filter.mpr ⟨Finset.mem_univ i, hi⟩)] at hcard
  have hfour : (Finset.univ.filter fun j : Fin SHARDS => j.val < 4).card = 4 := by decide
  have hmany' : 4 ≤ (Finset.univ.filter fun j => (shards j).isSome = true).card := hmany
  omega

theorem Genuine.fill {shards : Shards} (h : Genuine arrived k shards) {data : List Shard}
    (hdata : Fec.recover shards = some data) : Genuine arrived k (shards.fill data) := by
  have hmany := Fec.le_present_of_recover hdata
  rw [h.recover, if_pos hmany, Option.some_inj] at hdata
  intro i s hs
  rw [Shards.fill, Option.or_eq_some_iff] at hs
  rcases hs with hs | ⟨hnone, hs⟩
  · exact h i s hs
  · rw [← hdata] at hs
    have hi : i.val < 4 := by
      have hlt := (List.getElem?_eq_some_iff.mp hs).1
      rwa [Sound.length_data] at hlt
    obtain ⟨parity, -, hall⟩ := (@Sound.whole aes sound k).parity
    refine ⟨?_, ?_⟩
    · rw [hall, List.getElem?_append_left (by rw [Sound.length_data]; exact hi)]
      exact hs
    · -- the host had sent the whole block
      obtain ⟨j, t, hj, ht⟩ := exists_parity hi hnone hmany
      obtain ⟨-, a, ha, hreach⟩ := h j t ht
      refine ⟨a, ha, Nat.le_trans ?_ hreach⟩
      unfold reach
      rw [if_pos hi, if_neg (Nat.not_lt.mpr hj)]
      omega

/-! ### Blocks that are what they are held for -/

/-- From the packet that is waited for on, and so far at most, the shards that are held are
those of the blocks they are held for. -/
def Held (arrived : List (Arrival aes sound)) (d : AudioDepacketizer) (N M : ℕ) : Prop :=
  ∀ b, d.Holds b → ∃ k, b = UInt16.ofNat (4 * k) ∧ N / 4 ≤ k ∧ 4 * k + 4 ≤ M ∧ Genuine arrived k (d.block b)

theorem Held.mono {M' : ℕ} (h : Held arrived d N M) (hle : M ≤ M') : Held arrived d N M' := by
  intro b hb
  obtain ⟨k, heq, hk, hkM, hgenuine⟩ := h b hb
  exact ⟨k, heq, hk, Nat.le_trans hkM hle, hgenuine⟩

theorem Held.arrives (h : Held arrived d N M) (a : Arrival aes sound) : Held (arrived ++ [a]) d N M := by
  intro b hb
  obtain ⟨k, heq, hk, hkM, hgenuine⟩ := h b hb
  exact ⟨k, heq, hk, hkM, hgenuine.mono fun a' ha' => List.mem_append_left _ ha'⟩

/-- Two blocks that are near each other and have the same number are the same. -/
theorem block_inj {k k' base : ℕ} (hk : base ≤ k ∧ 4 * k + 4 ≤ 4 * base + 32768)
    (hk' : base ≤ k' ∧ 4 * k' + 4 ≤ 4 * base + 32768) (h : UInt16.ofNat (4 * k) = UInt16.ofNat (4 * k')) : k = k' := by
  have hmod := congrArg UInt16.toNat h
  rw [UInt16.toNat_ofNat', UInt16.toNat_ofNat'] at hmod
  omega

theorem block_of_not_holds {b : UInt16} (h : ¬ d.Holds b) : d.block b = Shards.empty := by
  funext i
  cases hi : d.block b i with
  | none => rfl
  | some s => exact absurd ⟨i, by rw [hi]; rfl⟩ h

/-- What is held of a block is genuine. -/
theorem Held.genuine (h : Held arrived d N M) (hM : M ≤ 4 * (N / 4) + 32768) (hk : N / 4 ≤ k)
    (hkM : 4 * k + 4 ≤ 4 * (N / 4) + 32768) : Genuine arrived k (d.block (UInt16.ofNat (4 * k))) := by
  by_cases hholds : d.Holds (UInt16.ofNat (4 * k))
  · obtain ⟨k', heq, hk', hkM', hgenuine⟩ := h _ hholds
    have hsame : k = k' := block_inj ⟨hk, hkM⟩ ⟨hk', by omega⟩ heq
    rwa [← hsame] at hgenuine
  · rw [block_of_not_holds hholds]
    exact genuine_empty

theorem Held.current (h : Held arrived d N M) (hM : M ≤ 4 * (N / 4) + 32768) :
    Genuine arrived (N / 4) (d.block (blockOf (UInt16.ofNat N))) := by
  rw [blockOf_ofNat]
  exact h.genuine hM (Nat.le_refl _) (by omega)

theorem Genuine.restored (h : Genuine arrived (N / 4) (d.block (blockOf (UInt16.ofNat N)))) :
    Genuine arrived (N / 4) (d.restored (UInt16.ofNat N)) := by
  rcases d.restored_cases (UInt16.ofNat N) with heq | ⟨data, hdata, heq⟩
  · rw [heq]
    exact h
  · rw [heq]
    exact h.fill hdata

theorem Held.rebuild (h : Held arrived d N M) (hM : M ≤ 4 * (N / 4) + 32768) :
    Held arrived (d.rebuild (UInt16.ofNat N)) N M := by
  intro b hb
  obtain ⟨k, heq, hk, hkM, hgenuine⟩ := h b (AudioDepacketizer.holds_rebuild hb)
  refine ⟨k, heq, hk, hkM, ?_⟩
  rw [AudioDepacketizer.block_rebuild]
  split
  case isTrue hbase =>
    rw [heq, blockOf_ofNat] at hbase
    have hsame : k = N / 4 := block_inj ⟨hk, by omega⟩ ⟨Nat.le_refl _, by omega⟩ hbase
    rw [hsame]
    exact (h.current hM).restored
  case isFalse => exact hgenuine

theorem ofNat_succ (N : ℕ) : UInt16.ofNat N + 1 = UInt16.ofNat (N + 1) := by
  rw [UInt16.ofNat_add]
  rfl

/-- What the step to the next packet drops. -/
theorem holds_advance {b : UInt16} (h : (d.advance (UInt16.ofNat N)).Holds b) :
    d.Holds b ∧ (d.advance (UInt16.ofNat N)).block b = d.block b
      ∧ ((N + 1) % 4 = 0 → b ≠ blockOf (UInt16.ofNat N)) := by
  obtain ⟨i, hi⟩ := h
  have hmod : (UInt16.ofNat N + 1).toNat % DATA_SHARDS = (N + 1) % 4 := by
    rw [ofNat_succ]
    exact Sound.toNat_ofNat_mod (N + 1)
  have hblock := d.block_advance (UInt16.ofNat N) b
  rw [hmod] at hblock
  split at hblock
  case isTrue =>
    rw [hblock] at hi
    cases hi
  case isFalse hkept =>
    rw [hblock] at hi
    exact ⟨⟨i, hi⟩, hblock, fun hlast hb => hkept ⟨hlast, hb⟩⟩

theorem Held.advance (h : Held arrived d N M) : Held arrived (d.advance (UInt16.ofNat N)) (N + 1) M := by
  intro b hb
  obtain ⟨hholds, hblock, hkept⟩ := holds_advance hb
  obtain ⟨k, heq, hk, hkM, hgenuine⟩ := h b hholds
  refine ⟨k, heq, ?_, hkM, by rw [hblock]; exact hgenuine⟩
  by_cases hlast : (N + 1) % 4 = 0
  · have hne : k ≠ N / 4 := by
      rintro rfl
      exact hkept hlast (by rw [heq, blockOf_ofNat])
    omega
  · omega

/-! ### The loop -/

/-- All that is held is of the block of the packet that is waited for. -/
def Current (d : AudioDepacketizer) (N : ℕ) : Prop := ∀ b, d.Holds b → b = blockOf (UInt16.ofNat N)

theorem Current.advance (h : Current d N) : Current (d.advance (UInt16.ofNat N)) (N + 1) := by
  intro b hb
  obtain ⟨hholds, -, hkept⟩ := holds_advance hb
  have heq := h b hholds
  by_cases hlast : (N + 1) % 4 = 0
  · exact absurd heq (hkept hlast)
  · rw [heq, blockOf_ofNat, blockOf_ofNat, show (N + 1) / 4 = N / 4 by omega]

theorem Current.rebuild (h : Current d N) : Current (d.rebuild (UInt16.ofNat N)) N :=
  fun b hb => h b (AudioDepacketizer.holds_rebuild hb)

/-- What is there stays when more is rebuilt. -/
theorem isSome_restored {i : Fin SHARDS} (h : (d.block (blockOf (UInt16.ofNat N)) i).isSome = true) :
    (d.restored (UInt16.ofNat N) i).isSome = true := by
  rcases d.restored_cases (UInt16.ofNat N) with heq | ⟨data, -, heq⟩
  · rw [heq]
    exact h
  · obtain ⟨s, hs⟩ := Option.isSome_iff_exists.mp h
    rw [heq, Shards.fill, hs]
    rfl

theorem placeOf_ofNat (N : ℕ) : (placeOf (UInt16.ofNat N)).val = N % 4 := Sound.toNat_ofNat_mod N

/-- Of a block with enough shards, every packet is there or rebuilt. -/
theorem Genuine.isSome_restored (h : Genuine arrived (N / 4) (d.block (blockOf (UInt16.ofNat N))))
    (hmany : DATA_SHARDS ≤ Fec.present (d.block (blockOf (UInt16.ofNat N)))) :
    (d.restored (UInt16.ofNat N) (placeOf (UInt16.ofNat N))).isSome = true := by
  unfold AudioDepacketizer.restored
  by_cases hnone : d.block (blockOf (UInt16.ofNat N)) (placeOf (UInt16.ofNat N)) = none
  · have hlt : (placeOf (UInt16.ofNat N)).val < (sound.data aes (N / 4)).length := by
      rw [Sound.length_data, placeOf_ofNat]
      exact Nat.mod_lt _ (by decide)
    rw [if_pos hnone, h.recover, if_pos hmany]
    dsimp only
    rw [Shards.fill, hnone, List.getElem?_eq_getElem hlt]
    rfl
  · rw [if_neg hnone]
    exact Option.isSome_iff_ne_none.mpr hnone

/-- Where the loop waits, the block has too few shards. -/
theorem Genuine.few (h : Genuine arrived (N / 4) (d.block (blockOf (UInt16.ofNat N))))
    (hnone : d.restored (UInt16.ofNat N) (placeOf (UInt16.ofNat N)) = none) :
    Fec.present (d.restored (UInt16.ofNat N)) < DATA_SHARDS := by
  by_contra hmany
  have hblock : DATA_SHARDS ≤ Fec.present (d.block (blockOf (UInt16.ofNat N))) := by
    rcases d.restored_cases (UInt16.ofNat N) with heq | ⟨data, hdata, -⟩
    · rw [← heq]
      exact Nat.le_of_not_lt hmany
    · exact Fec.le_present_of_recover hdata
  have hsome := h.isSome_restored hblock
  rw [hnone] at hsome
  cases hsome

/-- What the genuine payload of a packet is played as. -/
theorem opus_payload (hkey : d.key = sound.key) (N : ℕ) :
    d.opus aes (UInt16.ofNat N) (sound.payload aes N) = some (sound.opus N) := by
  rw [AudioDepacketizer.opus, hkey, Sound.payload]
  cases sound.key with
  | none => rfl
  | some key => exact Crypto.cbcDecrypt_cbcEncrypt aes key.key _ _

/-- A turn of the loop: the packet that is waited for is played, or given up where there is
something of a later block. -/
theorem Held.turn (h : Held arrived d N M) (hM : M ≤ 4 * (N / 4) + 32768) (hkey : d.key = sound.key)
    (hturn : d.turn aes (UInt16.ofNat N) = (some out, d')) :
    N + 1 ≤ M ∧ d'.next = some (UInt16.ofNat (N + 1)) ∧ d'.key = sound.key ∧ Held arrived d' (N + 1) M
      ∧ (Current d N → Current d' (N + 1))
      ∧ ((N + 1) / 4 = N / 4 → ∀ i, (d.block (blockOf (UInt16.ofNat N)) i).isSome = true →
        (d'.block (blockOf (UInt16.ofNat N)) i).isSome = true)
      ∧ ((out = [sound.opus N] ∧ ∃ a ∈ arrived, N ≤ a.number) ∨ (out = [] ∧ ¬ Current d N)) := by
  have hrebuild := h.rebuild hM
  obtain ⟨recovered, hfields⟩ := d.rebuild_cases (UInt16.ofNat N)
  have hkey' : (d.rebuild (UInt16.ofNat N)).key = sound.key := by
    rw [hfields]
    exact hkey
  -- what is held bounds how far the loop goes
  have hbound : ∀ b, (d.rebuild (UInt16.ofNat N)).Holds b → N + 1 ≤ M := by
    intro b hb
    obtain ⟨k, -, hk, hkM, -⟩ := hrebuild b hb
    omega
  have hbase : (d.rebuild (UInt16.ofNat N)).block (blockOf (UInt16.ofNat N)) = d.restored (UInt16.ofNat N) := by
    rw [AudioDepacketizer.block_rebuild, if_pos rfl]
  have hkept : (N + 1) / 4 = N / 4 → ∀ i, (d.block (blockOf (UInt16.ofNat N)) i).isSome = true →
      (((d.rebuild (UInt16.ofNat N)).advance (UInt16.ofNat N)).block (blockOf (UInt16.ofNat N)) i).isSome = true := by
    intro hsame i hi
    have hmod : (UInt16.ofNat N + 1).toNat % DATA_SHARDS = (N + 1) % 4 := by
      rw [ofNat_succ]
      exact Sound.toNat_ofNat_mod (N + 1)
    rw [AudioDepacketizer.block_advance, hmod, if_neg (by omega), hbase]
    exact Audio.isSome_restored hi
  rcases AudioDepacketizer.turn_cases hturn with ⟨payload, hpayload, hout, rfl⟩ | ⟨-, hahead, hout, rfl⟩
  · obtain ⟨hshard, a, ha, hreach⟩ := (h.current hM).restored _ _ hpayload
    rw [placeOf_ofNat] at hshard hreach
    have hlt : N % 4 < 4 := Nat.mod_lt _ (by decide)
    rw [Sound.getElem?_shards_data hlt, Nat.div_add_mod, Option.some_inj] at hshard
    rw [reach, if_pos hlt, Nat.div_add_mod] at hreach
    have hholds : (d.rebuild (UInt16.ofNat N)).Holds (blockOf (UInt16.ofNat N)) :=
      ⟨placeOf (UInt16.ofNat N), by rw [hbase, hpayload]; rfl⟩
    refine ⟨hbound _ hholds, congrArg some (ofNat_succ N), hkey', hrebuild.advance,
      fun hcurrent => hcurrent.rebuild.advance, hkept, Or.inl ⟨?_, a, ha, hreach⟩⟩
    rw [hout, ← hshard, opus_payload hkey]
    rfl
  · obtain ⟨b, hb⟩ := AudioDepacketizer.holds_of_ahead hahead
    refine ⟨hbound b hb, congrArg some (ofNat_succ N), hkey', hrebuild.advance,
      fun hcurrent => hcurrent.rebuild.advance, hkept, Or.inr ⟨hout, fun hcurrent => ?_⟩⟩
    obtain ⟨b, hafter, shards, hlookup, hpresent⟩ := AudioDepacketizer.ahead_iff.mp hahead
    have hholds : (d.rebuild (UInt16.ofNat N)).Holds b := by
      refine AudioDepacketizer.holds_of_present ?_
      rw [AudioDepacketizer.block, hlookup]
      exact hpresent
    rw [hcurrent.rebuild b hholds, after_self] at hafter
    exact Int.lt_irrefl 0 hafter

/-- What the loop does that waits for one packet and then for another. -/
structure Drained (arrived : List (Arrival aes sound)) (M : ℕ) (d : AudioDepacketizer) (N : ℕ)
    (out : List (List UInt8)) (d' : AudioDepacketizer) (N' : ℕ) (numbers : List ℕ) : Prop where
  le : N ≤ N'
  le_bound : N' ≤ M
  next : d'.next = some (UInt16.ofNat N')
  key : d'.key = sound.key
  held : Held arrived d' N' M
  sorted : numbers.Pairwise (· < ·)
  between : ∀ m ∈ numbers, N ≤ m ∧ m < N' ∧ ∃ a ∈ arrived, m ≤ a.number
  out_eq : out = numbers.map sound.opus
  whole : Current d N → numbers = List.range' N (N' - N) ∧ Current d' N'
    ∧ Fec.present (d'.block (blockOf (UInt16.ofNat N'))) < DATA_SHARDS
    ∧ (N' / 4 = N / 4 → ∀ i, (d.block (blockOf (UInt16.ofNat N)) i).isSome = true →
      (d'.block (blockOf (UInt16.ofNat N)) i).isSome = true)

theorem Held.drain (h : Held arrived d N M) (hle : N ≤ M) (hM : M ≤ 4 * (N / 4) + 32768) (hkey : d.key = sound.key)
    (hnext : d.next = some (UInt16.ofNat N)) (hdrain : AudioDepacketizer.drain aes n d = some (out, d')) :
    ∃ N' numbers, Drained arrived M d N out d' N' numbers := by
  induction n generalizing d N out with
  | zero => cases hdrain
  | succ n ih =>
    cases hturn : d.turn aes (UInt16.ofNat N) with
    | mk more d₁ =>
      cases more with
      | none =>
        rw [AudioDepacketizer.drain_waits hnext hturn] at hdrain
        cases hdrain
        obtain ⟨hnone, -, rfl⟩ := AudioDepacketizer.turn_waits hturn
        obtain ⟨recovered, hfields⟩ := d.rebuild_cases (UInt16.ofNat N)
        have hbase : (d.rebuild (UInt16.ofNat N)).block (blockOf (UInt16.ofNat N)) = d.restored (UInt16.ofNat N) := by
          rw [AudioDepacketizer.block_rebuild, if_pos rfl]
        refine ⟨N, [], Nat.le_refl N, hle, ?_, ?_, h.rebuild hM, List.Pairwise.nil,
          (fun m hm => by cases hm), rfl, ?_⟩
        · rw [hfields]
          exact hnext
        · rw [hfields]
          exact hkey
        · intro hcurrent
          refine ⟨by rw [Nat.sub_self]; rfl, hcurrent.rebuild, ?_, ?_⟩
          · rw [hbase]
            exact (h.current hM).few hnone
          · intro _ i hi
            rw [hbase]
            exact Audio.isSome_restored hi
      | some played =>
        rw [AudioDepacketizer.drain_goesOn hnext hturn, Option.map_eq_some_iff] at hdrain
        obtain ⟨⟨rest, d₂⟩, hrest, heq⟩ := hdrain
        cases heq
        obtain ⟨hle₁, hnext₁, hkey₁, hheld₁, hcurrent₁, hkept₁, hplayed⟩ := h.turn hM hkey hturn
        obtain ⟨N', numbers, hdrained⟩ := ih hheld₁ hle₁ (by omega) hkey₁ hnext₁ hrest
        have hlt : N < N' := hdrained.le
        have hkept : N' / 4 = N / 4 → ∀ i, (d.block (blockOf (UInt16.ofNat N)) i).isSome = true →
            Current d N → (d₂.block (blockOf (UInt16.ofNat N)) i).isSome = true := by
          intro hsame i hi hcurrent
          have hsame₁ : (N + 1) / 4 = N / 4 := by omega
          have hbase : blockOf (UInt16.ofNat (N + 1)) = blockOf (UInt16.ofNat N) := by
            rw [blockOf_ofNat, blockOf_ofNat, hsame₁]
          have hlater := (hdrained.whole (hcurrent₁ hcurrent)).2.2.2 (by omega) i
          rw [hbase] at hlater
          exact hlater (hkept₁ hsame₁ i hi)
        rcases hplayed with ⟨rfl, hsent⟩ | ⟨rfl, hskipped⟩
        · refine ⟨N', N :: numbers, Nat.le_of_lt hlt, hdrained.le_bound, hdrained.next, hdrained.key, hdrained.held,
            ?_, ?_, ?_, ?_⟩
          · exact List.pairwise_cons.mpr ⟨fun m hm => (hdrained.between m hm).1, hdrained.sorted⟩
          · intro m hm
            rcases List.mem_cons.mp hm with rfl | hm
            · exact ⟨Nat.le_refl _, hlt, hsent⟩
            · obtain ⟨hfrom, hrest⟩ := hdrained.between m hm
              exact ⟨Nat.le_of_succ_le hfrom, hrest⟩
          · rw [hdrained.out_eq]
            rfl
          · intro hcurrent
            obtain ⟨hnumbers, hcurrent', hfew, -⟩ := hdrained.whole (hcurrent₁ hcurrent)
            refine ⟨?_, hcurrent', hfew, fun hsame i hi => hkept hsame i hi hcurrent⟩
            rw [hnumbers, show N' - N = (N' - (N + 1)) + 1 by omega, List.range'_succ]
        · refine ⟨N', numbers, Nat.le_of_lt hlt, hdrained.le_bound, hdrained.next, hdrained.key, hdrained.held,
            hdrained.sorted, ?_, hdrained.out_eq, fun hcurrent => absurd hcurrent hskipped⟩
          intro m hm
          obtain ⟨hfrom, hrest⟩ := hdrained.between m hm
          exact ⟨Nat.le_of_succ_le hfrom, hrest⟩

/-! ### A packet -/

/-- Whether a block is over, told from the distance of its number. -/
theorem after_lt_iff (hle : 4 * K ≤ 4 * (N / 4) + 32768) (hge : 4 * (N / 4) ≤ 4 * K + 32768) :
    after (UInt16.ofNat (4 * K)) (blockOf (UInt16.ofNat N)) < 0 ↔ K < N / 4 ∨ 4 * K = 4 * (N / 4) + 32768 := by
  rw [blockOf_ofNat, after]
  have hsub : (UInt16.ofNat (4 * K) - UInt16.ofNat (4 * (N / 4))).toBitVec
      = BitVec.ofNat 16 (4 * K) - BitVec.ofNat 16 (4 * (N / 4)) := rfl
  rcases Nat.lt_or_ge (4 * K) (4 * (N / 4) + 32768) with hlt | hfar
  · rw [hsub, SerialNumber.toInt_ofNat_sub (by omega) (by omega)]
    omega
  · have heq : 4 * K = 4 * (N / 4) + 32768 := by omega
    rw [hsub, heq, BitVec.ofNat_add, BitVec.add_comm, BitVec.add_sub_cancel]
    refine ⟨fun _ => Or.inr rfl, fun _ => by decide⟩

/-- A shard joins those that are held. -/
theorem Held.store (h : Held arrived d N M) (hM : M = 4 * (N / 4) + 32768) (a : Arrival aes sound)
    (hK : N / 4 ≤ a.block) (hKM : 4 * a.block + 4 ≤ M) {p : Packet} (hbase : p.base = UInt16.ofNat (4 * a.block))
    (hindex : p.index.val = a.shard) (hpayload : (sound.shards aes a.block)[a.shard]? = some p.payload) :
    Held (arrived ++ [a]) (d.store p) N M := by
  have hsub : ∀ a' ∈ arrived, a' ∈ arrived ++ [a] := fun a' ha' => List.mem_append_left _ ha'
  intro b hb
  have hblock : (d.store p).block b
      = if b = p.base then Function.update (d.block p.base) p.index (some p.payload) else d.block b :=
    AudioDepacketizer.block_insert d b p.base _
  by_cases hbp : b = p.base
  · refine ⟨a.block, by rw [hbp, hbase], hK, hKM, ?_⟩
    rw [hblock, if_pos hbp, hbase]
    refine ((h.genuine hM.le hK (by omega)).mono hsub).update (by rw [hindex]; exact hpayload) ?_
    exact ⟨a, List.mem_append_right _ (List.mem_singleton_self a), by rw [hindex]; exact a.reach_le⟩
  · obtain ⟨i, hi⟩ := hb
    rw [hblock, if_neg hbp] at hi
    obtain ⟨k, heq, hk, hkM, hgenuine⟩ := h b ⟨i, hi⟩
    exact ⟨k, heq, hk, hkM, by rw [hblock, if_neg hbp]; exact hgenuine.mono hsub⟩

namespace Listening

variable {s s' : Listening aes sound} {a : Arrival aes sound} {numbers : List ℕ}

/-- What was played is in order and genuine, and so is what is held. -/
structure Heard (s : Listening aes sound) (numbers : List ℕ) : Prop where
  key : s.depacketizer.key = sound.key
  next : s.depacketizer.next = s.next.map UInt16.ofNat
  idle : s.next = none → numbers = [] ∧ (∀ b, ¬ s.depacketizer.Holds b) ∧ ∀ a ∈ s.arrived, a.taken = false
  begun : ∀ N ∈ s.next, ∃ first, s.arrived.find? Arrival.taken = some first
  held : ∀ N ∈ s.next, Held s.arrived s.depacketizer N (4 * (N / 4) + 32768)
  sorted : numbers.Pairwise (· < ·)
  before : ∀ N ∈ s.next, ∀ m ∈ numbers, m < N
  sent : ∀ m ∈ numbers, ∃ a ∈ s.arrived, m ≤ a.number
  out : s.out = numbers.map sound.opus

/-- All was played from the first packet on, and all that came since is held. -/
structure Whole (s : Listening aes sound) (numbers : List ℕ) : Prop where
  numbers : ∀ N ∈ s.next, ∀ first ∈ s.arrived.find? Arrival.taken,
    first.placed ≤ N ∧ numbers = List.range' first.placed (N - first.placed)
  current : ∀ N ∈ s.next, Current s.depacketizer N
    ∧ Fec.present (s.depacketizer.block (blockOf (UInt16.ofNat N))) < DATA_SHARDS
  arrived : ∀ N ∈ s.next, ∀ a ∈ s.arrived, a.block ≤ N / 4
    ∧ (a.block = N / 4 → ∀ i : Fin SHARDS, i.val = a.shard →
      (s.depacketizer.block (blockOf (UInt16.ofNat N)) i).isSome = true)

theorem not_holds_new (key : Option AudioKey) (b : UInt16) : ¬ (AudioDepacketizer.new key).Holds b := by
  rintro ⟨i, hi⟩
  cases hi

theorem heard_new : Heard (new : Listening aes sound) [] where
  key := rfl
  next := rfl
  idle := fun _ => ⟨rfl, not_holds_new _, fun a ha => absurd ha List.not_mem_nil⟩
  begun := fun N hN => by cases hN
  held := fun N hN => by cases hN
  sorted := List.Pairwise.nil
  before := fun N hN => by cases hN
  sent := fun m hm => by cases hm
  out := rfl

theorem whole_new : Whole (new : Listening aes sound) [] where
  numbers := fun N hN => by cases hN
  current := fun N hN => by cases hN
  arrived := fun N hN => by cases hN

/-- The first packet taken stays the first. -/
theorem find?_concat {first : Arrival aes sound} (h : s.arrived.find? Arrival.taken = some first) :
    (s.arrived ++ [a]).find? Arrival.taken = some first := by
  rw [List.find?_append, h]
  rfl

/-- As many shards of the block that is waited for are held as came. -/
theorem Whole.count_le (h : Whole s numbers) (hne : sound.payload aes 0 ≠ []) (hnext : s.next = some N) :
    count (N / 4) s.arrived ≤ Fec.present (s.depacketizer.block (blockOf (UInt16.ofNat N))) := by
  have hsub : ((s.arrived.filter fun a => a.block = N / 4).map Arrival.shard).toFinset
      ⊆ (Finset.univ.filter fun i => (s.depacketizer.block (blockOf (UInt16.ofNat N)) i).isSome = true).image
        Fin.val := by
    intro j hj
    obtain ⟨a, ha, rfl⟩ := List.mem_map.mp (List.mem_toFinset.mp hj)
    obtain ⟨ha, hblock⟩ := List.mem_filter.mp ha
    obtain ⟨-, hlt, -, -⟩ := read_arrival a hne
    refine Finset.mem_image.mpr ⟨⟨a.shard, hlt⟩, Finset.mem_filter.mpr ⟨Finset.mem_univ _, ?_⟩, rfl⟩
    exact (h.arrived N hnext a ha).2 (of_decide_eq_true hblock) ⟨a.shard, hlt⟩ rfl
  exact Nat.le_trans (Finset.card_le_card hsub) Finset.card_image_le

/-- Where nothing is broken, no shard comes of a block behind the one that is waited for. -/
theorem Whole.block_le (h : Whole s numbers) (hheard : Heard s numbers) (hne : sound.payload aes 0 ≠ [])
    (hnext : s.next = some N)
    (hunbroken : ∀ first ∈ s.arrived.find? Arrival.taken, ∀ k, first.block ≤ k → k < a.block →
      DATA_SHARDS ≤ count k s.arrived) : a.block ≤ N / 4 := by
  by_contra hgt
  obtain ⟨first, hfirst⟩ := hheard.begun N hnext
  have hplaced := (h.numbers N hnext first hfirst).1
  have hblock := first.placed_div
  have hmany := hunbroken first hfirst (N / 4) (by omega) (Nat.lt_of_not_le hgt)
  have hfew := (h.current N hnext).2
  have hcount := h.count_le hne hnext
  omega

/-- What `add` does with a packet that is read. -/
theorem add_cases {d d' : AudioDepacketizer} {data : List UInt8} {p : Packet} (hread : read data = some p)
    (hadd : d.add aes data = some (out, d')) :
    (after p.base (blockOf (d.next.getD p.start)) < 0 ∧ out = [] ∧ d' = d.begin p)
      ∨ (¬ after p.base (blockOf (d.next.getD p.start)) < 0
        ∧ AudioDepacketizer.drain aes AudioDepacketizer.turns ((d.begin p).store p) = some (out, d')) := by
  unfold AudioDepacketizer.add at hadd
  rw [hread] at hadd
  dsimp only at hadd
  split at hadd
  case isTrue hlate =>
    cases hadd
    exact Or.inl ⟨hlate, rfl, rfl⟩
  case isFalse hkept => exact Or.inr ⟨hkept, hadd⟩

theorem step_some (hstep : s.step a = some s') :
    ∃ out d', s.depacketizer.add aes a.packet = some (out, d') ∧ s' = {
      depacketizer := d'
      arrived := s.arrived ++ [a]
      next := d'.next.map fun next =>
        s.next.getD a.placed + (next - s.depacketizer.next.getD (UInt16.ofNat a.placed)).toNat
      out := s.out ++ out } := by
  obtain ⟨⟨out, d'⟩, hadd, hs'⟩ := Option.bind_eq_some_iff.mp hstep
  exact ⟨out, d', hadd, (Option.some_inj.mp hs').symm⟩

/-- Where there is nothing to take, all stays as it is. -/
theorem Heard.silent (h : Heard s numbers) (hnil : sound.payload aes 0 = []) (hstep : s.step a = some s') :
    Heard s' numbers ∧ s'.next = none := by
  obtain ⟨out, d', hadd, rfl⟩ := step_some hstep
  have hnone : read a.packet = none := not_taken a hnil
  have hnext : s.next = none := by
    cases hnext : s.next with
    | none => rfl
    | some N =>
      obtain ⟨first, hfirst⟩ := h.begun N hnext
      have htaken := List.find?_some hfirst
      rw [Arrival.taken, not_taken first hnil] at htaken
      cases htaken
  unfold AudioDepacketizer.add at hadd
  rw [hnone] at hadd
  cases hadd
  have hdepacketizer : s.depacketizer.next = none := by rw [h.next, hnext]; rfl
  obtain ⟨hnumbers, hholds, htaken⟩ := h.idle hnext
  refine ⟨⟨h.key, ?_, fun _ => ⟨hnumbers, hholds, ?_⟩, ?_, ?_, h.sorted, ?_, ?_, ?_⟩, ?_⟩
  · dsimp only
    rw [hdepacketizer]
    rfl
  · intro a' ha'
    rcases List.mem_append.mp ha' with ha' | ha'
    · exact htaken a' ha'
    · rw [List.mem_singleton.mp ha', Arrival.taken, hnone]
      rfl
  · intro N hN
    rw [hdepacketizer] at hN
    cases hN
  · intro N hN
    rw [hdepacketizer] at hN
    cases hN
  · intro N hN
    rw [hdepacketizer] at hN
    cases hN
  · intro m hm
    rw [hnumbers] at hm
    cases hm
  · rw [h.out]
    exact List.append_nil _
  · dsimp only
    rw [hdepacketizer]
    rfl

theorem toNat_sub_ofNat {N' : ℕ} (hle : N ≤ N') (hlt : N' < N + 65536) :
    (UInt16.ofNat N' - UInt16.ofNat N).toNat = N' - N := by
  rw [UInt16.toNat_sub, UInt16.toNat_ofNat', UInt16.toNat_ofNat']
  omega

/-- What a packet that is taken finds: where playing is, and that the packet is near. -/
structure Found (s : Listening aes sound) (a : Arrival aes sound) (p : Packet) (N : ℕ) : Prop where
  next : (s.depacketizer.begin p).next = some (UInt16.ofNat N)
  next_eq : s.next.getD a.placed = N
  start : s.depacketizer.next.getD (UInt16.ofNat a.placed) = UInt16.ofNat N
  near : a.placed < N + 32768 ∧ N < a.placed + 32768
  held : Held s.arrived s.depacketizer N (4 * (N / 4) + 32768)

theorem Heard.found (h : Heard s numbers) (hnear : s.Near a) {p : Packet} (hstart : p.start = UInt16.ofNat a.placed) :
    ∃ N, Found s a p N ∧ (s.next = none ∧ N = a.placed ∨ s.next = some N) := by
  have hnext := h.next
  cases hs : s.next with
  | none =>
    rw [hs] at hnext
    refine ⟨a.placed, ⟨?_, by rw [hs]; rfl, by rw [hnext]; rfl, by omega, ?_⟩, Or.inl ⟨rfl, rfl⟩⟩
    · rw [AudioDepacketizer.begin, hnext, hstart]
      rfl
    · exact fun b hb => absurd hb ((h.idle hs).2.1 b)
  | some N =>
    rw [hs] at hnext
    refine ⟨N, ⟨?_, by rw [hs]; rfl, by rw [hnext]; rfl, hnear N hs, h.held N hs⟩, Or.inr rfl⟩
    rw [AudioDepacketizer.begin, hnext]
    rfl

/-- A packet of a block that is over changes nothing. -/
theorem Heard.late (h : Heard s numbers) {p : Packet} (hne : sound.payload aes 0 ≠ []) (hs : s.next = some N)
    (hfound : Found s a p N) (hlate : a.block < N / 4 ∨ 4 * a.block = 4 * (N / 4) + 32768)
    (hs' : s' = {
      depacketizer := s.depacketizer.begin p
      arrived := s.arrived ++ [a]
      next := (s.depacketizer.begin p).next.map fun next =>
        s.next.getD a.placed + (next - s.depacketizer.next.getD (UInt16.ofNat a.placed)).toNat
      out := s.out ++ [] }) :
    Heard s' numbers ∧ (Whole s numbers → (∀ first ∈ s.arrived.find? Arrival.taken, ∀ k, first.block ≤ k →
      k < a.block → DATA_SHARDS ≤ count k s.arrived) → Whole s' numbers) := by
  have hnext' : s'.next = some N := by
    rw [hs', hfound.next, Option.map_some, hfound.next_eq, hfound.start, UInt16.sub_self]
    rfl
  have hblock : ∀ b, s'.depacketizer.block b = s.depacketizer.block b := fun b => by rw [hs']; rfl
  have harrived : s'.arrived = s.arrived ++ [a] := by rw [hs']
  have hN : ∀ {N'}, N' ∈ s'.next → N' = N := fun hN' => Option.some_inj.mp (hN'.symm.trans hnext')
  obtain ⟨first, hfirst⟩ := h.begun N hs
  refine ⟨⟨?_, ?_, ?_, ?_, ?_, h.sorted, ?_, ?_, ?_⟩, fun hwhole hunbroken => ⟨?_, ?_, ?_⟩⟩
  · rw [hs']
    exact h.key
  · rw [hnext', hs']
    exact hfound.next
  · intro hnone
    rw [hnext'] at hnone
    cases hnone
  · exact fun _ _ => ⟨first, by rw [harrived]; exact find?_concat hfirst⟩
  · intro N' hN'
    rw [hN hN', hs']
    exact hfound.held.arrives a
  · intro N' hN' m hm
    rw [hN hN']
    exact h.before N hs m hm
  · intro m hm
    obtain ⟨a', ha', hle⟩ := h.sent m hm
    exact ⟨a', by rw [harrived]; exact List.mem_append_left _ ha', hle⟩
  · rw [hs', ← h.out]
    exact List.append_nil _
  · intro N' hN' first' hfirst'
    rw [harrived, find?_concat hfirst] at hfirst'
    cases hfirst'
    rw [hN hN']
    exact hwhole.numbers N hs first hfirst
  · intro N' hN'
    rw [hN hN', hblock]
    obtain ⟨hcurrent, hfew⟩ := hwhole.current N hs
    refine ⟨fun b hb => hcurrent b ?_, hfew⟩
    obtain ⟨i, hi⟩ := hb
    rw [hblock] at hi
    exact ⟨i, hi⟩
  · intro N' hN' a' ha'
    rw [hN hN', hblock]
    rw [harrived] at ha'
    rcases List.mem_append.mp ha' with ha' | ha'
    · exact hwhole.arrived N hs a' ha'
    · rw [List.mem_singleton.mp ha']
      have hle := hwhole.block_le h hne hs hunbroken
      exact ⟨hle, fun heq => by omega⟩

/-- A packet that is taken: what the loop lets out goes on where it was. -/
theorem Heard.taken (h : Heard s numbers) {p : Packet} (hne : sound.payload aes 0 ≠ []) (hlt : a.shard < SHARDS)
    (hbase : p.base = UInt16.ofNat (4 * a.block)) (hindex : p.index = ⟨a.shard, hlt⟩)
    (hpayload : (sound.shards aes a.block)[a.shard]? = some p.payload) (hread : a.taken = true)
    (hfound : Found s a p N) (hs : s.next = none ∧ N = a.placed ∨ s.next = some N)
    (hkept : N / 4 ≤ a.block ∧ 4 * a.block < 4 * (N / 4) + 32768) {d' : AudioDepacketizer}
    (hdrain : AudioDepacketizer.drain aes AudioDepacketizer.turns ((s.depacketizer.begin p).store p) = some (out, d'))
    (hs' : s' = {
      depacketizer := d'
      arrived := s.arrived ++ [a]
      next := d'.next.map fun next =>
        s.next.getD a.placed + (next - s.depacketizer.next.getD (UInt16.ofNat a.placed)).toNat
      out := s.out ++ out }) :
    ∃ more, Heard s' (numbers ++ more) ∧ (Whole s numbers → (∀ first ∈ s.arrived.find? Arrival.taken, ∀ k,
      first.block ≤ k → k < a.block → DATA_SHARDS ≤ count k s.arrived) → Whole s' (numbers ++ more)) := by
  have hstored : Held (s.arrived ++ [a]) ((s.depacketizer.begin p).store p) N (4 * (N / 4) + 32768) :=
    Held.store (d := s.depacketizer.begin p) hfound.held rfl a hkept.1 (by omega) hbase (by rw [hindex]) hpayload
  obtain ⟨N', more, hdrained⟩ := hstored.drain (by omega) (Nat.le_refl _) h.key hfound.next hdrain
  have hbound := hdrained.le_bound
  have hle := hdrained.le
  have hnext' : s'.next = some N' := by
    rw [hs', hdrained.next, Option.map_some, hfound.next_eq, hfound.start, toNat_sub_ofNat hle (by omega)]
    exact congrArg some (by omega)
  have hN : ∀ {N''}, N'' ∈ s'.next → N'' = N' := fun hN'' => Option.some_inj.mp (hN''.symm.trans hnext')
  have harrived : s'.arrived = s.arrived ++ [a] := by rw [hs']
  have hbefore : ∀ m ∈ numbers, m < N := by
    intro m hm
    rcases hs with ⟨hnone, -⟩ | hsome
    · rw [(h.idle hnone).1] at hm
      cases hm
    · exact h.before N hsome m hm
  -- the first packet taken, and what was played since
  have hfirst : ∃ first, (s.arrived ++ [a]).find? Arrival.taken = some first := by
    rcases hs with ⟨hnone, -⟩ | hsome
    · refine Option.isSome_iff_exists.mp (List.find?_isSome.mpr ⟨a, ?_, hread⟩)
      exact List.mem_append_right _ (List.mem_singleton_self a)
    · obtain ⟨first, hfirst⟩ := h.begun N hsome
      exact ⟨first, find?_concat hfirst⟩
  refine ⟨more, ⟨?_, ?_, ?_, ?_, ?_, ?_, ?_, ?_, ?_⟩, fun hwhole hunbroken => ?_⟩
  · rw [hs']
    exact hdrained.key
  · rw [hnext', hs']
    exact hdrained.next
  · intro hnone
    rw [hnext'] at hnone
    cases hnone
  · exact fun _ _ => by rw [harrived]; exact hfirst
  · intro N'' hN''
    rw [hN hN'', hs']
    exact hdrained.held.mono (by omega)
  · refine List.pairwise_append.mpr ⟨h.sorted, hdrained.sorted, fun m hm m' hm' => ?_⟩
    exact Nat.lt_of_lt_of_le (hbefore m hm) (hdrained.between m' hm').1
  · intro N'' hN'' m hm
    rw [hN hN'']
    rcases List.mem_append.mp hm with hm | hm
    · exact Nat.lt_of_lt_of_le (hbefore m hm) hle
    · exact (hdrained.between m hm).2.1
  · intro m hm
    rw [harrived]
    rcases List.mem_append.mp hm with hm | hm
    · obtain ⟨a', ha', hreach⟩ := h.sent m hm
      exact ⟨a', List.mem_append_left _ ha', hreach⟩
    · exact (hdrained.between m hm).2.2
  · rw [hs', List.map_append, ← h.out, ← hdrained.out_eq]
  · -- nothing is broken: the packet is of the block that is waited for
    have hblock : a.block = N / 4 := by
      rcases hs with ⟨-, rfl⟩ | hsome
      · exact a.placed_div.symm
      · exact Nat.le_antisymm (hwhole.block_le h hne hsome hunbroken) hkept.1
    have hpbase : p.base = blockOf (UInt16.ofNat N) := by rw [hbase, hblock, blockOf_ofNat]
    have hcurrent : ∀ b, s.depacketizer.Holds b → b = blockOf (UInt16.ofNat N) := by
      intro b hb
      rcases hs with ⟨hnone, -⟩ | hsome
      · exact absurd hb ((h.idle hnone).2.1 b)
      · exact (hwhole.current N hsome).1 b hb
    have hstore : ∀ b, ((s.depacketizer.begin p).store p).block b
        = if b = p.base then Function.update (s.depacketizer.block p.base) p.index (some p.payload)
          else s.depacketizer.block b :=
      fun b => AudioDepacketizer.block_insert (s.depacketizer.begin p) b p.base _
    have hcurrent' : Current ((s.depacketizer.begin p).store p) N := by
      rintro b ⟨i, hi⟩
      by_cases hb : b = p.base
      · rw [hb, hpbase]
      · rw [hstore, if_neg hb] at hi
        exact hcurrent b ⟨i, hi⟩
    obtain ⟨hmore, hcurrent'', hfew, hstays⟩ := hdrained.whole hcurrent'
    refine ⟨?_, ?_, ?_⟩
    · intro N'' hN'' first hfirst'
      rw [hN hN'', hmore]
      rw [harrived] at hfirst'
      rcases hs with ⟨hnone, hplaced⟩ | hsome
      · obtain ⟨hnil, -, htaken⟩ := h.idle hnone
        have hnotaken : s.arrived.find? Arrival.taken = none :=
          List.find?_eq_none.mpr fun a' ha' => by rw [htaken a' ha']; exact Bool.false_ne_true
        rw [List.find?_append, hnotaken, Option.none_or, List.find?_singleton, if_pos hread] at hfirst'
        cases hfirst'
        rw [hnil, ← hplaced]
        exact ⟨hle, List.nil_append _⟩
      · obtain ⟨first', hfirst''⟩ := h.begun N hsome
        rw [find?_concat hfirst''] at hfirst'
        cases hfirst'
        obtain ⟨hplaced, hnumbers⟩ := hwhole.numbers N hsome first hfirst''
        refine ⟨Nat.le_trans hplaced hle, ?_⟩
        rw [hnumbers, show N' - first.placed = (N - first.placed) + (N' - N) by omega, ← List.range'_append_1,
          show first.placed + (N - first.placed) = N by omega]
    · intro N'' hN''
      rw [hN hN'', hs']
      exact ⟨hcurrent'', hfew⟩
    · intro N'' hN'' a' ha'
      rw [hN hN'', hs']
      rw [harrived] at ha'
      have hbase' : N' / 4 = N / 4 → blockOf (UInt16.ofNat N') = blockOf (UInt16.ofNat N) := by
        intro hsame
        rw [blockOf_ofNat, blockOf_ofNat, hsame]
      rcases List.mem_append.mp ha' with ha' | ha'
      · rcases hs with ⟨hnone, -⟩ | hsome
        · have htaken := (h.idle hnone).2.2 a' ha'
          obtain ⟨_, _, _, hread'⟩ := read_arrival a' hne
          rw [Arrival.taken, hread'] at htaken
          cases htaken
        · obtain ⟨hblock', hheld⟩ := hwhole.arrived N hsome a' ha'
          refine ⟨Nat.le_trans hblock' (Nat.div_le_div_right hle), fun heq i hi => ?_⟩
          have hsame : N' / 4 = N / 4 := Nat.le_antisymm (heq ▸ hblock') (Nat.div_le_div_right hle)
          rw [hbase' hsame]
          refine hstays hsame i ?_
          rw [hstore, ← hpbase, if_pos rfl]
          by_cases hsame' : i = p.index
          · rw [hsame', Function.update_self]
            rfl
          · rw [Function.update_of_ne hsame', hpbase]
            exact hheld (heq.trans hsame) i hi
      · rw [List.mem_singleton.mp ha', hblock]
        refine ⟨Nat.div_le_div_right hle, fun heq i hi => ?_⟩
        rw [hbase' heq.symm]
        refine hstays heq.symm i ?_
        rw [hstore, ← hpbase, if_pos rfl, show i = p.index by rw [hindex]; exact Fin.ext hi, Function.update_self]
        rfl

/-- What a packet preserves. -/
theorem Heard.step (h : Heard s numbers) (hnear : s.Near a) (hstep : s.step a = some s') :
    ∃ more, Heard s' (numbers ++ more) ∧ (Whole s numbers → (∀ first ∈ s.arrived.find? Arrival.taken, ∀ k,
      first.block ≤ k → k < a.block → DATA_SHARDS ≤ count k s.arrived) → Whole s' (numbers ++ more)) := by
  by_cases hne : sound.payload aes 0 = []
  · obtain ⟨hheard, hnone⟩ := h.silent hne hstep
    refine ⟨[], by rw [List.append_nil]; exact hheard, fun _ _ => ⟨?_, ?_, ?_⟩⟩
    · intro N hN
      rw [hnone] at hN
      cases hN
    · intro N hN
      rw [hnone] at hN
      cases hN
    · intro N hN
      rw [hnone] at hN
      cases hN
  · obtain ⟨shard, hlt, hshard, hread⟩ := read_arrival a hne
    have htaken : a.taken = true := by
      rw [Arrival.taken, hread]
      rfl
    obtain ⟨N, hfound, hs⟩ := h.found hnear
      (p := ⟨UInt16.ofNat (4 * a.block), ⟨a.shard, hlt⟩, shard, UInt16.ofNat a.placed⟩) rfl
    obtain ⟨out, d', hadd, hs'⟩ := step_some hstep
    have hplaced := a.placed_div
    have hnear' := hfound.near
    have hiff := after_lt_iff (K := a.block) (N := N) (by omega) (by omega)
    rw [← hfound.start] at hiff
    rcases add_cases hread hadd with ⟨hlate, rfl, rfl⟩ | ⟨hkept, hdrain⟩
    · have hlate' := hiff.mp hlate
      rcases hs with ⟨-, rfl⟩ | hsome
      · omega
      · refine ⟨[], ?_⟩
        rw [List.append_nil]
        exact h.late hne hsome hfound hlate' hs'
    · have hkept' : ¬ (a.block < N / 4 ∨ 4 * a.block = 4 * (N / 4) + 32768) := fun hlate => hkept (hiff.mpr hlate)
      rw [not_or] at hkept'
      exact h.taken hne hlt rfl rfl hshard htaken hfound hs ⟨by omega, by omega⟩ hdrain hs'

/-- What a run preserves. -/
theorem heard_run {arrivals : List (Arrival aes sound)} (h : Run.Guarded step Near arrivals new s) :
    s.arrived = arrivals ∧ ∃ numbers, Heard s numbers ∧ (Unbroken arrivals → Whole s numbers) := by
  have harrived : ∀ (arrivals : List (Arrival aes sound)) (t t' : Listening aes sound),
      arrivals.foldlM step t = some t' → t'.arrived = t.arrived ++ arrivals := by
    intro arrivals
    induction arrivals with
    | nil =>
      intro t t' hrun
      rw [← Run.nil.mp hrun, List.append_nil]
    | cons a arrivals ih =>
      intro t t' hrun
      obtain ⟨t₁, hstep, hrest⟩ := Run.cons.mp hrun
      obtain ⟨out, d', -, rfl⟩ := step_some hstep
      rw [ih _ t' hrest, List.append_assoc, List.singleton_append]
  have hall : s.arrived = arrivals := harrived arrivals new s h.run
  refine ⟨hall, ?_⟩
  rw [← hall]
  refine h.invariant (I := fun s => ∃ numbers, Heard s numbers ∧ (Unbroken s.arrived → Whole s numbers)) ?_
    ⟨[], heard_new, fun _ => whole_new⟩
  rintro t a t' ⟨numbers, hheard, hwhole⟩ hnear hstep
  obtain ⟨more, hheard', hwhole'⟩ := hheard.step hnear hstep
  obtain ⟨out, d', -, rfl⟩ := step_some hstep
  refine ⟨numbers ++ more, hheard', fun hunbroken => ?_⟩
  obtain ⟨hbefore, hlast⟩ := Run.always_concat.mp hunbroken
  exact hwhole' (hwhole hbefore) hlast

/-- Where nothing is broken, every packet of a block with enough shards was played, from the
first one taken on. -/
theorem Whole.played (h : Whole s numbers) (hheard : Heard s numbers) {first : Arrival aes sound}
    (hfirst : s.arrived.find? Arrival.taken = some first) (hmany : DATA_SHARDS ≤ count k s.arrived) {m : ℕ}
    (hm : m / 4 = k) (hle : first.placed ≤ m) : m ∈ numbers := by
  have hne : sound.payload aes 0 ≠ [] := by
    intro hnil
    have htaken := List.find?_some hfirst
    rw [Arrival.taken, not_taken first hnil] at htaken
    cases htaken
  cases hs : s.next with
  | none =>
    have htaken := (hheard.idle hs).2.2 first (List.mem_of_find?_eq_some hfirst)
    rw [List.find?_some hfirst] at htaken
    cases htaken
  | some N =>
    obtain ⟨hplaced, hnumbers⟩ := h.numbers N hs first hfirst
    -- something of the block came
    obtain ⟨j, hj⟩ := Finset.card_pos.mp (Nat.lt_of_lt_of_le (by decide) hmany)
    obtain ⟨a, ha, -⟩ := List.mem_map.mp (List.mem_toFinset.mp hj)
    obtain ⟨ha, hblock⟩ := List.mem_filter.mp ha
    have hblock : a.block = k := of_decide_eq_true hblock
    have hk := (h.arrived N hs a ha).1
    have hne' : k ≠ N / 4 := by
      rintro rfl
      have hcount := h.count_le hne hs
      have hfew := (h.current N hs).2
      omega
    rw [hnumbers, List.mem_range'_1]
    omega

end Listening

/-- **What is played is in order and genuine, and all of it where nothing is broken**; and
every packet is dealt with. -/
theorem sound_heard (aes : Aes128) (sound : Sound) :
    (∀ (arrivals : List (Arrival aes sound)) (s : Listening aes sound),
      Run.Guarded Listening.step Listening.Near arrivals .new s →
        ∃ numbers : List ℕ, s.out = numbers.map sound.opus ∧ numbers.Pairwise (· < ·)
          ∧ (∀ m ∈ numbers, ∃ a ∈ arrivals, m ≤ a.number)
          ∧ (Unbroken arrivals → ∀ first ∈ arrivals.find? Arrival.taken, ∀ k, DATA_SHARDS ≤ count k arrivals →
              ∀ m, m / 4 = k → first.placed ≤ m → m ∈ numbers))
    ∧ ∀ (key : Option AudioKey) (packets : List (List UInt8)),
        ∃ d, packets.foldlM (fun d data => (AudioDepacketizer.add aes d data).map Prod.snd) (.new key) = some d := by
  constructor
  · intro arrivals s hrun
    obtain ⟨harrived, numbers, hheard, hwhole⟩ := Listening.heard_run hrun
    refine ⟨numbers, hheard.out, hheard.sorted, ?_, ?_⟩
    · rw [← harrived]
      exact hheard.sent
    · intro hunbroken first hfirst k hmany m hm hle
      rw [← harrived] at hfirst hmany
      exact (hwhole hunbroken).played hheard hfirst hmany hm hle
  · intro key packets
    obtain ⟨d, hd, -⟩ := AudioDepacketizer.adds_end aes key packets
    exact ⟨d, hd⟩

end

/-- A sound that counts, in the clear: no cipher is asked. -/
def counted : Sound := ⟨5, none, fun n => [UInt8.ofNat n], 1, fun _ => rfl⟩

def unasked : Aes128 := ⟨fun _ block => block, fun _ block => block, fun _ _ => rfl⟩

def countedArrival (n : ℕ) : Arrival unasked counted :=
  ⟨n, 0, rtp payloadType (UInt16.ofNat n) ((UInt16.ofNat n).toUInt32 * 5) ++ [UInt8.ofNat n], by
    rw [Sound.sent_eq]
    rfl⟩

/-- Two packets change places, and one comes twice. -/
def countedArrivals : List (Arrival unasked counted) := [0, 2, 1, 1, 3].map countedArrival

instance {aes : Aes128} {sound : Sound} (s : Listening aes sound) (a : Arrival aes sound) : Decidable (s.Near a) :=
  inferInstanceAs (Decidable (∀ next ∈ s.next, a.placed < next + 32768 ∧ next < a.placed + 32768))

set_option maxRecDepth 20000 in
theorem sound_heard_swapped :
    (∃ (s : Listening unasked counted) (numbers : List ℕ), countedArrivals.foldlM Listening.step .new = some s ∧ s.out = [[0], [1], [2], [3]]
      ∧ s.out = numbers.map counted.opus ∧ numbers.Pairwise (· < ·) ∧ ∀ m < 4, m ∈ numbers)
    ∧ ∃ d, [[], [0x80, 127, 0, 0]].foldlM (fun d data => (AudioDepacketizer.add unasked d data).map Prod.snd)
        (.new none) = some d := by
  have hrun : Run.Guarded Listening.step Listening.Near countedArrivals .new _ :=
    ⟨by decide, _, rfl, by decide, _, rfl, by decide, _, rfl, by decide, _, rfl, by decide, _, rfl, rfl⟩
  have hblock : ∀ a ∈ countedArrivals, a.block = 0 := by decide
  have hunbroken : Unbroken countedArrivals := by
    intro before a after heq first _ k _ hk
    rw [hblock a (by rw [heq]; simp)] at hk
    exact absurd hk (Nat.not_lt_zero k)
  obtain ⟨numbers, hout, hsorted, -, hall⟩ := (sound_heard unasked counted).1 _ _ hrun
  refine ⟨⟨_, numbers, hrun.run, rfl, hout, hsorted, fun m hm => ?_⟩, (sound_heard unasked counted).2 none _⟩
  exact hall hunbroken (countedArrival 0) rfl 0 (by decide) m (by omega) (Nat.zero_le m)

end WindowCast.GameStream.Audio
