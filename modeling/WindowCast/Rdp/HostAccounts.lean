import WindowCast.Host.Control
import WindowCast.Lib.Hex

/-!
# The Windows users that a host makes

A launch that runs as a RemoteApp may log in as a local user that the host makes for
whoever asks.  The user is named after the account, without its domain or realm, or
after the device; the name is in the characters and the length that Windows takes.

## Main definitions

* `hostAccountName` — the local user made for a principal.
* `hostLogin` — the domain and the user that the RemoteApp logs in with.
* `Alike` — texts that cannot be told apart in a name of that kind.

## Main results

* `utf8Size_hostAccountName` — a name is at most twenty bytes.
* `hostAccountName_eq_iff` — which principals are given one name.
* `apart_iff_not_alike` — **different principals have different users exactly where their
  names are not alike**.
-/

namespace WindowCast.Rdp

open WindowCast.Accounts (Account PeerId)
open WindowCast.Host (Principal)

/-- The user of an account: without a domain (`DOMAIN\user`) or a realm (`user@realm`). -/
def userPart (name : Text) : Text :=
  let user := (Text.split '\\' name).getLast?.getD name
  (Text.split '@' user).head?.getD user

/-- What a user is named after. -/
def baseName (who : Principal) : Text :=
  match who.account with
  | some account => userPart account.name
  | none => "dev-".toList ++ (Hex.encode who.peer.bytes.toList).take 8

/-- A character, as one that Windows takes. -/
def cleanChar (c : Char) : Char := if c.isAlphanum ∨ c = '-' ∨ c = '_' then c.toLower else '-'

/-- The local user made for a principal: `wc-` and the account's name, or the device's id
for a PIN-paired device. -/
def hostAccountName (who : Principal) : Text := ("wc-".toList ++ (baseName who).map cleanChar).take 20

/-- The domain and the user that a RemoteApp of the principal logs in with. -/
def hostLogin (who : Principal) : Option Text × Text :=
  match Text.splitOnce '\\' (hostAccountName who) with
  | some (domain, user) => (some domain, user)
  | none => (none, hostAccountName who)

/-- One account, by its name and where it signed in, or one PIN-paired device. -/
def SameAccount (who other : Principal) : Prop :=
  match who.account, other.account with
  | some account, some account' => account.name = account'.name ∧ account.provider = account'.provider
  | none, none => who.peer = other.peer
  | _, _ => False

/-- Characters of which a name cannot tell one from the other: the same letter or digit,
in either case, or two others. -/
def AlikeChar (c d : Char) : Prop :=
  c.toLower = d.toLower ∨ (c.isAlphanum = false ∧ c ≠ '_') ∧ d.isAlphanum = false ∧ d ≠ '_'

/-- Texts of which a name cannot tell one from the other: their first seventeen
characters are alike. -/
def Alike (text other : Text) : Prop := List.Forall₂ AlikeChar (text.take 17) (other.take 17)

/-! ### What a name can tell -/

theorem isAlphanum_toLower (c : Char) : c.toLower.isAlphanum = c.isAlphanum := by
  rw [Char.isAlphanum, Char.isAlphanum, Char.isAlpha_toLower_eq_isAlpha]
  by_cases hupper : c.isUpper = true
  · simp [Char.isAlpha, hupper]
  · rw [Char.toLower_eq_of_not_isUpper hupper]

/-- Only letters change with their case. -/
theorem toLower_of_not_isAlphanum {c : Char} (h : c.isAlphanum = false) : c.toLower = c := by
  apply Char.toLower_eq_of_not_isUpper
  intro hupper
  simp [Char.isAlphanum, Char.isAlpha, hupper] at h

/-- The letters and digits, and `_`: of those a name keeps which it was. -/
def Kept (c : Char) : Prop := c.isAlphanum = true ∨ c = '_'

theorem Kept.cleanChar {c : Char} (h : Kept c) : cleanChar c = c.toLower :=
  if_pos (h.imp_right Or.inr)

theorem Kept.toLower {c : Char} (h : Kept c) : Kept c.toLower := by
  rcases h with halnum | rfl
  · exact Or.inl ((isAlphanum_toLower c).trans halnum)
  · exact Or.inr rfl

theorem cleanChar_of_not_kept {c : Char} (h : ¬ Kept c) : cleanChar c = '-' := by
  unfold cleanChar
  split_ifs with hclean
  · rcases hclean with halnum | rfl | hunderscore
    · exact absurd (Or.inl halnum) h
    · rfl
    · exact absurd (Or.inr hunderscore) h
  · rfl

theorem toLower_of_not_kept {c : Char} (h : ¬ Kept c) : c.toLower = c :=
  toLower_of_not_isAlphanum (Bool.eq_false_of_not_eq_true fun halnum => h (Or.inl halnum))

theorem alikeChar_iff {c d : Char} : AlikeChar c d ↔ c.toLower = d.toLower ∨ ¬ Kept c ∧ ¬ Kept d := by
  simp [AlikeChar, Kept]

/-- A character that is kept is not alike to one that is not. -/
theorem toLower_ne_of_kept {c d : Char} (hc : Kept c) (hd : ¬ Kept d) : c.toLower ≠ d.toLower := by
  intro heq
  rw [toLower_of_not_kept hd] at heq
  exact hd (heq ▸ hc.toLower)

/-- What is kept does not become a dash. -/
theorem toLower_ne_dash {c : Char} (hc : Kept c) : c.toLower ≠ '-' := by
  have hdash : ¬ Kept '-' := by
    rintro (h | h) <;> revert h <;> decide
  exact toLower_ne_of_kept hc hdash

theorem cleanChar_eq_iff {c d : Char} : cleanChar c = cleanChar d ↔ AlikeChar c d := by
  rw [alikeChar_iff]
  by_cases hc : Kept c <;> by_cases hd : Kept d
  · rw [hc.cleanChar, hd.cleanChar]
    exact (or_iff_left fun h => h.1 hc).symm
  · rw [hc.cleanChar, cleanChar_of_not_kept hd]
    refine iff_of_false (toLower_ne_dash hc) ?_
    rintro (h | h)
    · exact toLower_ne_of_kept hc hd h
    · exact h.1 hc
  · rw [hd.cleanChar, cleanChar_of_not_kept hc]
    refine iff_of_false (toLower_ne_dash hd).symm ?_
    rintro (h | h)
    · exact toLower_ne_of_kept hd hc h.symm
    · exact h.2 hd
  · rw [cleanChar_of_not_kept hc, cleanChar_of_not_kept hd]
    exact iff_of_true rfl (Or.inr ⟨hc, hd⟩)

theorem map_cleanChar_eq_iff {text other : Text} :
    text.map cleanChar = other.map cleanChar ↔ List.Forall₂ AlikeChar text other := by
  induction text generalizing other with
  | nil => cases other <;> simp
  | cons c text ih =>
    cases other with
    | nil => simp
    | cons d other => rw [List.map_cons, List.map_cons, List.cons.injEq, ih, cleanChar_eq_iff, List.forall₂_cons]

/-! ### Names -/

/-- Which principals are given one name. -/
theorem hostAccountName_eq_iff (who other : Principal) :
    hostAccountName who = hostAccountName other ↔ Alike (baseName who) (baseName other) := by
  have htake (text : Text) : ("wc-".toList ++ text.map cleanChar).take 20 = "wc-".toList ++ (text.take 17).map cleanChar := by
    rw [List.map_take]
    rfl
  rw [hostAccountName, hostAccountName, htake, htake, List.append_cancel_left_eq]
  exact map_cleanChar_eq_iff

theorem hostAccountName_congr {who other : Principal} (h : baseName who = baseName other) :
    hostAccountName who = hostAccountName other := by
  rw [hostAccountName, hostAccountName, h]

/-- What is in a name. -/
theorem mem_hostAccountName {who : Principal} {c : Char} (h : c ∈ hostAccountName who) : Kept c ∨ c = '-' := by
  have hstart : ∀ c ∈ ['w', 'c', '-'], Kept c ∨ c = '-' := by
    simp only [List.forall_mem_cons, List.not_mem_nil, false_imp_iff, implies_true, and_true]
    exact ⟨Or.inl (Or.inl rfl), Or.inl (Or.inl rfl), Or.inr trivial⟩
  rcases List.mem_append.mp (List.mem_of_mem_take h) with hmem | hmem
  · exact hstart c hmem
  · obtain ⟨c, -, rfl⟩ := List.mem_map.mp hmem
    by_cases hc : Kept c
    · rw [hc.cleanChar]
      exact Or.inl hc.toLower
    · exact Or.inr (cleanChar_of_not_kept hc)

theorem utf8Size_of_kept {c : Char} (h : Kept c ∨ c = '-') : c.utf8Size = 1 := by
  rcases h with (halnum | rfl) | rfl
  · rw [Char.utf8Size_eq_one_iff]
    simp only [Char.isAlphanum, Char.isAlpha, Char.isUpper, Char.isLower, Char.isDigit, Bool.or_eq_true,
      Bool.and_eq_true, decide_eq_true_eq, UInt32.le_iff_toNat_le] at halnum ⊢
    simp at halnum ⊢
    omega
  · rfl
  · rfl

/-- A name is in the length that Windows takes. -/
theorem utf8Size_hostAccountName (who : Principal) : Text.utf8Size (hostAccountName who) ≤ 20 := by
  have hone : (hostAccountName who).map Char.utf8Size = List.replicate (hostAccountName who).length 1 :=
    List.map_eq_replicate_iff.mpr fun c hc => utf8Size_of_kept (mem_hostAccountName hc)
  rw [Text.utf8Size, hone, List.sum_replicate, smul_eq_mul, mul_one]
  exact List.length_take_le _ _

theorem splitOnce_eq_none {separator : Char} {text : Text} (h : separator ∉ text) :
    Text.splitOnce separator text = none := by
  induction text with
  | nil => rfl
  | cons c text ih =>
    rw [List.mem_cons, not_or] at h
    rw [Text.splitOnce, if_neg (Ne.symm h.1), ih h.2]
    rfl

/-- The RemoteApp logs in as the local user that was made. -/
theorem hostLogin_eq (who : Principal) : hostLogin who = (none, hostAccountName who) := by
  have hnot : '\\' ∉ hostAccountName who := by
    intro hmem
    rcases mem_hostAccountName hmem with (h | h) | h <;> revert h <;> decide
  rw [hostLogin, splitOnce_eq_none hnot]

/-- Two principals that are not the same account have different users, exactly where what
they are named after is not alike. -/
theorem apart_iff_not_alike (who other : Principal) :
    (¬ SameAccount who other → hostAccountName who ≠ hostAccountName other ∧ hostLogin who ≠ hostLogin other) ↔
      SameAccount who other ∨ ¬ Alike (baseName who) (baseName other) := by
  rw [hostLogin_eq, hostLogin_eq, Ne, Ne, Prod.mk.injEq, and_iff_right rfl, and_self, hostAccountName_eq_iff,
    or_iff_not_imp_left]

/-- Two domains, and a user of one name in each. -/
theorem domains_alike :
    ¬ ∀ who other : Principal, ¬ SameAccount who other →
      hostAccountName who ≠ hostAccountName other ∧ hostLogin who ≠ hostLogin other := by
  intro h
  let peer : PeerId := ⟨Vector.replicate 32 0⟩
  have hbase : userPart "CORP\\anna".toList = userPart "HOME\\anna".toList := by decide
  have hapart := h ⟨peer, some ⟨"CORP\\anna".toList, [], .password, "ldap".toList⟩⟩
    ⟨peer, some ⟨"HOME\\anna".toList, [], .password, "ldap".toList⟩⟩ (by simp [SameAccount])
  exact hapart.1 (hostAccountName_congr hbase)

end WindowCast.Rdp
