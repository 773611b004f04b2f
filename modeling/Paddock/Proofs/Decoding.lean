import Mathlib.Data.List.Infix
import Paddock.Text.Utf8

/-!
# Reading UTF-8

Bytes are read from the front: the sequence of a character where they open with one, and where they
do not, the longest part that could still have become one, or else a single byte. The two ways of
reading any bytes cut them alike and differ in what they make of an ill-formed part. Lenient reading
loses nothing, so writing gives the bytes back.
-/

namespace Paddock.Utf8

set_option autoImplicit false

open String (utf8EncodeChar)

variable {a b c d : UInt8} {ch : Char} {n : ℕ} {bytes sequence part other rest : List UInt8}

theorem continues_iff : continues b = true ↔ 0x80 ≤ b.toNat ∧ b.toNat ≤ 0xBF := by
  simp [continues, UInt8.le_iff_toNat_le]

theorem follows_iff : follows a b = true ↔ 0x80 ≤ b.toNat ∧ b.toNat ≤ 0xBF ∧
    (a.toNat = 0xE0 → 0xA0 ≤ b.toNat) ∧ (a.toNat = 0xED → b.toNat ≤ 0x9F) ∧
    (a.toNat = 0xF0 → 0x90 ≤ b.toNat) ∧ (a.toNat = 0xF4 → b.toNat ≤ 0x8F) := by
  unfold follows
  simp only [beq_iff_eq, ← UInt8.toNat_inj, UInt8.reduceToNat]
  split_ifs <;> simp [continues, UInt8.le_iff_toNat_le] <;> omega

theorem continues_of_follows (h : follows a b = true) : continues b = true := by
  rw [follows_iff] at h
  exact continues_iff.mpr ⟨h.1, h.2.1⟩

theorem width_cases (a : UInt8) :
    (width a = some 1 ∧ a.toNat < 0x80) ∨
    (width a = none ∧ 0x80 ≤ a.toNat ∧ (a.toNat < 0xC2 ∨ 0xF5 ≤ a.toNat)) ∨
    (width a = some 2 ∧ 0xC2 ≤ a.toNat ∧ a.toNat < 0xE0) ∨
    (width a = some 3 ∧ 0xE0 ≤ a.toNat ∧ a.toNat < 0xF0) ∨
    (width a = some 4 ∧ 0xF0 ≤ a.toNat ∧ a.toNat < 0xF5) := by
  unfold width
  simp only [UInt8.lt_iff_toNat_lt, UInt8.reduceToNat]
  split_ifs <;> simp <;> omega

theorem width_eq_one_iff : width a = some 1 ↔ a.toNat < 0x80 := by
  rcases width_cases a with h | h | h | h | h <;> simp [h.1] <;> omega

theorem width_eq_two_iff : width a = some 2 ↔ 0xC2 ≤ a.toNat ∧ a.toNat < 0xE0 := by
  rcases width_cases a with h | h | h | h | h <;> simp [h.1] <;> omega

theorem width_eq_three_iff : width a = some 3 ↔ 0xE0 ≤ a.toNat ∧ a.toNat < 0xF0 := by
  rcases width_cases a with h | h | h | h | h <;> simp [h.1] <;> omega

theorem width_eq_four_iff : width a = some 4 ↔ 0xF0 ≤ a.toNat ∧ a.toNat < 0xF5 := by
  rcases width_cases a with h | h | h | h | h <;> simp [h.1] <;> omega

theorem width_of_continues (h : continues a = true) : width a = none := by
  rw [continues_iff] at h
  rcases width_cases a with h' | h' | h' | h' | h'
  · omega
  · exact h'.1
  · omega
  · omega
  · omega

/-- The sequences of bytes that stand for a character. -/
inductive Codes : List UInt8 → Char → Prop where
  | one {a : UInt8} (ha : width a = some 1) : Codes [a] (Char.ofNat a.toNat)
  | two {a b : UInt8} (ha : width a = some 2) (hb : continues b = true) :
    Codes [a, b] (Char.ofNat (a.toNat % 32 * 64 + low6 b))
  | three {a b c : UInt8} (ha : width a = some 3) (hb : follows a b = true)
      (hc : continues c = true) :
    Codes [a, b, c] (Char.ofNat (a.toNat % 16 * 4096 + low6 b * 64 + low6 c))
  | four {a b c d : UInt8} (ha : width a = some 4) (hb : follows a b = true)
      (hc : continues c = true) (hd : continues d = true) :
    Codes [a, b, c, d]
      (Char.ofNat (a.toNat % 8 * 262144 + low6 b * 4096 + low6 c * 64 + low6 d))

theorem Codes.opening_append (h : Codes sequence ch) (rest : List UInt8) :
    opening (sequence ++ rest) = some (ch, sequence.length - 1) := by
  cases h with
  | one ha => simp [opening, ha]
  | two ha hb => simp [opening, ha, hb]
  | three ha hb hc => simp [opening, ha, hb, hc]
  | four ha hb hc hd => simp [opening, ha, hb, hc, hd]

theorem exists_codes_of_opening (h : opening bytes = some (ch, n)) : ∃ sequence rest,
    bytes = sequence ++ rest ∧ Codes sequence ch ∧ sequence.length = n + 1 := by
  unfold opening at h
  split at h
  · exact nomatch h
  split at h
  · rename_i a rest _ _ ha
    obtain ⟨rfl, rfl⟩ : Char.ofNat a.toNat = ch ∧ 0 = n := by simpa using h
    exact ⟨[a], rest, rfl, .one ha, rfl⟩
  · rename_i a _ _ b rest ha
    split at h
    · rename_i hb
      obtain ⟨rfl, rfl⟩ := Prod.mk.inj (Option.some.inj h)
      exact ⟨[a, b], rest, rfl, .two ha hb, rfl⟩
    · exact nomatch h
  · rename_i a _ _ b c rest ha
    split at h
    · rename_i hbc
      obtain ⟨hb, hc⟩ := Bool.and_eq_true_iff.mp hbc
      obtain ⟨rfl, rfl⟩ := Prod.mk.inj (Option.some.inj h)
      exact ⟨[a, b, c], rest, rfl, .three ha hb hc, rfl⟩
    · exact nomatch h
  · rename_i a _ _ b c d rest ha
    split at h
    · rename_i hbcd
      obtain ⟨hbc, hd⟩ := Bool.and_eq_true_iff.mp hbcd
      obtain ⟨hb, hc⟩ := Bool.and_eq_true_iff.mp hbc
      obtain ⟨rfl, rfl⟩ := Prod.mk.inj (Option.some.inj h)
      exact ⟨[a, b, c, d], rest, rfl, .four ha hb hc hd, rfl⟩
    · exact nomatch h
  · exact nomatch h

theorem encodeChar_eq (ch : Char) : encodeChar ch = utf8EncodeChar ch := by
  have hvalid : ch.toNat.isValidChar := ch.valid
  have hcode : ch.val.toNat = ch.toNat := rfl
  unfold encodeChar utf8EncodeChar
  simp only [hcode, ← Nat.lt_succ_iff, Nat.succ_eq_add_one, Nat.reduceAdd]
  generalize ch.toNat = n at hvalid
  unfold Nat.isValidChar at hvalid
  split_ifs with hone htwo hthree
  · rfl
  · have hlead : 0xC0 + n / 64 = n / 64 % 32 + 0xC0 := by omega
    rw [hlead, Nat.add_comm 0x80]
  · have hlead : 0xE0 + n / 4096 = n / 4096 % 16 + 0xE0 := by omega
    rw [hlead, Nat.add_comm 0x80, Nat.add_comm 0x80]
  · have hlead : 0xF0 + n / 262144 = n / 262144 % 8 + 0xF0 := by omega
    rw [hlead, Nat.add_comm 0x80, Nat.add_comm 0x80, Nat.add_comm 0x80]

theorem toNat_ofNat_of_lt (h : n < 256) : (UInt8.ofNat n).toNat = n := by
  simp [Nat.mod_eq_of_lt h]

theorem ofNat_eq_of_eq (h : n = a.toNat) : UInt8.ofNat n = a := by
  rw [h, UInt8.ofNat_toNat]

theorem utf8EncodeChar_ofNat (h : n.isValidChar) : utf8EncodeChar (Char.ofNat n) =
    if n < 0x80 then [UInt8.ofNat n]
    else if n < 0x800 then [UInt8.ofNat (0xC0 + n / 64), UInt8.ofNat (0x80 + n % 64)]
    else if n < 0x10000 then
      [UInt8.ofNat (0xE0 + n / 4096), UInt8.ofNat (0x80 + n / 64 % 64),
        UInt8.ofNat (0x80 + n % 64)]
    else
      [UInt8.ofNat (0xF0 + n / 262144), UInt8.ofNat (0x80 + n / 4096 % 64),
        UInt8.ofNat (0x80 + n / 64 % 64), UInt8.ofNat (0x80 + n % 64)] := by
  have hcode : (Char.ofNat n).toNat = n := by
    rw [Char.ofNat, dif_pos h]
    rfl
  rw [← encodeChar_eq, encodeChar, hcode]

theorem Codes.eq_utf8EncodeChar (h : Codes sequence ch) : sequence = utf8EncodeChar ch := by
  -- by the number of bytes: the number that they give is in the range of that many
  cases h with
  | one ha =>
    rw [width_eq_one_iff] at ha
    rw [utf8EncodeChar_ofNat (.inl (by omega)), if_pos ha, UInt8.ofNat_toNat]
  | two ha hb =>
    rw [width_eq_two_iff] at ha
    rw [continues_iff] at hb
    unfold low6
    rw [utf8EncodeChar_ofNat (.inl (by omega)), if_neg (by omega), if_pos (by omega)]
    rw [ofNat_eq_of_eq, ofNat_eq_of_eq]
    · omega
    · omega
  | @three a b c ha hb hc =>
    rw [width_eq_three_iff] at ha
    rw [follows_iff] at hb
    rw [continues_iff] at hc
    unfold low6
    have hvalid : (a.toNat % 16 * 4096 + b.toNat % 64 * 64 + c.toNat % 64).isValidChar := by
      unfold Nat.isValidChar
      omega
    rw [utf8EncodeChar_ofNat hvalid, if_neg (by omega), if_neg (by omega), if_pos (by omega)]
    rw [ofNat_eq_of_eq, ofNat_eq_of_eq, ofNat_eq_of_eq]
    · omega
    · omega
    · omega
  | @four a b c d ha hb hc hd =>
    rw [width_eq_four_iff] at ha
    rw [follows_iff] at hb
    rw [continues_iff] at hc hd
    unfold low6
    rw [utf8EncodeChar_ofNat (.inr ⟨by omega, by omega⟩), if_neg (by omega), if_neg (by omega),
      if_neg (by omega)]
    rw [ofNat_eq_of_eq, ofNat_eq_of_eq, ofNat_eq_of_eq, ofNat_eq_of_eq]
    · omega
    · omega
    · omega
    · omega

/-! A byte after the first one has six bits of the number. -/

theorem toNat_tail (n : ℕ) : (UInt8.ofNat (0x80 + n % 64)).toNat = 0x80 + n % 64 :=
  toNat_ofNat_of_lt (by omega)

theorem low6_tail (n : ℕ) : low6 (UInt8.ofNat (0x80 + n % 64)) = n % 64 := by
  rw [low6, toNat_tail]
  omega

theorem continues_tail (n : ℕ) : continues (UInt8.ofNat (0x80 + n % 64)) = true := by
  rw [continues_iff, toNat_tail]
  omega

theorem codes_utf8EncodeChar (ch : Char) : Codes (utf8EncodeChar ch) ch := by
  have hvalid : ch.toNat.isValidChar := ch.valid
  have hchar := Char.ofNat_toNat ch
  generalize ch.toNat = n at hvalid hchar
  subst hchar
  rw [utf8EncodeChar_ofNat hvalid]
  unfold Nat.isValidChar at hvalid
  split_ifs with hone htwo hthree
  · have ha : (UInt8.ofNat n).toNat = n := toNat_ofNat_of_lt (by omega)
    have hcodes : Codes [UInt8.ofNat n] _ := .one (width_eq_one_iff.mpr (by omega))
    rwa [ha] at hcodes
  · have ha : (UInt8.ofNat (0xC0 + n / 64)).toNat = 0xC0 + n / 64 := toNat_ofNat_of_lt (by omega)
    have hcodes : Codes [UInt8.ofNat (0xC0 + n / 64), UInt8.ofNat (0x80 + n % 64)] _ :=
      .two (width_eq_two_iff.mpr (by omega)) (continues_tail n)
    have hvalue : (0xC0 + n / 64) % 32 * 64 + n % 64 = n := by omega
    rwa [low6_tail, ha, hvalue] at hcodes
  · have ha : (UInt8.ofNat (0xE0 + n / 4096)).toNat = 0xE0 + n / 4096 :=
      toNat_ofNat_of_lt (by omega)
    have hb := toNat_tail (n / 64)
    have hcodes : Codes [UInt8.ofNat (0xE0 + n / 4096), UInt8.ofNat (0x80 + n / 64 % 64),
        UInt8.ofNat (0x80 + n % 64)] _ :=
      .three (width_eq_three_iff.mpr (by omega)) (follows_iff.mpr (by omega)) (continues_tail n)
    have hvalue : (0xE0 + n / 4096) % 16 * 4096 + n / 64 % 64 * 64 + n % 64 = n := by omega
    rwa [low6_tail, low6_tail, ha, hvalue] at hcodes
  · have ha : (UInt8.ofNat (0xF0 + n / 262144)).toNat = 0xF0 + n / 262144 :=
      toNat_ofNat_of_lt (by omega)
    have hb := toNat_tail (n / 4096)
    have hcodes : Codes [UInt8.ofNat (0xF0 + n / 262144), UInt8.ofNat (0x80 + n / 4096 % 64),
        UInt8.ofNat (0x80 + n / 64 % 64), UInt8.ofNat (0x80 + n % 64)] _ :=
      .four (width_eq_four_iff.mpr (by omega)) (follows_iff.mpr (by omega))
        (continues_tail (n / 64)) (continues_tail n)
    have hvalue : (0xF0 + n / 262144) % 8 * 262144 + n / 4096 % 64 * 4096 + n / 64 % 64 * 64 +
        n % 64 = n := by omega
    rwa [low6_tail, low6_tail, low6_tail, ha, hvalue] at hcodes

theorem opening_utf8EncodeChar_append (ch : Char) (rest : List UInt8) :
    opening (utf8EncodeChar ch ++ rest) = some (ch, (utf8EncodeChar ch).length - 1) :=
  (codes_utf8EncodeChar ch).opening_append rest

theorem exists_of_opening (h : opening bytes = some (ch, n)) :
    ∃ rest, bytes = utf8EncodeChar ch ++ rest ∧ (utf8EncodeChar ch).length = n + 1 := by
  obtain ⟨sequence, rest, rfl, hcodes, hlength⟩ := exists_codes_of_opening h
  rw [← hcodes.eq_utf8EncodeChar]
  exact ⟨rest, rfl, hlength⟩

theorem opening_eq_none_iff : opening bytes = none ↔ ∀ ch, ¬ utf8EncodeChar ch <+: bytes := by
  constructor
  · rintro h ch ⟨rest, rfl⟩
    exact nomatch h.symm.trans (opening_utf8EncodeChar_append ch rest)
  · intro h
    cases hopening : opening bytes with
    | none => rfl
    | some found =>
      obtain ⟨rest, rfl, -⟩ := exists_of_opening hopening
      exact absurd (List.prefix_append _ rest) (h found.1)

/-- The bytes can become the sequence of a character. -/
def Starts (part : List UInt8) : Prop := ∃ ch, part <+: utf8EncodeChar ch

/-- A single byte, or several that can become the sequence of a character. -/
def IsPart (part : List UInt8) : Prop := part.length = 1 ∨ 1 < part.length ∧ Starts part

/-- No character's sequence stands at the front of the bytes, and `part` is the longest of the parts
that stand there. -/
structure MaximalPart (part rest : List UInt8) : Prop where
  ill_formed : ∀ ch, ¬ utf8EncodeChar ch <+: part ++ rest
  isPart : IsPart part
  longest : ∀ other, other <+: part ++ rest → IsPart other → other.length ≤ part.length

theorem starts_iff : Starts part ↔ ∃ sequence ch, Codes sequence ch ∧ part <+: sequence := by
  constructor
  · rintro ⟨ch, h⟩
    exact ⟨utf8EncodeChar ch, ch, codes_utf8EncodeChar ch, h⟩
  · rintro ⟨sequence, ch, hcodes, h⟩
    exact ⟨ch, hcodes.eq_utf8EncodeChar ▸ h⟩

theorem starts_pair_iff : Starts [a, b] ↔ width a = some 2 ∧ continues b = true ∨
    (width a = some 3 ∨ width a = some 4) ∧ follows a b = true := by
  rw [starts_iff]
  constructor
  · rintro ⟨sequence, ch, hcodes, h⟩
    cases hcodes with
    | one ha => simp at h
    | two ha hb =>
      obtain ⟨rfl, rfl⟩ : a = _ ∧ b = _ := by simpa using h
      exact .inl ⟨ha, hb⟩
    | three ha hb hc =>
      obtain ⟨rfl, rfl⟩ : a = _ ∧ b = _ := by simpa using h
      exact .inr ⟨.inl ha, hb⟩
    | four ha hb hc hd =>
      obtain ⟨rfl, rfl⟩ : a = _ ∧ b = _ := by simpa using h
      exact .inr ⟨.inr ha, hb⟩
  · have htail : continues 0x80 = true := by decide
    rintro (⟨ha, hb⟩ | ⟨ha | ha, hb⟩)
    · exact ⟨_, _, .two ha hb, List.prefix_refl _⟩
    · exact ⟨_, _, .three ha hb htail, ⟨[0x80], rfl⟩⟩
    · exact ⟨_, _, .four ha hb htail htail, ⟨[0x80, 0x80], rfl⟩⟩

theorem starts_triple_iff : Starts [a, b, c] ↔ (width a = some 3 ∨ width a = some 4) ∧
    follows a b = true ∧ continues c = true := by
  rw [starts_iff]
  constructor
  · rintro ⟨sequence, ch, hcodes, h⟩
    cases hcodes with
    | one ha => simp at h
    | two ha hb => simp at h
    | three ha hb hc =>
      obtain ⟨rfl, rfl, rfl⟩ : a = _ ∧ b = _ ∧ c = _ := by simpa using h
      exact ⟨.inl ha, hb, hc⟩
    | four ha hb hc hd =>
      obtain ⟨rfl, rfl, rfl⟩ : a = _ ∧ b = _ ∧ c = _ := by simpa using h
      exact ⟨.inr ha, hb, hc⟩
  · rintro ⟨ha | ha, hb, hc⟩
    · exact ⟨_, _, .three ha hb hc, List.prefix_refl _⟩
    · exact ⟨_, _, .four ha hb hc (show continues 0x80 = true by decide), ⟨[0x80], rfl⟩⟩

theorem Codes.continues (h : Codes (a :: rest) ch) : ∀ b ∈ rest, continues b = true := by
  cases h with
  | one ha => simp
  | two ha hb => simpa using hb
  | three ha hb hc => simpa using ⟨continues_of_follows hb, hc⟩
  | four ha hb hc hd => simpa using ⟨continues_of_follows hb, hc, hd⟩

theorem IsPart.continues (h : IsPart (a :: part)) : ∀ b ∈ part, continues b = true := by
  rcases h with hone | ⟨-, hstarts⟩
  · simp [List.length_eq_zero_iff.mp (Nat.succ.inj hone)]
  · obtain ⟨sequence, ch, hcodes, rest, rfl⟩ := starts_iff.mp hstarts
    exact fun b hb => hcodes.continues b (List.mem_append_left rest hb)

theorem isPart_take_tail (a : UInt8) (rest : List UInt8) :
    IsPart (a :: rest.take (illFormedTail (a :: rest))) := by
  unfold illFormedTail
  split
  · exact .inl rfl
  rename_i bytes _ _ heq
  obtain ⟨rfl, rfl⟩ := List.cons.inj heq
  split
  · rename_i b more ha
    split
    · exact .inr ⟨by simp, starts_pair_iff.mpr (.inr ⟨.inl ha, ‹_›⟩)⟩
    · exact .inl rfl
  · rename_i b ha
    split
    · exact .inr ⟨by simp, starts_pair_iff.mpr (.inr ⟨.inr ha, ‹_›⟩)⟩
    · exact .inl rfl
  · rename_i b c more ha
    split
    · split
      · exact .inr ⟨by simp, starts_triple_iff.mpr ⟨.inr ha, ‹_›, ‹_›⟩⟩
      · exact .inr ⟨by simp, starts_pair_iff.mpr (.inr ⟨.inr ha, ‹_›⟩)⟩
    · exact .inl rfl
  · exact .inl rfl

theorem Codes.not_leading (h : Codes sequence ch) (hbytes : opening bytes = none) :
    ¬ sequence <+: bytes := by
  rw [h.eq_utf8EncodeChar]
  exact opening_eq_none_iff.mp hbytes ch

theorem Starts.cut (h : Starts other) (hother : other <+: bytes) (hpart : part <+: bytes)
    (hle : part.length ≤ other.length) : Starts part := by
  obtain ⟨ch, hch⟩ := h
  exact ⟨ch, (List.prefix_of_prefix_length_le hpart hother hle).trans hch⟩

theorem length_lt_four (hbytes : opening bytes = none) (hother : other <+: bytes)
    (h : Starts other) : other.length < 4 := by
  obtain ⟨ch, hch⟩ := h
  have hlength : (utf8EncodeChar ch).length ≤ 4 :=
    String.length_utf8EncodeChar ch ▸ ch.utf8Size_le_four
  by_contra hfour
  have hwhole : other = utf8EncodeChar ch := hch.eq_of_length_le (by omega)
  exact opening_eq_none_iff.mp hbytes ch (hwhole ▸ hother)

theorem length_le_tail (hbytes : opening (a :: rest) = none) (hother : other <+: a :: rest)
    (hpart : IsPart other) : other.length ≤ illFormedTail (a :: rest) + 1 := by
  -- by the bytes that `illFormedTail` looks at, to which `other` is cut down
  rcases hpart with hone | ⟨hlong, hstarts⟩
  · omega
  have hfits := hother.length_le
  rcases rest with - | ⟨b, - | ⟨c, more⟩⟩
  · simp only [List.length_cons, List.length_nil] at hfits
    omega
  · have hpair := hstarts.cut hother (List.prefix_refl [a, b]) hlong
    rcases starts_pair_iff.mp hpair with ⟨ha, hb⟩ | ⟨ha | ha, hb⟩
    · exact absurd (List.prefix_refl [a, b]) ((Codes.two ha hb).not_leading hbytes)
    · simp only [illFormedTail, ha, hb, if_true]
      exact hfits
    · simp only [illFormedTail, ha, hb, if_true]
      exact hfits
  · have htwo : [a, b] <+: a :: b :: c :: more := ⟨c :: more, rfl⟩
    have hthree : [a, b, c] <+: a :: b :: c :: more := ⟨more, rfl⟩
    have hshort : continues c = false → other.length ≤ 2 := by
      intro hc
      by_contra hle
      have hcut := hstarts.cut hother hthree (Nat.succ_le_of_lt (Nat.lt_of_not_le hle))
      obtain ⟨-, -, hc'⟩ := starts_triple_iff.mp hcut
      exact nomatch hc.symm.trans hc'
    rcases starts_pair_iff.mp (hstarts.cut hother htwo hlong) with ⟨ha, hb⟩ | ⟨ha | ha, hb⟩
    · exact absurd htwo ((Codes.two ha hb).not_leading hbytes)
    · have hc : continues c = false :=
        Bool.eq_false_iff.mpr fun hc => (Codes.three ha hb hc).not_leading hbytes hthree
      simpa only [illFormedTail, ha, hb, if_true] using hshort hc
    · simp only [illFormedTail, ha, hb, if_true]
      split
      · exact Nat.le_of_lt_succ (length_lt_four hbytes hother hstarts)
      · exact hshort (Bool.eq_false_iff.mpr ‹_›)

theorem maximalPart_of_opening (h : opening (a :: rest) = none) :
    MaximalPart (a :: rest.take (illFormedTail (a :: rest)))
      (rest.drop (illFormedTail (a :: rest))) := by
  have hwhole : a :: rest.take (illFormedTail (a :: rest)) ++
      rest.drop (illFormedTail (a :: rest)) = a :: rest := by
    rw [List.cons_append, List.take_append_drop]
  constructor
  case ill_formed =>
    rw [hwhole]
    exact opening_eq_none_iff.mp h
  case isPart => exact isPart_take_tail a rest
  case longest =>
    rw [hwhole]
    intro other hother hpart
    have hle := length_le_tail h hother hpart
    have hfits := hother.length_le
    simp only [List.length_cons, List.length_take] at hfits ⊢
    omega

theorem MaximalPart.unique {part' rest' : List UInt8} (h : MaximalPart part rest)
    (h' : MaximalPart part' rest') (heq : part ++ rest = part' ++ rest') :
    part = part' ∧ rest = rest' := by
  have hle : part'.length ≤ part.length :=
    h.longest part' (heq ▸ List.prefix_append part' rest') h'.isPart
  have hge : part.length ≤ part'.length :=
    h'.longest part (heq ▸ List.prefix_append part rest) h.isPart
  exact List.append_inj heq (Nat.le_antisymm hge hle)

theorem MaximalPart.ne_nil (h : MaximalPart part rest) : part ≠ [] := by
  rintro rfl
  rcases h.isPart with hone | ⟨hlong, -⟩
  · exact nomatch hone
  · exact nomatch hlong

theorem MaximalPart.exists_eq (h : MaximalPart part rest) : ∃ a bytes,
    opening (a :: bytes) = none ∧ part = a :: bytes.take (illFormedTail (a :: bytes)) ∧
      rest = bytes.drop (illFormedTail (a :: bytes)) := by
  obtain ⟨a, more, rfl⟩ := List.exists_cons_of_ne_nil h.ne_nil
  have hopening : opening (a :: (more ++ rest)) = none := opening_eq_none_iff.mpr h.ill_formed
  have hwhole : a :: more ++ rest = a :: (more ++ rest) := rfl
  refine ⟨a, more ++ rest, hopening, ?_⟩
  apply h.unique (maximalPart_of_opening hopening)
  rw [List.cons_append, List.cons_append, List.take_append_drop]

/-- Bytes are read to their end, cut by cut. -/
theorem cutInduction {motive : List UInt8 → Prop} (nil : motive [])
    (char : ∀ ch rest, motive rest → motive (utf8EncodeChar ch ++ rest))
    (illFormed : ∀ part rest, MaximalPart part rest → motive rest → motive (part ++ rest))
    (bytes : List UInt8) : motive bytes := by
  induction hlength : bytes.length using Nat.strong_induction_on generalizing bytes with
  | _ n ih =>
    subst hlength
    cases bytes with
    | nil => exact nil
    | cons a bytes =>
      cases hopening : opening (a :: bytes) with
      | some found =>
        obtain ⟨rest, hrest, hpos⟩ := exists_of_opening hopening
        rw [hrest] at ih ⊢
        refine char found.1 rest (ih rest.length ?_ rest rfl)
        rw [List.length_append]
        omega
      | none =>
        have hpart := maximalPart_of_opening hopening
        have hwhole := List.take_append_drop (illFormedTail (a :: bytes)) bytes
        have hcut := illFormed _ _ hpart (ih _ ?_ _ rfl)
        · rwa [List.cons_append, hwhole] at hcut
        · rw [List.length_drop, List.length_cons]
          omega

theorem lenientFrom_eq_drop (n : ℕ) (bytes : List UInt8) :
    lenientFrom n bytes = lenient (bytes.drop n) := by
  induction n generalizing bytes with
  | zero => rfl
  | succ n ih =>
    cases bytes with
    | nil => rfl
    | cons a bytes => rw [lenientFrom, ih, List.drop_succ_cons]

theorem replacingFrom_eq_drop (n : ℕ) (bytes : List UInt8) :
    replacingFrom n bytes = replacing (bytes.drop n) := by
  induction n generalizing bytes with
  | zero => rfl
  | succ n ih =>
    cases bytes with
    | nil => rfl
    | cons a bytes => rw [replacingFrom, ih, List.drop_succ_cons]

theorem lenient_utf8EncodeChar_append (ch : Char) (rest : List UInt8) :
    lenient (utf8EncodeChar ch ++ rest) = .char ch :: lenient rest := by
  have hopening := opening_utf8EncodeChar_append ch rest
  obtain ⟨a, more, hmore⟩ := List.exists_cons_of_ne_nil (String.utf8EncodeChar_ne_nil (c := ch))
  rw [hmore, List.cons_append] at hopening ⊢
  rw [lenient, lenientFrom, hopening]
  simp [lenientFrom_eq_drop]

theorem replacing_utf8EncodeChar_append (ch : Char) (rest : List UInt8) :
    replacing (utf8EncodeChar ch ++ rest) = ch :: replacing rest := by
  have hopening := opening_utf8EncodeChar_append ch rest
  obtain ⟨a, more, hmore⟩ := List.exists_cons_of_ne_nil (String.utf8EncodeChar_ne_nil (c := ch))
  rw [hmore, List.cons_append] at hopening ⊢
  rw [replacing, replacingFrom, hopening]
  simp [replacingFrom_eq_drop]

theorem lenient_cons_of_opening (h : opening (a :: rest) = none) :
    lenient (a :: rest) = glyphOfByte a :: lenient rest := by
  rw [lenient, lenientFrom, h]
  rfl

theorem MaximalPart.replacing_append (h : MaximalPart part rest) :
    replacing (part ++ rest) = '\uFFFD' :: replacing rest := by
  obtain ⟨a, bytes, hopening, rfl, rfl⟩ := h.exists_eq
  rw [List.cons_append, List.take_append_drop, replacing, replacingFrom, hopening]
  simp only [replacingFrom_eq_drop]

theorem opening_of_continues (h : continues a = true) (rest : List UInt8) :
    opening (a :: rest) = none := by
  simp [opening, width_of_continues h]

theorem lenient_append_of_continues (h : ∀ b ∈ part, continues b = true) (rest : List UInt8) :
    lenient (part ++ rest) = part.map glyphOfByte ++ lenient rest := by
  induction part with
  | nil => rfl
  | cons a part ih =>
    obtain ⟨ha, hpart⟩ := List.forall_mem_cons.mp h
    rw [List.cons_append, lenient_cons_of_opening (opening_of_continues ha _), ih hpart]
    rfl

theorem MaximalPart.lenient_append (h : MaximalPart part rest) :
    lenient (part ++ rest) = part.map glyphOfByte ++ lenient rest := by
  obtain ⟨a, part, rfl⟩ := List.exists_cons_of_ne_nil h.ne_nil
  have hopening : opening (a :: (part ++ rest)) = none := opening_eq_none_iff.mpr h.ill_formed
  rw [List.cons_append, lenient_cons_of_opening hopening,
    lenient_append_of_continues h.isPart.continues]
  rfl

/-- Bytes read from their front, where `render` says what an ill-formed part is read as. -/
inductive Decodes (render : List UInt8 → Text) : List UInt8 → Text → Prop where
  | nil : Decodes render [] []
  | char (ch : Char) {rest : List UInt8} {x : Text} (h : Decodes render rest x) :
    Decodes render (utf8EncodeChar ch ++ rest) (.char ch :: x)
  | illFormed {part rest : List UInt8} {x : Text} (hpart : MaximalPart part rest)
      (h : Decodes render rest x) : Decodes render (part ++ rest) (render part ++ x)

def kept (part : List UInt8) : Text := part.map glyphOfByte

def replaced : List UInt8 → Text := fun _ => [.char '\uFFFD']

/-- A way of reading that does so is the only one. -/
theorem decodes_iff {render read : List UInt8 → Text} {x : Text} (hnil : read [] = [])
    (hchar : ∀ ch rest, read (utf8EncodeChar ch ++ rest) = .char ch :: read rest)
    (hpart : ∀ {part rest}, MaximalPart part rest →
      read (part ++ rest) = render part ++ read rest) :
    Decodes render bytes x ↔ x = read bytes := by
  constructor
  · intro h
    induction h with
    | nil => exact hnil.symm
    | char ch h ih => rw [hchar, ih]
    | illFormed hmax h ih => rw [hpart hmax, ih]
  · rintro rfl
    induction bytes using cutInduction with
    | nil =>
      rw [hnil]
      exact .nil
    | char ch rest ih =>
      rw [hchar]
      exact .char ch ih
    | illFormed part rest hmax ih =>
      rw [hpart hmax]
      exact .illFormed hmax ih

theorem decodes_kept_iff {x : Text} : Decodes kept bytes x ↔ x = lenient bytes :=
  decodes_iff rfl lenient_utf8EncodeChar_append MaximalPart.lenient_append

theorem decodes_replaced_iff {x : Text} :
    Decodes replaced bytes x ↔ x = Text.ofChars (replacing bytes) := by
  apply decodes_iff rfl
  · intro ch rest
    rw [replacing_utf8EncodeChar_append]
    rfl
  · intro part rest hmax
    rw [hmax.replacing_append]
    rfl

theorem encode_char_cons (ch : Char) (x : Text) :
    encode (.char ch :: x) = utf8EncodeChar ch ++ encode x := by
  rw [← encodeChar_eq]
  rfl

theorem encodeGlyph_glyphOfByte (b : UInt8) : encodeGlyph (glyphOfByte b) = [b] := by
  unfold glyphOfByte
  split
  · rename_i hb
    have hone : width b = some 1 := width_eq_one_iff.mpr (UInt8.lt_iff_toNat_lt.mp hb)
    exact (encodeChar_eq _).trans (Codes.one hone).eq_utf8EncodeChar.symm
  · rename_i hb
    rw [UInt8.lt_iff_toNat_lt] at hb
    have hhigh : 128 ≤ b.toNat := Nat.le_of_not_lt hb
    have hlow : b.toNat < 256 := b.toNat_lt
    rw [encodeGlyph, ofNat_eq_of_eq]
    show 128 + b.toNat % 128 = b.toNat
    omega

theorem encode_kept (part : List UInt8) : encode (kept part) = part := by
  induction part with
  | nil => rfl
  | cons b part ih =>
    show encodeGlyph (glyphOfByte b) ++ encode (kept part) = b :: part
    rw [encodeGlyph_glyphOfByte, ih]
    rfl

/-- Nothing of the bytes is lost in lenient reading. -/
theorem encode_lenient (bytes : List UInt8) : encode (lenient bytes) = bytes := by
  induction bytes using cutInduction with
  | nil => rfl
  | char ch rest ih =>
    rw [lenient_utf8EncodeChar_append, encode_char_cons, ih]
  | illFormed part rest hpart ih =>
    rw [hpart.lenient_append, encode, List.flatMap_append]
    exact congrArg₂ (· ++ ·) (encode_kept part) ih

/-- Characters come back as they were written. -/
theorem replacing_encode_ofChars (chars : List Char) :
    replacing (encode (Text.ofChars chars)) = chars := by
  induction chars with
  | nil => rfl
  | cons ch chars ih =>
    show replacing (encode (.char ch :: Text.ofChars chars)) = ch :: chars
    rw [encode_char_cons, replacing_utf8EncodeChar_append, ih]

end Paddock.Utf8
