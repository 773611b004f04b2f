import Paddock.Json.Printer
import Paddock.Json.Reader
import Paddock.Proofs.Shortest

/-!
# Numbers in documents

The text of a number is read back as the number. Integers are written with their digits. Of a float
the digits are near it, and no way of laying them out changes the decimal that they write.
-/

namespace Paddock.Json

set_option autoImplicit false

open Binary64 (Canonical Near shortest zeros padLeft layout Layout)

variable {ds whole behind : List Char} {x y z : Text} {n : ℕ} {negative : Bool}

def isDigit : Glyph → Bool
  | .char c => c.isDigit
  | .raw _ => false

/-- What may go on a number: digits, a point, the mark of an exponent. -/
def isNumeric (g : Glyph) : Bool :=
  isDigit g || g == .char '.' || g == .char 'e' || g == .char 'E'

/-- A text does not go on the number that it stands behind. -/
def Ended (x : Text) : Prop := ∀ g ∈ x.head?, isNumeric g = false

theorem ended_nil : Ended [] := by
  intro g hg
  exact absurd hg (by simp)

theorem ended_cons {g : Glyph} (h : isNumeric g = false) (x : Text) : Ended (g :: x) := by
  intro g' hg
  obtain rfl : g = g' := by simpa using hg
  exact h

theorem Ended.head?_ne (h : Ended x) {g : Glyph} (hg : isNumeric g = true) : x.head? ≠ some g := by
  intro hx
  rw [h g hx] at hg
  exact absurd hg (by simp)

/-- A text does not go on the digits that it stands behind. -/
def Undigit (x : Text) : Prop := ∀ g ∈ x.head?, isDigit g = false

theorem Ended.undigit (h : Ended x) : Undigit x := by
  intro g hg
  have hnumeric := h g hg
  simp only [isNumeric, Bool.or_eq_false_iff] at hnumeric
  exact hnumeric.1.1.1

theorem undigit_cons {g : Glyph} (h : isDigit g = false) (x : Text) : Undigit (g :: x) := by
  intro g' hg
  obtain rfl : g = g' := by simpa using hg
  exact h

theorem digits_of_undigit (h : Undigit x) : digits x = ([], x) := by
  cases x with
  | nil => rfl
  | cons g x =>
    cases g with
    | raw low => rfl
    | char c =>
      have hc : c.isDigit = false := h (.char c) rfl
      simp [digits, hc]

def AllDigits (ds : List Char) : Prop := ∀ c ∈ ds, c.isDigit = true

theorem digits_append (hds : AllDigits ds) (hx : Undigit x) :
    digits (Text.ofChars ds ++ x) = (ds, x) := by
  induction ds with
  | nil => exact digits_of_undigit hx
  | cons c ds ih =>
    have hc : c.isDigit = true := hds c List.mem_cons_self
    have hrest := ih fun d hd => hds d (List.mem_cons_of_mem c hd)
    show digits (.char c :: (Text.ofChars ds ++ x)) = _
    rw [digits, if_pos hc, hrest]

theorem allDigits_toDigits (n : ℕ) : AllDigits (Nat.toDigits 10 n) :=
  fun _ hc => Nat.isDigit_of_mem_toDigits (by norm_num) (by norm_num) hc

theorem allDigits_replicate (n : ℕ) : AllDigits (List.replicate n '0') := by
  intro c hc
  rw [List.eq_of_mem_replicate hc]
  rfl

theorem AllDigits.append (h : AllDigits whole) (h' : AllDigits behind) :
    AllDigits (whole ++ behind) := by
  intro c hc
  rcases List.mem_append.mp hc with hc | hc
  · exact h c hc
  · exact h' c hc

theorem natOf_toDigits (n : ℕ) : natOf (Nat.toDigits 10 n) = n := Nat.ofDigitChars_ten_toDigits

theorem natOf_replicate_append (k : ℕ) (ds : List Char) :
    natOf (List.replicate k '0' ++ ds) = natOf ds := by
  rw [natOf, Nat.ofDigitChars_append, Nat.ofDigitChars_replicate_zero, Nat.mul_zero]
  rfl

theorem natOf_append_replicate (ds : List Char) (k : ℕ) :
    natOf (ds ++ List.replicate k '0') = 10 ^ k * natOf ds := by
  rw [natOf, Nat.ofDigitChars_append, Nat.ofDigitChars_replicate_zero]
  rfl

theorem natOf_lt (hds : AllDigits ds) : natOf ds < 10 ^ ds.length := by
  induction ds with
  | nil => exact Nat.one_pos
  | cons c ds ih =>
    have hrest := ih fun d hd => hds d (List.mem_cons_of_mem c hd)
    have hc : c.isDigit = true := hds c List.mem_cons_self
    have hle : c.toNat - 48 ≤ 9 := by
      rw [Char.isDigit, Bool.and_eq_true, decide_eq_true_eq, decide_eq_true_eq] at hc
      have := hc.2
      have hnat : c.val.toNat ≤ 57 := by simpa [UInt32.le_iff_toNat_le] using this
      show c.val.toNat - 48 ≤ 9
      omega
    rw [natOf] at hrest ⊢
    rw [Nat.ofDigitChars_cons, Nat.ofDigitChars_eq_ofDigitChars_zero, List.length_cons, pow_succ]
    show 10 ^ ds.length * (10 * 0 + (c.toNat - 48)) + _ < _
    nlinarith

/-- Digits of a positive number do not begin with a zero. -/
theorem head_toDigits_ne (hn : 0 < n) {c : Char} (h : Nat.toDigits 10 n = c :: ds) : c ≠ '0' := by
  rintro rfl
  have hdigits : AllDigits ds := by
    have hall := allDigits_toDigits n
    rw [h] at hall
    exact fun d hd => hall d (List.mem_cons_of_mem _ hd)
  have hvalue : natOf ds = n := by
    rw [← natOf_toDigits n, h]
    exact (natOf_replicate_append 1 ds).symm
  have hlt := natOf_lt hdigits
  rw [hvalue] at hlt
  cases hds : ds with
  | nil =>
    rw [hds] at hvalue
    exact hn.ne hvalue
  | cons d rest =>
    have hlength := (Nat.length_toDigits_le_iff (b := 10) (by norm_num)
      (by rw [hds]; exact Nat.succ_pos _)).mpr hlt
    rw [h, List.length_cons] at hlength
    exact absurd hlength (Nat.not_succ_le_self _)

theorem isWhole_of_head {c : Char} (hc : c ≠ '0') (ds : List Char) : isWhole (c :: ds) = true := by
  cases ds with
  | nil => rfl
  | cons d ds => simpa [isWhole] using hc

theorem isWhole_toDigits (n : ℕ) : isWhole (Nat.toDigits 10 n) = true := by
  rcases Nat.eq_zero_or_pos n with rfl | hn
  · rfl
  · cases h : Nat.toDigits 10 n with
    | nil => exact absurd h Nat.toDigits_ne_nil
    | cons c ds => exact isWhole_of_head (head_toDigits_ne hn h) ds

theorem marked_of_head?_ne {mark : Char} (h : x.head? ≠ some (.char mark)) :
    marked mark x = (false, x) := by
  cases x with
  | nil => rfl
  | cons g x =>
    have hg : ¬ g = .char mark := fun hg => h (by rw [hg]; rfl)
    rw [marked, if_neg hg]

theorem marked_cons (mark : Char) (x : Text) : marked mark (.char mark :: x) = (true, x) := by
  rw [marked, if_pos rfl]

theorem marked_sign (negative : Bool) (hx : x.head? ≠ some (.char '-')) :
    marked '-' (Binary64.sign negative ++ x) = (negative, x) := by
  cases negative with
  | true => exact marked_cons '-' x
  | false => exact marked_of_head?_ne hx

theorem fraction?_point (hds : AllDigits ds) (hne : ds ≠ []) (hx : Undigit x) :
    fraction? (.char '.' :: (Text.ofChars ds ++ x)) = some (ds, x) := by
  rw [fraction?, marked_cons, digits_append hds hx, if_pos rfl, if_neg hne]

theorem fraction?_none (hx : x.head? ≠ some (.char '.')) : fraction? x = some ([], x) := by
  rw [fraction?, marked_of_head?_ne hx]
  rfl

theorem exponent?_none (h : x.head? ≠ some (.char 'e')) (h' : x.head? ≠ some (.char 'E')) :
    exponent? x = some (none, x) := by
  cases x with
  | nil => rfl
  | cons g x =>
    have hg : ¬ (g = .char 'e' ∨ g = .char 'E') := by
      rintro (rfl | rfl)
      · exact h rfl
      · exact h' rfl
    rw [exponent?, if_neg hg]

theorem exponent?_signed {sign : Glyph} (hsign : exponentSign (sign :: (Text.ofChars ds ++ x)) =
    (negative, Text.ofChars ds ++ x)) (hds : AllDigits ds) (hne : ds ≠ []) (hx : Undigit x) :
    exponent? (.char 'e' :: sign :: (Text.ofChars ds ++ x)) =
      some (some (signed negative (natOf ds)), x) := by
  rw [exponent?, if_pos (.inl rfl), hsign, digits_append hds hx, if_neg hne]

theorem number?_eq (negative : Bool) {power : Option ℤ} (hwhole : AllDigits whole)
    (hisWhole : isWhole whole = true) (hx : Undigit x) (hfraction : fraction? x = some (behind, y))
    (hexponent : exponent? y = some (power, z)) :
    number? (Binary64.sign negative ++ (Text.ofChars whole ++ x)) =
      some (numberOf negative whole behind power, z) := by
  have hhead : (Text.ofChars whole ++ x).head? ≠ some (.char '-') := by
    cases whole with
    | nil => exact absurd hisWhole (by decide)
    | cons c whole =>
      intro h
      obtain rfl : c = '-' := by simpa [Text.ofChars] using h
      exact absurd (hwhole '-' List.mem_cons_self) (by decide)
  simp only [number?, marked_sign negative hhead, digits_append hwhole hx, hisWhole, if_true,
    hfraction, hexponent, Option.bind_eq_bind, Option.bind_some]

theorem number?_ofNat (negative : Bool) (n : ℕ) (hx : Ended x) :
    number? (Binary64.sign negative ++ (Text.ofNat n ++ x)) =
      some (.int (signed negative n), x) := by
  rw [Text.ofNat, number?_eq negative (allDigits_toDigits n) (isWhole_toDigits n) hx.undigit
    (fraction?_none (hx.head?_ne rfl)) (exponent?_none (hx.head?_ne rfl) (hx.head?_ne rfl))]
  rw [numberOf, if_pos rfl, natOf_toDigits]

theorem number?_ofInt (n : ℤ) (hx : Ended x) : number? (Text.ofInt n ++ x) = some (.int n, x) := by
  cases n with
  | ofNat n => exact number?_ofNat false n hx
  | negSucc n => exact number?_ofNat true (n + 1) hx

theorem ofChars_append (cs ds : List Char) :
    Text.ofChars (cs ++ ds) = Text.ofChars cs ++ Text.ofChars ds := List.map_append

theorem zeros_eq (n : ℕ) : zeros n = Text.ofChars (List.replicate n '0') := by
  simp [zeros, Text.ofChars]

theorem number?_point (negative : Bool) (hwhole : AllDigits whole) (hisWhole : isWhole whole = true)
    (hbehind : AllDigits behind) (hne : behind ≠ []) (hx : Ended x) :
    number? (Binary64.sign negative ++
        (Text.ofChars whole ++ .char '.' :: (Text.ofChars behind ++ x))) =
      some (.float (.ofDecimal negative (natOf (whole ++ behind)) (-behind.length)), x) := by
  rw [number?_eq negative hwhole hisWhole (undigit_cons rfl _)
    (fraction?_point hbehind hne hx.undigit) (exponent?_none (hx.head?_ne rfl) (hx.head?_ne rfl))]
  rw [numberOf, if_neg hne]

def exponentText (exponent : ℤ) : Text :=
  (if exponent < 0 then ("e-" : Text) else "e+") ++
    padLeft layout.exponentDigits (Text.ofNat exponent.natAbs)

theorem exponent?_exponentText (exponent : ℤ) (hx : Ended x) :
    exponent? (exponentText exponent ++ x) = some (some exponent, x) := by
  obtain ⟨k, hpad⟩ : ∃ k, padLeft layout.exponentDigits (Text.ofNat exponent.natAbs) =
      Text.ofChars (List.replicate k '0' ++ Nat.toDigits 10 exponent.natAbs) := by
    refine ⟨layout.exponentDigits - (Text.ofNat exponent.natAbs).length, ?_⟩
    rw [padLeft, zeros_eq, ofChars_append, Text.ofNat]
  have hdigits : AllDigits (List.replicate k '0' ++ Nat.toDigits 10 exponent.natAbs) :=
    (allDigits_replicate k).append (allDigits_toDigits _)
  have hne : List.replicate k '0' ++ Nat.toDigits 10 exponent.natAbs ≠ [] := by simp
  have hvalue := natOf_replicate_append k (Nat.toDigits 10 exponent.natAbs)
  rw [natOf_toDigits] at hvalue
  rw [exponentText, hpad]
  by_cases hexponent : exponent < 0
  · rw [if_pos hexponent]
    have hsign : exponentSign (.char '-' ::
        (Text.ofChars (List.replicate k '0' ++ Nat.toDigits 10 exponent.natAbs) ++ x)) =
          (true, Text.ofChars (List.replicate k '0' ++ Nat.toDigits 10 exponent.natAbs) ++ x) := by
      rw [exponentSign, marked_cons, if_pos rfl]
    refine (exponent?_signed hsign hdigits hne hx.undigit).trans ?_
    rw [hvalue, signed, if_pos rfl, Int.ofNat_natAbs_of_nonpos hexponent.le, neg_neg]
  · rw [if_neg hexponent]
    have hsign : exponentSign (.char '+' ::
        (Text.ofChars (List.replicate k '0' ++ Nat.toDigits 10 exponent.natAbs) ++ x)) =
          (false, Text.ofChars (List.replicate k '0' ++ Nat.toDigits 10 exponent.natAbs) ++ x) := by
      rw [exponentSign, marked_of_head?_ne (by simp), if_neg (by simp), marked_cons]
    refine (exponent?_signed hsign hdigits hne hx.undigit).trans ?_
    rw [hvalue, signed, if_neg (by simp), Int.natAbs_of_nonneg (not_lt.mp hexponent)]

/-- A text is read as a decimal with the value of another. -/
def Writes (n : ℕ) (power : ℤ) (text : Text) : Prop :=
  ∀ negative x, Ended x → ∃ (n' : ℕ) (power' : ℤ), 0 < n' ∧
    (n' : ℚ) * 10 ^ power' = n * 10 ^ power ∧
    number? (Binary64.sign negative ++ (text ++ x)) =
      some (.float (.ofDecimal negative n' power'), x)

variable {power point : ℤ}

theorem ofChars_length (cs : List Char) : (Text.ofChars cs).length = cs.length := List.length_map _

theorem writes_point (hwhole : AllDigits whole) (hisWhole : isWhole whole = true)
    (hbehind : AllDigits behind) (hne : behind ≠ []) (hpos : 0 < natOf (whole ++ behind))
    (hvalue : (natOf (whole ++ behind) : ℚ) * 10 ^ (-behind.length : ℤ) = n * 10 ^ power) :
    Writes n power (Text.ofChars whole ++ .char '.' :: Text.ofChars behind) := by
  intro negative x hx
  refine ⟨_, _, hpos, hvalue, ?_⟩
  rw [List.append_assoc, List.cons_append]
  exact number?_point negative hwhole hisWhole hbehind hne hx

/-- Small numbers: zeros stand between the point and the digits. -/
theorem writes_of_nonpos (hn : 0 < n) (hpoint : point = (Nat.toDigits 10 n).length + power)
    (hnonpos : point ≤ 0) :
    Writes n power (Text.ofString "0." ++ zeros (-point).toNat ++ Text.ofNat n) := by
  have hvalue : natOf (List.replicate 1 '0' ++
      (List.replicate (-point).toNat '0' ++ Nat.toDigits 10 n)) = n := by
    rw [natOf_replicate_append, natOf_replicate_append, natOf_toDigits]
  have hlength : -((List.replicate (-point).toNat '0' ++ Nat.toDigits 10 n).length : ℤ) =
      power := by
    rw [List.length_append, List.length_replicate]
    push_cast
    rw [Int.toNat_of_nonneg (by omega)]
    omega
  have htext : Text.ofString "0." ++ zeros (-point).toNat ++ Text.ofNat n =
      Text.ofChars (List.replicate 1 '0') ++ .char '.' ::
        Text.ofChars (List.replicate (-point).toNat '0' ++ Nat.toDigits 10 n) := by
    rw [zeros_eq, ofChars_append, Text.ofNat]
    rfl
  rw [htext]
  apply writes_point (allDigits_replicate 1) rfl
    ((allDigits_replicate _).append (allDigits_toDigits n)) (by simp)
  · rwa [hvalue]
  · rw [hvalue, hlength]

/-- Numbers whose point stands between their digits. -/
theorem writes_of_inside (hpoint : point = (Nat.toDigits 10 n).length + power) (hn : 0 < n)
    (hpos : 0 < point) (hinside : point.toNat < (Nat.toDigits 10 n).length) :
    Writes n power (Text.ofChars ((Nat.toDigits 10 n).take point.toNat) ++
      .char '.' :: Text.ofChars ((Nat.toDigits 10 n).drop point.toNat)) := by
  have hdigits := allDigits_toDigits n
  have hvalue : natOf ((Nat.toDigits 10 n).take point.toNat ++
      (Nat.toDigits 10 n).drop point.toNat) = n := by
    rw [List.take_append_drop, natOf_toDigits]
  have hlength : -(((Nat.toDigits 10 n).drop point.toNat).length : ℤ) = power := by
    rw [List.length_drop]
    omega
  apply writes_point
  · exact fun c hc => hdigits c (List.mem_of_mem_take hc)
  · obtain ⟨k, hk⟩ : ∃ k, point.toNat = k + 1 := ⟨point.toNat - 1, by omega⟩
    cases h : Nat.toDigits 10 n with
    | nil => exact absurd h Nat.toDigits_ne_nil
    | cons c ds =>
      rw [hk, List.take_succ_cons]
      exact isWhole_of_head (head_toDigits_ne hn h) _
  · exact fun c hc => hdigits c (List.mem_of_mem_drop hc)
  · simpa using hinside
  · rwa [hvalue]
  · rw [hvalue, hlength]

/-- Whole numbers: zeros stand between the digits and the point, and one behind it. -/
theorem writes_of_beyond (hpoint : point = (Nat.toDigits 10 n).length + power) (hn : 0 < n)
    (hbeyond : (Nat.toDigits 10 n).length ≤ point.toNat) (hpos : 0 < point) :
    Writes n power
      (Text.ofChars (Nat.toDigits 10 n ++
          List.replicate (point.toNat - (Nat.toDigits 10 n).length) '0') ++
        .char '.' :: Text.ofChars (List.replicate 1 '0')) := by
  obtain ⟨k, hk⟩ : ∃ k, point.toNat - (Nat.toDigits 10 n).length = k := ⟨_, rfl⟩
  obtain rfl : power = k := by omega
  have hvalue : natOf (Nat.toDigits 10 n ++ List.replicate k '0' ++ List.replicate 1 '0') =
      10 * (10 ^ k * n) := by
    rw [natOf_append_replicate, natOf_append_replicate, natOf_toDigits, pow_one]
  rw [hk]
  apply writes_point ((allDigits_toDigits n).append (allDigits_replicate k)) ?_
    (allDigits_replicate 1) (by simp)
  · rw [hvalue]
    positivity
  · rw [hvalue, List.length_replicate]
    push_cast
    rw [zpow_neg, zpow_one, zpow_natCast]
    ring
  · cases h : Nat.toDigits 10 n with
    | nil => exact absurd h Nat.toDigits_ne_nil
    | cons c ds => exact isWhole_of_head (head_toDigits_ne hn h) _

/-- Digits with an exponent, and a point behind the first of them if there are more. -/
theorem writes_of_exponent {c : Char} (hdigits : Nat.toDigits 10 n = c :: ds) (hn : 0 < n)
    (hpoint : point = (Nat.toDigits 10 n).length + power) :
    Writes n power (match Text.ofChars ds with
      | [] => .char c :: exponentText (point - 1)
      | rest => .char c :: .char '.' :: rest ++ exponentText (point - 1)) := by
  intro negative x hx
  have hall : AllDigits (c :: ds) := hdigits ▸ allDigits_toDigits n
  have hfirst : AllDigits [c] := fun d hd => hall d (List.mem_append_left ds hd)
  have hrest : AllDigits ds := fun d hd => hall d (List.mem_append_right [c] hd)
  have hmark : ∃ sign rest, exponentText (point - 1) ++ x = .char 'e' :: sign :: rest := by
    rw [exponentText]
    split
    · exact ⟨.char '-', _, rfl⟩
    · exact ⟨.char '+', _, rfl⟩
  have hundigit : Undigit (exponentText (point - 1) ++ x) := by
    obtain ⟨sign, rest, hmark⟩ := hmark
    rw [hmark]
    exact undigit_cons rfl _
  have hread : fraction? (match Text.ofChars ds with
      | [] => exponentText (point - 1) ++ x
      | rest => .char '.' :: (rest ++ (exponentText (point - 1) ++ x))) =
        some (ds, exponentText (point - 1) ++ x) := by
    cases ds with
    | nil =>
      obtain ⟨sign, rest, hmark⟩ := hmark
      apply fraction?_none
      show (exponentText (point - 1) ++ x).head? ≠ _
      rw [hmark]
      simp
    | cons d ds => exact fraction?_point hrest (List.cons_ne_nil d ds) hundigit
  have hexponent : (point - 1 - ds.length : ℤ) = power := by
    rw [hpoint, hdigits, List.length_cons]
    push_cast
    ring
  have hvalue : natOf ([c] ++ ds) = n := by
    rw [← natOf_toDigits n, hdigits]
    rfl
  -- the power moves by the digits that the point was moved over
  refine ⟨n, power, hn, rfl, ?_⟩
  have hnumber := number?_eq negative hfirst rfl ?_ hread
    (exponent?_exponentText (point - 1) hx)
  · rw [numberOf, hvalue, hexponent] at hnumber
    rw [← hnumber]
    cases ds <;> simp [Text.ofChars]
  · cases ds with
    | nil => exact hundigit
    | cons d ds => exact undigit_cons rfl _

theorem writes_place (hn : 0 < n) (power : ℤ) :
    Writes n power (layout.place (Text.ofNat n) ((Text.ofNat n).length + power)) := by
  rw [Text.ofNat, ofChars_length]
  generalize hpoint : ((Nat.toDigits 10 n).length : ℤ) + power = point
  unfold Layout.place
  by_cases hpositional : layout.lowest ≤ point ∧ point ≤ layout.highest
  · rw [if_pos hpositional]
    by_cases hnonpos : point ≤ 0
    · rw [if_pos hnonpos]
      exact writes_of_nonpos hn hpoint.symm hnonpos
    rw [if_neg hnonpos]
    have htake : (Text.ofChars (Nat.toDigits 10 n)).take point.toNat =
        Text.ofChars ((Nat.toDigits 10 n).take point.toNat) := (List.map_take ..).symm
    have hdrop : (Text.ofChars (Nat.toDigits 10 n)).drop point.toNat =
        Text.ofChars ((Nat.toDigits 10 n).drop point.toNat) := (List.map_drop ..).symm
    simp only [htake, hdrop, ofChars_length, List.length_take]
    by_cases hinside : point.toNat < (Nat.toDigits 10 n).length
    · have hne : Text.ofChars ((Nat.toDigits 10 n).drop point.toNat) ≠ [] := by
        simpa [Text.ofChars] using hinside
      rw [if_neg hne, min_eq_left hinside.le, Nat.sub_self]
      simpa [zeros] using writes_of_inside hpoint.symm hn (not_le.mp hnonpos) hinside
    · rw [List.drop_eq_nil_of_le (not_lt.mp hinside), List.take_of_length_le (not_lt.mp hinside),
        min_eq_right (not_lt.mp hinside), show Text.ofChars [] = [] from rfl, if_pos rfl, zeros_eq,
        zeros_eq, ← ofChars_append]
      exact writes_of_beyond hpoint.symm hn (not_lt.mp hinside) (not_le.mp hnonpos)
  · rw [if_neg hpositional]
    cases h : Nat.toDigits 10 n with
    | nil => exact absurd h Nat.toDigits_ne_nil
    | cons c ds =>
      have hwrites := writes_of_exponent h hn hpoint.symm
      cases ds with
      | nil => exact hwrites
      | cons d ds => exact hwrites

/-- A finite number is read back from its text. -/
theorem number?_text {m : ℕ} {e : ℤ} (hcanonical : Canonical m e) (negative : Bool)
    (hx : Ended x) :
    number? (Binary64.text (.finite negative m e) ++ x) =
      some (.float (.finite negative m e), x) := by
  rcases Nat.eq_zero_or_pos m with rfl | hm
  · obtain rfl : e = Binary64.leastExponent := by
      cases hcanonical with
      | normal hlow _ _ _ => exact absurd hlow (by norm_num)
      | subnormal _ => rfl
    have hread := number?_point negative (allDigits_replicate 1) rfl (allDigits_replicate 1)
      (by simp) hx
    rw [natOf_append_replicate] at hread
    rw [Binary64.text, List.append_assoc]
    exact hread
  · obtain ⟨n', power', hn', hvalue, hread⟩ :=
      writes_place (Binary64.shortest_pos hcanonical hm) (shortest m e).2 negative x hx
    have hnear := Binary64.near_shortest hcanonical hm
    rw [← hvalue] at hnear
    rw [Binary64.ofDecimal_of_near hn' hcanonical hm hnear] at hread
    obtain ⟨k, rfl⟩ : ∃ k, m = k + 1 := ⟨m - 1, by omega⟩
    rw [Binary64.text, List.append_assoc]
    · exact hread
    · exact Nat.succ_ne_zero k

end Paddock.Json
