/-!
# Text

A text is a list of glyphs: Unicode scalar values, and the bytes that no UTF-8 sequence accounts
for. Program output and directory names may hold such bytes; they are kept, and written out again
as they came in. This module has the type, its order and the operations that need no table.
-/

namespace Paddock

set_option autoImplicit false

/-- One unit of text: a scalar value, or the byte `128 + low` taken out of ill-formed UTF-8. -/
inductive Glyph where
  | char (c : Char)
  | raw (low : Fin 128)
deriving DecidableEq, Repr, Inhabited

abbrev Text := List Glyph

namespace Glyph

/-- The number that orders glyphs. A raw byte stands among the low surrogates, which no scalar
value occupies. -/
def code : Glyph → Nat
  | char c => c.toNat
  | raw low => 0xDC80 + low

/-- A raw byte's code lies in the gap that scalar values leave. -/
theorem code_ne_of_char_raw (c : Char) (low : Fin 128) : (char c).code ≠ (raw low).code := by
  have h := c.valid
  simp only [code, Char.toNat, UInt32.isValidChar, Nat.isValidChar] at h ⊢
  have := low.isLt
  omega

theorem code_injective {a b : Glyph} (h : a.code = b.code) : a = b := by
  cases a with
  | char c =>
    cases b with
    | char d => exact congrArg char (Char.ext (UInt32.toNat_inj.mp h))
    | raw low => exact absurd h (code_ne_of_char_raw c low)
  | raw low =>
    cases b with
    | char d => exact absurd h.symm (code_ne_of_char_raw d low)
    | raw low' => exact congrArg raw (Fin.ext (Nat.add_left_cancel h))

end Glyph

namespace Text

instance decidableMem (x : Text) (xs : List Text) : Decidable (x ∈ xs) := inferInstance

def ofChars (cs : List Char) : Text := cs.map .char

def ofString (s : String) : Text := ofChars s.toList

instance : Coe String Text := ⟨ofString⟩

def ofNat (n : Nat) : Text := ofChars (Nat.toDigits 10 n)

def ofInt : Int → Text
  | .ofNat n => ofNat n
  | .negSucc n => .char '-' :: ofNat (n + 1)

def newline : Glyph := .char '\n'

def space : Glyph := .char ' '

def slash : Glyph := .char '/'

def le : Text → Text → Bool
  | [], _ => true
  | _ :: _, [] => false
  | a :: x, b :: y => a.code < b.code || (a.code == b.code && le x y)

/-- The texts of a list, ascending and each once. -/
def sortedSet (xs : List Text) : List Text := xs.eraseDups.mergeSort le

/-- The text without an opening `front`. -/
def dropFront? : (front x : Text) → Option Text
  | [], x => some x
  | _ :: _, [] => none
  | a :: front, b :: x => if a = b then dropFront? front x else none

theorem dropFront?_append (front x : Text) : dropFront? front (front ++ x) = some x := by
  induction front with
  | nil => rfl
  | cons a front ih => simp [dropFront?, ih]

theorem eq_append_of_dropFront? {front x rest : Text} (h : dropFront? front x = some rest) :
    x = front ++ rest := by
  induction front generalizing x with
  | nil => simpa [dropFront?] using h
  | cons a front ih =>
    cases x with
    | nil => simp [dropFront?] at h
    | cons b x =>
      by_cases hab : a = b
      · subst hab
        simp only [dropFront?, if_pos] at h
        simp [ih h]
      · simp [dropFront?, hab] at h

/-- `dropFront?` takes off a front exactly where the text opens with it. -/
theorem dropFront?_eq_some_iff {front x rest : Text} :
    dropFront? front x = some rest ↔ x = front ++ rest :=
  ⟨eq_append_of_dropFront?, fun h => h ▸ dropFront?_append front rest⟩

def startsWith (front x : Text) : Bool := (dropFront? front x).isSome

/-- The pieces between the glyphs that satisfy `p`; always at least one. -/
def splitWhere (p : Glyph → Bool) : Text → List Text
  | [] => [[]]
  | g :: rest =>
    if p g then [] :: splitWhere p rest
    else
      match splitWhere p rest with
      | [] => [[g]]
      | piece :: pieces => (g :: piece) :: pieces

theorem splitWhere_ne_nil (p : Glyph → Bool) (x : Text) : splitWhere p x ≠ [] := by
  cases x with
  | nil => simp [splitWhere]
  | cons g rest => simp only [splitWhere]; split <;> (try split) <;> simp

theorem splitWhere_eq_singleton {p : Glyph → Bool} {x : Text} (h : ∀ g ∈ x, p g = false) :
    splitWhere p x = [x] := by
  induction x with
  | nil => rfl
  | cons g rest ih =>
    simp [splitWhere, h g (by simp), ih fun g hg => h g (by simp [hg])]

/-- A separator cuts a text into two that are split apart from each other. -/
theorem splitWhere_append {p : Glyph → Bool} {g : Glyph} (hg : p g = true) (x y : Text) :
    splitWhere p (x ++ g :: y) = splitWhere p x ++ splitWhere p y := by
  induction x with
  | nil => simp [splitWhere, hg]
  | cons a x ih =>
    by_cases ha : p a = true
    · simp [splitWhere, ha, ih]
    · cases hx : splitWhere p x with
      | nil => exact absurd hx (splitWhere_ne_nil p x)
      | cons piece pieces => simp [splitWhere, ha, ih, hx]

theorem splitWhere_append_of_free {p : Glyph → Bool} {front : Text}
    (hfront : ∀ g ∈ front, p g = false) {x piece : Text} {pieces : List Text}
    (h : splitWhere p x = piece :: pieces) :
    splitWhere p (front ++ x) = (front ++ piece) :: pieces := by
  induction front with
  | nil => exact h
  | cons g front ih =>
    have hg : p g = false := hfront g List.mem_cons_self
    have hrest := ih fun a ha => hfront a (List.mem_cons_of_mem g ha)
    simp [splitWhere, hg, hrest]

def splitAt (separator : Glyph) (x : Text) : List Text := splitWhere (· == separator) x

theorem splitAt_append (separator : Glyph) (x y : Text) :
    splitAt separator (x ++ separator :: y) = splitAt separator x ++ splitAt separator y :=
  splitWhere_append (by simp) x y

theorem splitAt_eq_singleton {separator : Glyph} {x : Text} (h : separator ∉ x) :
    splitAt separator x = [x] := by
  apply splitWhere_eq_singleton
  intro g hg
  rw [beq_eq_false_iff_ne]
  rintro rfl
  exact h hg

/-- The pieces with `separator` between neighbours. -/
def joinWith (separator : Text) : List Text → Text
  | [] => []
  | [x] => x
  | x :: y :: rest => x ++ separator ++ joinWith separator (y :: rest)

/-- Splitting at a glyph loses nothing. -/
theorem joinWith_splitAt (separator : Glyph) (x : Text) :
    joinWith [separator] (splitAt separator x) = x := by
  induction x with
  | nil => rfl
  | cons g rest ih =>
    unfold splitAt at ih ⊢
    cases hs : splitWhere (· == separator) rest with
    | nil => exact absurd hs (splitWhere_ne_nil _ rest)
    | cons piece pieces =>
      rw [hs] at ih
      by_cases hg : g = separator
      · simp [splitWhere, hs, joinWith, hg, ih]
      · cases pieces <;> simp_all [splitWhere, joinWith]

def lines (x : Text) : List Text := splitAt newline x

def unlines (xs : List Text) : Text := joinWith [newline] xs

def words (xs : List Text) : Text := joinWith [space] xs

/-- The text with every carriage return, alone or before a line feed, made one line feed. -/
def plainNewlines : Text → Text
  | [] => []
  | .char '\r' :: .char '\n' :: rest => newline :: plainNewlines rest
  | g :: rest => (if g = .char '\r' then newline else g) :: plainNewlines rest

def padRight (width : Nat) (x : Text) : Text := x ++ List.replicate (width - x.length) space

end Text

end Paddock
