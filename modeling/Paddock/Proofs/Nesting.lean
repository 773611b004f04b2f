import Paddock.Proofs.Forms
import Paddock.Proofs.Numerals
import Paddock.Proofs.Strings

/-!
# Values within documents

What a text is read as does not depend on what follows it, as long as that does not go on a number.
The texts of arrays and objects are put together from those of what they hold; if one of these is
not read, neither is the whole.
-/

namespace Paddock

set_option autoImplicit false

def Binary64.isFinite : Binary64 → Bool
  | .finite .. => true
  | _ => false

namespace Json

variable {wide ok restOk : Bool} {x y gap : Text} {v : Value} {g : Glyph}

def IsGap (x : Text) : Prop := ∀ g ∈ x, isBlank g = true

theorem skipBlank_append (hgap : IsGap gap) (x : Text) : skipBlank (gap ++ x) = skipBlank x :=
  List.dropWhile_append_of_pos hgap

theorem skipBlank_cons (hg : isBlank g = false) (x : Text) : skipBlank (g :: x) = g :: x := by
  rw [skipBlank, List.dropWhile_cons_of_neg (by simp [hg])]

theorem ended_gap_append (hgap : IsGap gap) (hx : Ended x) : Ended (gap ++ x) := by
  cases gap with
  | nil => exact hx
  | cons g gap =>
    apply ended_cons
    have hg : isBlank g = true := hgap g List.mem_cons_self
    simp only [isBlank, Bool.or_eq_true, beq_iff_eq] at hg
    rcases hg with ((rfl | rfl) | rfl) | rfl <;> rfl

theorem value?_gap (hgap : IsGap gap) (wide : Bool) (fuel : ℕ) (x : Text) :
    value? wide fuel (gap ++ x) = value? wide fuel x := by
  cases fuel with
  | zero => rfl
  | succ fuel => simp only [value?, skipBlank_append hgap]

theorem members?_gap (hgap : IsGap gap) (wide : Bool) (fuel : ℕ) (x : Text) :
    members? wide fuel (gap ++ x) = members? wide fuel x := by
  cases fuel with
  | zero => rfl
  | succ fuel => simp only [members?, skipBlank_append hgap]

/-- A text begins with something that does not close an array or an object. -/
def Begins (x : Text) : Prop :=
  ∃ g y, skipBlank x = g :: y ∧ g ≠ .char ']' ∧ g ≠ .char '\x7d'

theorem begins_cons (hblank : isBlank g = false) (harray : g ≠ .char ']')
    (hobject : g ≠ .char '\x7d') (x : Text) : Begins (g :: x) :=
  ⟨g, x, skipBlank_cons hblank x, harray, hobject⟩

theorem Begins.gap_append (hgap : IsGap gap) (h : Begins x) : Begins (gap ++ x) := by
  unfold Begins
  rwa [skipBlank_append hgap]

theorem Begins.append (h : Begins x) (y : Text) : Begins (x ++ y) := by
  obtain ⟨g, rest, hx, hg⟩ := h
  refine ⟨g, rest ++ y, ?_, hg⟩
  unfold skipBlank at hx ⊢
  rw [List.dropWhile_append, hx]
  rfl

theorem Begins.not_marked (h : Begins x) :
    (marked ']' (skipBlank x)).1 = false ∧ (marked '\x7d' (skipBlank x)).1 = false := by
  obtain ⟨g, rest, hx, harray, hobject⟩ := h
  rw [hx]
  simp [marked, harray, hobject]

/-- A text is read as the value if `ok`, and otherwise not at all. -/
structure Reads (wide : Bool) (x : Text) (ok : Bool) (v : Value) : Prop where
  begins : Begins x
  reads : ∀ fuel rest, 2 * x.length + 1 ≤ fuel → Ended rest →
    value? wide fuel (x ++ rest) = if ok then some (v, rest) else none

structure ItemsRead (wide : Bool) (x : Text) (ok : Bool) (items : List Value) : Prop where
  begins : Begins x
  reads : ∀ fuel rest, 2 * x.length + 2 ≤ fuel →
    items? wide fuel (x ++ rest) = if ok then some (items, rest) else none

structure MembersRead (wide : Bool) (x : Text) (ok : Bool) (members : List (Text × Value)) :
    Prop where
  begins : Begins x
  reads : ∀ fuel rest, 2 * x.length + 2 ≤ fuel →
    members? wide fuel (x ++ rest) = if ok then some (members, rest) else none

theorem Reads.gap_append (hgap : IsGap gap) (h : Reads wide x ok v) :
    Reads wide (gap ++ x) ok v where
  begins := h.begins.gap_append hgap
  reads fuel rest hfuel hrest := by
    rw [List.length_append] at hfuel
    rw [List.append_assoc, value?_gap hgap]
    exact h.reads fuel rest (by omega) hrest

/-- No name begins a number. -/
theorem number?_of_named? {r : Value × Text} (h : named? wide x = some r) : number? x = none := by
  obtain ⟨⟨name, value⟩, hmem, hfound⟩ := List.exists_of_findSome?_eq_some h
  obtain ⟨rest, hdrop, -⟩ := Option.map_eq_some_iff.mp hfound
  have hname : (name, value) ∈ names ++ wideNames := by
    cases wide with
    | true => exact hmem
    | false => exact List.mem_append_left wideNames (by simpa using hmem)
  rw [Text.eq_append_of_dropFront? hdrop]
  simp only [names, wideNames, List.cons_append, List.nil_append, List.mem_cons, Prod.mk.injEq,
    List.not_mem_nil, or_false] at hname
  rcases hname with ⟨rfl, -⟩ | ⟨rfl, -⟩ | ⟨rfl, -⟩ | ⟨rfl, -⟩ | ⟨rfl, -⟩ | ⟨rfl, -⟩ <;> rfl

theorem scalar?_of_number? {r : Value × Text} (h : number? x = some r) (wide : Bool) :
    scalar? wide x = some r := by
  have hname : named? wide x = none := by
    by_contra hname
    obtain ⟨found, hfound⟩ := Option.ne_none_iff_exists'.mp hname
    rw [number?_of_named? hfound] at h
    exact absurd h (by simp)
  rw [scalar?, hname]
  exact h

def delimiters : List Glyph :=
  [.char ' ', .char '\t', .char '\n', .char '\r', quote, .char '[', .char ']', .char '\x7b',
    .char '\x7d']

theorem scalar?_delimiter (hg : g ∈ delimiters) (wide : Bool) (x : Text) :
    scalar? wide (g :: x) = none := by
  simp only [delimiters, List.mem_cons, List.not_mem_nil, or_false] at hg
  rcases hg with rfl | rfl | rfl | rfl | rfl | rfl | rfl | rfl | rfl <;> cases wide <;> rfl

theorem not_delimiter_of_scalar? {r : Value × Text} (h : scalar? wide x = some r) :
    ∃ g y, x = g :: y ∧ g ∉ delimiters := by
  cases x with
  | nil => cases wide <;> exact nomatch h
  | cons g y =>
    refine ⟨g, y, rfl, fun hg => ?_⟩
    rw [scalar?_delimiter hg] at h
    exact nomatch h

theorem isBlank_of_not_delimiter (hg : g ∉ delimiters) : isBlank g = false := by
  simp only [delimiters, List.mem_cons, not_or] at hg
  simp [isBlank, hg]

theorem value?_of_not_delimiter (hg : g ∉ delimiters) (wide : Bool) (fuel : ℕ) (x : Text) :
    value? wide (fuel + 1) (g :: x) = scalar? wide (g :: x) := by
  have hblank := isBlank_of_not_delimiter hg
  simp only [delimiters, List.mem_cons, not_or] at hg
  obtain ⟨-, -, -, -, hquote, hopen, -, hbrace, -⟩ := hg
  simp only [value?, skipBlank_cons hblank, if_neg hquote, if_neg hopen, if_neg hbrace]

theorem begins_of_not_delimiter (hg : g ∉ delimiters) (x : Text) : Begins (g :: x) := by
  apply begins_cons (isBlank_of_not_delimiter hg)
  · rintro rfl
    exact hg (by decide)
  · rintro rfl
    exact hg (by decide)

theorem reads_of_scalar? (h : ∀ rest, Ended rest → scalar? wide (x ++ rest) = some (v, rest)) :
    Reads wide x true v where
  begins := by
    obtain ⟨g, y, hx, hg⟩ := not_delimiter_of_scalar? (h [] ended_nil)
    rw [List.append_nil] at hx
    rw [hx]
    exact begins_of_not_delimiter hg y
  reads fuel rest hfuel hrest := by
    obtain ⟨fuel, rfl⟩ : ∃ k, fuel = k + 1 := ⟨fuel - 1, by omega⟩
    obtain ⟨g, y, hx, hg⟩ := not_delimiter_of_scalar? (h rest hrest)
    rw [hx, value?_of_not_delimiter hg, ← hx]
    exact h rest hrest

theorem reads_null (wide : Bool) : Reads wide "null" true .null :=
  reads_of_scalar? fun _ _ => by cases wide <;> rfl

theorem reads_bool (wide b : Bool) :
    Reads wide (if b then ("true" : Text) else "false") true (.bool b) :=
  reads_of_scalar? fun _ _ => by cases wide <;> cases b <;> rfl

theorem reads_int (wide : Bool) (n : ℤ) : Reads wide (Text.ofInt n) true (.int n) :=
  reads_of_scalar? fun _ hrest => scalar?_of_number? (number?_ofInt n hrest) wide

/-- The names of floats that are not finite are known to the wide reader alone. -/
theorem reads_float {f : Binary64} (hf : f.IsCanonical) (wide : Bool) :
    Reads wide (floatText f) (wide || f.isFinite) (.float f) := by
  have hrefused {x : Text} (hx : Begins x) (h : ∀ fuel rest, value? false (fuel + 1) (x ++ rest) =
      none) : Reads false x false (.float f) := by
    refine ⟨hx, fun fuel rest hfuel _ => ?_⟩
    obtain ⟨fuel, rfl⟩ : ∃ k, fuel = k + 1 := ⟨fuel - 1, by omega⟩
    exact h fuel rest
  cases f with
  | finite negative m e =>
    rw [Binary64.isFinite, Bool.or_true]
    exact reads_of_scalar? fun _ hrest => scalar?_of_number? (number?_text hf negative hrest) wide
  | infinite negative =>
    cases wide with
    | true => exact reads_of_scalar? fun _ _ => by cases negative <;> rfl
    | false =>
      cases negative with
      | true => exact hrefused (begins_of_not_delimiter (by decide) _) fun _ _ => rfl
      | false => exact hrefused (begins_of_not_delimiter (by decide) _) fun _ _ => rfl
  | nan =>
    cases wide with
    | true => exact reads_of_scalar? fun _ _ => rfl
    | false => exact hrefused (begins_of_not_delimiter (by decide) _) fun _ _ => rfl

theorem stringText_append (s x : Text) :
    stringText s ++ x = quote :: (s.flatMap escaped ++ quote :: x) := by
  simp [stringText, quote]

theorem begins_stringText (s x : Text) : Begins (stringText s ++ x) := by
  rw [stringText_append]
  exact begins_cons rfl (by decide) (by decide) _

theorem reads_text (wide : Bool) (s : Text) : Reads wide (stringText s) true (.text s) where
  begins := by simpa using begins_stringText s []
  reads fuel rest hfuel _ := by
    obtain ⟨fuel, rfl⟩ : ∃ k, fuel = k + 1 := ⟨fuel - 1, by omega⟩
    have hskip (x : Text) : skipBlank (quote :: x) = quote :: x := skipBlank_cons rfl x
    rw [stringText_append]
    simp only [value?, hskip, string?_escaped, if_true, Option.map_some]

section Following

variable {α : Type} {closing : Char}

theorem following?_closing (hgap : IsGap gap) (hblank : isBlank (.char closing) = false)
    (hcomma : closing ≠ ',') (more : Text → Option (List α × Text)) (first : α) (x : Text) :
    following? closing more first (gap ++ .char closing :: x) = some ([first], x) := by
  have hne : Glyph.char closing ≠ .char ',' := fun h => hcomma (Glyph.char.inj h)
  rw [following?, skipBlank_append hgap, skipBlank_cons hblank]
  simp only [if_neg hne, if_true]

theorem following?_comma (closing : Char) (more : Text → Option (List α × Text)) (first : α)
    (x : Text) :
    following? closing more first (.char ',' :: x) =
      (more x).map fun (items, x) => (first :: items, x) := by
  rw [following?, skipBlank_cons rfl]
  simp only [if_true]

end Following

theorem itemsRead_singleton (h : Reads wide x ok v) (hgap : IsGap gap) :
    ItemsRead wide (x ++ (gap ++ [.char ']'])) ok [v] where
  begins := h.begins.append _
  reads fuel rest hfuel := by
    obtain ⟨fuel, rfl⟩ : ∃ k, fuel = k + 1 := ⟨fuel - 1, by omega⟩
    rw [List.length_append] at hfuel
    have hread := h.reads fuel (gap ++ .char ']' :: rest) (by omega)
      (ended_gap_append hgap (ended_cons rfl rest))
    simp only [List.append_assoc, List.singleton_append, items?, hread]
    cases ok with
    | false => rfl
    | true => exact following?_closing hgap rfl (by decide) _ v rest

theorem itemsRead_cons {items : List Value} (h : Reads wide x ok v)
    (hrest : ItemsRead wide y restOk items) :
    ItemsRead wide (x ++ .char ',' :: y) (ok && restOk) (v :: items) where
  begins := h.begins.append _
  reads fuel rest hfuel := by
    obtain ⟨fuel, rfl⟩ : ∃ k, fuel = k + 1 := ⟨fuel - 1, by omega⟩
    rw [List.length_append, List.length_cons] at hfuel
    have hread := h.reads fuel (.char ',' :: (y ++ rest)) (by omega) (ended_cons rfl _)
    simp only [List.append_assoc, List.cons_append, items?, hread]
    cases ok with
    | false => rfl
    | true =>
      refine (following?_comma ']' _ v (y ++ rest)).trans ?_
      rw [hrest.reads fuel rest (by omega)]
      cases restOk <;> rfl

theorem reads_array_nil (wide : Bool) : Reads wide [.char '[', .char ']'] true (.array []) where
  begins := begins_cons rfl (by decide) (by decide) _
  reads fuel rest hfuel _ := by
    obtain ⟨fuel, rfl⟩ : ∃ k, fuel = k + 1 := ⟨fuel - 1, by omega⟩
    rfl

theorem reads_array {items : List Value} (hitems : ItemsRead wide x ok items) :
    Reads wide (.char '[' :: x) ok (.array items) where
  begins := begins_cons rfl (by decide) (by decide) _
  reads fuel rest hfuel _ := by
    obtain ⟨fuel, rfl⟩ : ∃ k, fuel = k + 1 := ⟨fuel - 1, by omega⟩
    have hskip : skipBlank (.char '[' :: (x ++ rest)) = .char '[' :: (x ++ rest) :=
      skipBlank_cons rfl _
    have hquote : Glyph.char '[' ≠ quote := by decide
    have hclosing := (hitems.begins.append rest).not_marked.1
    rw [List.length_cons] at hfuel
    have hread := hitems.reads fuel rest (by omega)
    simp only [List.cons_append, value?, hskip, if_neg hquote, if_true, hclosing,
      Bool.false_eq_true, if_false, hread]
    cases ok <;> rfl

theorem begins_keyText (key x : Text) : Begins (keyText key ++ x) := by
  rw [keyText, List.append_assoc]
  exact begins_stringText key _

theorem members?_key (wide : Bool) (fuel : ℕ) (key x : Text) :
    members? wide (fuel + 1) (keyText key ++ x) = (value? wide fuel x).bind fun r =>
      following? '\x7d' (fun x => members? wide fuel x) (key, r.1) r.2 := by
  have hskip (x : Text) : skipBlank (quote :: x) = quote :: x := skipBlank_cons rfl x
  have hquote (x : Text) : marked '"' (quote :: x) = (true, x) := marked_cons '"' x
  have hcolon : skipBlank (Text.ofString ": " ++ x) = .char ':' :: (Text.ofString " " ++ x) := rfl
  have hspace : value? wide fuel (Text.ofString " " ++ x) = value? wide fuel x :=
    value?_gap (by simp [IsGap, Text.ofString, Text.ofChars, isBlank]) wide fuel x
  rw [keyText, List.append_assoc, stringText_append]
  simp only [members?, hskip, hquote, if_true, string?_escaped, Option.bind_eq_bind,
    Option.bind_some, hcolon, marked_cons, hspace]

theorem membersRead_singleton (hgap : IsGap gap) (key : Text) (h : Reads wide x ok v)
    {gap' : Text} (hgap' : IsGap gap') :
    MembersRead wide (gap ++ keyText key ++ x ++ (gap' ++ [.char '\x7d'])) ok [(key, v)] where
  begins := by
    simp only [List.append_assoc]
    exact (begins_keyText key _).gap_append hgap
  reads fuel rest hfuel := by
    obtain ⟨fuel, rfl⟩ : ∃ k, fuel = k + 1 := ⟨fuel - 1, by omega⟩
    simp only [List.length_append] at hfuel
    have hread := h.reads fuel (gap' ++ .char '\x7d' :: rest) (by omega)
      (ended_gap_append hgap' (ended_cons rfl rest))
    simp only [List.append_assoc, List.singleton_append]
    rw [members?_gap hgap, members?_key, hread]
    cases ok with
    | false => rfl
    | true => exact following?_closing hgap' rfl (by decide) _ (key, v) rest

theorem membersRead_cons (hgap : IsGap gap) (key : Text) {members : List (Text × Value)}
    (h : Reads wide x ok v) (hrest : MembersRead wide y restOk members) :
    MembersRead wide (gap ++ keyText key ++ x ++ .char ',' :: y) (ok && restOk)
      ((key, v) :: members) where
  begins := by
    simp only [List.append_assoc]
    exact (begins_keyText key _).gap_append hgap
  reads fuel rest hfuel := by
    obtain ⟨fuel, rfl⟩ : ∃ k, fuel = k + 1 := ⟨fuel - 1, by omega⟩
    simp only [List.length_append, List.length_cons] at hfuel
    have hread := h.reads fuel (.char ',' :: (y ++ rest)) (by omega) (ended_cons rfl _)
    simp only [List.append_assoc, List.cons_append]
    rw [members?_gap hgap, members?_key, hread]
    cases ok with
    | false => rfl
    | true =>
      refine (following?_comma '\x7d' _ (key, v) (y ++ rest)).trans ?_
      rw [hrest.reads fuel rest (by omega)]
      cases restOk <;> rfl

theorem reads_table_nil (wide : Bool) :
    Reads wide [.char '\x7b', .char '\x7d'] true (.table []) where
  begins := begins_cons rfl (by decide) (by decide) _
  reads fuel rest hfuel _ := by
    obtain ⟨fuel, rfl⟩ : ∃ k, fuel = k + 1 := ⟨fuel - 1, by omega⟩
    rfl

theorem reads_table {members : List (Text × Value)} (hmembers : MembersRead wide x ok members) :
    Reads wide (.char '\x7b' :: x) ok (.table (Fields.ofList members)) where
  begins := begins_cons rfl (by decide) (by decide) _
  reads fuel rest hfuel _ := by
    obtain ⟨fuel, rfl⟩ : ∃ k, fuel = k + 1 := ⟨fuel - 1, by omega⟩
    have hskip : skipBlank (.char '\x7b' :: (x ++ rest)) = .char '\x7b' :: (x ++ rest) :=
      skipBlank_cons rfl _
    have hquote : Glyph.char '\x7b' ≠ quote := by decide
    have hopen : Glyph.char '\x7b' ≠ .char '[' := by decide
    have hclosing := (hmembers.begins.append rest).not_marked.2
    rw [List.length_cons] at hfuel
    have hread := hmembers.reads fuel rest (by omega)
    simp only [List.cons_append, value?, hskip, if_neg hquote, if_neg hopen, if_true, hclosing,
      Bool.false_eq_true, if_false, hread]
    cases ok <;> rfl

end Json

end Paddock
