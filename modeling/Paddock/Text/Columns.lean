import Paddock.Text.Glyph
import Paddock.Text.WidthSpans

/-!
# Columns

How many columns of a terminal a text takes, and where its tabs end. A joiner takes the glyph after
it into the one before, and a selector gives the last measured glyph its wide emoji form. A tab
takes one column and fills up to the next stop: `columns_padToStop` says that what ends in a tab
takes whole stops.
-/

namespace Paddock

set_option autoImplicit false

def Glyph.columns (g : Glyph) : Nat :=
  if zeroWidthSpans.contains g.code then 0
  else if wideSpans.contains g.code then 2
  else 1

def Glyph.joiner : Glyph := .char '\u200d'

def Glyph.emojiSelector : Glyph := .char '\ufe0f'

/-- The columns of a text that is read glyph by glyph. -/
structure Measure where
  columns : Nat := 0
  /-- The last glyph that took columns, unless a selector came since. -/
  last : Option Glyph := none
  /-- Whether a joiner came just before. -/
  joined : Bool := false
deriving DecidableEq, Repr

def Measure.add (m : Measure) (g : Glyph) : Measure :=
  if m.joined then { m with joined := false }
  else if g = .joiner then { m with joined := true }
  else if g = .emojiSelector then
    match m.last with
    | some l =>
      { m with
        columns := m.columns + if emojiFormSpans.contains l.code then 1 else 0
        last := none }
    | none => m
  else if g.columns = 0 then m
  else { m with columns := m.columns + g.columns, last := some g }

namespace Text

def measure (x : Text) : Measure := x.foldl Measure.add {}

def columns (x : Text) : Nat := (measure x).columns

def tab : Glyph := .char '\t'

def tabStop : Nat := 8

/-- A text and the tab after it, as spaces up to the next stop. -/
def padToStop (x : Text) : Text :=
  let ended := x ++ [space]
  ended ++ List.replicate ((tabStop - columns ended % tabStop) % tabStop) space

/-- The pieces of a line that its tabs end, each with its tab as spaces, and the rest. -/
def tabPieces (line : Text) : List Text :=
  let pieces := splitAt tab line
  (pieces.dropLast.map padToStop ++ pieces.drop (pieces.length - 1)).filter (· ≠ [])

theorem columns_space : space.columns = 1 := by decide

/-- A space takes one column unless a joiner stands before it, and ends what the joiner joins. -/
theorem add_space (m : Measure) :
    m.add space = if m.joined then { m with joined := false }
      else { m with columns := m.columns + 1, last := some space } := by
  have hj : space ≠ Glyph.joiner := by decide
  have hs : space ≠ Glyph.emojiSelector := by decide
  by_cases h : m.joined <;> simp [Measure.add, h, hj, hs, columns_space]

theorem foldl_replicate_space (n : Nat) {m : Measure} (h : m.joined = false) :
    ((List.replicate n space).foldl Measure.add m).columns = m.columns + n := by
  induction n generalizing m with
  | zero => rfl
  | succ n ih =>
    rw [List.replicate_succ, List.foldl_cons, add_space, if_neg (by simp [h]), ih (by simp [h])]
    simp only
    omega

/-- What ends in a tab takes whole stops. -/
theorem columns_padToStop (x : Text) : columns (padToStop x) % tabStop = 0 := by
  have h : (measure (x ++ [space])).joined = false := by
    simp only [measure, List.foldl_append, List.foldl_cons, List.foldl_nil, add_space]
    split <;> simp_all
  have hc : columns (padToStop x) =
      columns (x ++ [space]) + (tabStop - columns (x ++ [space]) % tabStop) % tabStop := by
    simp only [columns, measure] at h ⊢
    rw [padToStop, List.foldl_append, foldl_replicate_space _ h]
    rfl
  rw [hc, tabStop]
  omega

end Text

end Paddock
