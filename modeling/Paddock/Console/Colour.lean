import Paddock.Binary64.Basic
import Paddock.Console.ColourNames
import Paddock.Numeral
import Paddock.Text.Lowercase

/-!
# Colours

A colour is the terminal's own, one of a palette of 256, or a mixture. Where a terminal has fewer
colours it gets the nearest of those that it has (`Mixture.distance_nearestStandard_le`), and
`Colour.shown_idem` says that this settles a colour for good.
-/

namespace Paddock

set_option autoImplicit false

structure Mixture where
  red : Fin 256
  green : Fin 256
  blue : Fin 256
deriving DecidableEq, Repr

inductive Colour where
  /-- The terminal's own. -/
  | own
  | numbered (n : Fin 256)
  | mixed (m : Mixture)
deriving DecidableEq, Repr

inductive Depth where
  /-- The first sixteen of the palette. -/
  | standard
  | palette
  | full
deriving DecidableEq, Repr

namespace Mixture

def standard : List Mixture :=
  [⟨0, 0, 0⟩, ⟨170, 0, 0⟩, ⟨0, 170, 0⟩, ⟨170, 85, 0⟩, ⟨0, 0, 170⟩, ⟨170, 0, 170⟩, ⟨0, 170, 170⟩,
    ⟨170, 170, 170⟩, ⟨85, 85, 85⟩, ⟨255, 85, 85⟩, ⟨85, 255, 85⟩, ⟨255, 255, 85⟩, ⟨85, 85, 255⟩,
    ⟨255, 85, 255⟩, ⟨85, 255, 255⟩, ⟨255, 255, 255⟩]

/-- The strength of red, green or blue in a cube of six by six by six colours. -/
def cubeLevel (k : Nat) : Fin 256 := if k = 0 then 0 else .ofNat 256 (55 + 40 * k)

/-- The palette beyond the standard colours: the cube, then 24 shades of grey. -/
def ofPalette (n : Fin 256) : Mixture :=
  if n.val < 16 then standard.getD n.val ⟨0, 0, 0⟩
  else if n.val < 232 then
    let k := n.val - 16
    ⟨cubeLevel (k / 36), cubeLevel (k / 6 % 6), cubeLevel (k % 6)⟩
  else
    let grey := Fin.ofNat 256 (8 + 10 * (n.val - 232))
    ⟨grey, grey, grey⟩

/-- How far two colours are apart to the eye, squared: red counts more among bright reds, blue
among dark ones. -/
def distance (a b : Mixture) : Nat :=
  let mean := (a.red.val + b.red.val) / 2
  let square (x y : Fin 256) : Nat := Nat.pow (max x.val y.val - min x.val y.val) 2
  (512 + mean) * square a.red b.red / 256 + 4 * square a.green b.green +
    (767 - mean) * square a.blue b.blue / 256

/-- The first position among `colours` that no other colour is nearer than. -/
def nearest (colours : List Mixture) (m : Mixture) : Nat :=
  let distances := colours.map m.distance
  distances.idxOf (distances.min?.getD 0)

/-- Some colour has the chosen position, and none is nearer. -/
theorem nearest_prop {colours : List Mixture} (hne : colours ≠ []) (m : Mixture) :
    ∃ h : m.nearest colours < colours.length,
      ∀ c ∈ colours, m.distance colours[m.nearest colours] ≤ m.distance c := by
  cases hm : (colours.map m.distance).min? with
  | none => simp [hne] at hm
  | some least =>
    have hn : m.nearest colours = (colours.map m.distance).idxOf least := by simp [nearest, hm]
    have hlt := List.idxOf_lt_length_of_mem (List.min?_mem hm)
    have hget := List.getElem_idxOf hlt
    rw [List.getElem_map] at hget
    refine ⟨by simpa [hn] using hlt, fun c hc => ?_⟩
    simp only [hn, hget]
    exact (List.min?_eq_some_iff.mp hm).2 _ (List.mem_map_of_mem hc)

def nearestStandard (m : Mixture) : Fin 256 := .ofNat 256 (m.nearest standard)

theorem val_nearestStandard (m : Mixture) : m.nearestStandard.val = m.nearest standard := by
  obtain ⟨h, -⟩ := nearest_prop (show standard ≠ [] by simp [standard]) m
  have hl : standard.length = 16 := rfl
  exact Nat.mod_eq_of_lt (by omega)

theorem nearestStandard_lt (m : Mixture) : m.nearestStandard.val < 16 := by
  rw [val_nearestStandard]
  exact (nearest_prop (by simp [standard]) m).1

/-- No standard colour is nearer than the one that is chosen. -/
theorem distance_nearestStandard_le (m : Mixture) {c : Mixture} (hc : c ∈ standard) :
    m.distance (ofPalette m.nearestStandard) ≤ m.distance c := by
  obtain ⟨h, hle⟩ := nearest_prop (List.ne_nil_of_mem hc) m
  have hp : ofPalette m.nearestStandard = standard[m.nearest standard] := by
    rw [ofPalette, if_pos m.nearestStandard_lt]
    simp [val_nearestStandard, h]
  rw [hp]
  exact hle c hc

def strongest (m : Mixture) : Nat := max m.red.val (max m.green.val m.blue.val)

def weakest (m : Mixture) : Nat := min m.red.val (min m.green.val m.blue.val)

/-- The saturation, between zero and one. -/
def saturation (m : Mixture) : Float :=
  let high := m.strongest.toFloat / 255
  let low := m.weakest.toFloat / 255
  if high == low then 0
  else if (high + low) / 2 ≤ 0.5 then (high - low) / (high + low)
  else (high - low) / (2 - high - low)

/-- The number in the palette: a grey shade for a colour of little saturation, else the nearest
point of the cube. -/
def inPalette (m : Mixture) : Fin 256 :=
  if m.saturation < 0.15 then
    match Binary64.roundDiv (25 * (m.strongest + m.weakest)) 510 with
    | 0 => 16
    | 25 => 231
    | grey => .ofNat 256 (231 + grey)
  else
    let level (x : Fin 256) : Nat :=
      if x.val < 95 then Binary64.roundDiv x.val 95 else Binary64.roundDiv (x.val - 55) 40
    .ofNat 256 (16 + 36 * level m.red + 6 * level m.green + level m.blue)

end Mixture

namespace Colour

def shown (depth : Depth) : Colour → Colour
  | own => own
  | numbered n =>
    if depth = .standard ∧ 16 ≤ n.val then numbered (Mixture.ofPalette n).nearestStandard
    else numbered n
  | mixed m =>
    match depth with
    | .standard => numbered m.nearestStandard
    | .palette => numbered m.inPalette
    | .full => mixed m

/-- The codes of a colour; `base` is 30 for text and 40 for its ground. -/
def codes (base : Nat) : Colour → List Nat
  | own => [base + 9]
  | numbered n =>
    if n.val < 8 then [base + n.val]
    else if n.val < 16 then [base + 52 + n.val]
    else [base + 8, 5, n.val]
  | mixed m => [base + 8, 2, m.red.val, m.green.val, m.blue.val]

def byte? (n : Nat) : Option (Fin 256) := if h : n < 256 then some ⟨n, h⟩ else none

def mixture? : List Nat → Option Colour
  | [red, green, blue] => do some (mixed ⟨← byte? red, ← byte? green, ← byte? blue⟩)
  | _ => none

def hexDigit? (g : Glyph) : Option Nat :=
  if 48 ≤ g.code ∧ g.code ≤ 57 then some (g.code - 48)
  else if 97 ≤ g.code ∧ g.code ≤ 102 then some (g.code - 87)
  else none

/-- Six hexadecimal digits after a number sign. -/
def ofHex? (word : Text) : Option Colour :=
  match Text.dropFront? (Text.ofString "#") word with
  | none => none
  | some digits =>
    match digits.mapM hexDigit? with
    | some [a, b, c, d, e, f] => mixture? [16 * a + b, 16 * c + d, 16 * e + f]
    | _ => none

def enclosed? (front word : Text) : Option Text :=
  match Text.dropFront? (front ++ [.char '(']) word with
  | none => none
  | some inner => if inner.getLast? = some (.char ')') then some inner.dropLast else none

/-- A number of the palette, with at most three digits. -/
def ofNumber? (word : Text) : Option Colour := do
  let inner ← enclosed? (Text.ofString "color") word
  if inner = [] ∨ 3 < inner.length ∨ inner.any fun g => g.code < 48 || 57 < g.code then none
  else some (numbered (← byte? (Text.valueOf (← Text.digits? inner))))

/-- Red, green and blue between commas. A component that is left out is a fault, not just no
colour. -/
def ofComponents (word : Text) : Except Fault (Option Colour) :=
  match enclosed? (Text.ofString "rgb") word with
  | none => .ok none
  | some inner =>
    let comma : Glyph := .char ','
    let parts := Text.splitAt comma inner
    if (inner.all fun g => g == comma || g.isDecimal) && parts.length == 3 then do
      .ok (mixture? (← parts.mapM Numeral.read))
    else .ok none

def named? (word : Text) : Option Colour :=
  if word = Text.ofString "default" then some own
  else
    (colourNames.find? fun entry => Text.ofString entry.1 == word).map fun entry =>
      numbered entry.2

def ofText (word : Text) : Except Fault (Option Colour) :=
  let word := Text.lower word
  match ((named? word).or (ofHex? word)).or (ofNumber? word) with
  | some colour => .ok (some colour)
  | none => ofComponents word

/-- A colour that a terminal has already is shown as it is. -/
theorem shown_idem (depth : Depth) (c : Colour) :
    (c.shown depth).shown depth = c.shown depth := by
  have h (m : Mixture) : ¬ 16 ≤ m.nearestStandard.val := by
    have := m.nearestStandard_lt
    omega
  cases c with
  | own => rfl
  | numbered n =>
    by_cases hn : depth = .standard ∧ 16 ≤ n.val
    · simp [shown, hn, h]
    · simp only [shown, if_neg hn]
  | mixed m => cases depth <;> simp [shown, h]

end Colour

end Paddock
