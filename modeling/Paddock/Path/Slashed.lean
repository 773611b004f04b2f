import Paddock.Text.Glyph

/-!
# Slash paths

Paths that are compared with the ones git prints are plain texts with `/` between components.
Normalising turns backslashes into slashes and drops the trailing ones; joining puts one slash
between segments and ignores empty ones. Only the first segment can make the result absolute.
-/

namespace Paddock.Path

set_option autoImplicit false

open Text (slash)

def isSlash (g : Glyph) : Bool := g == slash

def slashed (x : Text) : Text := x.map fun g => if g = .char '\\' then slash else g

def dropLeadingSlashes (x : Text) : Text := x.dropWhile isSlash

def dropTrailingSlashes (x : Text) : Text := (x.reverse.dropWhile isSlash).reverse

/-- Slashes throughout and none at the end, except that `/` alone stays. -/
def normalize (x : Text) : Text :=
  if slashed x = [slash] then [slash] else dropTrailingSlashes (slashed x)

/-- `joined` with one more segment below it. -/
def attach (joined part : Text) : Text :=
  let segment := dropLeadingSlashes (normalize part)
  if segment = [] then joined
  else if joined = [] then segment
  else if joined = [slash] then slash :: segment
  else joined ++ slash :: segment

/-- The parts joined with single slashes; empty parts are ignored. -/
def join (parts : List Text) : Text :=
  match parts.filter (· ≠ []) with
  | [] => []
  | first :: rest => rest.foldl attach (normalize first)

theorem slashed_append (x y : Text) : slashed (x ++ y) = slashed x ++ slashed y :=
  List.map_append

theorem backslash_not_mem_slashed (x : Text) : Glyph.char '\\' ∉ slashed x := by
  intro h
  obtain ⟨g, _, hg⟩ := List.mem_map.mp h
  by_cases hb : g = .char '\\'
  · simp [hb, slash] at hg
  · simp [hb] at hg

end Paddock.Path
