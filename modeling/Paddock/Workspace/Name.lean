import Paddock.Text.Glyph

/-!
# Workspace names

A workspace is named by lowercase letters and dashes, a letter first. The default names are
animals; one is picked by going through a pool in order.
-/

namespace Paddock.Workspace

set_option autoImplicit false

def isLetter : Glyph → Bool
  | .char c => 'a' ≤ c && c ≤ 'z'
  | .raw _ => false

def isNameGlyph (g : Glyph) : Bool := isLetter g || g == .char '-'

def isValidName : Text → Bool
  | [] => false
  | g :: rest => isLetter g && rest.all isNameGlyph

theorem isNameGlyph_of_mem {name : Text} (h : isValidName name = true) {g : Glyph}
    (hg : g ∈ name) : isNameGlyph g = true := by
  cases name with
  | nil => simp at hg
  | cons a rest =>
    simp only [isValidName, Bool.and_eq_true, List.all_eq_true] at h
    rcases List.mem_cons.mp hg with rfl | hr
    · simp [isNameGlyph, h.1]
    · exact h.2 g hr

theorem slash_not_mem_of_isValidName {name : Text} (h : isValidName name = true) :
    Text.slash ∉ name := fun hm => by
  have := isNameGlyph_of_mem h hm
  simp [isNameGlyph, isLetter, Text.slash] at this

/-- The valid names of a pool, each where it first stands. -/
def uniqueNames (pool : List Text) : List Text := (pool.filter isValidName).eraseDups

/-- The first valid name of the pool that is not used. -/
def pickUnused (used pool : List Text) : Option Text :=
  (uniqueNames pool).find? fun name => !used.contains name

def animals : List Text := List.map Text.ofString [
  "otter", "lynx", "badger", "heron", "marten", "falcon", "beaver", "bison", "cougar", "coyote",
  "crane", "dingo", "dolphin", "eagle", "egret", "ferret", "finch", "gecko", "gibbon", "gopher",
  "grouse", "hare", "hedgehog", "ibex", "ibis", "impala", "jackal", "jaguar", "kestrel", "kiwi",
  "koala", "lemur", "llama", "macaw", "magpie", "manatee", "meerkat", "mink", "moose", "narwhal",
  "newt", "ocelot", "okapi", "orca", "osprey", "panda", "pangolin", "panther", "pelican",
  "penguin", "puffin", "puma", "quail", "quokka", "rabbit", "raccoon", "raven", "red-fox",
  "robin", "salmon", "seal", "shrew", "skunk", "sloth", "snow-leopard", "sparrow", "squirrel",
  "stoat", "swan", "tapir", "tern", "tiger", "toucan", "turtle", "vole", "walrus", "weasel",
  "wombat", "wolf", "wren", "yak", "zebra"]

end Paddock.Workspace
