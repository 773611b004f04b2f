import Paddock.Path.Place
import Paddock.Text.Utf8

/-!
# File trees

A file tree is a set of entries, each at the list of its component names from the root. The root is
always a directory. Names are looked up component by component as a POSIX system does: every
component but the last has to be a directory, `..` goes up, and overlong names are refused.
-/

namespace Paddock

set_option autoImplicit false

abbrev Address := List Text

/-- Whether two addresses are the same. Most differ in length already. -/
def Address.same (a b : Address) : Bool := a.length == b.length && a == b

@[simp] theorem Address.same_iff {a b : Address} : a.same b = true ↔ a = b := by
  simp only [same, Bool.and_eq_true, beq_iff_eq, and_iff_right_iff_imp]
  rintro rfl
  rfl

inductive Entry where
  | directory
  | file (content : List UInt8)
deriving DecidableEq, Repr, Inhabited

/-- Entries by address; where an address occurs twice the first one counts. -/
abbrev FileTree := List (Address × Entry)

inductive Refusal where
  | noEntry
  | argumentTooLong
  | denied
  | alreadyExists
  | notDirectory
  | isDirectory
  | nameTooLong
deriving DecidableEq, Repr

namespace Refusal

def number : Refusal → Nat
  | noEntry => 2
  | argumentTooLong => 7
  | denied => 13
  | alreadyExists => 17
  | notDirectory => 20
  | isDirectory => 21
  | nameTooLong => 36

def text : Refusal → Text
  | noEntry => "No such file or directory"
  | argumentTooLong => "Argument list too long"
  | denied => "Permission denied"
  | alreadyExists => "File exists"
  | notDirectory => "Not a directory"
  | isDirectory => "Is a directory"
  | nameTooLong => "File name too long"

end Refusal

namespace FileTree

def stored? (tree : FileTree) (a : Address) : Option Entry :=
  match tree with
  | [] => none
  | (b, entry) :: rest => if b.same a then some entry else stored? rest a

def get? (tree : FileTree) (a : Address) : Option Entry :=
  if a = [] then some .directory else stored? tree a

def insert (tree : FileTree) (a : Address) (entry : Entry) : FileTree :=
  match tree with
  | [] => [(a, entry)]
  | (b, old) :: rest => if b.same a then (a, entry) :: rest else (b, old) :: insert rest a entry

/-- The tree without the entry at `a` and everything below it. -/
def erase (tree : FileTree) (a : Address) : FileTree :=
  List.filter (fun entry => !a.isPrefixOf entry.1) tree

theorem stored?_insert (tree : FileTree) (a b : Address) (entry : Entry) :
    stored? (insert tree a entry) b = if b = a then some entry else stored? tree b := by
  induction tree with
  | nil =>
    by_cases hb : b = a
    · simp [insert, stored?, hb]
    · simp [insert, stored?, hb, Ne.symm hb]
  | cons e rest ih =>
    obtain ⟨c, old⟩ := e
    by_cases hc : c = a
    · subst hc
      by_cases hb : b = c
      · simp [insert, stored?, hb]
      · simp [insert, stored?, hb, Ne.symm hb]
    · by_cases hb : c = b
      · subst hb
        simp [insert, stored?, hc]
      · simp [insert, stored?, hc, hb, ih]

theorem get?_insert {tree : FileTree} {a : Address} (ha : a ≠ []) (b : Address) (entry : Entry) :
    get? (insert tree a entry) b = if b = a then some entry else get? tree b := by
  by_cases hb : b = []
  · subst hb; simp [get?, ha.symm]
  · simp [get?, hb, stored?_insert]

/-- The longest component name and the longest path, in bytes. -/
def nameLimit : Nat := 255

def pathLimit : Nat := 4095

def byteLength (x : Text) : Nat := (Utf8.encode x).length

/-- The address that a component leads to from a directory. -/
def below (at_ : Address) (part : Text) : Address :=
  if part = Text.ofString ".." then at_.dropLast else at_ ++ [part]

def find (tree : FileTree) (at_ : Address) (part : Text) : Except Refusal Entry :=
  if nameLimit < byteLength part then .error .nameTooLong
  else
    match get? tree (below at_ part) with
    | some entry => .ok entry
    | none => .error .noEntry

/-- The directory that a list of components leads to. -/
def enter (tree : FileTree) (at_ : Address) : List Text → Except Refusal Address
  | [] => .ok at_
  | part :: rest =>
    match find tree at_ part with
    | .ok .directory => enter tree (below at_ part) rest
    | .ok (.file _) => .error .notDirectory
    | .error r => .error r

/-- Where the components of a place start; `cwd` is the working directory. -/
def start (cwd : Address) (p : Place) : Address := if p.isAbsolute then [] else cwd

def locate (tree : FileTree) (cwd : Address) (p : Place) : Except Refusal (Address × Entry) :=
  if pathLimit < byteLength p.text then .error .nameTooLong
  else
    match p.parts.getLast? with
    | none => .ok (start cwd p, .directory)
    | some last => do
      let at_ ← enter tree (start cwd p) p.parts.dropLast
      let entry ← find tree at_ last
      .ok (below at_ last, entry)

/-- The content of the file at a place, if there is one; only an overlong name is an error. -/
def readFile (tree : FileTree) (cwd : Address) (p : Place) :
    Except Refusal (Option (List UInt8)) :=
  match locate tree cwd p with
  | .ok (_, .file content) => .ok (some content)
  | .ok (_, .directory) => .ok none
  | .error .nameTooLong => .error .nameTooLong
  | .error _ => .ok none

/-- Empties the file at a place, or makes an empty one. -/
def truncate (tree : FileTree) (cwd : Address) (p : Place) : Except Refusal FileTree :=
  if pathLimit < byteLength p.text then .error .nameTooLong
  else
    match p.parts.getLast? with
    | none => .error .isDirectory
    | some last => do
      let at_ ← enter tree (start cwd p) p.parts.dropLast
      if last = Text.ofString ".." then .error .isDirectory
      else
        match find tree at_ last with
        | .ok .directory => .error .isDirectory
        | .ok (.file _) => .ok (insert tree (below at_ last) (.file []))
        | .error .noEntry => .ok (insert tree (below at_ last) (.file []))
        | .error r => .error r

end FileTree

end Paddock
