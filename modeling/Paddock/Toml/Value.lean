import Paddock.Toml.Document
import Paddock.Toml.Moment

/-!
# Keys and values

Keys are bare, or one-line strings, joined by dots. Arrays may run over lines and end with a comma;
inline tables may not. Both take up some of the room that there is for values within each other, an
inline table more than an array.
-/

namespace Paddock.Toml

set_option autoImplicit false

def isBareKey (c : Char) : Bool := c.isAlphanum || c == '-' || c == '_'

def keyPart (s : List Char) : Except Flaw (Text × List Char) :=
  match s with
  | [] => .error .malformed
  | c :: rest =>
    if isBareKey c then .ok (Text.ofChars (s.takeWhile isBareKey), s.dropWhile isBareKey)
    else if c = '"' ∨ c = '\'' then (oneLine c rest).map fun (x, s) => (Text.ofChars x, s)
    else .error .malformed

/-- A dotted key and the blanks after it. -/
def keyPath : (fuel : Nat) → List Char → Except Flaw (List Text × List Char)
  | 0, _ => .error .malformed
  | fuel + 1, s => do
    let (part, s) ← keyPart s
    match skipBlank s with
    | '.' :: s => do
      let (parts, s) ← keyPath fuel (skipBlank s)
      .ok (part :: parts, s)
    | s => .ok ([part], s)

def key (s : List Char) : Except Flaw (List Text × List Char) := keyPath (s.length + 1) s

/-- Values that hold no other values. -/
def scalarValue (s : List Char) : Except Flaw (Value × List Char) :=
  match s with
  | 't' :: 'r' :: 'u' :: 'e' :: s => .ok (.bool true, s)
  | 'f' :: 'a' :: 'l' :: 's' :: 'e' :: s => .ok (.bool false, s)
  | _ =>
    match moment? s with
    | some scanned => scanned
    | none =>
      match based? s with
      | some found => .ok found
      | none =>
        match decimal? s with
        | some scanned => scanned
        | none =>
          match special? s with
          | some found => .ok found
          | none => .error .malformed

/-- Refuses a value where there is less room than it needs. `ends` are the rooms that do for the
descent to its content, but not for the content. -/
def require (room needed : Nat) (ends : List Nat) : Except Flaw Unit :=
  if room < needed then .error (.tooDeep (if ends.contains room then .primitive else .call))
  else .ok ()

/-- The room that the array takes for itself, and an inline table. -/
def arrayRoom : Nat := 2

def tableRoom : Nat := 3

def stringWithin (room : Nat) (quote : Char) (s : List Char) :
    Except Flaw (Value × List Char) := do
  if (dropFront? [quote, quote] s).isSome then require room 3 [1, 2]
  else if quote = '"' then require room 2 []
  else require room 3 [2]
  let (x, s) ← anyString quote s
  .ok (.text (Text.ofChars x), s)

mutual

def valueWithin : (fuel room : Nat) → List Char → Except Flaw (Value × List Char)
  | 0, _, _ => .error .malformed
  | fuel + 1, room, s =>
    match s with
    | [] => .error .malformed
    | c :: rest =>
      if c = '"' ∨ c = '\'' then stringWithin room c rest
      else if c = '[' then do
        require room 3 []
        let s ← skipFiller false rest
        let (items, s) ← itemsWithin fuel (room - arrayRoom) s
        .ok (.array items, s)
      else if c = '{' then
        match skipBlank rest with
        | '}' :: s => do
          require room 3 [1]
          .ok (.table [], s)
        | s => do
          require room 5 [1]
          let (children, s) ← pairsWithin fuel (room - tableRoom) [] s
          .ok (.table (toFields children), s)
      else do
        let (value, s) ← scalarValue s
        match value with
        | .bool _ => .ok (value, s)
        | _ => do
          require room 2 [1]
          .ok (value, s)

def itemsWithin : (fuel room : Nat) → List Char → Except Flaw (List Value × List Char)
  | 0, _, _ => .error .malformed
  | fuel + 1, room, s =>
    match s with
    | ']' :: s => .ok ([], s)
    | s => do
      let (item, s) ← valueWithin fuel room s
      match ← skipFiller false s with
      | ']' :: s => .ok ([item], s)
      | ',' :: s => do
        let (items, s) ← itemsWithin fuel room (← skipFiller false s)
        .ok (item :: items, s)
      | _ => .error .malformed

def pairsWithin : (fuel room : Nat) → Children → List Char → Except Flaw (Children × List Char)
  | 0, _, _, _ => .error .malformed
  | fuel + 1, room, done, s => do
    let (path, s) ← key s
    match s with
    | '=' :: s => do
      let (value, s) ← valueWithin fuel room (skipBlank s)
      match assign 0 value path done with
      | none => .error .malformed
      | some done =>
        match skipBlank s with
        | '}' :: s => .ok (done, s)
        | ',' :: s => pairsWithin fuel room done (skipBlank s)
        | _ => .error .malformed
    | _ => .error .malformed

end

/-- A value. Each step within it uses up a character or goes one level down, which takes a bracket,
so the fuel lasts. -/
def value (room : Nat) (s : List Char) : Except Flaw (Value × List Char) :=
  valueWithin (4 * s.length + 4) room s

end Paddock.Toml
