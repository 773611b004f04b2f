import Paddock.Toml.Number

/-!
# Dates and times

A date, a time of day, or both with an optional distance from UTC. Fractions of a second are cut
after six digits.
-/

namespace Paddock.Toml

set_option autoImplicit false

/-- Two digits whose value lies between `low` and `high`. -/
def two? (low high : Nat) : List Char → Option (Nat × List Char)
  | c :: d :: s =>
    let n := valueOf 10 [c, d]
    if isDigit c && isDigit d && low ≤ n && n ≤ high then some (n, s) else none
  | _ => none

def four? : List Char → Option (Nat × List Char)
  | a :: b :: c :: d :: s =>
    if [a, b, c, d].all isDigit then some (valueOf 10 [a, b, c, d], s) else none
  | _ => none

def mark? (c : Char) : List Char → Option (List Char)
  | d :: s => if c = d then some s else none
  | [] => none

/-- Year, month and day; whether the calendar has the day is not looked at. -/
def dateParts? (s : List Char) : Option ((Nat × Nat × Nat) × List Char) := do
  let (year, s) ← four? s
  let s ← mark? '-' s
  let (month, s) ← two? 1 12 s
  let s ← mark? '-' s
  let (day, s) ← two? 1 31 s
  some ((year, month, day), s)

def microseconds (digits : List Char) : Nat :=
  let six := digits.take 6
  valueOf 10 six * Nat.pow 10 (6 - six.length)

def fractionOfSecond (s : List Char) : Nat × List Char :=
  match s with
  | '.' :: t =>
    let ds := t.takeWhile isDigit
    if ds = [] then (0, s) else (microseconds ds, t.dropWhile isDigit)
  | _ => (0, s)

def time? (s : List Char) : Option (TimeOfDay × List Char) := do
  let (hour, s) ← two? 0 23 s
  let s ← mark? ':' s
  let (minute, s) ← two? 0 59 s
  let s ← mark? ':' s
  let (second, s) ← two? 0 59 s
  let (microsecond, s) := fractionOfSecond s
  some (⟨hour, minute, second, microsecond⟩, s)

def offset? : List Char → Option (Int × List Char)
  | c :: s =>
    if c = 'Z' ∨ c = 'z' then some (0, s)
    else if c = '+' ∨ c = '-' then do
      let (hours, s) ← two? 0 23 s
      let s ← mark? ':' s
      let (minutes, s) ← two? 0 59 s
      let n : Int := hours * 60 + minutes
      some (if c = '-' then -n else n, s)
    else none
  | [] => none

/-- The time after a date, introduced by `T`, `t` or a space. -/
def timeAfterDate? : List Char → Option (TimeOfDay × List Char)
  | c :: s => if c = 'T' ∨ c = 't' ∨ c = ' ' then time? s else none
  | [] => none

/-- A date with or without a time, or a time; malformed if the calendar does not have the date. -/
def moment? (s : List Char) : Option (Except Flaw (Value × List Char)) :=
  match dateParts? s with
  | some ((year, month, day), s) =>
    match Date.valid? year month day with
    | none => some (.error .malformed)
    | some date =>
      match timeAfterDate? s with
      | none => some (.ok (.moment (.date date), s))
      | some (time, s) =>
        match offset? s with
        | none => some (.ok (.moment (.dateTime date time none), s))
        | some (offset, s) => some (.ok (.moment (.dateTime date time (some offset)), s))
  | none => (time? s).map fun (time, s) => .ok (.moment (.time time), s)

end Paddock.Toml
