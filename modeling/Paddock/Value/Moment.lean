import Paddock.Text.Glyph

/-!
# Dates and times

Calendar dates, times of day with microseconds, and the two together with or without a distance
from UTC in minutes.
-/

namespace Paddock

set_option autoImplicit false

structure Date where
  year : Nat
  month : Nat
  day : Nat
deriving DecidableEq, Repr

structure TimeOfDay where
  hour : Nat
  minute : Nat
  second : Nat
  microsecond : Nat
deriving DecidableEq, Repr

inductive Moment where
  | date (d : Date)
  | time (t : TimeOfDay)
  | dateTime (d : Date) (t : TimeOfDay) (offset : Option Int)
deriving DecidableEq, Repr

inductive MomentKind where
  | date
  | time
  | dateTime
deriving DecidableEq, Repr

def Moment.kind : Moment → MomentKind
  | date _ => .date
  | time _ => .time
  | dateTime _ _ _ => .dateTime

def MomentKind.name : MomentKind → Text
  | date => "date"
  | time => "time"
  | dateTime => "datetime"

namespace Date

def isLeap (year : Nat) : Bool := year % 4 == 0 && (year % 100 != 0 || year % 400 == 0)

def daysIn (year month : Nat) : Nat :=
  if month = 2 then (if isLeap year then 29 else 28)
  else if [4, 6, 9, 11].contains month then 30
  else 31

/-- The date, if the calendar has it. There is no year zero. -/
def valid? (year month day : Nat) : Option Date :=
  if 1 ≤ year ∧ 1 ≤ month ∧ month ≤ 12 ∧ 1 ≤ day ∧ day ≤ daysIn year month then
    some ⟨year, month, day⟩
  else none

end Date

/-- The last `width` decimal digits of `n`. -/
def Text.digits (width n : Nat) : Text :=
  match width with
  | 0 => []
  | width + 1 => Text.digits width (n / 10) ++ [.char (Nat.digitChar (n % 10))]

namespace Moment

def dateText (d : Date) : Text :=
  Text.digits 4 d.year ++ .char '-' :: Text.digits 2 d.month ++ .char '-' :: Text.digits 2 d.day

/-- The time of day; microseconds are written only if there are some. -/
def timeText (t : TimeOfDay) : Text :=
  Text.digits 2 t.hour ++ .char ':' :: Text.digits 2 t.minute ++ .char ':' ::
    Text.digits 2 t.second ++
      (if t.microsecond = 0 then [] else .char '.' :: Text.digits 6 t.microsecond)

def offsetText (offset : Int) : Text :=
  .char (if offset < 0 then '-' else '+') :: Text.digits 2 (offset.natAbs / 60) ++
    .char ':' :: Text.digits 2 (offset.natAbs % 60)

def text : Moment → Text
  | date d => dateText d
  | time t => timeText t
  | dateTime d t offset => dateText d ++ .char 'T' :: timeText t ++ (offset.map offsetText).getD []

end Moment

end Paddock
