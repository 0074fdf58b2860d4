import PageCompiler.Text.Digit
import PageCompiler.Text.Word

/-!
# `PageCompiler.Yaml.Moment`: dates and times

A date is written `2001-12-14`. A moment is a date and a time, as in `2001-12-14 21:59:43`: one or
two digits for the month, the day and the hour, a `T` or blanks before the time, a fraction of a
second and a time zone if wanted.

`Moment.parse?` looks at the form only. `Moment.fault?` says what is wrong with the numbers: the
zone is looked at first, then the date and then the time.
-/

set_option autoImplicit false

namespace PageCompiler.Yaml

open Text

/-- A time of day, and how far its zone is ahead in seconds. -/
structure TimeOfDay where
  hour : Nat
  minute : Nat
  second : Nat
  ahead : Int
  deriving DecidableEq, Repr

/-- A date, and a time if one is given. -/
structure Moment where
  year : Nat
  month : Nat
  day : Nat
  time : Option TimeOfDay
  deriving DecidableEq, Repr

/-- What is wrong with the numbers of a moment. -/
inductive MomentError where
  | zone (ahead : Int)
  | year (n : Nat)
  | month
  | day
  | hour
  | minute
  | second
  deriving DecidableEq, Repr

/-- A span of time in days and the seconds beyond them. -/
def spanText (seconds : Int) : String :=
  let days := seconds.fdiv 86400
  let rest := seconds.fmod 86400
  let parts := (if days == 0 then [] else ["days=" ++ toString days]) ++
    (if rest == 0 then [] else ["seconds=" ++ toString rest])
  "datetime.timedelta(" ++ ", ".intercalate parts ++ ")"

/-- What is said about a moment whose numbers are wrong. -/
def MomentError.message : MomentError → String
  | .zone ahead =>
    "offset must be a timedelta strictly between -timedelta(hours=24) and timedelta(hours=24), not "
      ++ spanText ahead ++ "."
  | .year n => "year " ++ toString n ++ " is out of range"
  | .month => "month must be in 1..12"
  | .day => "day is out of range for month"
  | .hour => "hour must be in 0..23"
  | .minute => "minute must be in 0..59"
  | .second => "second must be in 0..59"

namespace Moment

/-- A number of at least `least` and at most `most` digits, and what follows them. -/
def number? (least most : Nat) (s : List Char) : Option (Nat × List Char) :=
  let digits := (s.take most).takeWhile isAsciiDigit
  if least ≤ digits.length then some (digitsValue digits, s.drop digits.length) else none

/-- What follows a character. -/
def expect? (c : Char) : List Char → Option (List Char)
  | d :: rest => if d == c then some rest else none
  | [] => none

/-- Blanks within a moment. -/
def isSpacing (c : Char) : Bool :=
  c == ' ' || c == '\t'

/-- What follows the mark between a date and a time: a letter, or blanks. -/
def timeMark? : List Char → Option (List Char)
  | c :: rest =>
    if c == 'T' || c == 't' then some rest
    else if isSpacing c then some (rest.dropWhile isSpacing)
    else none
  | [] => none

/-- The fraction of a second is passed over. -/
def skipFraction : List Char → List Char
  | '.' :: rest => rest.dropWhile isAsciiDigit
  | s => s

/-- The minutes of a zone, which may be left out. -/
def zoneMinutes? : List Char → Option Nat
  | [] => some 0
  | s => do
    let (minutes, rest) ← number? 2 2 (← expect? ':' s)
    if rest.isEmpty then some minutes else none

/-- How far a zone is ahead, in seconds. No zone counts as zero. -/
def zone? (s : List Char) : Option Int :=
  match s, s.dropWhile isSpacing with
  | [], _ => some 0
  | _, ['Z'] => some 0
  | _, sign :: rest =>
    if sign == '+' || sign == '-' then do
      let (hours, rest) ← number? 1 2 rest
      let ahead : Int := hours * 3600 + (← zoneMinutes? rest) * 60
      some (if sign == '-' then -ahead else ahead)
    else none
  | _, [] => none

/-- The time behind a date. -/
def time? (s : List Char) : Option TimeOfDay := do
  let (hour, rest) ← number? 1 2 (← timeMark? s)
  let (minute, rest) ← number? 2 2 (← expect? ':' rest)
  let (second, rest) ← number? 2 2 (← expect? ':' rest)
  let ahead ← zone? (skipFraction rest)
  some { hour, minute, second, ahead }

/-- The moment that a text has the form of. A date alone has two digits for month and day. -/
def parse? (s : List Char) : Option Moment := do
  let (year, rest) ← number? 4 4 s
  let rest ← expect? '-' rest
  let (month, rest) ← number? 1 2 rest
  let rest ← expect? '-' rest
  let (day, rest) ← number? 1 2 rest
  if rest.isEmpty then
    if s.length == 10 then some { year, month, day, time := none } else none
  else
    let time ← time? rest
    some { year, month, day, time := some time }

/-- Years with a leap day. -/
def isLeap (year : Nat) : Bool :=
  year % 4 == 0 && (year % 100 != 0 || year % 400 == 0)

/-- The number of days in a month. -/
def daysIn (year month : Nat) : Nat :=
  if month == 2 then if isLeap year then 29 else 28
  else if month == 4 || month == 6 || month == 9 || month == 11 then 30
  else 31

/-- What is wrong with a date. -/
def dateFault? (m : Moment) : Option MomentError :=
  if m.year == 0 then some (.year m.year)
  else if m.month == 0 || 12 < m.month then some .month
  else if m.day == 0 || daysIn m.year m.month < m.day then some .day
  else none

/-- What is wrong with a time. -/
def timeFault? (t : TimeOfDay) : Option MomentError :=
  if 24 ≤ t.hour then some .hour
  else if 60 ≤ t.minute then some .minute
  else if 60 ≤ t.second then some .second
  else none

/-- What is wrong with a zone: it is a day or more away. -/
def zoneFault? (t : TimeOfDay) : Option MomentError :=
  if 86400 ≤ t.ahead.natAbs then some (.zone t.ahead) else none

/-- The first thing that is wrong with a moment. -/
def fault? (m : Moment) : Option MomentError :=
  match m.time with
  | none => m.dateFault?
  | some t => (zoneFault? t).or (m.dateFault?.or (timeFault? t))

end Moment

end PageCompiler.Yaml
