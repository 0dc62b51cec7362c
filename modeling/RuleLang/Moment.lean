/-!
Dates and times of day as they are written. A part may lie outside the calendar, such as a
thirteenth month; `fault?` names the first part that does.
-/
namespace RuleLang

/-- A time of day; a zone is given by the seconds it is ahead of universal time. -/
structure TimeOfDay where
  hour : Nat
  minute : Nat
  second : Nat
  microsecond : Nat
  zone : Option Int
  deriving DecidableEq

structure Moment where
  year : Nat
  month : Nat
  day : Nat
  time : Option TimeOfDay
  deriving DecidableEq

/-- A number of seconds as messages show it: whole days, and seconds that are not negative. -/
def displayDuration (seconds : Int) : String :=
  let days := seconds / 86400
  let rest := seconds % 86400
  let parts := (if days = 0 then [] else ["days=" ++ toString days]) ++
    (if rest = 0 then [] else ["seconds=" ++ toString rest])
  "datetime.timedelta(" ++ ", ".intercalate parts ++ ")"

inductive MomentFault where
  | year | month | day | hour | minute | second
  | zone (seconds : Int)
  deriving DecidableEq, Repr

def MomentFault.message : MomentFault → String
  | .year => "year 0 is out of range"
  | .month => "month must be in 1..12"
  | .day => "day is out of range for month"
  | .hour => "hour must be in 0..23"
  | .minute => "minute must be in 0..59"
  | .second => "second must be in 0..59"
  | .zone seconds =>
    "offset must be a timedelta strictly between -timedelta(hours=24) and " ++
      "timedelta(hours=24), not " ++ displayDuration seconds ++ "."

def isLeapYear (year : Nat) : Bool := year % 4 = 0 && (year % 100 ≠ 0 || year % 400 = 0)

def daysOfMonth (year month : Nat) : Nat :=
  if month = 2 then (if isLeapYear year then 29 else 28)
  else if month ∈ [4, 6, 9, 11] then 30 else 31

namespace TimeOfDay

/-- A zone is less than a day ahead or behind. -/
def zoneFault? (t : TimeOfDay) : Option MomentFault :=
  match t.zone with
  | some seconds => if seconds.natAbs < 86400 then none else some (.zone seconds)
  | none => none

/-- The first part that is out of its range, the zone apart. -/
def fault? (t : TimeOfDay) : Option MomentFault :=
  if 23 < t.hour then some .hour
  else if 59 < t.minute then some .minute
  else if 59 < t.second then some .second
  else none

end TimeOfDay

namespace Moment

def dateFault? (m : Moment) : Option MomentFault :=
  if m.year < 1 then some .year
  else if m.month < 1 ∨ 12 < m.month then some .month
  else if m.day < 1 ∨ daysOfMonth m.year m.month < m.day then some .day
  else none

/-- What is wrong with a moment, if anything; its zone comes first. -/
def fault? (m : Moment) : Option MomentFault :=
  (m.time.bind TimeOfDay.zoneFault?).or (m.dateFault?.or (m.time.bind TimeOfDay.fault?))

def padded (width n : Nat) : String :=
  let digits := Nat.toDigits 10 n
  String.ofList (List.replicate (width - digits.length) '0' ++ digits)

def displayZone (seconds : Int) : String :=
  if seconds = 0 then "datetime.timezone.utc"
  else "datetime.timezone(" ++ displayDuration seconds ++ ")"

/-- The moment as messages show it: zero seconds and microseconds at the end are left out. -/
def display (m : Moment) : String :=
  let date := [m.year, m.month, m.day].map toString
  match m.time with
  | none => "datetime.date(" ++ ", ".intercalate date ++ ")"
  | some t =>
    let time := [t.hour, t.minute] ++
      (if t.microsecond ≠ 0 then [t.second, t.microsecond]
        else if t.second ≠ 0 then [t.second] else [])
    let zone := match t.zone with
      | none => []
      | some seconds => ["tzinfo=" ++ displayZone seconds]
    "datetime.datetime(" ++ ", ".intercalate (date ++ time.map toString ++ zone) ++ ")"

/-- A zone as a sign, hours, minutes and, unless they are zero, seconds. -/
def plainZone (seconds : Int) : String :=
  let n := seconds.natAbs
  (if seconds < 0 then "-" else "+") ++ padded 2 (n / 3600) ++ ":" ++ padded 2 (n / 60 % 60) ++
    if n % 60 = 0 then "" else ":" ++ padded 2 (n % 60)

def plain (m : Moment) : String :=
  let date := padded 4 m.year ++ "-" ++ padded 2 m.month ++ "-" ++ padded 2 m.day
  match m.time with
  | none => date
  | some t =>
    let time := padded 2 t.hour ++ ":" ++ padded 2 t.minute ++ ":" ++ padded 2 t.second
    let fraction := if t.microsecond = 0 then "" else "." ++ padded 6 t.microsecond
    date ++ " " ++ time ++ fraction ++ (t.zone.map plainZone).getD ""

end Moment

end RuleLang
