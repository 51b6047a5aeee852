/-!
Days of the calendar and moments of a day, with the checks that make them so and the texts that
they are shown as.
-/

namespace DollarMath

inductive CalendarFault where
  | year (year : Nat)
  | month
  | day
  | hour
  | minute
  | second
  | offset (seconds : Int)
deriving DecidableEq, Repr

structure Date where
  year : Nat
  month : Nat
  day : Nat
deriving DecidableEq, Repr

namespace Date

def isLeap (year : Nat) : Bool :=
  year % 4 = 0 && (year % 100 ≠ 0 || year % 400 = 0)

def daysInMonth (year month : Nat) : Nat :=
  if month = 2 then (if isLeap year then 29 else 28)
  else if month = 4 || month = 6 || month = 9 || month = 11 then 30
  else 31

def fault? (date : Date) : Option CalendarFault :=
  if date.year < 1 || 9999 < date.year then some (.year date.year)
  else if date.month < 1 || 12 < date.month then some .month
  else if date.day < 1 || daysInMonth date.year date.month < date.day then some .day
  else none

def text (date : Date) : String :=
  s!"datetime.date({date.year}, {date.month}, {date.day})"

end Date

structure Moment where
  date : Date
  hour : Nat
  minute : Nat
  second : Nat
  micros : Nat
  offset : Option Int
deriving DecidableEq, Repr

namespace Moment

def secondsOfDay : Int := 86400

/-- What is wrong with a moment: first its offset, which must be less than a day, then its day, then
its hour, minute and second. -/
def fault? (moment : Moment) : Option CalendarFault :=
  let isFar (seconds : Int) : Bool := seconds ≤ -secondsOfDay || secondsOfDay ≤ seconds
  match moment.offset.filter isFar with
  | some seconds => some (.offset seconds)
  | none =>
    moment.date.fault?.or
      (if 23 < moment.hour then some .hour
      else if 59 < moment.minute then some .minute
      else if 59 < moment.second then some .second
      else none)

/-- A span of time as days and the seconds that are left, which are never negative. -/
def spanText (seconds : Int) : String :=
  let days := Int.fdiv seconds secondsOfDay
  let left := Int.fmod seconds secondsOfDay
  let parts := (if days = 0 then [] else [s!"days={days}"]) ++
    (if left = 0 then [] else [s!"seconds={left}"])
  "datetime.timedelta(" ++ (if parts.isEmpty then "0" else String.intercalate ", " parts) ++ ")"

def zoneText (seconds : Int) : String :=
  if seconds = 0 then "datetime.timezone.utc" else s!"datetime.timezone({spanText seconds})"

def text (moment : Moment) : String :=
  let date := moment.date
  let time :=
    if moment.micros ≠ 0 then s!", {moment.second}, {moment.micros}"
    else if moment.second ≠ 0 then s!", {moment.second}"
    else ""
  let zone :=
    match moment.offset with
    | some seconds => ", tzinfo=" ++ zoneText seconds
    | none => ""
  s!"datetime.datetime({date.year}, {date.month}, {date.day}, {moment.hour}, {moment.minute}" ++
    time ++ zone ++ ")"

end Moment

def CalendarFault.message : CalendarFault → String
  | year value => s!"year {value} is out of range"
  | month => "month must be in 1..12"
  | day => "day is out of range for month"
  | hour => "hour must be in 0..23"
  | minute => "minute must be in 0..59"
  | second => "second must be in 0..59"
  | offset seconds =>
    "offset must be a timedelta strictly between -timedelta(hours=24) and timedelta(hours=24), " ++
      s!"not {Moment.spanText seconds}."

end DollarMath
