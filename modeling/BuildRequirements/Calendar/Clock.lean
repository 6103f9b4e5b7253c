import BuildRequirements.Calendar.Date

namespace BuildRequirements.Calendar

structure Stamp where
  date : Date
  hour : Nat
  minute : Nat
  second : Nat
  deriving DecidableEq, Repr

namespace Stamp

def seconds (s : Stamp) : Int :=
  86400 * s.date.dayNumber + 3600 * s.hour + 60 * s.minute + s.second

def ofSeconds (seconds : Int) : Stamp :=
  let s := (seconds % 86400).toNat
  ⟨Date.ofDayNumber (seconds / 86400), s / 3600, s / 60 % 60, s % 60⟩

theorem seconds_ofSeconds (n : Int) : (ofSeconds n).seconds = n := by
  simp only [seconds, ofSeconds, dayNumber_ofDayNumber]
  omega

def monthNames : List String :=
  ["Jan", "Feb", "Mar", "Apr", "May", "Jun", "Jul", "Aug", "Sep", "Oct", "Nov", "Dec"]

def twoDigits (n : Nat) : String :=
  String.ofList [Nat.digitChar (n / 10), Nat.digitChar (n % 10)]

def text (s : Stamp) : String :=
  monthNames.getD (s.date.month - 1) "" ++ " " ++ twoDigits s.date.day ++ " " ++
    toString s.date.year ++ " " ++ twoDigits s.hour ++ ":" ++ twoDigits s.minute ++ ":" ++
    twoDigits s.second

end Stamp

structure Clock where
  milliseconds : Option Int
  hoursAhead : Int := 0
  deriving DecidableEq, Repr

namespace Clock

def limit : Nat := 8640000000000000

def stamp? (c : Clock) : Option Stamp :=
  (c.milliseconds.filter fun ms => ms.natAbs ≤ limit).map fun ms =>
    Stamp.ofSeconds (ms / 1000 + 3600 * c.hoursAhead)

def text (c : Clock) : String :=
  (c.stamp?.map Stamp.text).getD "??? NaN NaN NaN:NaN:NaN"

end Clock

end BuildRequirements.Calendar
