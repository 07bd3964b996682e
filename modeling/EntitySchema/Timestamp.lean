import EntitySchema.Text.Basic

/-!
Moments in time: a calendar date and a time of day to the nanosecond, with an offset from UTC in
minutes, and their written form `2024-01-02T03:04:05.5+02:00`.
-/

namespace EntitySchema

structure Timestamp where
  year : Int
  month : Nat
  day : Nat
  hour : Nat := 0
  minute : Nat := 0
  second : Nat := 0
  nanosecond : Nat := 0
  offset : Int := 0
  deriving DecidableEq, Repr

namespace Timestamp

def zero : Timestamp := { year := 1, month := 1, day := 1 }

def isLeapYear (year : Int) : Bool := year % 4 = 0 && (year % 100 ≠ 0 || year % 400 = 0)

def daysInMonth (year : Int) (month : Nat) : Nat :=
  match month with
  | 2 => if isLeapYear year then 29 else 28
  | 4 | 6 | 9 | 11 => 30
  | _ => 31

/-- Days from the first of March of year zero to a date, in the calendar that starts in March. -/
def dayNumber (year : Int) (month day : Nat) : Int :=
  let year := if month ≤ 2 then year - 1 else year
  let month : Int := ((month + 9) % 12 : Nat)
  365 * year + year / 4 - year / 100 + year / 400 + (153 * month + 2) / 5 + day - 1

def dateOfDayNumber (number : Int) : Int × Nat × Nat :=
  let era := number / 146097
  let dayOfEra := number % 146097
  let yearOfEra := (dayOfEra - dayOfEra / 1460 + dayOfEra / 36524 - dayOfEra / 146096) / 365
  let dayOfYear := dayOfEra - (365 * yearOfEra + yearOfEra / 4 - yearOfEra / 100)
  let month := (5 * dayOfYear + 2) / 153
  let day := dayOfYear - (153 * month + 2) / 5 + 1
  let calendarMonth := if month < 10 then month + 3 else month - 9
  let year := yearOfEra + era * 400 + (if calendarMonth ≤ 2 then 1 else 0)
  (year, calendarMonth.toNat, day.toNat)

def toUtc (time : Timestamp) : Timestamp :=
  let minutes := (dayNumber time.year time.month time.day * 24 + time.hour) * 60 + time.minute -
    time.offset
  let (year, month, day) := dateOfDayNumber (minutes / 1440)
  let ofDay := (minutes % 1440).toNat
  { time with year, month, day, hour := ofDay / 60, minute := ofDay % 60, offset := 0 }

def ofUnix (nanoseconds : Int) : Timestamp :=
  let seconds := nanoseconds / 1000000000
  let (year, month, day) := dateOfDayNumber (dayNumber 1970 1 1 + seconds / 86400)
  let ofDay := (seconds % 86400).toNat
  { year, month, day
    hour := ofDay / 3600
    minute := ofDay / 60 % 60
    second := ofDay % 60
    nanosecond := (nanoseconds % 1000000000).toNat }

/-- Whether a moment is the first of the year one, at whatever offset it is written. -/
def isZero (time : Timestamp) : Bool := time.toUtc = zero

def pad (width number : Nat) : Text :=
  let digits := Text.ofNat number
  List.replicate (width - digits.length) 0x30 ++ digits

def dropTrailingZeros (digits : Text) : Text :=
  (digits.reverse.dropWhile fun digit => digit = 0x30).reverse

def fractionText (nanosecond : Nat) : Text :=
  if nanosecond = 0 then [] else utf8 "." ++ dropTrailingZeros (pad 9 nanosecond)

def offsetText (offset : Int) : Text :=
  if offset = 0 then utf8 "Z"
  else
    (if offset < 0 then utf8 "-" else utf8 "+") ++ pad 2 (offset.natAbs / 60) ++ utf8 ":" ++
      pad 2 (offset.natAbs % 60)

def yearText (year : Int) : Text :=
  (if year < 0 then utf8 "-" else []) ++ pad 4 year.natAbs

def render (time : Timestamp) : Text :=
  yearText time.year ++ utf8 "-" ++ pad 2 time.month ++ utf8 "-" ++ pad 2 time.day ++ utf8 "T" ++
    pad 2 time.hour ++ utf8 ":" ++ pad 2 time.minute ++ utf8 ":" ++ pad 2 time.second ++
    fractionText time.nanosecond ++ offsetText time.offset

inductive Fault where
  | year
  | zone
  deriving DecidableEq, Repr

namespace Fault

def describe : Fault → Text
  | .year => utf8 "year outside of range [0,9999]"
  | .zone => utf8 "timezone hour outside of range [0,23]"

end Fault

/-- A strict form has a year of four digits and an offset of less than a day. -/
def fault? (time : Timestamp) : Option Fault :=
  if time.year < 0 ∨ 9999 < time.year then some .year
  else if 24 ≤ time.offset.natAbs / 60 then some .zone
  else none

def readDigits? (least greatest : Nat) (text : Text) : Option (Nat × Text) :=
  let digits := (text.take greatest).takeWhile Text.isAsciiDigit
  if digits.length < least then none
  else some (Text.digitsValue digits, text.drop digits.length)

def expect? (byte : Byte) : Text → Option Text
  | [] => none
  | first :: rest => if first = byte then some rest else none

def readDate? (text : Text) : Option (Timestamp × Text) := do
  let (year, rest) ← readDigits? 4 4 text
  let rest ← expect? 0x2D rest
  let (month, rest) ← readDigits? 1 2 rest
  let rest ← expect? 0x2D rest
  let (day, rest) ← readDigits? 1 2 rest
  if 1 ≤ month ∧ month ≤ 12 ∧ 1 ≤ day ∧ day ≤ daysInMonth year month then
    some ({ year := year, month := month, day := day }, rest)
  else none

def readFraction (text : Text) : Option (Nat × Text) :=
  match text with
  | first :: rest =>
    if first = 0x2E || first = 0x2C then
      let digits := rest.takeWhile Text.isAsciiDigit
      if digits.isEmpty then some (0, text)
      else
        let counted := (digits ++ List.replicate 9 0x30).take 9
        some (Text.digitsValue counted, rest.dropWhile Text.isAsciiDigit)
    else some (0, text)
  | [] => some (0, [])

def readTime? (date : Timestamp) (text : Text) : Option (Timestamp × Text) := do
  let (hour, rest) ← readDigits? 1 2 text
  let rest ← expect? 0x3A rest
  let (minute, rest) ← readDigits? 1 2 rest
  let rest ← expect? 0x3A rest
  let (second, rest) ← readDigits? 1 2 rest
  let (nanosecond, rest) ← readFraction rest
  if hour < 24 ∧ minute < 60 ∧ second < 60 then
    some ({ date with hour, minute, second, nanosecond }, rest)
  else none

def readOffset? (text : Text) : Option Int :=
  match text with
  | [0x5A] => some 0
  | sign :: rest => do
    let (hours, rest) ← readDigits? 2 2 rest
    let rest ← expect? 0x3A rest
    let (minutes, rest) ← readDigits? 2 2 rest
    if rest.isEmpty ∧ hours ≤ 24 ∧ minutes ≤ 60 then
      let size : Int := (hours * 60 + minutes : Nat)
      if sign = 0x2B then some size else if sign = 0x2D then some (-size) else none
    else none
  | [] => none

def read? (text : Text) : Option Timestamp := do
  let (date, rest) ← readDate? text
  let rest ← expect? 0x54 rest
  let (time, rest) ← readTime? date rest
  let offset ← readOffset? rest
  some { time with offset }

end Timestamp

end EntitySchema
