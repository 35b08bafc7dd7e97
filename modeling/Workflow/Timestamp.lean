/-
Workflow.Timestamp — instants in coordinated universal time.

* A `Timestamp` is a calendar date and a time of day with nanoseconds. A
  leap second is the second 59 with a thousand million nanoseconds more.
* `Timestamp.text` writes RFC 3339 text with the mark `Z` and with 0, 3,
  6 or 9 digits of the second, the fewest that lose nothing.
* `Timestamp.read` reads RFC 3339 text with any offset. One digit is
  enough for a field, blanks may stand in front of a field, a blank may
  take the place of the `T`, digits after the ninth are dropped, `UTC` is
  the same as `Z`, and any colons and blanks may divide an offset.
-/
import Workflow.Json.Codec
import Workflow.Text.Blank

namespace Workflow

/-- Whether a year has a 29 February. -/
def isLeapYear (year : Int) : Bool := year % 4 == 0 && (year % 100 != 0 || year % 400 == 0)

/-- The length of a month, numbered from 1. -/
def daysInMonth (year : Int) (month : Nat) : Nat :=
  if month = 2 then if isLeapYear year then 29 else 28
  else if month = 4 ∨ month = 6 ∨ month = 9 ∨ month = 11 then 30
  else 31

/-- A date and a time of day. -/
structure Timestamp where
  year : Int
  month : Nat
  day : Nat
  hour : Nat
  minute : Nat
  second : Nat
  nano : Nat
  year_mem : -262143 ≤ year ∧ year ≤ 262142
  month_mem : 1 ≤ month ∧ month ≤ 12
  day_mem : 1 ≤ day ∧ day ≤ daysInMonth year month
  hour_lt : hour < 24
  minute_lt : minute < 60
  second_lt : second < 60
  nano_lt : nano < if second = 59 then 2000000000 else 1000000000
deriving DecidableEq, Repr

namespace Timestamp

/-- The timestamp with the given fields, if they name one. -/
def ofFields? (year : Int) (month day hour minute second nano : Nat) : Option Timestamp :=
  if h : (-262143 ≤ year ∧ year ≤ 262142) ∧ (1 ≤ month ∧ month ≤ 12) ∧
      (1 ≤ day ∧ day ≤ daysInMonth year month) ∧ hour < 24 ∧ minute < 60 ∧ second < 60 ∧
      nano < if second = 59 then 2000000000 else 1000000000 then
    some ⟨year, month, day, hour, minute, second, nano, h.1, h.2.1, h.2.2.1, h.2.2.2.1,
      h.2.2.2.2.1, h.2.2.2.2.2.1, h.2.2.2.2.2.2⟩
  else none

/-- Midnight of 1 January 1970. -/
def epoch : Timestamp :=
  ⟨1970, 1, 1, 0, 0, 0, 0, by decide, by decide, by decide, by decide, by decide, by decide,
    by decide⟩

instance : Inhabited Timestamp := ⟨epoch⟩

/-- The calendar date a number of days after 1 January 1970. Years are
counted from 1 March of the year 0 in cycles of 400 years, so that a leap
day is the last day of its year. -/
def dateOfDays (days : Nat) : Int × Nat × Nat :=
  let z := days + 719468
  let cycle := z / 146097
  let inCycle := z % 146097
  let yearInCycle := (inCycle - inCycle / 1460 + inCycle / 36524 - inCycle / 146096) / 365
  let inYear := inCycle - (365 * yearInCycle + yearInCycle / 4 - yearInCycle / 100)
  let shifted := (5 * inYear + 2) / 153
  let day := inYear - (153 * shifted + 2) / 5 + 1
  let month := if shifted < 10 then shifted + 3 else shifted - 9
  let year := yearInCycle + cycle * 400 + (if month ≤ 2 then 1 else 0)
  (year, month, day)

/-- The instant a number of milliseconds after the epoch; the epoch itself
when the year is too large. -/
def ofMillis (ms : Nat) : Timestamp :=
  let s := ms / 1000
  let (year, month, day) := dateOfDays (s / 86400)
  (ofFields? year month day (s / 3600 % 24) (s / 60 % 60) (s % 60) (ms % 1000 * 1000000)).getD epoch

/-! ## Writing -/

/-- At least `width` digits. -/
def padded (width n : Nat) : List Char :=
  let ds := Nat.toDigits 10 n
  List.replicate (width - ds.length) '0' ++ ds

/-- Four digits, and a sign outside the years 0 to 9999. -/
def yearText (year : Int) : List Char :=
  if 0 ≤ year ∧ year ≤ 9999 then padded 4 year.toNat
  else (if year < 0 then '-' else '+') :: padded 4 year.natAbs

/-- The digits of the second, with their point. -/
def fractionText (nano : Nat) : List Char :=
  if nano = 0 then []
  else if nano % 1000000 = 0 then '.' :: padded 3 (nano / 1000000)
  else if nano % 1000 = 0 then '.' :: padded 6 (nano / 1000)
  else '.' :: padded 9 nano

def chars (t : Timestamp) : List Char :=
  yearText t.year ++ '-' :: padded 2 t.month ++ '-' :: padded 2 t.day ++ 'T' :: padded 2 t.hour ++
  ':' :: padded 2 t.minute ++ ':' :: padded 2 (t.second + t.nano / 1000000000) ++
  fractionText (t.nano % 1000000000) ++ ['Z']

def text (t : Timestamp) : String := String.ofList t.chars

/-! ## Reading -/

/-- At most `limit` digits, at least one: their value, and what
follows. -/
def readNumber (limit : Nat) (cs : List Char) : Option (Nat × List Char) :=
  let ds := (cs.take limit).takeWhile Char.isDigit
  if ds.isEmpty then none
  else some (ds.foldl (fun n c => n * 10 + (c.toNat - '0'.toNat)) 0, cs.drop ds.length)

/-- A field of two digits, with blanks allowed in front. -/
def readField (cs : List Char) : Option (Nat × List Char) := readNumber 2 (Text.trimLeft cs)

/-- A year: four digits, or a sign and any number of digits. -/
def readYear (cs : List Char) : Option (Int × List Char) :=
  match Text.trimLeft cs with
  | '-' :: cs => do
    let (n, cs) ← readNumber cs.length cs
    return (-(n : Int), cs)
  | '+' :: cs => do
    let (n, cs) ← readNumber cs.length cs
    return ((n : Int), cs)
  | cs => do
    let (n, cs) ← readNumber 4 cs
    return ((n : Int), cs)

/-- A separator, with blanks allowed in front. -/
def readMark (mark : Char) (cs : List Char) : Option (List Char) :=
  match Text.trimLeft cs with
  | c :: cs => if c = mark then some cs else none
  | [] => none

/-- Nanoseconds, if a point follows: the first nine digits count. -/
def readFraction (cs : List Char) : Option (Nat × List Char) :=
  match cs with
  | '.' :: cs => do
    let ds := cs.takeWhile Char.isDigit
    let (n, _) ← readNumber 9 cs
    return (n * Nat.pow 10 (9 - min 9 ds.length), cs.drop ds.length)
  | cs => some (0, cs)

/-- Two digits, exactly. -/
def readPair (cs : List Char) : Option (Nat × List Char) :=
  match cs with
  | a :: b :: rest =>
    if a.isDigit && b.isDigit then
      some ((a.toNat - '0'.toNat) * 10 + (b.toNat - '0'.toNat), rest)
    else none
  | _ => none

/-- The offset from universal time in minutes. -/
def readOffset (cs : List Char) : Option (Int × List Char) :=
  if (cs.take 3).map Char.toUpper = ['U', 'T', 'C'] then some (0, cs.drop 3)
  else match cs with
  | [] => none
  | mark :: cs =>
    if mark = 'Z' ∨ mark = 'z' then some (0, cs)
    else do
      let sign : Int ←
        if mark = '+' then some 1
        else if mark = '-' ∨ mark = '\u2212' then some (-1)
        else none
      let (hours, cs) ← readPair cs
      let (minutes, cs) ← readPair (cs.dropWhile fun c => c = ':' || Text.isBlank c)
      if hours < 24 ∧ minutes < 60 then
        return (sign * ((hours * 60 + minutes : Nat) : Int), cs)
      else none

/-- The date before or after, by at most one day. -/
def shiftDate (year : Int) (month day : Nat) (shift : Int) : Int × Nat × Nat :=
  if 0 < shift then
    if day < daysInMonth year month then (year, month, day + 1)
    else if month < 12 then (year, month + 1, 1)
    else (year + 1, 1, 1)
  else if shift < 0 then
    if 1 < day then (year, month, day - 1)
    else if 1 < month then (year, month - 1, daysInMonth year (month - 1))
    else (year - 1, 12, 31)
  else (year, month, day)

/-- The instant at which a clock ahead of universal time by `offset`
minutes shows the given fields. -/
def ofLocal (t : Timestamp) (offset : Int) : Option Timestamp :=
  if offset = 0 then some t
  else
    let m : Int := (t.hour * 60 + t.minute : Nat) - offset
    let (year, month, day) := shiftDate t.year t.month t.day (m.fdiv 1440)
    let m := (m.fmod 1440).toNat
    ofFields? year month day (m / 60) (m % 60) t.second t.nano

/-- The instant that a text names. -/
def readChars (cs : List Char) : Option Timestamp := do
  let (year, cs) ← readYear cs
  let cs ← readMark '-' cs
  let (month, cs) ← readField cs
  let cs ← readMark '-' cs
  let (day, cs) ← readField cs
  let cs ← match cs with
    | c :: cs => if c = 'T' ∨ c = 't' ∨ c = ' ' then some cs else none
    | [] => none
  let (hour, cs) ← readField cs
  let cs ← readMark ':' cs
  let (minute, cs) ← readField cs
  let cs ← readMark ':' cs
  let (second, cs) ← readField cs
  let (nano, cs) ← readFraction cs
  let (offset, cs) ← readOffset (Text.trimLeft cs)
  if !(Text.trimLeft cs).isEmpty then none
  else
    let (second, nano) := if second = 60 then (59, nano + 1000000000) else (second, nano)
    let shown ← ofFields? year month day hour minute second nano
    ofLocal shown offset

def read (text : String) : Option Timestamp := readChars text.toList

instance : Codec Timestamp where
  encode t := .str t.text
  decodeAs
    | _, .str text => read text
    | _, _ => none

end Timestamp

end Workflow
