import LeaseQueue.Text.Blank
import LeaseQueue.Time.Calendar
import LeaseQueue.Time.Timestamp
import LeaseQueue.Json.Reading
/-!
# Written moments

Moments are written in universal time with as many groups of three digits of a
fraction as they need. Reading is more lenient: any offset, one digit where two
are usual, blanks between the parts, and years beyond four digits with a sign.
-/

namespace LeaseQueue
namespace Timestamp

/-! ## Writing -/

def padded (width n : Nat) : List Char :=
  let ds := Nat.toDigits 10 n
  List.replicate (width - ds.length) '0' ++ ds

def writeYear (year : Int) : List Char :=
  if 0 ≤ year && year ≤ 9999 then padded 4 year.toNat
  else (if year < 0 then '-' else '+') :: padded 4 year.natAbs

def writeFraction (nanos : Nat) : List Char :=
  if nanos = 0 then []
  else if nanos % 1000000 = 0 then '.' :: padded 3 (nanos / 1000000)
  else if nanos % 1000 = 0 then '.' :: padded 6 (nanos / 1000)
  else '.' :: padded 9 nanos

def write (t : Timestamp) : List Char :=
  let (year, month, day) := Calendar.dateOf (t.seconds / secondsPerDay)
  let s := (t.secondOfDay).toNat
  let second := s % 60 + (if t.isLeap then 1 else 0)
  let nanos := if t.isLeap then t.nanos - nanosPerSecond else t.nanos
  writeYear year ++ '-' :: padded 2 month ++ '-' :: padded 2 day ++
    'T' :: padded 2 (s / 3600) ++ ':' :: padded 2 (s / 60 % 60) ++ ':' :: padded 2 second ++
    writeFraction nanos ++ ['Z']

def render (t : Timestamp) : String := String.ofList t.write

/-! ## Reading -/

def readNumber (width : Nat) (cs : List Char) : Option (Nat × List Char) :=
  let ds := (cs.take width).takeWhile Char.isDigit
  if ds.isEmpty then none else some (Document.digitsValue ds, cs.drop ds.length)

def readPart (cs : List Char) : Option (Nat × List Char) :=
  readNumber 2 (Text.skipBlank cs)

def readMark (mark : Char) (cs : List Char) : Option (List Char) :=
  match Text.skipBlank cs with
  | c :: rest => if c = mark then some rest else none
  | [] => none

def readYear (cs : List Char) : Option (Int × List Char) :=
  match Text.skipBlank cs with
  | '-' :: rest => do
      let (n, rest) ← readNumber rest.length rest
      return (-(n : Int), rest)
  | '+' :: rest => do
      let (n, rest) ← readNumber rest.length rest
      return ((n : Int), rest)
  | rest => do
      let (n, rest) ← readNumber 4 rest
      return ((n : Int), rest)

/-- A fraction of a second in nanoseconds; digits beyond the ninth do not count. -/
def readFraction (cs : List Char) : Option (Nat × List Char) :=
  match cs with
  | '.' :: rest => do
      let (n, after) ← readNumber 9 rest
      let width := rest.length - after.length
      return (n * Nat.pow 10 (9 - width), after.dropWhile Char.isDigit)
  | _ => some (0, cs)

def readTwo : List Char → Option (Nat × List Char)
  | a :: b :: rest =>
      if a.isDigit && b.isDigit then some (Document.digitsValue [a, b], rest) else none
  | _ => none

def readOffset (cs : List Char) : Option (Int × List Char) :=
  let signed (sign : Int) (rest : List Char) : Option (Int × List Char) := do
    let (hours, rest) ← readTwo rest
    let (minutes, rest) ← readTwo (rest.dropWhile fun c => c = ':' || Text.isBlank c)
    if 60 ≤ minutes then none
    else some (sign * (hours * 3600 + minutes * 60 : Nat), rest)
  match cs with
  | c :: rest =>
      if c = 'Z' || c = 'z' then some (0, rest)
      else if c = '+' then signed 1 rest
      else if c = '-' || c = '\u2212' then signed (-1) rest
      else none
  | [] => none

/-- The zone at the end of a time: the word for universal time in any case, or an offset. -/
def readZone (cs : List Char) : Option (Int × List Char) :=
  match cs with
  | a :: b :: c :: rest =>
      if a.toUpper = 'U' && b.toUpper = 'T' && c.toUpper = 'C' then some (0, rest)
      else readOffset cs
  | _ => readOffset cs

def yearRange : Int × Int := (-262143, 262142)

def inRange (t : Timestamp) : Bool :=
  let (year, _, _) := Calendar.dateOf (t.seconds / secondsPerDay)
  yearRange.1 ≤ year && year ≤ yearRange.2

/-- A moment from the parts of a date and time at an offset, if they exist. -/
def ofParts (year : Int) (month day hour minute second nanos : Nat) (offset : Int) :
    Option Timestamp :=
  if Calendar.isDate year month day && hour ≤ 23 && minute ≤ 59 && second ≤ 60 &&
      yearRange.1 ≤ year && year ≤ yearRange.2 && offset.natAbs < secondsPerDay then
    let leap := second = 60
    let clock : Int := hour * 3600 + minute * 60 + (if leap then 59 else second)
    let t : Timestamp :=
      ⟨Calendar.dayNumber year month day * secondsPerDay + clock - offset,
        if leap then nanosPerSecond + nanos else nanos⟩
    if t.inRange then some t else none
  else none

def read (cs : List Char) : Option Timestamp := do
  let (year, cs) ← readYear cs
  let cs ← readMark '-' cs
  let (month, cs) ← readPart cs
  let cs ← readMark '-' cs
  let (day, cs) ← readPart cs
  let cs ← match cs with
    | c :: rest => if c = 't' || c = 'T' || c = ' ' then some rest else none
    | [] => none
  let (hour, cs) ← readPart cs
  let cs ← readMark ':' cs
  let (minute, cs) ← readPart cs
  let cs ← readMark ':' cs
  let (second, cs) ← readPart cs
  let (nanos, cs) ← readFraction cs
  let (offset, cs) ← readZone (Text.skipBlank cs)
  if Text.allBlank cs then ofParts year month day hour minute second nanos offset else none

def parse? (s : String) : Option Timestamp := read s.toList

def toJson (t : Timestamp) : Json := .string t.render

def ofDocument (d : Document) : Except Failure Timestamp := do
  match read (← d.toText).toList with
  | some t => return t
  | none => .error .mismatched

end Timestamp
end LeaseQueue
