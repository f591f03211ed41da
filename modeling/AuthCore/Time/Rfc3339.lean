import AuthCore.Text.Blank
import AuthCore.Text.Decimal
import AuthCore.Time.Instant

/-!
Moments as text. Written in UTC with the fewest digits of the fraction among 0, 3, 6 and 9. Reading
is lenient: blanks before numbers and around the offset, short numbers, signed years, any number of
digits of the fraction, and the leap second.
-/

set_option autoImplicit false

namespace AuthCore.Time.Rfc3339

open AuthCore.Text (dropBlanks)

def number? (width : Nat) (cs : List Char) : Option (Nat × List Char) :=
  let ds := (cs.take width).takeWhile Text.Decimal.isDigit
  (Text.Decimal.read? ds).map fun n => (n, cs.drop ds.length)

def field? (cs : List Char) : Option (Nat × List Char) := number? 2 (dropBlanks cs)

/-- A year of up to four digits, or of any number of digits after a sign. -/
def year? (cs : List Char) : Option (Int × List Char) :=
  match dropBlanks cs with
  | '-' :: rest => (number? rest.length rest).map fun (n, r) => (-(n : Int), r)
  | '+' :: rest => (number? rest.length rest).map fun (n, r) => ((n : Int), r)
  | rest => (number? 4 rest).map fun (n, r) => ((n : Int), r)

def mark? (c : Char) (cs : List Char) : Option (List Char) :=
  match dropBlanks cs with
  | d :: rest => if d = c then some rest else none
  | [] => none

def date? (cs : List Char) : Option (Date × List Char) := do
  let (year, cs) ← year? cs
  let cs ← mark? '-' cs
  let (month, cs) ← field? cs
  let cs ← mark? '-' cs
  let (day, cs) ← field? cs
  return (⟨year, month, day⟩, cs)

def separator? : List Char → Option (List Char)
  | c :: rest => if c = 't' ∨ c = 'T' ∨ c = ' ' then some rest else none
  | [] => none

/-- A fraction after a point, in nanoseconds; further digits are dropped. -/
def fraction? : List Char → Option (Nat × List Char)
  | '.' :: rest => do
    let ds := (rest.take 9).takeWhile Text.Decimal.isDigit
    let n ← Text.Decimal.read? ds
    return (n * Nat.pow 10 (9 - ds.length), (rest.drop ds.length).dropWhile Text.Decimal.isDigit)
  | cs => some (0, cs)

/-- Second of the day and nanoseconds. Second 60 lies in the last second of its minute. -/
def time? (cs : List Char) : Option (Nat × Nat × List Char) := do
  let (hour, cs) ← field? cs
  let cs ← mark? ':' cs
  let (minute, cs) ← field? cs
  let cs ← mark? ':' cs
  let (second, cs) ← field? cs
  let (nanos, cs) ← fraction? cs
  if 24 ≤ hour ∨ 60 ≤ minute ∨ 61 ≤ second then none
  else
    let start := hour * 3600 + minute * 60
    return if second = 60 then (start + 59, nanos + nanosPerSecond, cs)
      else (start + second, nanos, cs)

def digitPair? : List Char → Option (Nat × List Char)
  | c :: d :: rest => (Text.Decimal.read? [c, d]).map fun n => (n, rest)
  | _ => none

def isColonOrBlank (c : Char) : Bool := c == ':' || Text.isBlank c

def offsetDigits? (cs : List Char) : Option (Int × List Char) := do
  let (hours, cs) ← digitPair? cs
  let (minutes, cs) ← digitPair? (cs.dropWhile isColonOrBlank)
  if hours < 24 ∧ minutes < 60 then return ((hours * 3600 + minutes * 60 : Nat), cs) else none

def offset? : List Char → Option (Int × List Char)
  | [] => none
  | c :: cs =>
    if ((c :: cs).take 3).map Char.toLower = ['u', 't', 'c'] then some (0, cs.drop 2)
    else if c = 'Z' ∨ c = 'z' then some (0, cs)
    else if c = '+' then offsetDigits? cs
    else if c = '-' ∨ c = Char.ofNat 0x2212 then
      (offsetDigits? cs).map fun (o, r) => (-o, r)
    else none

def readChars? (cs : List Char) : Option Instant := do
  let (date, cs) ← date? cs
  let cs ← separator? cs
  let (second, nanos, cs) ← time? cs
  let (offset, cs) ← offset? (dropBlanks cs)
  let seconds := date.toDays * secondsPerDay + second
  if (dropBlanks cs).isEmpty ∧ date.Valid ∧ Instant.inRange seconds ∧
      Instant.inRange (seconds - offset) then
    return ⟨seconds - offset, nanos⟩
  else none

def read? (s : String) : Option Instant := readChars? s.toList

/-- Four digits, or a sign and at least four. -/
def writeYear (year : Int) : List Char :=
  if 0 ≤ year ∧ year ≤ 9999 then Text.Decimal.padded 4 year.toNat
  else (if year < 0 then '-' else '+') :: Text.Decimal.padded 4 year.natAbs

def writeFraction (nanos : Nat) : List Char :=
  if nanos = 0 then []
  else if nanos % 1000000 = 0 then '.' :: Text.Decimal.padded 3 (nanos / 1000000)
  else if nanos % 1000 = 0 then '.' :: Text.Decimal.padded 6 (nanos / 1000)
  else '.' :: Text.Decimal.padded 9 nanos

def writeChars (t : Instant) : List Char :=
  let date := Date.ofDays t.dayOf
  let s := t.secondOfDay
  let second := s % 60 + t.nanos / nanosPerSecond
  writeYear date.year ++ '-' :: (Text.Decimal.padded 2 date.month ++
    '-' :: (Text.Decimal.padded 2 date.day ++ 'T' :: (Text.Decimal.padded 2 (s / 3600) ++
    ':' :: (Text.Decimal.padded 2 (s / 60 % 60) ++ ':' :: (Text.Decimal.padded 2 second ++
    (writeFraction (t.nanos % nanosPerSecond) ++ ['Z']))))))

def write (t : Instant) : String := String.ofList (writeChars t)

end AuthCore.Time.Rfc3339
