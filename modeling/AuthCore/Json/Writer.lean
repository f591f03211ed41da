import AuthCore.Json.Value
import AuthCore.Text.Hex

set_option autoImplicit false

namespace AuthCore.Json

def escape (c : Char) : List Char :=
  if c = '"' then ['\\', '"']
  else if c = '\\' then ['\\', '\\']
  else if c = '\n' then ['\\', 'n']
  else if c = '\r' then ['\\', 'r']
  else if c = '\t' then ['\\', 't']
  else if c.toNat = 8 then ['\\', 'b']
  else if c.toNat = 12 then ['\\', 'f']
  else if c.toNat < 0x20 then
    ['\\', 'u', '0', '0', Text.Hex.digit (c.toNat / 16), Text.Hex.digit (c.toNat % 16)]
  else [c]

def quoted (s : String) : List Char := '"' :: (s.toList.flatMap escape ++ ['"'])

/-- Doubles: always a point or an exponent, and an exponent outside `1e-5 ≤ |x| < 1e16`. -/
def layout : Shortest.Layout := ⟨false, true, some (-4, 16), "null", "null"⟩

/-- A whole number within 64 bits keeps its digits; any other number is written as its double. -/
def writeNumber (n : Number) : List Char :=
  let double := match n.toBinary64? with
    | some b => (layout.write b).toList
    | none => ['n', 'u', 'l', 'l']
  match n.toInt? with
  | some i =>
    if -(limit63 : Int) ≤ i ∧ i < limit64 then
      (if i < 0 then ['-'] else []) ++ Text.Decimal.digits i.natAbs
    else double
  | none => double

/-- A string that spells no text is shown by a lone surrogate. -/
def writeString : Option String → List Char
  | some s => quoted s
  | none => "\"\\ud800\"".toList

mutual

def writeChars : Value → List Char
  | .null => ['n', 'u', 'l', 'l']
  | .bool true => ['t', 'r', 'u', 'e']
  | .bool false => ['f', 'a', 'l', 's', 'e']
  | .number n => writeNumber n
  | .string t => writeString t
  | .array vs => '[' :: (writeItems vs ++ [']'])
  | .object ms => Char.ofNat 123 :: (writeMembers ms ++ [Char.ofNat 125])

def writeItems : List Value → List Char
  | [] => []
  | [v] => writeChars v
  | v :: vs => writeChars v ++ ',' :: writeItems vs

def writeMembers : List (Option String × Value) → List Char
  | [] => []
  | [(k, v)] => writeString k ++ ':' :: writeChars v
  | (k, v) :: ms => writeString k ++ ':' :: (writeChars v ++ ',' :: writeMembers ms)

end

def write (v : Value) : String := String.ofList (writeChars v)

end AuthCore.Json
