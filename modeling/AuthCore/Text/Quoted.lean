import AuthCore.Text.Printable

set_option autoImplicit false

namespace AuthCore.Text

def lowerHex (n : Nat) : List Char := Nat.toDigits 16 n

def quoteChar (c : Char) : List Char :=
  if c = '"' then ['\\', '"']
  else if c = '\\' then ['\\', '\\']
  else if c = '\t' then ['\\', 't']
  else if c = '\n' then ['\\', 'n']
  else if c = '\r' then ['\\', 'r']
  else if c.toNat = 0 then ['\\', '0']
  else if isPrintable c then [c]
  else ['\\', 'u', Char.ofNat 123] ++ lowerHex c.toNat ++ [Char.ofNat 125]

def quote (s : String) : String :=
  String.ofList ('"' :: (s.toList.flatMap quoteChar ++ ['"']))

/-- A record for diagnostics: `Name { field: value, .. }`, where the two dots say that fields are
left out. -/
def describe (name : String) (fields : List (String × String)) (complete : Bool) : String :=
  let shown := fields.map fun f => f.1 ++ ": " ++ f.2
  let parts := if complete then shown else shown ++ [".."]
  name ++ " \x7b " ++ ", ".intercalate parts ++ " \x7d"

end AuthCore.Text
