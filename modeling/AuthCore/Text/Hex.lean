import AuthCore.Text.Utf8

set_option autoImplicit false

namespace AuthCore.Text.Hex

def digit (n : Nat) : Char :=
  if n < 10 then Char.ofNat ('0'.toNat + n) else Char.ofNat ('a'.toNat + n - 10)

def digitValue? (c : Char) : Option Nat :=
  if '0' ≤ c ∧ c ≤ '9' then some (c.toNat - '0'.toNat)
  else if 'a' ≤ c ∧ c ≤ 'f' then some (c.toNat - 'a'.toNat + 10)
  else if 'A' ≤ c ∧ c ≤ 'F' then some (c.toNat - 'A'.toNat + 10)
  else none

def encodeChars : Bytes → List Char
  | [] => []
  | b :: bs => digit (b.toNat / 16) :: digit (b.toNat % 16) :: encodeChars bs

def encode (bs : Bytes) : String := String.ofList (encodeChars bs)

def decodeChars? : List Char → Option Bytes
  | [] => some []
  | [_] => none
  | h :: l :: cs => do
    let hi ← digitValue? h
    let lo ← digitValue? l
    let rest ← decodeChars? cs
    return UInt8.ofNat (hi * 16 + lo) :: rest

def decode? (s : String) : Option Bytes := decodeChars? s.toList

end AuthCore.Text.Hex
