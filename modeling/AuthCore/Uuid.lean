import AuthCore.Text.Hex
import AuthCore.Text.Split

set_option autoImplicit false

namespace AuthCore

structure Uuid where
  bytes : Bytes
  size : bytes.length = 16
deriving DecidableEq

namespace Uuid

def ofBytes? (bs : Bytes) : Option Uuid :=
  if h : bs.length = 16 then some ⟨bs, h⟩ else none

def hyphenate (h : List Char) : List Char :=
  h.take 8 ++ '-' :: ((h.drop 8).take 4 ++ '-' :: ((h.drop 12).take 4 ++
    '-' :: ((h.drop 16).take 4 ++ '-' :: h.drop 20)))

def chars (u : Uuid) : List Char := hyphenate (Text.Hex.encodeChars u.bytes)

def text (u : Uuid) : String := String.ofList u.chars

def groups : List Nat := [8, 4, 4, 4, 12]

def readHyphenated? (cs : List Char) : Option Uuid :=
  let parts := Text.split '-' cs
  if parts.map List.length = groups then
    (Text.Hex.decodeChars? parts.flatten).bind ofBytes?
  else none

def readPlain? (cs : List Char) : Option Uuid :=
  if cs.length = 32 then (Text.Hex.decodeChars? cs).bind ofBytes? else none

def urn : List Char := "urn:uuid:".toList

def readBraced? (cs : List Char) : Option Uuid :=
  match cs with
  | c :: rest =>
    if c = Char.ofNat 123 ∧ rest.getLast? = some (Char.ofNat 125) then
      readHyphenated? rest.dropLast
    else none
  | [] => none

def readUrn? (cs : List Char) : Option Uuid :=
  if (cs.take urn.length).map Char.toLower = urn then readHyphenated? (cs.drop urn.length)
  else none

def readChars? (cs : List Char) : Option Uuid :=
  readHyphenated? cs <|> readPlain? cs <|> readBraced? cs <|> readUrn? cs

def read? (s : String) : Option Uuid := readChars? s.toList

def version (u : Uuid) : Nat := (u.bytes.getD 6 0).toNat / 16

/-- Marks sixteen bytes as a random identifier of the standard layout. -/
def mark (bs : Bytes) : Bytes :=
  (bs.modify 6 fun b => b &&& 0x0F ||| 0x40).modify 8 fun b => b &&& 0x3F ||| 0x80

def ofRandom? (bs : Bytes) : Option Uuid := ofBytes? (mark (bs.take 16))

end Uuid

end AuthCore
