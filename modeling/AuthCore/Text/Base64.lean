import AuthCore.Text.Utf8

/-!
Base64. The standard alphabet is written with padding and read back only in that one written
form: full quads, padding present, no stray bits. The URL alphabet is written without padding.
-/

set_option autoImplicit false

namespace AuthCore.Text.Base64

/-- The alphabets differ in their last two symbols only. -/
structure Alphabet where
  symbol62 : Char
  symbol63 : Char

def standard : Alphabet := ⟨'+', '/'⟩

def urlSafe : Alphabet := ⟨'-', '_'⟩

def Alphabet.symbol (a : Alphabet) (n : Nat) : Char :=
  if n < 26 then Char.ofNat ('A'.toNat + n)
  else if n < 52 then Char.ofNat ('a'.toNat + n - 26)
  else if n < 62 then Char.ofNat ('0'.toNat + n - 52)
  else if n = 62 then a.symbol62
  else a.symbol63

def Alphabet.value? (a : Alphabet) (c : Char) : Option Nat :=
  if 'A' ≤ c ∧ c ≤ 'Z' then some (c.toNat - 'A'.toNat)
  else if 'a' ≤ c ∧ c ≤ 'z' then some (c.toNat - 'a'.toNat + 26)
  else if '0' ≤ c ∧ c ≤ '9' then some (c.toNat - '0'.toNat + 52)
  else if c = a.symbol62 then some 62
  else if c = a.symbol63 then some 63
  else none

/-- `pad` follows a group that is not full; it is `['=']` or empty. -/
def encodeWith (a : Alphabet) (pad : List Char) : Bytes → List Char
  | [] => []
  | [x] =>
    let n := x.toNat
    a.symbol (n / 4) :: a.symbol (n % 4 * 16) :: (pad ++ pad)
  | [x, y] =>
    let n := x.toNat * 256 + y.toNat
    a.symbol (n / 1024) :: a.symbol (n / 16 % 64) :: a.symbol (n % 16 * 4) :: pad
  | x :: y :: z :: rest =>
    let n := x.toNat * 65536 + y.toNat * 256 + z.toNat
    a.symbol (n / 262144) :: a.symbol (n / 4096 % 64) :: a.symbol (n / 64 % 64) ::
      a.symbol (n % 64) :: encodeWith a pad rest

theorem encodeWith_ne_nil (a : Alphabet) (pad : List Char) {bs : Bytes} (h : bs ≠ []) :
    encodeWith a pad bs ≠ [] := by
  match bs with
  | [_] | [_, _] | _ :: _ :: _ :: _ => simp [encodeWith]

def encode (bs : Bytes) : String := String.ofList (encodeWith standard ['='] bs)

def encodeUrl (bs : Bytes) : String := String.ofList (encodeWith urlSafe [] bs)

/-- One byte from two symbols whose spare bits are zero. -/
def one? (a : Alphabet) (c d : Char) : Option Bytes := do
  let u ← a.value? c
  let v ← a.value? d
  if v % 16 = 0 then return [UInt8.ofNat (u * 4 + v / 16)] else none

def two? (a : Alphabet) (c d e : Char) : Option Bytes := do
  let u ← a.value? c
  let v ← a.value? d
  let w ← a.value? e
  if w % 4 = 0 then
    let n := u * 1024 + v * 16 + w / 4
    return [UInt8.ofNat (n / 256), UInt8.ofNat (n % 256)]
  else none

def three? (a : Alphabet) (c d e f : Char) : Option Bytes := do
  let u ← a.value? c
  let v ← a.value? d
  let w ← a.value? e
  let x ← a.value? f
  let n := u * 262144 + v * 4096 + w * 64 + x
  return [UInt8.ofNat (n / 65536), UInt8.ofNat (n / 256 % 256), UInt8.ofNat (n % 256)]

def decodeChars? : List Char → Option Bytes
  | [] => some []
  | [c, d, e, f] =>
    if f = '=' then if e = '=' then one? standard c d else two? standard c d e
    else three? standard c d e f
  | c :: d :: e :: f :: rest => do
    let group ← three? standard c d e f
    let bytes ← decodeChars? rest
    return group ++ bytes
  | _ => none

def decode? (s : String) : Option Bytes := decodeChars? s.toList

def decodeUrlChars? : List Char → Option Bytes
  | [] => some []
  | [_] => none
  | [c, d] => one? urlSafe c d
  | [c, d, e] => two? urlSafe c d e
  | c :: d :: e :: f :: rest => do
    let group ← three? urlSafe c d e f
    let bytes ← decodeUrlChars? rest
    return group ++ bytes

def decodeUrl? (s : String) : Option Bytes := decodeUrlChars? s.toList

end AuthCore.Text.Base64
