import AuthCore.Text.Decimal

/-!
Double-precision numbers as exact values. A finite number is a significand times a power of two,
and every operation rounds one exact ratio to the nearest such value, a tie to the even
significand.
-/

set_option autoImplicit false

namespace AuthCore

/-- `finite negative m q` is `± m * 2 ^ q` with `m < 2 ^ 53` and `-1074 ≤ q`; `m` has all its 53
bits unless `q = -1074`. -/
inductive Binary64 where
  | nan
  | infinite (negative : Bool)
  | finite (negative : Bool) (m : Nat) (q : Int)
deriving DecidableEq

namespace Binary64

def normalLeast : Nat := 0x10000000000000

def zero (negative : Bool) : Binary64 := finite negative 0 (-1074)

def scaleByTwo (n d : Nat) (e : Int) : Nat × Nat :=
  if 0 ≤ e then (n * Nat.pow 2 e.toNat, d) else (n, d * Nat.pow 2 (-e).toNat)

/-- The quotient rounded to nearest, a tie to the even neighbour. -/
def roundDiv (n d : Nat) : Nat :=
  let low := n / d
  let rest := n % d
  if 2 * rest < d then low
  else if d < 2 * rest then low + 1
  else low + low % 2

/-- The exponent `e` with `2 ^ e ≤ n / d < 2 ^ (e + 1)`, for positive `n` and `d`. -/
def binaryExponent (n d : Nat) : Int :=
  let e : Int := n.log2 - d.log2
  let (p, r) := scaleByTwo n d (-e)
  if p < r then e - 1 else e

def ofRatio (negative : Bool) (n d : Nat) : Binary64 :=
  if n = 0 then zero negative
  else
    let q := max (binaryExponent n d - 52) (-1074)
    let (p, r) := scaleByTwo n d (-q)
    let m := roundDiv p r
    let (m, q) := if m = 2 * normalLeast then (normalLeast, q + 1) else (m, q)
    if 971 < q then infinite negative else finite negative m q

def decimalLength (n : Nat) : Nat := if n = 0 then 0 else (Text.Decimal.digits n).length

/-- The nearest number to `± n * 10 ^ e`. Exponents far outside the range are decided without
the power. -/
def ofDecimal (negative : Bool) (n : Nat) (e : Int) : Binary64 :=
  let size : Int := decimalLength n + e
  if n = 0 then zero negative
  else if 400 < size then infinite negative
  else if size < -400 then zero negative
  else if 0 ≤ e then ofRatio negative (n * Nat.pow 10 e.toNat) 1
  else ofRatio negative n (Nat.pow 10 (-e).toNat)

def isFinite : Binary64 → Bool
  | finite .. => true
  | _ => false

/-- Products and quotients of finite numbers; anything else is not a number. -/
def mul : Binary64 → Binary64 → Binary64
  | finite s m q, finite t n r =>
    let (a, b) := scaleByTwo (m * n) 1 (q + r)
    ofRatio (s != t) a b
  | _, _ => nan

def div : Binary64 → Binary64 → Binary64
  | finite s m q, finite t n r =>
    if n = 0 then nan
    else
      let (a, b) := scaleByTwo m n (q - r)
      ofRatio (s != t) a b
  | _, _ => nan

/-- The nearest whole number within `[0, limit]`, a half going up; zero for no number. -/
def toNatWithin (limit : Nat) : Binary64 → Nat
  | nan => 0
  | infinite negative => if negative then 0 else limit
  | finite negative m q =>
    if negative then 0
    else if 0 ≤ q then min limit (m * Nat.pow 2 q.toNat)
    else min limit ((m + Nat.pow 2 ((-q).toNat - 1)) / Nat.pow 2 (-q).toNat)

def lowerAscii (cs : List Char) : List Char := cs.map Char.toLower

def takeDigits (cs : List Char) : List Char × List Char :=
  (cs.takeWhile Text.Decimal.isDigit, cs.dropWhile Text.Decimal.isDigit)

def readExponent? : List Char → Option Int
  | [] => some 0
  | c :: cs =>
    if c = 'e' ∨ c = 'E' then
      match cs with
      | '-' :: ds => (Text.Decimal.read? ds).map fun n => -(n : Int)
      | '+' :: ds => (Text.Decimal.read? ds).map Int.ofNat
      | ds => (Text.Decimal.read? ds).map Int.ofNat
    else none

def readUnsigned? (negative : Bool) (cs : List Char) : Option Binary64 :=
  let word := lowerAscii cs
  if word = ['i', 'n', 'f'] ∨ word = ['i', 'n', 'f', 'i', 'n', 'i', 't', 'y'] then
    some (infinite negative)
  else if word = ['n', 'a', 'n'] then some nan
  else
    let (whole, rest) := takeDigits cs
    let (fraction, rest) :=
      match rest with
      | '.' :: more => takeDigits more
      | _ => ([], rest)
    do
      let n ← Text.Decimal.read? (whole ++ fraction)
      let e ← readExponent? rest
      return ofDecimal negative n (e - fraction.length)

/-- A number in decimal, or the word for an infinity or for no number in any case, with an
optional sign. -/
def read? : List Char → Option Binary64
  | '-' :: cs => readUnsigned? true cs
  | '+' :: cs => readUnsigned? false cs
  | cs => readUnsigned? false cs

end Binary64

end AuthCore
