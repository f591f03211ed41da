import AuthCore.Number.Limits

set_option autoImplicit false

namespace AuthCore.Text.Decimal

def digitValue? (c : Char) : Option Nat :=
  if '0' ≤ c ∧ c ≤ '9' then some (c.toNat - '0'.toNat) else none

def isDigit (c : Char) : Bool := (digitValue? c).isSome

/-- The digits of `n`, without leading zeros. -/
def digits (n : Nat) : List Char := Nat.toDigits 10 n

def write (n : Nat) : String := String.ofList (digits n)

/-- The number that `cs` continues, when its digits so far spell `acc`. -/
def readFrom? (acc : Nat) : List Char → Option Nat
  | [] => some acc
  | c :: cs =>
    match digitValue? c with
    | some d => readFrom? (acc * 10 + d) cs
    | none => none

def read? : List Char → Option Nat
  | [] => none
  | c :: cs => readFrom? 0 (c :: cs)

/-- An optional plus sign and digits, below `bound`. -/
def readBelow? (bound : Nat) (cs : List Char) : Option Nat :=
  let body := match cs with
    | '+' :: rest => rest
    | _ => cs
  (read? body).filter fun n => decide (n < bound)

def readInt64? (cs : List Char) : Option Int :=
  match cs with
  | '-' :: rest => (read? rest).bind fun n => if n ≤ limit63 then some (-(n : Int)) else none
  | _ => (readBelow? limit63 cs).map Int.ofNat

def padded (width n : Nat) : List Char :=
  let ds := digits n
  List.replicate (width - ds.length) '0' ++ ds

end AuthCore.Text.Decimal
