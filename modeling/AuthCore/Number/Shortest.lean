import AuthCore.Number.Binary64

/-!
The fewest decimal digits that read back as the same double. Among the values that round to a
number, the digits name the one on the coarsest decimal grid that has any, and of two on that grid
the nearer. How the digits are laid out is a record of the format that writes them.
-/

set_option autoImplicit false

namespace AuthCore.Shortest

/-- `digits * 10 ^ exponent`. -/
structure Decimal where
  digits : Nat
  exponent : Int
deriving DecidableEq

/-- A positive number `value / unit` and the ends of the interval that rounds to it, over the same
unit. -/
structure Interval where
  low : Nat
  value : Nat
  high : Nat
  unit : Nat
  closed : Bool

/-- The interval of `m * 2 ^ q`. Below a power of two the neighbour is half as far. -/
def interval (m : Nat) (q : Int) : Interval :=
  let below := if m = Binary64.normalLeast ∧ -1074 < q then 1 else 2
  let factor := Nat.pow 2 (q - 2).toNat
  { low := (4 * m - below) * factor
    value := 4 * m * factor
    high := (4 * m + 2) * factor
    unit := Nat.pow 2 (2 - q).toNat
    closed := m % 2 = 0 }

/-- The exponent `e` with `10 ^ e ≤ n / d < 10 ^ (e + 1)` for `n < d`, searched downward from
`e = -k - 1`. -/
def exponentBelowOne (n d : Nat) : (fuel k : Nat) → Int
  | 0, k => -(k : Int) - 1
  | fuel + 1, k => if d ≤ 10 * n then -(k : Int) - 1 else exponentBelowOne (10 * n) d fuel (k + 1)

def decimalExponent (n d : Nat) : Int :=
  if d ≤ n then Binary64.decimalLength (n / d) - 1 else exponentBelowOne n d 330 0

/-- The point `d` of the grid of step `10 ^ e` as a numerator over the unit of `i`, with the
interval on the same denominator. -/
def onGrid (i : Interval) (e : Int) : Interval × Nat :=
  if 0 ≤ e then (i, i.unit * Nat.pow 10 e.toNat)
  else
    let s := Nat.pow 10 (-e).toNat
    (⟨i.low * s, i.value * s, i.high * s, i.unit, i.closed⟩, i.unit)

def holds (i : Interval) (x : Nat) : Bool :=
  if i.closed then decide (i.low ≤ x) && decide (x ≤ i.high)
  else decide (i.low < x) && decide (x < i.high)

def onStep (tieUp : Bool) (i : Interval) (e : Int) : Option Decimal :=
  let (j, step) := onGrid i e
  let d := j.value / step
  let below := holds j (d * step)
  let above := holds j ((d + 1) * step)
  let down := j.value - d * step
  let up := (d + 1) * step - j.value
  if below && above then
    let upward := if down = up then tieUp || d % 2 == 1 else decide (up < down)
    some ⟨if upward then d + 1 else d, e⟩
  else if below then some ⟨d, e⟩
  else if above then some ⟨d + 1, e⟩
  else none

def search (tieUp : Bool) (i : Interval) : (fuel : Nat) → Int → Decimal
  | 0, e => ⟨0, e⟩
  | fuel + 1, e =>
    match onStep tieUp i e with
    | some d => d
    | none => search tieUp i fuel (e - 1)

def trim : (fuel : Nat) → Decimal → Decimal
  | 0, d => d
  | fuel + 1, d => if d.digits % 10 = 0 then trim fuel ⟨d.digits / 10, d.exponent + 1⟩ else d

def shortest (tieUp : Bool) (m : Nat) (q : Int) : Decimal :=
  let i := interval m q
  trim 18 (search tieUp i 18 (decimalExponent i.value i.unit))

structure Layout where
  /-- A tie between two shortest values goes up, else to the even digit. -/
  tieUp : Bool
  /-- A whole number ends in `.0`. -/
  pointZero : Bool
  /-- The place of the decimal point, counted in digits from the first, for which no exponent is
  written; `none` for all. -/
  positional : Option (Int × Int)
  notANumber : String
  infinity : String

def zeros (n : Nat) : List Char := List.replicate n '0'

def withPoint (pointZero : Bool) (ds : List Char) (point : Int) : List Char :=
  let whole : Int := ds.length
  if whole ≤ point then
    ds ++ zeros (point - whole).toNat ++ (if pointZero then ['.', '0'] else [])
  else if 0 < point then ds.take point.toNat ++ '.' :: ds.drop point.toNat
  else '0' :: '.' :: zeros (-point).toNat ++ ds

def withExponent (ds : List Char) (point : Int) : List Char :=
  let e := point - 1
  let tail := 'e' :: (if e < 0 then ['-'] else []) ++ Text.Decimal.digits e.natAbs
  match ds with
  | d :: f :: more => d :: '.' :: f :: more ++ tail
  | _ => ds ++ tail

def layOut (l : Layout) (d : Decimal) : List Char :=
  let ds := Text.Decimal.digits d.digits
  let point : Int := ds.length + d.exponent
  match l.positional with
  | none => withPoint l.pointZero ds point
  | some (low, high) =>
    if low ≤ point ∧ point ≤ high then withPoint l.pointZero ds point else withExponent ds point

def Layout.write (l : Layout) : Binary64 → String
  | .nan => l.notANumber
  | .infinite negative => (if negative then "-" else "") ++ l.infinity
  | .finite negative m q =>
    let sign := if negative then ['-'] else []
    let body := if m = 0 then withPoint l.pointZero ['0'] 1 else layOut l (shortest l.tieUp m q)
    String.ofList (sign ++ body)

/-- A number turned into text: never an exponent, and no point in a whole number. -/
def plain : Layout := ⟨true, false, none, "NaN", "inf"⟩

end AuthCore.Shortest
