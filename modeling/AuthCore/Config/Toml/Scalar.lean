import AuthCore.Config.Toml.Text
import AuthCore.Config.Raw
import AuthCore.Time.Calendar

set_option autoImplicit false

namespace AuthCore.Config.Toml

def digits? (isDigit : Char → Bool) : List Char → Option (List Char)
  | [] => none
  | [c] => if isDigit c then some [c] else none
  | c :: '_' :: cs => if isDigit c then (digits? isDigit cs).map (c :: ·) else none
  | c :: cs => if isDigit c then (digits? isDigit cs).map (c :: ·) else none

def inBase? (base : Nat) (cs : List Char) : Option Int := do
  let isDigit := fun c => ((Text.Hex.digitValue? c).map fun d => decide (d < base)).getD false
  let ds ← digits? isDigit cs
  let n := ds.foldl (fun n c => n * base + (Text.Hex.digitValue? c).getD 0) 0
  if n < limit63 then return n else none

/-- A whole number in decimal has no zero before other digits. -/
def decimal? (cs : List Char) : Option (List Char) := do
  let ds ← digits? Text.Decimal.isDigit cs
  match ds with
  | '0' :: _ :: _ => none
  | _ => return ds

def integer? (negative : Bool) (cs : List Char) : Option Raw := do
  let n ← Text.Decimal.read? (← decimal? cs)
  let i : Int := if negative then -(n : Int) else n
  if inInt64 i then return .integer i else none

def isExponentMark (c : Char) : Bool := c == 'e' || c == 'E'

def float? (negative : Bool) (cs : List Char) : Option Raw := do
  let mantissa := cs.takeWhile fun c => !isExponentMark c
  let exponent := cs.drop mantissa.length
  let whole := mantissa.takeWhile (· != '.')
  let w ← decimal? whole
  let f ←
    match mantissa.drop whole.length with
    | [] => some []
    | _ :: fraction => digits? Text.Decimal.isDigit fraction
  let e ←
    match exponent with
    | [] => some (0 : Int)
    | _ :: '-' :: ds =>
      ((digits? Text.Decimal.isDigit ds).bind Text.Decimal.read?).map fun n => -(n : Int)
    | _ :: '+' :: ds => ((digits? Text.Decimal.isDigit ds).bind Text.Decimal.read?).map Int.ofNat
    | _ :: ds => ((digits? Text.Decimal.isDigit ds).bind Text.Decimal.read?).map Int.ofNat
  let n ← Text.Decimal.read? (w ++ f)
  match Binary64.ofDecimal negative n (e - f.length) with
  | .infinite _ => none
  | x => return .float x

def unsigned? (negative : Bool) (cs : List Char) : Option Raw :=
  if cs = ['i', 'n', 'f'] then some (.float (.infinite negative))
  else if cs = ['n', 'a', 'n'] then some (.float .nan)
  else if cs.any fun c => c == '.' || isExponentMark c then float? negative cs
  else integer? negative cs

def number? : List Char → Option Raw
  | '0' :: 'x' :: cs => (inBase? 16 cs).map Raw.integer
  | '0' :: 'o' :: cs => (inBase? 8 cs).map Raw.integer
  | '0' :: 'b' :: cs => (inBase? 2 cs).map Raw.integer
  | '-' :: cs => unsigned? true cs
  | '+' :: cs => unsigned? false cs
  | cs => unsigned? false cs

def fixed? (width : Nat) (cs : List Char) : Option (Nat × List Char) :=
  let ds := (cs.take width).takeWhile Text.Decimal.isDigit
  if ds.length = width then (Text.Decimal.read? ds).map fun n => (n, cs.drop width) else none

def mark? (c : Char) : List Char → Option (List Char)
  | d :: cs => if d = c then some cs else none
  | [] => none

def date? (cs : List Char) : Option (List Char × List Char) := do
  let (year, rest) ← fixed? 4 cs
  let (month, rest) ← fixed? 2 (← mark? '-' rest)
  let (day, rest) ← fixed? 2 (← mark? '-' rest)
  let date : Time.Date := ⟨year, month, day⟩
  if date.Valid then return (cs.take 10, rest) else none

/-- The fraction of a second as text: nine digits at most, without zeros at its end. -/
def fraction? : List Char → Option (List Char × List Char)
  | '.' :: cs =>
    let ds := cs.takeWhile Text.Decimal.isDigit
    let kept := ((ds.take 9).reverse.dropWhile (· == '0')).reverse
    if ds.isEmpty then none
    else some (if kept.isEmpty then [] else '.' :: kept, cs.drop ds.length)
  | cs => some ([], cs)

def time? (cs : List Char) : Option (List Char × List Char) := do
  let (hour, rest) ← fixed? 2 cs
  let (minute, rest) ← fixed? 2 (← mark? ':' rest)
  let (second, rest) ← fixed? 2 (← mark? ':' rest)
  let (fraction, rest) ← fraction? rest
  if hour < 24 ∧ minute < 60 ∧ second ≤ 60 then return (cs.take 8 ++ fraction, rest) else none

def offset? : List Char → Option (List Char × List Char)
  | c :: cs =>
    if c = 'Z' ∨ c = 'z' then some (['Z'], cs)
    else if c = '+' ∨ c = '-' then do
      let (hours, rest) ← fixed? 2 cs
      let (minutes, rest) ← fixed? 2 (← mark? ':' rest)
      let sign := if c = '-' ∧ hours + minutes = 0 then '+' else c
      if hours < 24 ∧ minutes < 60 then return (sign :: cs.take 5, rest) else none
    else some ([], c :: cs)
  | [] => some ([], [])

def moment? (cs : List Char) : Option (Raw × List Char) :=
  match date? cs with
  | some (date, rest) =>
    let timed : Option (List Char) :=
      match rest with
      | c :: more =>
        if c = 'T' ∨ c = 't' then some more
        else if c = ' ' ∧ (more.headD ' ').isDigit then some more
        else none
      | [] => none
    match timed with
    | none => some (.text (String.ofList date), rest)
    | some more => do
      let (time, rest) ← time? more
      let (offset, rest) ← offset? rest
      return (.text (String.ofList (date ++ 'T' :: (time ++ offset))), rest)
  | none => (time? cs).map fun (time, rest) => (.text (String.ofList time), rest)

def isScalarChar (c : Char) : Bool :=
  ('a' ≤ c && c ≤ 'z') || ('A' ≤ c && c ≤ 'Z') || ('0' ≤ c && c ≤ '9') || c == '_' || c == '-' ||
    c == '+' || c == '.'

def startsMoment (cs : List Char) : Bool :=
  let ds := cs.takeWhile Text.Decimal.isDigit
  match ds.length, cs.drop ds.length with
  | 4, '-' :: _ => true
  | 2, ':' :: _ => true
  | _, _ => false

def scalar? (cs : List Char) : Option (Raw × List Char) :=
  if startsMoment cs then moment? cs
  else
    let word := cs.takeWhile isScalarChar
    let rest := cs.drop word.length
    if word = ['t', 'r', 'u', 'e'] then some (.bool true, rest)
    else if word = ['f', 'a', 'l', 's', 'e'] then some (.bool false, rest)
    else (number? word).map fun n => (n, rest)

end AuthCore.Config.Toml
