import AuthCore.Json.Value
import AuthCore.Text.Hex

/-!
Reading JSON. The input is the pieces of a byte string, where a piece that is no character may
stand inside a string only. Reading checks the form alone: numbers may have any size, nesting any
depth, and strings may spell no text.
-/

set_option autoImplicit false

namespace AuthCore.Json

abbrev Input := List (Option Char)

namespace Reader

def isBlank (c : Option Char) : Bool :=
  c == some ' ' || c == some '\t' || c == some '\n' || c == some '\r'

def skip (i : Input) : Input := i.dropWhile isBlank

def word? : List Char → Input → Option Input
  | [], i => some i
  | w :: ws, some c :: i => if c = w then word? ws i else none
  | _ :: _, _ => none

def unit? : Input → Option (Nat × Input)
  | some a :: some b :: some c :: some d :: rest => do
    let w ← Text.Hex.digitValue? a
    let x ← Text.Hex.digitValue? b
    let y ← Text.Hex.digitValue? c
    let z ← Text.Hex.digitValue? d
    return (w * 4096 + x * 256 + y * 16 + z, rest)
  | _ => none

def lowHalf? : Input → Option (Nat × Input)
  | some '\\' :: some 'u' :: rest =>
    match unit? rest with
    | some (u, rest) => if 0xDC00 ≤ u ∧ u ≤ 0xDFFF then some (u, rest) else none
    | none => none
  | _ => none

/-- The character of an escape with code unit `u`, where `rest` follows; `none` in place of the
character for a lone surrogate. -/
def escaped (u : Nat) (rest : Input) : Option Char × Input :=
  if 0xD800 ≤ u ∧ u ≤ 0xDBFF then
    match lowHalf? rest with
    | some (l, rest) => (some (Char.ofNat (0x10000 + (u - 0xD800) * 1024 + (l - 0xDC00))), rest)
    | none => (none, rest)
  else if 0xDC00 ≤ u ∧ u ≤ 0xDFFF then (none, rest)
  else (some (Char.ofNat u), rest)

def shortEscape? (c : Char) : Option Char :=
  if c = '"' ∨ c = '\\' ∨ c = '/' then some c
  else if c = 'b' then some (Char.ofNat 8)
  else if c = 'f' then some (Char.ofNat 12)
  else if c = 'n' then some '\n'
  else if c = 'r' then some '\r'
  else if c = 't' then some '\t'
  else none

/-- The rest of a string, after its opening quote. `acc` holds the text so far in reverse, as long
as there is one. -/
def string? : (fuel : Nat) → (acc : Option (List Char)) → Input → Option (Option String × Input)
  | 0, _, _ => none
  | _, _, [] => none
  | fuel + 1, _, none :: rest => string? fuel none rest
  | fuel + 1, acc, some c :: rest =>
    if c = '"' then some (acc.map fun cs => String.ofList cs.reverse, rest)
    else if c = '\\' then
      match rest with
      | some 'u' :: rest =>
        match unit? rest with
        | some (u, rest) =>
          let (d, rest) := escaped u rest
          string? fuel (acc.bind fun cs => d.map (· :: cs)) rest
        | none => none
      | some e :: rest =>
        match shortEscape? e with
        | some d => string? fuel (acc.map (d :: ·)) rest
        | none => none
      | _ => none
    else if c.toNat < 0x20 then none
    else string? fuel (acc.map (c :: ·)) rest

/-- Digits gathered so far: those that fit in 64 bits, and the power of ten they lack. -/
structure Gathered where
  significand : Nat
  exponent : Int
  full : Bool

def Gathered.whole (g : Gathered) (d : Nat) : Gathered :=
  if g.full || decide (limit64 ≤ g.significand * 10 + d) then
    { g with exponent := g.exponent + 1, full := true }
  else { g with significand := g.significand * 10 + d }

def Gathered.fraction (g : Gathered) (d : Nat) : Gathered :=
  if g.full || decide (limit64 ≤ g.significand * 10 + d) then { g with full := true }
  else { g with significand := g.significand * 10 + d, exponent := g.exponent - 1 }

def digits : Input → List Nat × Input
  | some c :: rest =>
    match Text.Decimal.digitValue? c with
    | some d => let (ds, rest) := digits rest; (d :: ds, rest)
    | none => ([], some c :: rest)
  | i => ([], i)

def magnitude (ds : List Nat) : Nat := ds.foldl (fun n d => n * 10 + d) 0

def exponent? (i : Input) : Option (Int × Input) :=
  let (negative, i) :=
    match i with
    | some '-' :: rest => (true, rest)
    | some '+' :: rest => (false, rest)
    | i => (false, i)
  match digits i with
  | ([], _) => none
  | (ds, rest) => some (if negative then -(magnitude ds : Int) else magnitude ds, rest)

def finish? (negative : Bool) (g : Gathered) : Input → Option (Number × Input)
  | some c :: rest =>
    if c = 'e' ∨ c = 'E' then
      (exponent? rest).map fun (e, rest) =>
        (.decimal negative g.significand (g.exponent + e), rest)
    else some (.decimal negative g.significand g.exponent, some c :: rest)
  | i => some (.decimal negative g.significand g.exponent, i)

/-- A number after its sign. No zero stands before another digit. -/
def unsigned? (negative : Bool) (i : Input) : Option (Number × Input) :=
  match digits i with
  | ([], _) => none
  | (0 :: _ :: _, _) => none
  | (ds, rest) =>
    let g := ds.foldl Gathered.whole ⟨0, 0, false⟩
    match rest with
    | some c :: more =>
      if c = '.' then
        match digits more with
        | ([], _) => none
        | (fs, rest) => finish? negative (fs.foldl Gathered.fraction { g with full := false }) rest
      else if c = 'e' ∨ c = 'E' then finish? negative g rest
      else some (.integer negative (magnitude ds), rest)
    | _ => some (.integer negative (magnitude ds), rest)

def number? : Input → Option (Number × Input)
  | some '-' :: rest => unsigned? true rest
  | i => unsigned? false i

mutual

def value? : (fuel : Nat) → Input → Option (Value × Input)
  | 0, _ => none
  | fuel + 1, i =>
    match skip i with
    | some c :: rest =>
      if c = '"' then (string? (rest.length + 1) (some []) rest).map fun (t, r) => (.string t, r)
      else if c = '[' then
        match skip rest with
        | some ']' :: rest => some (.array [], rest)
        | rest => (items? fuel rest).map fun (vs, r) => (.array vs, r)
      else if c = Char.ofNat 123 then
        match skip rest with
        | some d :: more =>
          if d = Char.ofNat 125 then some (.object [], more)
          else (members? fuel (some d :: more)).map fun (ms, r) => (.object ms, r)
        | _ => none
      else if c = 'n' then (word? ['u', 'l', 'l'] rest).map fun r => (.null, r)
      else if c = 't' then (word? ['r', 'u', 'e'] rest).map fun r => (.bool true, r)
      else if c = 'f' then (word? ['a', 'l', 's', 'e'] rest).map fun r => (.bool false, r)
      else (number? (some c :: rest)).map fun (n, r) => (.number n, r)
    | _ => none

/-- The items of an array up to its end, at least one. -/
def items? : (fuel : Nat) → Input → Option (List Value × Input)
  | 0, _ => none
  | fuel + 1, i =>
    match value? fuel i with
    | none => none
    | some (v, rest) =>
      match skip rest with
      | some ',' :: rest => (items? fuel rest).map fun (vs, r) => (v :: vs, r)
      | some ']' :: rest => some ([v], rest)
      | _ => none

def members? : (fuel : Nat) → Input → Option (List (Option String × Value) × Input)
  | 0, _ => none
  | fuel + 1, i =>
    match skip i with
    | some '"' :: rest =>
      match string? (rest.length + 1) (some []) rest with
      | none => none
      | some (k, rest) =>
        match skip rest with
        | some ':' :: rest =>
          match value? fuel rest with
          | none => none
          | some (v, rest) =>
            match skip rest with
            | some d :: rest =>
              if d = ',' then (members? fuel rest).map fun (ms, r) => ((k, v) :: ms, r)
              else if d = Char.ofNat 125 then some ([(k, v)], rest)
              else none
            | _ => none
        | _ => none
    | _ => none

end

end Reader

def read? (i : Input) : Option Value :=
  match Reader.value? (2 * i.length + 2) i with
  | some (v, rest) => if (Reader.skip rest).isEmpty then some v else none
  | none => none

def ofString? (s : String) : Option Value := read? (s.toList.map some)

def ofBytes? (bs : Bytes) : Option Value := read? (Text.Utf8.scan bs)

end AuthCore.Json
