import AuthCore.Config.Raw

set_option autoImplicit false

namespace AuthCore.Config

inductive Step where
  | key (name : String)
  | index (i : Int)

structure Path where
  root : String
  steps : List Step

namespace Path

def isKeyChar (c : Char) : Bool :=
  ('a' ≤ c && c ≤ 'z') || ('A' ≤ c && c ≤ 'Z') || ('0' ≤ c && c ≤ '9') || c == '_' || c == '-'

def key? (cs : List Char) : Option (String × List Char) :=
  match cs.takeWhile isKeyChar with
  | [] => none
  | name => some (String.ofList name, cs.dropWhile isKeyChar)

def isSpace (c : Char) : Bool := c == ' ' || c == '\t'

def index? (cs : List Char) : Option (Int × List Char) :=
  let cs := cs.dropWhile isSpace
  let (negative, cs) :=
    match cs with
    | '-' :: rest => (true, rest)
    | rest => (false, rest)
  let digits := cs.takeWhile Text.Decimal.isDigit
  match Text.Decimal.read? digits, (cs.drop digits.length).dropWhile isSpace with
  | some n, ']' :: rest =>
    let i : Int := if negative then -(n : Int) else n
    if inInt64 i then some (i, rest) else none
  | _, _ => none

def steps? : (fuel : Nat) → List Char → Option (List Step)
  | _, [] => some []
  | 0, _ => none
  | fuel + 1, c :: cs =>
    if c = '.' then do
      let (name, rest) ← key? cs
      return .key name :: (← steps? fuel rest)
    else if c = '[' then do
      let (i, rest) ← index? cs
      return .index i :: (← steps? fuel rest)
    else none

def read? (s : String) : Option Path := do
  let (root, rest) ← key? s.toList
  return ⟨root, ← steps? rest.length rest⟩

def ofName (s : String) : Path := (read? s).getD ⟨s, []⟩

end Path

namespace Raw

/-- The entries of a table; anything else counts as an empty table. -/
def entries : Raw → List (String × Raw)
  | table es => es
  | _ => []

def items : Raw → List Raw
  | array vs => vs
  | _ => []

def putEntry (name : String) (v : Raw) : List (String × Raw) → List (String × Raw)
  | [] => [(name, v)]
  | e :: es => if e.1 = name then (name, v) :: es else e :: putEntry name v es

mutual

/-- The value after `later` is laid over it: tables entry by entry, all else replaces. -/
def merge (base : Raw) : (later : Raw) → Raw
  | table es => table (mergeEntries base.entries es)
  | later => later

def mergeEntries (base : List (String × Raw)) : (later : List (String × Raw)) → List (String × Raw)
  | [] => base
  | (name, v) :: es =>
    mergeEntries (putEntry name (merge ((base.lookup name).getD vacant) v) base) es

end

/-- The items with room for index `i`, and the place of that index. An index below zero counts from
the end, and room is made in front where the array is too short. -/
def roomFor (i : Int) (vs : List Raw) : List Raw × Nat :=
  if 0 ≤ i then (vs ++ List.replicate (i.toNat + 1 - vs.length) vacant, i.toNat)
  else
    let back := i.natAbs
    (List.replicate (back - vs.length) vacant ++ vs, vs.length - back)

/-- Lays `v` over what `steps` lead to. Tables and arrays are made where there are none. -/
def put (v : Raw) : (steps : List Step) → Raw → Raw
  | [], base => merge base v
  | .key name :: steps, base =>
    let es := base.entries
    table (putEntry name (put v steps ((es.lookup name).getD vacant)) es)
  | .index i :: steps, base =>
    let (vs, place) := roomFor i base.items
    array (vs.set place (put v steps (vs.getD place vacant)))

def assign (name : String) (v : Raw) (base : Raw) : Raw :=
  let path := Path.ofName name
  put v (.key path.root :: path.steps) base

def assignAll (layer : List (String × Raw)) (base : Raw) : Raw :=
  layer.foldl (fun r e => assign e.1 e.2 r) base

end Raw

end AuthCore.Config
