import AuthCore.Config.Reading
import AuthCore.Number.Shortest

set_option autoImplicit false

namespace AuthCore.Config

inductive Raw where
  /-- Room in an array that nothing has filled. -/
  | vacant
  | bool (b : Bool)
  | integer (i : Int)
  | float (x : Binary64)
  | text (s : String)
  | array (items : List Raw)
  | table (entries : List (String × Raw))

namespace Raw

def writeInt (i : Int) : String := (if i < 0 then "-" else "") ++ Text.Decimal.write i.natAbs

def text? : Raw → Option String
  | bool b => some (if b then "true" else "false")
  | integer i => some (writeInt i)
  | float x => some (Shortest.plain.write x)
  | text s => some s
  | _ => none

def wordNumber? (s : String) : Option Nat :=
  let word := String.ofList (s.toList.map Char.toLower)
  if word = "true" ∨ word = "on" ∨ word = "yes" then some 1
  else if word = "false" ∨ word = "off" ∨ word = "no" then some 0
  else Text.Decimal.readBelow? limit64 s.toList

/-- A whole number from zero on, within 64 bits. Fractions are rounded and brought into range. -/
def nat? : Raw → Option Nat
  | bool b => some (if b then 1 else 0)
  | integer i => if i < 0 then none else some i.toNat
  | float x => some (x.toNatWithin (limit64 - 1))
  | text s => wordNumber? s
  | _ => none

def natBelow? (bound : Nat) (r : Raw) : Option Nat := r.nat?.filter fun n => decide (n < bound)

/-- A section is a table, or an array of its fields in declaration order. -/
def record? (names : List String) : Raw → Option (Record Raw)
  | table entries => some ⟨names.map fun n => (n, entries.lookup n)⟩
  | array items => some (.ofItems names items)
  | _ => none

def form : Form Raw := ⟨record?, text?, natBelow?⟩

end Raw

end AuthCore.Config
