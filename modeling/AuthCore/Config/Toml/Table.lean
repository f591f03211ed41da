import AuthCore.Config.Raw

/-!
Tables of a TOML document while it is read. A table may be opened once; tables made in passing, by
longer names, may still be opened or filled by the means that made them.
-/

set_option autoImplicit false

namespace AuthCore.Config.Toml

inductive Origin where
  /-- By a header of its own, or the root. -/
  | opened
  /-- In passing, by the header of a table below it. -/
  | passed
  /-- By a key with points. -/
  | dotted
deriving DecidableEq

inductive Item where
  | value (r : Raw)
  | table (origin : Origin) (entries : List (String × Item))
  /-- Tables opened under one name with double brackets, the latest first. -/
  | tables (all : List (List (String × Item)))

abbrev Entries := List (String × Item)

def putItem (name : String) (v : Item) : Entries → Entries
  | [] => [(name, v)]
  | e :: es => if e.1 = name then (name, v) :: es else e :: putItem name v es

def addKey? (here : Origin) (es : Entries) (path : List String) (key : String) (v : Raw) :
    Option Entries :=
  match path with
  | [] => if (es.lookup key).isSome then none else some (putItem key (.value v) es)
  | name :: rest =>
    match es.lookup name with
    | none => do
      let inner ← addKey? .dotted [] rest key v
      return putItem name (.table .dotted inner) es
    | some (.table origin inner) =>
      if origin = .opened ∨ (rest.isEmpty ∧ origin ≠ .dotted) then none
      else do
        let inner ← addKey? origin inner rest key v
        return putItem name (.table origin inner) es
    | some (.tables (last :: others)) =>
      if rest.isEmpty then none
      else do
        let last ← addKey? here last rest key v
        return putItem name (.tables (last :: others)) es
    | some _ => none

/-- Changes the table that `path` leads to by `change`, which also sees how the table came about.
Tables on the way are made in passing. -/
def within? (change : Entries → Option Entries) : (path : List String) → Entries → Option Entries
  | [], es => change es
  | name :: rest, es =>
    match es.lookup name with
    | none => do
      let inner ← within? change rest []
      return putItem name (.table .passed inner) es
    | some (.table origin inner) => do
      let inner ← within? change rest inner
      return putItem name (.table origin inner) es
    | some (.tables (last :: others)) => do
      let last ← within? change rest last
      return putItem name (.tables (last :: others)) es
    | some _ => none

def openTable? (key : String) (es : Entries) : Option Entries :=
  match es.lookup key with
  | none => some (putItem key (.table .opened []) es)
  | some (.table .passed inner) => some (putItem key (.table .opened inner) es)
  | some _ => none

def openItem? (key : String) (es : Entries) : Option Entries :=
  match es.lookup key with
  | none => some (putItem key (.tables [[]]) es)
  | some (.tables all) => some (putItem key (.tables ([] :: all)) es)
  | some _ => none

mutual

def Item.toRaw : Item → Raw
  | .value r => r
  | .table _ es => .table (entriesToRaw es)
  | .tables all => .array (tablesToRaw all).reverse

def entriesToRaw : Entries → List (String × Raw)
  | [] => []
  | (name, v) :: es => (name, v.toRaw) :: entriesToRaw es

def tablesToRaw : List Entries → List Raw
  | [] => []
  | es :: all => .table (entriesToRaw es) :: tablesToRaw all

end

end AuthCore.Config.Toml
