import AuthCore.Config.Toml.Scalar
import AuthCore.Config.Toml.Table

set_option autoImplicit false

namespace AuthCore.Config.Toml

mutual

def value? : (fuel : Nat) → List Char → Option (Raw × List Char)
  | 0, _ => none
  | fuel + 1, cs =>
    match cs with
    | [] => none
    | c :: rest =>
      if c = '"' ∨ c = Char.ofNat 39 then (text? cs).map fun (s, r) => (.text s, r)
      else if c = '[' then (array? fuel rest).map fun (vs, r) => (.array vs, r)
      else if c = Char.ofNat 123 then
        match skipSpaces rest with
        | d :: more =>
          if d = Char.ofNat 125 then some (.table [], more)
          else (inline? fuel [] (d :: more)).map fun (es, r) => (.table (entriesToRaw es), r)
        | [] => none
      else scalar? cs

def array? : (fuel : Nat) → List Char → Option (List Raw × List Char)
  | 0, _ => none
  | fuel + 1, cs =>
    match skipLines cs.length cs with
    | ']' :: rest => some ([], rest)
    | cs => do
      let (v, rest) ← value? fuel cs
      match skipLines rest.length rest with
      | ']' :: rest => return ([v], rest)
      | ',' :: rest =>
        let (vs, rest) ← array? fuel rest
        return (v :: vs, rest)
      | _ => none

/-- The entries of a table on one line up to its end, at least one. -/
def inline? : (fuel : Nat) → Entries → List Char → Option (Entries × List Char)
  | 0, _, _ => none
  | fuel + 1, es, cs => do
    let ((path, key), rest) ← key? cs.length cs
    let rest ← mark? '=' rest
    let (v, rest) ← value? fuel (skipSpaces rest)
    let es ← addKey? .opened es path key v
    match skipSpaces rest with
    | ',' :: rest => inline? fuel es rest
    | d :: rest => if d = Char.ofNat 125 then return (es, rest) else none
    | [] => none

end

def finishLine? (cs : List Char) : Option (List Char) :=
  match skipComment (skipSpaces cs) with
  | [] => some []
  | rest => lineEnd? rest

abbrev Current := List String

/-- A header after its first bracket: the document with the table opened, and its name. -/
def header? (doc : Entries) (cs : List Char) : Option ((Entries × Current) × List Char) := do
  match cs with
  | '[' :: more =>
    let ((path, key), rest) ← key? more.length more
    match rest with
    | ']' :: ']' :: rest => return ((← within? (openItem? key) path doc, path ++ [key]), rest)
    | _ => none
  | _ =>
    let ((path, key), rest) ← key? cs.length cs
    match rest with
    | ']' :: rest => return ((← within? (openTable? key) path doc, path ++ [key]), rest)
    | _ => none

def entry? (doc : Entries) (current : Current) (cs : List Char) : Option (Entries × List Char) := do
  let ((path, key), rest) ← key? cs.length cs
  let rest ← mark? '=' rest
  let (v, rest) ← value? (2 * rest.length + 2) (skipSpaces rest)
  return (← within? (fun es => addKey? .opened es path key v) current doc, rest)

def lines? : (fuel : Nat) → Entries → Current → List Char → Option Entries
  | 0, _, _, _ => none
  | fuel + 1, doc, current, cs =>
    match skipLines cs.length cs with
    | [] => some doc
    | '[' :: rest => do
      let ((doc, current), rest) ← header? doc rest
      lines? fuel doc current (← finishLine? rest)
    | cs => do
      let (doc, rest) ← entry? doc current cs
      lines? fuel doc current (← finishLine? rest)

def unmarked : List Char → List Char
  | c :: cs => if c = Char.ofNat 0xFEFF then cs else c :: cs
  | [] => []

def read? (s : String) : Option (List (String × Raw)) :=
  let cs := unmarked s.toList
  (lines? (cs.length + 1) [] [] cs).map entriesToRaw

end AuthCore.Config.Toml
