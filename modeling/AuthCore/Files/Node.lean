import AuthCore.Text.Utf8

set_option autoImplicit false

namespace AuthCore.Files

inductive Node where
  | missing
  /-- The way leads through something that is no directory, or is refused by the system. -/
  | blocked (detail : String)
  | file (content : Bytes)
  /-- The names in a directory, each with whether it leads to a file. -/
  | directory (entries : List (String × Bool))
deriving DecidableEq

def Node.isFile : Node → Bool
  | file _ => true
  | _ => false

abbrev Disk := String → Node

def join (dir name : String) : String :=
  if dir.isEmpty ∨ dir.endsWith "/" then dir ++ name else dir ++ "/" ++ name

/-- What follows the last point of a name, unless the name begins with that point. -/
def afterPoint? {α : Type} [BEq α] (point : α) (name : List α) : Option (List α) :=
  let reversed := name.reverse
  let tail := reversed.takeWhile (· != point)
  match reversed.drop tail.length with
  | _ :: _ :: _ => some tail.reverse
  | _ => none

def extension? (name : String) : Option String :=
  if name = ".." then none else (afterPoint? '.' name.toList).map String.ofList

end AuthCore.Files
