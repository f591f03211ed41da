import AuthCore.Config.Path

/-!
Settings from variables of the environment. The name after the common start spells the path, with
two underscores between its parts; the value is read as the narrowest kind that its text fits.
-/

set_option autoImplicit false

namespace AuthCore.Config.Environment

/-- Lower case, as far as a setting's name can need it: the Kelvin sign is a capital k. -/
def lower (c : Char) : Char := if c.toNat = 0x212A then 'k' else c.toLower

def lead : List Char := "warden__".toList

def pathText : List Char → List Char
  | '_' :: '_' :: cs => '.' :: pathText cs
  | c :: cs => c :: pathText cs
  | [] => []

def name? (variableName : String) : Option String :=
  let cs := variableName.toList.map lower
  if lead.isPrefixOf cs then some (String.ofList (pathText (cs.drop lead.length))) else none

def value (s : String) : Raw :=
  let word := String.ofList (s.toList.map Char.toLower)
  if word = "true" then .bool true
  else if word = "false" then .bool false
  else
    match Text.Decimal.readInt64? s.toList with
    | some i => .integer i
    | none =>
      match Binary64.read? s.toList with
      | some x => .float x
      | none => .text s

/-- The settings in a list of variables; none if one of them is no text. -/
def layer? (environment : List (String × Bytes)) : Option (List (String × Raw)) :=
  (environment.filterMap fun e => (name? e.1).map fun n => (n, e.2)).mapM fun e =>
    (Text.Utf8.decode? e.2).map fun s => (e.1, value s)

end AuthCore.Config.Environment
