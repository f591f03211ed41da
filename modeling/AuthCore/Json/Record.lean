import AuthCore.Json.Value
import AuthCore.Record

/-!
Records read from JSON. A record is an object of its fields, or an array of them in declaration
order. In an object a known field stands at most once and unknown fields are passed over; in an
array only trailing fields may be missing, and nothing follows the last.
-/

set_option autoImplicit false

namespace AuthCore.Json

/-- The value of `name` among `members`; no answer if it stands there twice. -/
def single? (members : List (Option String × Value)) (name : String) : Option (Option Value) :=
  match members.filter fun m => m.1 == some name with
  | [] => some none
  | [m] => some (some m.2)
  | _ => none

def record? (names : List String) : Value → Option (Record Value)
  | .array items =>
    if items.length ≤ names.length then some (.ofItems names items) else none
  | .object members =>
    if members.all fun m => m.1.isSome then
      (names.mapM fun n => (single? members n).map fun v => (n, v)).map Record.mk
    else none
  | _ => none

/-- A field that may be null, or missing. -/
def optional? {α : Type} (r : Record Value) (name : String) (read : Value → Option α) :
    Option (Option α) :=
  match r.find name with
  | none | some .null => some none
  | some v => (read v).map some

def textMembers? : Value → Option (List (String × String))
  | .object members =>
    members.mapM fun m => do
      let k ← m.1
      let v ← m.2.text?
      return (k, v)
  | _ => none

end AuthCore.Json
