set_option autoImplicit false

namespace AuthCore

structure Record (ν : Type) where
  slots : List (String × Option ν)

namespace Record

variable {ν α : Type}

def find (r : Record ν) (name : String) : Option ν := (r.slots.lookup name).join

def required? (r : Record ν) (name : String) (read : ν → Option α) : Option α :=
  (r.find name).bind read

def withDefault? (r : Record ν) (name : String) (d : α) (read : ν → Option α) : Option α :=
  match r.find name with
  | some v => read v
  | none => some d

/-- The fields of a list in declaration order; trailing ones may be missing. -/
def ofItems (names : List String) (items : List ν) : Record ν :=
  ⟨names.zipIdx.map fun (n, i) => (n, items[i]?)⟩

end Record

end AuthCore
