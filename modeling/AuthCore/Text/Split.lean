set_option autoImplicit false

namespace AuthCore.Text

/-- The pieces between separators; there is one piece more than separators. -/
def split (sep : Char) : List Char → List (List Char)
  | [] => [[]]
  | c :: cs =>
    if c = sep then [] :: split sep cs
    else match split sep cs with
      | [] => [[c]]
      | piece :: pieces => (c :: piece) :: pieces

def splitOnce (sep : Char) : List Char → Option (List Char × List Char)
  | [] => none
  | c :: cs =>
    if c = sep then some ([], cs)
    else (splitOnce sep cs).map fun r => (c :: r.1, r.2)

def stripLead? : (lead cs : List Char) → Option (List Char)
  | [], cs => some cs
  | _ :: _, [] => none
  | l :: lead, c :: cs => if l = c then stripLead? lead cs else none

end AuthCore.Text
