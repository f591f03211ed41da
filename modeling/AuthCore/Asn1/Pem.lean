import AuthCore.Text.Base64
import AuthCore.Text.Split

set_option autoImplicit false

namespace AuthCore.Asn1.Pem

open AuthCore.Text (stripLead?)

def lineWidth : Nat := 64

def beginMark : List Char := "-----BEGIN ".toList

def endMark : List Char := "-----END ".toList

def dashes : List Char := "-----".toList

def afterPreamble? : List Char → Option (List Char)
  | [] => none
  | c :: cs =>
    if c = Char.ofNat 0 then none
    else if c = '\n' then
      match stripLead? beginMark cs with
      | some rest => some rest
      | none => afterPreamble? cs
    else afterPreamble? cs

/-- The text after one line end, which is a line feed, a carriage return or both. -/
def stripLineEnd? : List Char → Option (List Char)
  | '\n' :: cs => some cs
  | '\r' :: '\n' :: cs => some cs
  | '\r' :: cs => some cs
  | _ => none

def dropLineEnd? : List Char → Option (List Char)
  | '\n' :: '\r' :: cs => some cs
  | '\n' :: cs => some cs
  | '\r' :: cs => some cs
  | _ => none

/-- The text without `tail` at its end; both are given in reverse. -/
def stripTail? (tail reversed : List Char) : Option (List Char) :=
  stripLead? tail.reverse reversed

theorem stripLineEnd?_lt {cs rest : List Char} (h : stripLineEnd? cs = some rest) :
    rest.length < cs.length := by
  unfold stripLineEnd? at h
  split at h
  · cases h
    simp only [List.length_cons]
    omega
  · cases h
    simp only [List.length_cons]
    omega
  · cases h
    simp only [List.length_cons]
    omega
  · cases h

def joinLines? (cs : List Char) : Option (List Char) :=
  if (cs.drop lineWidth).isEmpty then some cs
  else
    match h : stripLineEnd? (cs.drop lineWidth) with
    | none => none
    | some rest =>
      have : rest.length < cs.length := by
        have hlt := stripLineEnd?_lt h
        rw [List.length_drop] at hlt
        omega
      (joinLines? rest).map (cs.take lineWidth ++ ·)
termination_by cs.length

def decode? (label : String) (text : String) : Option Bytes := do
  let cs := text.toList
  let rest ←
    match stripLead? beginMark cs with
    | some rest => some rest
    | none => afterPreamble? cs
  let rest ← stripLead? (label.toList ++ dashes) rest
  let body ← stripLineEnd? rest
  let reversed := body.reverse
  let reversed := (dropLineEnd? reversed).getD reversed
  let reversed ← stripTail? (endMark ++ label.toList ++ dashes) reversed
  let reversed ← dropLineEnd? reversed
  let symbols ← joinLines? reversed.reverse
  Text.Base64.decodeChars? symbols

end AuthCore.Asn1.Pem
