import AuthCore.Text.Hex

set_option autoImplicit false

namespace AuthCore.Config.Toml

def isSpace (c : Char) : Bool := c == ' ' || c == '\t'

def skipSpaces (cs : List Char) : List Char := cs.dropWhile isSpace

def isAllowed (c : Char) : Bool := c == '\t' || (decide (0x20 ≤ c.toNat) && c.toNat != 0x7F)

def skipComment : List Char → List Char
  | '#' :: cs => cs.dropWhile isAllowed
  | cs => cs

def lineEnd? : List Char → Option (List Char)
  | '\n' :: cs => some cs
  | '\r' :: '\n' :: cs => some cs
  | _ => none

def skipLines : (fuel : Nat) → List Char → List Char
  | 0, cs => cs
  | fuel + 1, cs =>
    let rest := skipComment (skipSpaces cs)
    match lineEnd? rest with
    | some rest => skipLines fuel rest
    | none => rest

def codePoint? (digits : List Char) : Option Char := do
  let values ← digits.mapM Text.Hex.digitValue?
  let n := values.foldl (fun n d => n * 16 + d) 0
  if n < 0xD800 ∨ (0xDFFF < n ∧ n < 0x110000) then return Char.ofNat n else none

def escape? : List Char → Option (Char × List Char)
  | [] => none
  | c :: cs =>
    if c = '"' ∨ c = '\\' then some (c, cs)
    else if c = 'b' then some (Char.ofNat 8, cs)
    else if c = 't' then some ('\t', cs)
    else if c = 'n' then some ('\n', cs)
    else if c = 'f' then some (Char.ofNat 12, cs)
    else if c = 'r' then some ('\r', cs)
    else
      let width := if c = 'u' then 4 else if c = 'U' then 8 else 0
      if 0 < width ∧ width ≤ cs.length then
        (codePoint? (cs.take width)).map fun d => (d, cs.drop width)
      else none

def basic? : (fuel : Nat) → List Char → Option (List Char × List Char)
  | 0, _ => none
  | _, [] => none
  | fuel + 1, c :: cs =>
    if c = '"' then some ([], cs)
    else if c = '\\' then do
      let (d, rest) ← escape? cs
      let (text, rest) ← basic? fuel rest
      return (d :: text, rest)
    else if isAllowed c then (basic? fuel cs).map fun (text, rest) => (c :: text, rest)
    else none

def literal? (cs : List Char) : Option (List Char × List Char) :=
  let text := cs.takeWhile fun c => isAllowed c && c != Char.ofNat 39
  match cs.drop text.length with
  | c :: rest => if c = Char.ofNat 39 then some (text, rest) else none
  | [] => none

/-- The quotes at the front, up to five, and the rest. Three of them end a text of several lines;
those before belong to it. -/
def closing? (quote : Char) (cs : List Char) : Option (List Char × List Char) :=
  let run := (cs.takeWhile (· == quote)).take 5
  if 3 ≤ run.length then some (run.drop 3, cs.drop run.length) else none

/-- The rest after a backslash at the end of a line: all blank characters are dropped. -/
def foldedLine? (cs : List Char) : Option (List Char) :=
  (lineEnd? (skipSpaces cs)).map fun rest =>
    rest.dropWhile fun c => isSpace c || c == '\n' || c == '\r'

def multiline? (escapes : Bool) (quote : Char) : (fuel : Nat) → List Char →
    Option (List Char × List Char)
  | 0, _ => none
  | _, [] => none
  | fuel + 1, c :: cs =>
    if c = quote then
      match closing? quote (c :: cs) with
      | some (text, rest) => some (text, rest)
      | none => (multiline? escapes quote fuel cs).map fun (text, rest) => (c :: text, rest)
    else if c = '\\' ∧ escapes then
      match foldedLine? cs with
      | some rest => multiline? escapes quote fuel rest
      | none => do
        let (d, rest) ← escape? cs
        let (text, rest) ← multiline? escapes quote fuel rest
        return (d :: text, rest)
    else
      match lineEnd? (c :: cs) with
      | some rest => (multiline? escapes quote fuel rest).map fun (text, r) => ('\n' :: text, r)
      | none =>
        if isAllowed c then (multiline? escapes quote fuel cs).map fun (text, r) => (c :: text, r)
        else none

def openLine (cs : List Char) : List Char := (lineEnd? cs).getD cs

def text? (cs : List Char) : Option (String × List Char) :=
  let apostrophe := Char.ofNat 39
  let read : Option (List Char × List Char) :=
    match cs with
    | '"' :: '"' :: '"' :: rest => multiline? true '"' (rest.length + 1) (openLine rest)
    | '"' :: rest => basic? (rest.length + 1) rest
    | c :: rest =>
      if c = apostrophe then
        match rest with
        | d :: e :: more =>
          if d = apostrophe ∧ e = apostrophe then
            multiline? false apostrophe (more.length + 1) (openLine more)
          else literal? rest
        | _ => literal? rest
      else none
    | [] => none
  read.map fun (text, rest) => (String.ofList text, rest)

def keyPart? (cs : List Char) : Option (String × List Char) :=
  let bare := cs.takeWhile fun c =>
    ('a' ≤ c && c ≤ 'z') || ('A' ≤ c && c ≤ 'Z') || ('0' ≤ c && c ≤ '9') || c == '_' || c == '-'
  match bare with
  | _ :: _ => some (String.ofList bare, cs.drop bare.length)
  | [] =>
    match cs with
    | '"' :: rest =>
      (basic? (rest.length + 1) rest).map fun (text, r) => (String.ofList text, r)
    | c :: rest =>
      if c = Char.ofNat 39 then (literal? rest).map fun (text, r) => (String.ofList text, r)
      else none
    | [] => none

def key? : (fuel : Nat) → List Char → Option ((List String × String) × List Char)
  | 0, _ => none
  | fuel + 1, cs => do
    let (part, rest) ← keyPart? (skipSpaces cs)
    let rest := skipSpaces rest
    match rest with
    | '.' :: more =>
      let ((path, key), rest) ← key? fuel more
      return ((part :: path, key), rest)
    | _ => return (([], part), rest)

end AuthCore.Config.Toml
