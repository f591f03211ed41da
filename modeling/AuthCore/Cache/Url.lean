import AuthCore.Text.Decimal
import AuthCore.Text.Split

set_option autoImplicit false

namespace AuthCore.Cache.Url

def beforeLast? (c : Char) (cs : List Char) : Option (List Char) :=
  (Text.splitOnce c cs.reverse).map fun r => r.2.reverse

def byteLength (cs : List Char) : Nat := cs.foldl (fun n c => n + c.utf8Size) 0

def bytesBefore? (mark : List Char) : List Char → Option Nat
  | [] => none
  | c :: cs =>
    if mark.isPrefixOf (c :: cs) then some 0
    else (bytesBefore? mark cs).map fun n => n + c.utf8Size

def schemeEnd (cs : List Char) : Nat :=
  match bytesBefore? [':', '/', '/'] cs with
  | some n => n + 3
  | none => 0

/-- The address with the password before the first at sign hidden: what stands between the last
colon before it and the sign, if that colon comes after the scheme. -/
def mask (url : String) : String :=
  let cs := url.toList
  match Text.splitOnce '@' cs with
  | none => url
  | some (before, after) =>
    match beforeLast? ':' before with
    | none => url
    | some user =>
      if schemeEnd cs < byteLength user then String.ofList (user ++ ":****@".toList ++ after)
      else url

def isSchemeChar (c : Char) : Bool :=
  c.isAlphanum || c == '+' || c == '-' || c == '.'

def scheme? (cs : List Char) : Option (String × List Char) :=
  match Text.splitOnce ':' cs with
  | some (c :: name, rest) =>
    if c.isAlpha && name.all isSchemeChar then
      some (String.ofList ((c :: name).map Char.toLower), rest)
    else none
  | _ => none

def tcpSchemes : List String := ["redis", "valkey"]

def socketSchemes : List String := ["redis+unix", "valkey+unix", "unix"]

/-- Blanks and control characters at the ends do not count, nor do line ends and tabs. -/
def clean (cs : List Char) : List Char :=
  let outer := fun c : Char => decide (c.toNat ≤ 0x20)
  (((cs.dropWhile outer).reverse.dropWhile outer).reverse).filter fun c =>
    c != '\t' && c != '\n' && c != '\r'

def host? (authority : List Char) : Option (List Char) :=
  let place := (Text.splitOnce '@' authority.reverse).elim authority fun r => r.1.reverse
  let (host, port) :=
    match place.head? with
    | some '[' =>
      let host := place.takeWhile (· != ']')
      (host ++ [']'], place.drop (host.length + 1))
    | _ =>
      let host := place.takeWhile (· != ':')
      (host, place.drop host.length)
  match port with
  | [] | [':'] => some host
  | ':' :: ds => (Text.Decimal.read? ds).bind fun n => if n < limit16 then some host else none
  | _ => none

def isDatabase (path : List Char) : Bool :=
  let inner := ((path.dropWhile (· == '/')).reverse.dropWhile (· == '/')).reverse
  inner.isEmpty || (Text.Decimal.readInt64? inner).isSome

/-- Whether a client takes the address: a known scheme, then a host and a database, or a socket. -/
def isAccepted (url : String) : Bool :=
  match scheme? (clean url.toList) with
  | none => false
  | some (scheme, rest) =>
    if socketSchemes.contains scheme then true
    else if tcpSchemes.contains scheme then
      match rest with
      | '/' :: '/' :: rest =>
        let rest := rest.takeWhile fun c => c != '?' && c != '#'
        let authority := rest.takeWhile (· != '/')
        match host? authority with
        | some host => !host.isEmpty && isDatabase (rest.drop authority.length)
        | none => false
      | _ => false
    else false

end AuthCore.Cache.Url
