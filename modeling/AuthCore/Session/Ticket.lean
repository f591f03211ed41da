import AuthCore.Failure
import AuthCore.Json.Reader
import AuthCore.Json.Record
import AuthCore.Json.Writer
import AuthCore.Text.OrderedMap
import AuthCore.Time.Rfc3339
import AuthCore.Uuid

set_option autoImplicit false

namespace AuthCore.Session

structure Claim where
  kind : String
  value : String
deriving DecidableEq

structure Principal where
  owner : Uuid
  name : Option String := none
  claims : List Claim := []
deriving DecidableEq

structure Properties where
  items : Text.OrderedMap := .empty
  issuedAt : Option Time.Instant := none
  expiresAt : Option Time.Instant := none
  isPersistent : Bool := false
  allowRefresh : Bool := false
deriving DecidableEq

structure Ticket where
  scheme : String
  principal : Principal
  properties : Properties
deriving DecidableEq

namespace Ticket

def new (scheme : String) (principal : Principal) (now : Time.Instant) : Ticket :=
  ⟨scheme, principal, { issuedAt := some now }⟩

def owner (t : Ticket) : Uuid := t.principal.owner

def isExpired (t : Ticket) (now : Time.Instant) : Bool :=
  match t.properties.expiresAt with
  | some deadline => deadline.le now
  | none => false

def claimValues (t : Ticket) (kind : String) : List String :=
  (t.principal.claims.filter fun c => c.kind == kind).map Claim.value

end Ticket

/-- A member that is left out where there is nothing. -/
def member {α : Type} (name : String) (write : α → Json.Value) :
    Option α → List (String × Json.Value)
  | some a => [(name, write a)]
  | none => []

def instantJson (t : Time.Instant) : Json.Value := .text (Time.Rfc3339.write t)

def Claim.toJson (c : Claim) : Json.Value :=
  .record [("type", .text c.kind), ("value", .text c.value)]

def Principal.toJson (p : Principal) : Json.Value :=
  .record (("owner_id", .text p.owner.text) :: member "name" Json.Value.text p.name ++
    (if p.claims.isEmpty then [] else [("claims", .array (p.claims.map Claim.toJson))]))

def itemsJson (m : Text.OrderedMap) : Json.Value :=
  .record (m.entries.map fun e => (e.1, .text e.2))

def Properties.toJson (p : Properties) : Json.Value :=
  .record ((if p.items.isEmpty then [] else [("items", itemsJson p.items)]) ++
    member "issued_at" instantJson p.issuedAt ++ member "expires_at" instantJson p.expiresAt ++
    [("is_persistent", .bool p.isPersistent), ("allow_refresh", .bool p.allowRefresh)])

def Ticket.toJson (t : Ticket) : Json.Value :=
  .record [("scheme", .text t.scheme), ("principal", t.principal.toJson),
    ("properties", t.properties.toJson)]

def instant? (v : Json.Value) : Option Time.Instant := v.text?.bind Time.Rfc3339.read?

def uuid? (v : Json.Value) : Option Uuid := v.text?.bind Uuid.read?

def Claim.ofJson? (v : Json.Value) : Option Claim := do
  let r ← Json.record? ["type", "value"] v
  return ⟨← r.required? "type" Json.Value.text?, ← r.required? "value" Json.Value.text?⟩

def claims? (v : Json.Value) : Option (List Claim) := v.items?.bind fun vs => vs.mapM Claim.ofJson?

def Principal.ofJson? (v : Json.Value) : Option Principal := do
  let r ← Json.record? ["owner_id", "name", "claims"] v
  return {
    owner := ← r.required? "owner_id" uuid?
    name := ← Json.optional? r "name" Json.Value.text?
    claims := ← r.withDefault? "claims" [] claims? }

def items? (v : Json.Value) : Option Text.OrderedMap :=
  (Json.textMembers? v).map Text.OrderedMap.ofPairs

def Properties.ofJson? (v : Json.Value) : Option Properties := do
  let r ← Json.record? ["items", "issued_at", "expires_at", "is_persistent", "allow_refresh"] v
  return {
    items := ← r.withDefault? "items" .empty items?
    issuedAt := ← Json.optional? r "issued_at" instant?
    expiresAt := ← Json.optional? r "expires_at" instant?
    isPersistent := ← r.withDefault? "is_persistent" false Json.Value.bool?
    allowRefresh := ← r.withDefault? "allow_refresh" false Json.Value.bool? }

def Ticket.ofJson? (v : Json.Value) : Option Ticket := do
  let r ← Json.record? ["scheme", "principal", "properties"] v
  return {
    scheme := ← r.required? "scheme" Json.Value.text?
    principal := ← r.required? "principal" Principal.ofJson?
    properties := ← r.withDefault? "properties" {} Properties.ofJson? }

def formatVersion : UInt8 := 1

def Ticket.encode (t : Ticket) : Bytes :=
  formatVersion :: Text.Utf8.encodeChars (Json.writeChars t.toJson)

def Ticket.decode : Bytes → Except Failure Ticket
  | [] => .error .ticketEmpty
  | version :: body =>
    if version = formatVersion then
      match (Json.ofBytes? body).bind Ticket.ofJson? with
      | some t => .ok t
      | none => .error (.json "no session ticket")
    else .error (.ticketVersion version)

end AuthCore.Session
