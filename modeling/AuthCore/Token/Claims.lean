import AuthCore.Json.Record
import AuthCore.Json.Writer
import AuthCore.Number.Limits
import AuthCore.Time.Instant
import AuthCore.Uuid

set_option autoImplicit false

namespace AuthCore.Token

/-- Times count seconds from 1970-01-01T00:00:00Z. -/
structure Claims where
  sub : Uuid
  iss : String
  aud : String
  iat : Int
  exp : Int
  jti : Uuid
deriving DecidableEq

namespace Claims

def toJson (c : Claims) : Json.Value :=
  .record [("sub", .text c.sub.text), ("iss", .text c.iss), ("aud", .text c.aud),
    ("iat", .int c.iat), ("exp", .int c.exp), ("jti", .text c.jti.text)]

def uuid? (v : Json.Value) : Option Uuid := v.text?.bind Uuid.read?

def seconds? (v : Json.Value) : Option Int :=
  v.int?.filter fun i => inInt64 i

def ofJson? (v : Json.Value) : Option Claims := do
  let f ← Json.record? ["sub", "iss", "aud", "iat", "exp", "jti"] v
  return {
    sub := ← f.required? "sub" uuid?
    iss := ← f.required? "iss" Json.Value.text?
    aud := ← f.required? "aud" Json.Value.text?
    iat := ← f.required? "iat" seconds?
    exp := ← f.required? "exp" seconds?
    jti := ← f.required? "jti" uuid? }

def expiresAt? (c : Claims) : Option Time.Instant := Time.Instant.ofSeconds? c.exp

def isExpired (c : Claims) (now : Time.Instant) : Bool := decide (c.exp ≤ now.seconds)

end Claims

end AuthCore.Token
