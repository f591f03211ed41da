import AuthCore.Json.Reader
import AuthCore.Signing.Credential
import AuthCore.Token.Claims
import AuthCore.Token.Lifetime

set_option autoImplicit false

namespace AuthCore.Token

structure Issuer where
  issuer : String
  audience : String
  /-- Minutes from issue to expiry. -/
  lifetime : Nat

namespace Issuer

/-- The lifetime is brought into the accepted range. -/
def new (issuer audience : String) (minutes : Nat) : Issuer :=
  ⟨issuer, audience, max 1 (min minutes longestLifetime)⟩

def claims (i : Issuer) (owner jti : Uuid) (now : Time.Instant) : Claims :=
  { sub := owner
    iss := i.issuer
    aud := i.audience
    iat := now.seconds
    exp := now.seconds + i.lifetime * 60
    jti := jti }

end Issuer

structure Issued where
  token : String
  expiresAt : Time.Instant

def Issuer.issue (i : Issuer) (c : Signing.Credential) (owner jti : Uuid) (now : Time.Instant) :
    Except Failure Issued := do
  let token ← c.sign (i.claims owner jti now).toJson
  return ⟨token, now.addSeconds (i.lifetime * 60)⟩

/-- The header and the claims of a token, with the text that was signed and its signature. -/
structure Parts where
  header : Json.Value
  claims : Json.Value
  signed : String
  signature : Bytes

def document? (cs : List Char) : Option Json.Value :=
  (Text.Base64.decodeUrlChars? cs).bind Json.ofBytes?

def parts? (token : String) : Option Parts :=
  match Text.split '.' token.toList with
  | [h, c, s] => do
    return ⟨← document? h, ← document? c, String.ofList (h ++ '.' :: c),
      ← Text.Base64.decodeUrlChars? s⟩
  | _ => none

def leeway : Nat := 60

/-- The header and the claims of a token that was signed with the published key, for this audience
by this issuer, and has not expired. -/
def verify? (jwk : Signing.Jwk) (issuer audience : String) (now : Time.Instant) (token : String) :
    Option (Json.Value × Claims) := do
  let p ← parts? token
  let key ← jwk.publicKey?
  let claims ← Claims.ofJson? p.claims
  if key.verify (Text.Utf8.encode p.signed) p.signature ∧ claims.iss = issuer ∧
      claims.aud = audience ∧ now.seconds - leeway ≤ claims.exp then
    return (p.header, claims)
  else none

end AuthCore.Token
