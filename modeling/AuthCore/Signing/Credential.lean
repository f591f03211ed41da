import AuthCore.Failure
import AuthCore.Json.Writer
import AuthCore.Rsa.Signature
import AuthCore.Signing.Jwk
import AuthCore.Text.Quoted

set_option autoImplicit false

namespace AuthCore.Signing

def algorithm : String := "RS256"

structure Credential where
  kid : String
  key : Rsa.PrivateKey

namespace Credential

def header (c : Credential) : Json.Value :=
  .record [("typ", .text "JWT"), ("alg", .text algorithm), ("kid", .text c.kid)]

def part (v : Json.Value) : String := Text.Base64.encodeUrl (Text.Utf8.encode (Json.write v))

def signingInput (c : Credential) (claims : Json.Value) : String :=
  part c.header ++ "." ++ part claims

def sign (c : Credential) (claims : Json.Value) : Except Failure String :=
  let input := c.signingInput claims
  match c.key.sign? (Text.Utf8.encode input) with
  | some signature => .ok (input ++ "." ++ Text.Base64.encodeUrl signature)
  | none => .error (.signingTask "the key cannot sign")

def describe (c : Credential) : String :=
  Text.describe "SigningCredential" [("kid", Text.quote c.kid), ("algorithm", algorithm)] false

end Credential

structure KeyMaterial where
  source : String
  key : Rsa.PrivateKey

namespace KeyMaterial

def jwk (m : KeyMaterial) : Jwk := Jwk.ofPublicKey m.key.publicKey algorithm

def credential (m : KeyMaterial) : Credential := ⟨m.jwk.kid, m.key⟩

/-- A key that cannot be stored again is refused. -/
def ofPrivateKey (source : String) (k : Rsa.PrivateKey) : Except Failure KeyMaterial :=
  if k.encodable then .ok ⟨source, k⟩ else .error (.keyNotEncoded "factors with a common divisor")

def describe (m : KeyMaterial) : String :=
  Text.describe "RsaKeyMaterial" [("source", Text.quote m.source), ("kid", Text.quote m.jwk.kid)]
    false

end KeyMaterial

end AuthCore.Signing
