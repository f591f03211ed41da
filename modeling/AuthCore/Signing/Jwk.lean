import AuthCore.Digest.Sha2
import AuthCore.Json.Record
import AuthCore.Rsa.Key
import AuthCore.Text.Base64

set_option autoImplicit false

namespace AuthCore.Signing

structure Jwk where
  kty : String
  keyUse : String
  alg : String
  kid : String
  e : String
  n : String
deriving DecidableEq

namespace Jwk

/-- A number as text: its shortest bytes in the URL alphabet. -/
def numberText (n : Nat) : String := Text.Base64.encodeUrl (Rsa.PublicKey.minimalBytes n)

/-- The document whose digest is the key id, spelled out around the texts of the numbers: the
required members in the order of their names. -/
def thumbprintInput (e n : String) : String :=
  "\x7b\"e\":\"" ++ e ++ "\",\"kty\":\"RSA\",\"n\":\"" ++ n ++ "\"\x7d"

def thumbprint (e n : String) : String :=
  Text.Base64.encodeUrl (Digest.sha256.run (Text.Utf8.encode (thumbprintInput e n)))

def ofPublicKey (k : Rsa.PublicKey) (alg : String) : Jwk :=
  let n := numberText k.n
  let e := numberText k.e
  ⟨"RSA", "sig", alg, thumbprint e n, e, n⟩

def toJson (k : Jwk) : Json.Value :=
  .record [("kty", .text k.kty), ("use", .text k.keyUse), ("alg", .text k.alg),
    ("kid", .text k.kid), ("e", .text k.e), ("n", .text k.n)]

def ofJson? (v : Json.Value) : Option Jwk := do
  let f ← Json.record? ["kty", "use", "alg", "kid", "e", "n"] v
  return {
    kty := ← f.required? "kty" Json.Value.text?
    keyUse := ← f.required? "use" Json.Value.text?
    alg := ← f.required? "alg" Json.Value.text?
    kid := ← f.required? "kid" Json.Value.text?
    e := ← f.required? "e" Json.Value.text?
    n := ← f.required? "n" Json.Value.text? }

def number? (s : String) : Option Nat := (Text.Base64.decodeUrl? s).map Digest.Words.ofBytes

def publicKey? (k : Jwk) : Option Rsa.PublicKey := do
  return ⟨← number? k.n, ← number? k.e⟩

end Jwk

structure Jwks where
  keys : List Jwk
deriving DecidableEq

namespace Jwks

def single (k : Jwk) : Jwks := ⟨[k]⟩

def find? (s : Jwks) (kid : String) : Option Jwk := s.keys.find? fun k => k.kid == kid

def toJson (s : Jwks) : Json.Value := .record [("keys", .array (s.keys.map Jwk.toJson))]

def ofJson? (v : Json.Value) : Option Jwks := do
  let f ← Json.record? ["keys"] v
  let items ← f.required? "keys" Json.Value.items?
  return ⟨← items.mapM Jwk.ofJson?⟩

end Jwks

end AuthCore.Signing
