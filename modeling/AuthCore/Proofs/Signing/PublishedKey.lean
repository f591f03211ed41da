import AuthCore.Proofs.Digest.NumberBytes
import AuthCore.Proofs.Json.Slots
import AuthCore.Proofs.Text.Base64RoundTrip
import AuthCore.Signing.Credential

set_option autoImplicit false

namespace AuthCore.Signing

open Json (Plain Value)

namespace Jwk

theorem number?_numberText (n : Nat) : number? (numberText n) = some n := by
  rw [number?, numberText, Text.Base64.decodeUrl?_encodeUrl, Option.map_some,
    Rsa.PublicKey.ofBytes_minimalBytes]

theorem publicKey?_ofPublicKey (k : Rsa.PublicKey) (alg : String) :
    (ofPublicKey k alg).publicKey? = some k := by
  simp only [publicKey?, ofPublicKey, number?_numberText, Option.bind_eq_bind, Option.bind_some,
    Option.pure_def]

theorem plain_toJson (k : Jwk) : Plain k.toJson := by
  apply Json.plain_record
  simp only [List.forall_mem_cons]
  exact ⟨.text _, .text _, .text _, .text _, .text _, .text _, by simp⟩

theorem ofJson?_toJson (k : Jwk) : ofJson? k.toJson = some k := by
  have hread := Json.record?_filled
    [("kty", some (.text k.kty)), ("use", some (.text k.keyUse)), ("alg", some (.text k.alg)),
      ("kid", some (.text k.kid)), ("e", some (.text k.e)), ("n", some (.text k.n))]
    (show ["kty", "use", "alg", "kid", "e", "n"].Nodup by decide)
  change Json.record? ["kty", "use", "alg", "kid", "e", "n"] k.toJson = _ at hread
  rw [ofJson?, hread]
  rfl

end Jwk

namespace Jwks

theorem plain_toJson (s : Jwks) : Plain s.toJson := by
  apply Json.plain_record
  simp only [List.forall_mem_cons]
  refine ⟨.array fun v hv => ?_, by simp⟩
  obtain ⟨k, _, rfl⟩ := List.mem_map.mp hv
  exact k.plain_toJson

theorem ofJson?_toJson (s : Jwks) : ofJson? s.toJson = some s := by
  have hread := Json.record?_filled [("keys", some (.array (s.keys.map Jwk.toJson)))]
    (show ["keys"].Nodup by decide)
  change Json.record? ["keys"] s.toJson = _ at hread
  have hkeys : (s.keys.map Jwk.toJson).mapM Jwk.ofJson? = some s.keys :=
    Json.mapM_map fun k _ => k.ofJson?_toJson
  rw [ofJson?, hread]
  change ((s.keys.map Jwk.toJson).mapM Jwk.ofJson?).bind _ = _
  rw [hkeys]
  rfl

def served (s : Jwks) : Bytes := Text.Utf8.encode (Json.write s.toJson)

theorem ofBytes?_served (s : Jwks) : (Json.ofBytes? s.served).bind ofJson? = some s := by
  rw [served, Json.ofBytes?_write s.plain_toJson, Option.bind_some, s.ofJson?_toJson]

theorem find?_single (k : Jwk) : (single k).find? k.kid = some k := by
  simp [single, find?]

end Jwks

end AuthCore.Signing
