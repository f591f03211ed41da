import AuthCore.Proofs.Rsa.SignedMessage
import AuthCore.Proofs.Signing.KeyMode
import AuthCore.Proofs.Signing.PublishedKey
import AuthCore.Token.Issuer
import Mathlib.NumberTheory.LucasLehmer

set_option autoImplicit false

namespace AuthCore

open Json (Plain Value)

namespace Signing.Credential

theorem plain_header (c : Credential) : Plain c.header := by
  apply Json.plain_record
  simp only [List.forall_mem_cons]
  exact ⟨.text _, .text _, .text _, by simp⟩

theorem sign_eq_ok_iff {c : Credential} {claims : Value} {token : String} :
    c.sign claims = .ok token ↔ ∃ signature,
      c.key.sign? (Text.Utf8.encode (c.signingInput claims)) = some signature ∧
        token = c.signingInput claims ++ "." ++ Text.Base64.encodeUrl signature := by
  unfold sign
  dsimp only
  cases c.key.sign? (Text.Utf8.encode (c.signingInput claims)) <;> simp [eq_comm]

theorem sign_kind {c : Credential} {claims : Value} {f : Failure} (h : c.sign claims = .error f) :
    f.kind = .internal := by
  unfold sign at h
  dsimp only at h
  split at h <;> cases h
  rfl

end Signing.Credential

namespace Token

open Signing (Credential)

theorem split_segments (a b c : Bytes) :
    Text.split '.' (Text.Base64.encodeUrl a ++ "." ++ Text.Base64.encodeUrl b ++ "." ++
      Text.Base64.encodeUrl c).toList =
      [(Text.Base64.encodeUrl a).toList, (Text.Base64.encodeUrl b).toList,
        (Text.Base64.encodeUrl c).toList] := by
  have hpoint : ".".toList = ['.'] := by decide
  simp only [String.toList_append, hpoint, List.append_assoc, List.cons_append, List.nil_append]
  rw [Text.split_append (Text.Base64.point_not_mem_encodeUrl a),
    Text.split_append (Text.Base64.point_not_mem_encodeUrl b),
    Text.split_of_not_mem (Text.Base64.point_not_mem_encodeUrl c)]

theorem document?_part {v : Value} (h : Plain v) :
    document? (Credential.part v).toList = some v := by
  rw [document?, Credential.part, Text.Base64.encodeUrl, String.toList_ofList,
    Text.Base64.decodeUrlChars?_encodeWith, Option.bind_some, Json.ofBytes?_write h]

theorem parts?_sign {c : Credential} {claims : Value} (h : Plain claims) (signature : Bytes) :
    parts? (c.signingInput claims ++ "." ++ Text.Base64.encodeUrl signature) =
      some ⟨c.header, claims, c.signingInput claims, signature⟩ := by
  have hsplit : Text.split '.' (c.signingInput claims ++ "." ++
      Text.Base64.encodeUrl signature).toList = [(Credential.part c.header).toList,
        (Credential.part claims).toList, (Text.Base64.encodeUrl signature).toList] :=
    split_segments _ _ _
  have hsigned : String.ofList ((Credential.part c.header).toList ++
      '.' :: (Credential.part claims).toList) = c.signingInput claims := by
    rw [Credential.signingInput, ← String.toList_inj]
    simp
  have hdecode : Text.Base64.decodeUrlChars? (Text.Base64.encodeUrl signature).toList =
      some signature := Text.Base64.decodeUrl?_encodeUrl signature
  simp only [parts?, hsplit, document?_part c.plain_header, document?_part h, hsigned, hdecode,
    Option.bind_eq_bind, Option.bind_some, Option.pure_def]

namespace Claims

theorem plain_toJson {c : Claims} (hiat : inInt64 c.iat = true) (hexp : inInt64 c.exp = true) :
    Plain c.toJson := by
  apply Json.plain_record
  simp only [List.forall_mem_cons]
  exact ⟨.text _, .text _, .text _, .number (Json.Number.plain_ofInt hiat),
    .number (Json.Number.plain_ofInt hexp), .text _, by simp⟩

theorem seconds?_int {i : Int} (h : inInt64 i = true) : seconds? (.int i) = some i := by
  simp [seconds?, Json.Value.int?_int, h]

def slots (c : Claims) : List (String × Option Value) :=
  [("sub", some (.text c.sub.text)), ("iss", some (.text c.iss)), ("aud", some (.text c.aud)),
    ("iat", some (.int c.iat)), ("exp", some (.int c.exp)), ("jti", some (.text c.jti.text))]

theorem ofJson?_toJson {c : Claims} (hiat : inInt64 c.iat = true) (hexp : inInt64 c.exp = true) :
    ofJson? c.toJson = some c := by
  have hread : Json.record? ["sub", "iss", "aud", "iat", "exp", "jti"] c.toJson = some ⟨c.slots⟩ :=
    Json.record?_filled c.slots (show ["sub", "iss", "aud", "iat", "exp", "jti"].Nodup by decide)
  have hsub : Record.required? ⟨c.slots⟩ "sub" uuid? = some c.sub := c.sub.read?_text
  have hiss : Record.required? ⟨c.slots⟩ "iss" Value.text? = some c.iss := rfl
  have haud : Record.required? ⟨c.slots⟩ "aud" Value.text? = some c.aud := rfl
  have hissued : Record.required? ⟨c.slots⟩ "iat" seconds? = some c.iat := seconds?_int hiat
  have hexpires : Record.required? ⟨c.slots⟩ "exp" seconds? = some c.exp := seconds?_int hexp
  have hjti : Record.required? ⟨c.slots⟩ "jti" uuid? = some c.jti := c.jti.read?_text
  simp only [ofJson?, hread, hsub, hiss, haud, hissued, hexpires, hjti, Option.bind_eq_bind,
    Option.bind_some, Option.pure_def]

theorem isExpired_of_le {c : Claims} {expiry t : Time.Instant} (h : c.exp = expiry.seconds)
    (hle : expiry.le t = true) : c.isExpired t = true := by
  simp only [Time.Instant.le, Bool.or_eq_true, Bool.and_eq_true, decide_eq_true_eq,
    beq_iff_eq] at hle
  simp only [isExpired, decide_eq_true_eq, h]
  omega

/-- The fraction of the moment of expiry is left out, so claims expire up to a second early. -/
theorem isExpired_of_second_before {c : Claims} {expiry t : Time.Instant}
    (h : c.exp = expiry.seconds) (hle : (t.addSeconds 1).le expiry = true) :
    c.isExpired t = false := by
  have hseconds : (t.addSeconds 1).seconds = t.seconds + 1 := rfl
  simp only [Time.Instant.le, Bool.or_eq_true, Bool.and_eq_true, decide_eq_true_eq, beq_iff_eq,
    hseconds] at hle
  simp only [isExpired, decide_eq_false_iff_not, h]
  omega

end Claims

/-- Seconds that the calendar can hold, or some before them, are numbers of 64 bits. -/
theorem inInt64_of_inRange {seconds : Int} {before : Nat}
    (h : Time.Instant.inRange (seconds + before) = true) (hbefore : before < limit32) :
    inInt64 (seconds + before) = true ∧ inInt64 seconds = true := by
  have hfirst : Time.Instant.firstSecond = -8334601228800 := by decide
  have hlast : Time.Instant.lastSecond = 8210266876799 := by decide
  simp only [Time.Instant.inRange, Bool.and_eq_true, decide_eq_true_eq] at h
  simp only [inInt64, Bool.and_eq_true, decide_eq_true_eq]
  rw [hfirst, hlast] at h
  rw [limit32] at hbefore
  rw [limit63]
  omega

/-- What the reader of the served document finds in a token: parts, and a published key under which
they are signed. -/
structure ReadsAs (m : Signing.KeyMaterial) (token : String) (claims : Claims) (parts : Parts)
    (served : Signing.Jwks) (key : Signing.Jwk) : Prop where
  segments : ∃ a b c : Bytes, Text.split '.' token.toList = [(Text.Base64.encodeUrl a).toList,
    (Text.Base64.encodeUrl b).toList, (Text.Base64.encodeUrl c).toList]
  parts_eq : parts? token = some parts
  header_eq : parts.header =
    .record [("typ", .text "JWT"), ("alg", .text "RS256"), ("kid", .text key.kid)]
  served_eq : (Json.ofBytes? (Signing.Jwks.single m.jwk).served).bind Signing.Jwks.ofJson? =
    some served
  key_eq : served.find? key.kid = some key
  numbers : key.publicKey? = some m.key.publicKey
  verifies : m.key.publicKey.verify (Text.Utf8.encode parts.signed) parts.signature = true
  claims_eq : Claims.ofJson? parts.claims = some claims

variable {m : Signing.KeyMaterial} {token : String} {claims : Claims} {parts : Parts}
  {served : Signing.Jwks} {key : Signing.Jwk}

theorem ReadsAs.verify? (h : ReadsAs m token claims parts served key) {t : Time.Instant}
    (hfresh : t.seconds - leeway ≤ claims.exp) :
    verify? key claims.iss claims.aud t token = some (parts.header, claims) := by
  simp only [Token.verify?, h.parts_eq, h.numbers, h.claims_eq, h.verifies, hfresh, and_self,
    ↓reduceIte, Option.bind_eq_bind, Option.bind_some, Option.pure_def]

theorem readsAs_sign (hvalid : m.key.Valid) (hiat : inInt64 claims.iat = true)
    (hexp : inInt64 claims.exp = true) (hsign : m.credential.sign claims.toJson = .ok token) :
    ∃ parts, ReadsAs m token claims parts (.single m.jwk) m.jwk := by
  obtain ⟨signature, hsignature, rfl⟩ := Credential.sign_eq_ok_iff.mp hsign
  exact ⟨_, {
    segments := ⟨_, _, _, split_segments _ _ _⟩
    parts_eq := parts?_sign (Claims.plain_toJson hiat hexp) signature
    header_eq := rfl
    served_eq := Signing.Jwks.ofBytes?_served _
    key_eq := Signing.Jwks.find?_single _
    numbers := Signing.Jwk.publicKey?_ofPublicKey _ _
    verifies := Rsa.PrivateKey.verify_of_sign? hvalid hsignature
    claims_eq := Claims.ofJson?_toJson hiat hexp }⟩

theorem issue_eq_ok_iff {i : Issuer} {c : Credential} {owner jti : Uuid} {now : Time.Instant}
    {issued : Issued} : i.issue c owner jti now = .ok issued ↔
      c.sign (i.claims owner jti now).toJson = .ok issued.token ∧
        issued.expiresAt = now.addSeconds (i.lifetime * 60) := by
  unfold Issuer.issue
  rw [bind_eq_ok_iff]
  constructor
  · rintro ⟨token, htoken, h⟩
    cases h
    exact ⟨htoken, rfl⟩
  · rintro ⟨htoken, hexpires⟩
    obtain ⟨token, expiresAt⟩ := issued
    exact ⟨token, htoken, by rw [← hexpires]; rfl⟩

/-- Every issued token reads as it was configured and verifies under the served key, until it
expires. A loaded key whose modulus is smaller than a padded digest issues none; one of two primes
with room for the padding always does. -/
theorem issued_token_verifies {disk : Files.Disk} {dir : String} {passphrase : Option String}
    (hload : Signing.loadMaterial disk dir passphrase = .ok m) (issuer audience : String)
    (minutes : Nat) (owner jti : Uuid) (now : Time.Instant)
    (hexpiry : Time.Instant.inRange
      (now.seconds + (max 1 (min minutes longestLifetime) * 60 : Nat)) = true) :
    let answer := (Issuer.new issuer audience minutes).issue m.credential owner jti now
    (∀ issued, answer = .ok issued → ∃ claims,
      (∃ parts served key, ReadsAs m issued.token claims parts served key ∧
        ∀ t, t.seconds - leeway ≤ claims.exp →
          verify? key issuer audience t issued.token = some (parts.header, claims)) ∧
      claims.sub = owner ∧ claims.iss = issuer ∧ claims.aud = audience ∧
      claims.exp - claims.iat = (max 1 (min minutes longestLifetime) * 60 : Nat) ∧
      claims.exp = issued.expiresAt.seconds ∧
      (∀ t, issued.expiresAt.le t = true → claims.isExpired t = true) ∧
      ∀ t, (t.addSeconds 1).le issued.expiresAt = true → claims.isExpired t = false) ∧
    (∀ f, answer = .error f → f.kind = .internal) ∧
    ((∃ issued, answer = .ok issued) → Rsa.leastSize ≤ m.key.publicKey.size) ∧
    (m.key.p.Prime → m.key.q.Prime → Rsa.leastSize ≤ m.key.publicKey.size →
      ∃ issued, answer = .ok issued) := by
  intro answer
  obtain ⟨hvalid, hencodable⟩ := Signing.valid_of_loadMaterial hload
  have hshort : max 1 (min minutes longestLifetime) * 60 < limit32 := by
    rw [longestLifetime, limit32]
    omega
  obtain ⟨hexp, hiat⟩ := inInt64_of_inRange hexpiry hshort
  let claims := (Issuer.new issuer audience minutes).claims owner jti now
  refine ⟨fun issued h => ?_, fun f h => ?_, fun ⟨issued, h⟩ => ?_, fun hp hq hsize => ?_⟩
  · obtain ⟨hsign, hexpires⟩ := issue_eq_ok_iff.mp h
    have hseconds : claims.exp = issued.expiresAt.seconds := by rw [hexpires]; rfl
    obtain ⟨parts, hreads⟩ := readsAs_sign hvalid hiat hexp hsign
    exact ⟨claims, ⟨parts, _, _, hreads, fun t => hreads.verify?⟩, rfl, rfl, rfl,
      add_sub_cancel_left _ _, hseconds, fun t => Claims.isExpired_of_le hseconds,
      fun t => Claims.isExpired_of_second_before hseconds⟩
  · rcases bind_eq_error_iff.mp h with h | ⟨token, -, h⟩
    · exact Credential.sign_kind h
    · cases h
  · obtain ⟨signature, hsign, -⟩ := Credential.sign_eq_ok_iff.mp (issue_eq_ok_iff.mp h).1
    exact Rsa.PrivateKey.leastSize_le_of_sign? hsign
  · obtain ⟨signature, hsign⟩ := Rsa.PrivateKey.exists_sign? hvalid hencodable hp hq hsize
      (Text.Utf8.encode (m.credential.signingInput claims.toJson))
    have htoken := Credential.sign_eq_ok_iff.mpr ⟨signature, hsign, rfl⟩
    exact ⟨⟨_, _⟩, issue_eq_ok_iff.mpr ⟨htoken, rfl⟩⟩

def mersenneKey : Rsa.PrivateKey :=
  ⟨⟨(2 ^ 521 - 1) * 3, 7⟩, (3 * 2 ^ 521 - 5) / 7, 2 ^ 521 - 1, 3⟩

def mersenneDer : Bytes :=
  let number (n : Nat) : Bytes := 2 :: 66 :: Digest.Words.bigEndian 66 n
  [0x30, 0x81, 222, 2, 1, 0] ++ number mersenneKey.publicKey.n ++ [2, 1, 7] ++
    number mersenneKey.d ++ number mersenneKey.p ++ [2, 1, 3, 2, 1, 0, 2, 1, 0, 2, 1, 0]

def mersennePem : String := Asn1.Pem.write "RSA PRIVATE KEY" mersenneDer

theorem readPlain?_mersennePem : Rsa.readPlain? mersennePem = some mersenneKey :=
  Rsa.readPlain?_of_readPkcs1? (Asn1.Pem.decode?_write (by decide +kernel)) (by decide +kernel)

theorem loadMaterial_keyDisk {pem : String} {key : Rsa.PrivateKey}
    (hread : Rsa.readPlain? pem = some key) (hencodable : key.encodable = true) :
    Signing.loadMaterial (Signing.keyDisk pem) "JWK" none = .ok ⟨"JWK/signing.pem", key⟩ :=
  Signing.loadMaterial_eq_ok_iff.mpr ⟨pem, Signing.holdsKeyFile_keyDisk pem,
    Rsa.decodePrivateKey_eq_ok_iff.mpr (.inl ⟨rfl, Rsa.isPlain_of_readPlain? hread, hread⟩),
    hencodable⟩

theorem prime_mersenneKey : mersenneKey.p.Prime :=
  lucas_lehmer_sufficiency 521 (by simp) (by norm_num)

def someone : Uuid := ⟨List.replicate 16 0x11, rfl⟩

/-- Of two keys that load, one issues a token of ten minutes and one, of a single byte, none. -/
theorem mersenne_key_issues_small_key_fails :
    (∃ m, Signing.loadMaterial (Signing.keyDisk mersennePem) "JWK" none = .ok m ∧
      ∃ issued claims, (Issuer.new "http://localhost:5500/" "warden" 10).issue m.credential someone
          someone ⟨1700000000, 0⟩ = .ok issued ∧
        (∃ parts served key, ReadsAs m issued.token claims parts served key) ∧
        claims.exp - claims.iat = 600) ∧
    ∃ m, Signing.loadMaterial (Signing.keyDisk Signing.Repository.smallPem) "JWK" none = .ok m ∧
      ∀ issued, (Issuer.new "http://localhost:5500/" "warden" 10).issue m.credential someone
        someone ⟨1700000000, 0⟩ ≠ .ok issued := by
  have hmersenne := loadMaterial_keyDisk readPlain?_mersennePem (by decide +kernel)
  have hsmall := loadMaterial_keyDisk Signing.Repository.readPlain?_smallPem (by decide)
  obtain ⟨hreads, -, -, hissues⟩ := issued_token_verifies hmersenne "http://localhost:5500/"
    "warden" 10 someone someone ⟨1700000000, 0⟩ (by decide)
  obtain ⟨-, -, hsize, -⟩ := issued_token_verifies hsmall "http://localhost:5500/" "warden"
    10 someone someone ⟨1700000000, 0⟩ (by decide)
  obtain ⟨issued, hissued⟩ := hissues prime_mersenneKey Nat.prime_three (by decide +kernel)
  obtain ⟨claims, ⟨parts, served, key, hread, -⟩, -, -, -, hlife, -⟩ := hreads issued hissued
  exact ⟨⟨_, hmersenne, issued, claims, hissued, ⟨parts, served, key, hread⟩, hlife⟩,
    ⟨_, hsmall, fun issued h => absurd (hsize ⟨issued, h⟩) (by decide +kernel)⟩⟩

end Token

end AuthCore
