import AuthCore.Proofs.Signing.PublishedKey
import AuthCore.Text.Blank

set_option autoImplicit false

namespace AuthCore.Signing.Jwk

open Digest.Words (Minimal)
open Text.Base64 (IsUrlChar)

/-- The text of a number. Zero has none, since its one byte stands for nothing. -/
structure TextOf (n : Nat) (s : String) : Prop where
  chars : ∀ c ∈ s.toList, IsUrlChar c
  bytes : ∀ bs, Text.Base64.decodeUrl? s = some bs ↔ Minimal n bs

theorem numberText_spec {n : Nat} (h : n ≠ 0) : TextOf n (numberText n) := by
  have hminimal := Rsa.PublicKey.minimal_minimalBytes h
  refine ⟨fun _ => Text.Base64.isUrlChar_of_mem_encodeUrl, fun bs => ?_⟩
  rw [numberText, Text.Base64.decodeUrl?_encodeUrl, Option.some.injEq]
  constructor
  · rintro rfl
    exact hminimal
  · exact hminimal.unique

theorem numberText_inj {m n : Nat} : numberText m = numberText n ↔ m = n := by
  refine ⟨fun h => ?_, congrArg numberText⟩
  have hread := number?_numberText m
  rw [h, number?_numberText] at hread
  exact (Option.some.inj hread).symm

theorem escape_of_mem_numberText {n : Nat} {c : Char} (h : c ∈ (numberText n).toList) :
    Json.escape c = [c] :=
  Text.Base64.of_mem_encodeUrl (P := fun c => Json.escape c = [c]) (by decide) h

def required (e n : String) : Json.Value :=
  .record [("e", .text e), ("kty", .text "RSA"), ("n", .text n)]

theorem thumbprintInput_eq_write {e n : String} (he : ∀ c ∈ e.toList, Json.escape c = [c])
    (hn : ∀ c ∈ n.toList, Json.escape c = [c]) :
    thumbprintInput e n = Json.write (required e n) := by
  rw [← String.toList_inj, thumbprintInput, Json.write, String.toList_ofList, required,
    Json.Value.record, Json.writeChars]
  simp only [List.map_cons, List.map_nil, Json.writeMembers, Json.writeString_some,
    Json.writeChars_text, Json.quoted_unescaped he, Json.quoted_unescaped hn]
  simp only [String.toList_append, List.append_assoc, List.cons_append, List.nil_append]
  rfl

def hashed (k : Rsa.PublicKey) : String := thumbprintInput (numberText k.e) (numberText k.n)

theorem hashed_eq_write (k : Rsa.PublicKey) :
    hashed k = Json.write (required (numberText k.e) (numberText k.n)) :=
  thumbprintInput_eq_write (fun _ => escape_of_mem_numberText) fun _ => escape_of_mem_numberText

theorem plain_required (e n : String) : Json.Plain (required e n) := by
  apply Json.plain_record
  simp only [List.forall_mem_cons]
  exact ⟨.text _, .text _, .text _, by simp⟩

theorem ofBytes?_hashed (k : Rsa.PublicKey) :
    Json.ofBytes? (Text.Utf8.encode (hashed k)) =
      some (required (numberText k.e) (numberText k.n)) := by
  rw [hashed_eq_write, Json.ofBytes?_write (plain_required _ _)]

theorem required_inj {e e' n n' : String} : required e n = required e' n' ↔ e = e' ∧ n = n' := by
  simp [required, Json.Value.record, Json.Value.text]

theorem numbers_inj {k k' : Rsa.PublicKey} :
    numberText k.n = numberText k'.n ∧ numberText k.e = numberText k'.e ↔ k = k' := by
  obtain ⟨n, e⟩ := k
  obtain ⟨n', e'⟩ := k'
  rw [numberText_inj, numberText_inj, Rsa.PublicKey.mk.injEq]

theorem hashed_inj {k k' : Rsa.PublicKey} : hashed k = hashed k' ↔ k = k' := by
  refine ⟨fun h => ?_, congrArg hashed⟩
  have hread := ofBytes?_hashed k
  rw [h, ofBytes?_hashed, Option.some.injEq, required_inj] at hread
  exact numbers_inj.mp ⟨hread.2.symm, hread.1.symm⟩

/-- A character that is neither blank nor the beginning of an escape. -/
def Solid (c : Char) : Prop := c ≠ '\\' ∧ Text.isBlank c = false

instance : DecidablePred Solid := fun c => by unfold Solid; infer_instance

theorem solid_of_mem_numberText {n : Nat} {c : Char} (h : c ∈ (numberText n).toList) : Solid c :=
  Text.Base64.of_mem_encodeUrl (by decide) h

theorem solid_of_all {cs : List Char} (h : (cs.all fun c => decide (Solid c)) = true) :
    ∀ c ∈ cs, Solid c := by
  simpa using h

theorem solid_of_mem_hashed {k : Rsa.PublicKey} {c : Char} (h : c ∈ (hashed k).toList) :
    Solid c := by
  -- What stands around the texts is looked through character by character.
  have hfront : ∀ c ∈ "\x7b\"e\":\"".toList, Solid c := solid_of_all (by decide)
  have hmiddle : ∀ c ∈ "\",\"kty\":\"RSA\",\"n\":\"".toList, Solid c := solid_of_all (by decide)
  have hback : ∀ c ∈ "\"\x7d".toList, Solid c := solid_of_all (by decide)
  simp only [hashed, thumbprintInput, String.toList_append, List.mem_append] at h
  rcases h with (((h | h) | h) | h) | h
  · exact hfront c h
  · exact solid_of_mem_numberText h
  · exact hmiddle c h
  · exact solid_of_mem_numberText h
  · exact hback c h

/-- A published key says which key it is: the texts of its numbers are the shortest bytes of exactly
those numbers, and no other key has the same. Its id is the digest of the object of the required
members in the order of their names, without blanks and without escapes, which no other key has
either. So the id depends on the key alone, not on the algorithm that it is published for nor on the
text that it was read from. -/
theorem published_key_identity :
    (∀ (k : Rsa.PublicKey) (alg : String), 0 < k.n → 0 < k.e →
      TextOf k.n (ofPublicKey k alg).n ∧ TextOf k.e (ofPublicKey k alg).e) ∧
    (∀ (k k' : Rsa.PublicKey) (alg alg' : String),
      (ofPublicKey k alg).n = (ofPublicKey k' alg').n ∧
        (ofPublicKey k alg).e = (ofPublicKey k' alg').e ↔ k = k') ∧
    (∀ (k : Rsa.PublicKey) (alg : String),
      (ofPublicKey k alg).kid =
        Text.Base64.encodeUrl (Digest.sha256.run (Text.Utf8.encode (hashed k))) ∧
      Json.ofBytes? (Text.Utf8.encode (hashed k)) =
        some (required (ofPublicKey k alg).e (ofPublicKey k alg).n) ∧
      hashed k = Json.write (required (ofPublicKey k alg).e (ofPublicKey k alg).n) ∧
      ∀ c ∈ (hashed k).toList, Solid c) ∧
    (∀ k k' : Rsa.PublicKey, hashed k = hashed k' ↔ k = k') ∧
    ∀ m m' : KeyMaterial, m.jwk = m'.jwk ↔ m.key.publicKey = m'.key.publicKey := by
  refine ⟨fun k _ hn he => ⟨numberText_spec hn.ne', numberText_spec he.ne'⟩,
    fun _ _ _ _ => numbers_inj,
    fun k _ => ⟨rfl, ofBytes?_hashed k, hashed_eq_write k, fun _ => solid_of_mem_hashed⟩,
    fun _ _ => hashed_inj, fun m m' => ?_⟩
  constructor
  · intro h
    exact numbers_inj.mp ⟨congrArg Jwk.n h, congrArg Jwk.e h⟩
  · intro h
    exact congrArg (ofPublicKey · algorithm) h

theorem published_key_identity_small :
    TextOf 3233 (ofPublicKey ⟨3233, 17⟩ "RS256").n ∧
    (ofPublicKey ⟨3233, 17⟩ "RS256").n = "DKE" ∧
    TextOf 17 (ofPublicKey ⟨3233, 17⟩ "RS256").e ∧
    hashed ⟨3233, 17⟩ ≠ hashed ⟨3233, 5⟩ := by
  obtain ⟨hnumbers, -, -, hinj, -⟩ := published_key_identity
  obtain ⟨hn, he⟩ := hnumbers ⟨3233, 17⟩ "RS256" (by decide) (by decide)
  refine ⟨hn, by decide +kernel, he, fun h => ?_⟩
  have hkeys := (hinj _ _).mp h
  exact absurd hkeys (by decide)

end AuthCore.Signing.Jwk
