import AuthCore.Proofs.Password.EncodedText

set_option autoImplicit false

namespace AuthCore.Password.Hasher

variable {h : Hasher} {secret : Except Failure Bytes}

def under (h : Hasher) (q : Params) : Hasher := { h with params := q }

theorem needsRehash_eq_false_iff {stored : String} : h.needsRehash stored = false ↔
    ∃ e, Encoded.read? stored = some e ∧ e.agrees h.params = true := by
  unfold needsRehash
  split
  · simp_all
  · simp_all

/-- The texts that are cleared: five fields, the costs in any order and any spelling of their
numbers, a salt and a digest of the right lengths. -/
theorem needsRehash_eq_false_iff_fields {stored : String} : h.needsRehash stored = false ↔
    ∃ block salt digest, h.params.cost.Block block ∧ salt.length = h.params.saltLength ∧
      digest.length = h.params.outputLength ∧
      Text.Fields '$' [algorithm, version, block, base64 salt, base64 digest] stored.toList := by
  rw [needsRehash_eq_false_iff]
  constructor
  · rintro ⟨⟨_, _, block, _, _⟩, hread, hagrees⟩
    obtain ⟨rfl, rfl, hblock, ⟨salt, rfl, hsalt⟩, digest, rfl, hdigest⟩ :=
      Encoded.agrees_eq_true_iff.mp hagrees
    exact ⟨block, salt, digest, hblock, hsalt, hdigest, Encoded.read?_eq_some_iff.mp hread⟩
  · rintro ⟨block, salt, digest, hblock, hsalt, hdigest, hfields⟩
    refine ⟨⟨_, _, _, _, _⟩, Encoded.read?_eq_some_iff.mpr hfields, ?_⟩
    exact Encoded.agrees_eq_true_iff.mpr
      ⟨rfl, rfl, hblock, ⟨salt, rfl, hsalt⟩, digest, rfl, hdigest⟩

theorem needsRehash_encode_eq_false_iff {p : Params} {salt digest : Bytes} (hsalt : salt ≠ [])
    (hdigest : digest ≠ []) : h.needsRehash (encode p salt digest) = false ↔
      h.params.cost = p.cost ∧ h.params.saltLength = salt.length ∧
        h.params.outputLength = digest.length := by
  simp only [needsRehash_eq_false_iff, read?_encode p hsalt hdigest, Option.some.injEq,
    exists_eq_left', Encoded.agrees_encode_iff]

theorem hash_eq_ok_iff {salt : Bytes} {password stored : String} :
    h.hash secret salt password = .ok stored ↔ ∃ digest,
      h.derive secret salt (Text.Utf8.encode password) = .ok digest ∧
        stored = encode h.params salt digest := by
  unfold hash
  cases h.derive secret salt (Text.Utf8.encode password) with
  | error f => exact iff_of_false (fun hhash => by cases hhash) (by simp)
  | ok digest =>
    constructor
    · intro hhash
      cases hhash
      exact ⟨digest, rfl, rfl⟩
    · rintro ⟨_, ⟨⟩, rfl⟩
      rfl

theorem verify_of_hash (hkdf : ∀ c n key salt password, (h.kdf c n key salt password).length = n)
    {salt : Bytes} {password stored : String} (hhash : h.hash secret salt password = .ok stored) :
    h.verify secret stored password = .success := by
  obtain ⟨digest, hderive, rfl⟩ := hash_eq_ok_iff.mp hhash
  exact verify_written hkdf hderive

theorem outputLength_eq_of_derive
    (hkdf : ∀ c n key salt password, (h.kdf c n key salt password).length = n)
    {salt password digest : Bytes} (hderive : h.derive secret salt password = .ok digest) :
    digest.length = h.params.outputLength := by
  obtain ⟨key, _, _, _, rfl⟩ := derive_eq_ok_iff.mp hderive
  exact hkdf _ _ _ _ _

/-- Parameters that differ in the length of new salts alone derive the same digests and write the
same texts. -/
theorem verify_under_of_same {q : Params} (hcost : q.cost = h.params.cost)
    (houtput : q.outputLength = h.params.outputLength) {stored candidate : String} :
    (h.under q).verify secret stored candidate = .success ↔
      h.verify secret stored candidate = .success := by
  have hfault : q.fault? = h.params.fault? := by
    rw [Params.fault?, hcost, houtput, Params.fault?]
  have hderive (salt password : Bytes) :
      (h.under q).derive secret salt password = h.derive secret salt password := by
    simp only [derive, under, Params.check, hfault, hcost, houtput]
  have hencode (salt digest : Bytes) : encode q salt digest = encode h.params salt digest := by
    rw [encode, hcost, encode]
  simp only [verify_eq_success_iff, recompute?_eq_some_iff, hderive,
    show (h.under q).params = q from rfl, hencode]

theorem verify_under_eq_success_iff
    (hkdf : ∀ c n key salt password, (h.kdf c n key salt password).length = n)
    {salt : Bytes} {password stored : String} (hhash : h.hash secret salt password = .ok stored)
    {q : Params} {candidate : String} : (h.under q).verify secret stored candidate = .success ↔
      q.cost = h.params.cost ∧ q.outputLength = h.params.outputLength ∧
        h.verify secret stored candidate = .success := by
  constructor
  · intro hverify
    obtain ⟨digest, hderive, rfl⟩ := hash_eq_ok_iff.mp hhash
    obtain ⟨salt', digest', _, hagain, hwritten⟩ := written_of_verify hverify
    obtain ⟨hcost, rfl, rfl⟩ := encode_eq_encode_iff.mp hwritten
    have houtput : q.outputLength = h.params.outputLength :=
      (outputLength_eq_of_derive (h := h.under q) hkdf hagain).symm.trans
        (outputLength_eq_of_derive hkdf hderive)
    exact ⟨hcost.symm, houtput, (verify_under_of_same hcost.symm houtput).mp hverify⟩
  · rintro ⟨hcost, houtput, hverify⟩
    exact (verify_under_of_same hcost houtput).mpr hverify

/-- A text is cleared as current on the content of its fields alone. Every text the hasher can write
under its lengths is; but a text may be cleared in another spelling, and a text that the hasher does
not write is refused for every candidate. -/
theorem cleared_texts (h : Hasher) :
    (∀ stored, h.needsRehash stored = false ↔
      ∃ block salt digest, h.params.cost.Block block ∧ salt.length = h.params.saltLength ∧
        digest.length = h.params.outputLength ∧
        Text.Fields '$' [algorithm, version, block, base64 salt, base64 digest] stored.toList) ∧
    (∀ salt digest, salt ≠ [] → digest ≠ [] → salt.length = h.params.saltLength →
      digest.length = h.params.outputLength →
      h.needsRehash (encode h.params salt digest) = false) ∧
    ∀ stored, (∀ salt digest, stored ≠ encode h.params salt digest) →
      ∀ secret candidate, h.verify secret stored candidate = .failed := by
  refine ⟨fun _ => needsRehash_eq_false_iff_fields, fun salt digest hsalt hdigest hlength houtput =>
    (needsRehash_encode_eq_false_iff hsalt hdigest).mpr ⟨rfl, hlength.symm, houtput.symm⟩,
    fun stored hforeign secret candidate => verify_eq_failed fun hverify => ?_⟩
  obtain ⟨salt, digest, _, _, hwritten⟩ := written_of_verify hverify
  exact hforeign salt digest hwritten

def smallHasher : Hasher := .new ⟨⟨8, 1, 1⟩, 32, 16⟩ 1

def swapped : String :=
  "$argon2id$v=19$t=1,m=8,p=1$MDEyMzQ1Njc4OWFiY2RlZg==" ++
    "$V6ZfXO5qqmvxSclbvcj19rbJtaN4Y57ApcpKuxIED9M="

theorem cleared_texts_swapped : smallHasher.needsRehash swapped = false ∧
    ∀ secret candidate, smallHasher.verify secret swapped candidate = .failed := by
  obtain ⟨hcleared, _, hrefused⟩ := cleared_texts smallHasher
  have hread : Encoded.read? swapped = some ⟨algorithm, version, "t=1,m=8,p=1".toList,
      "MDEyMzQ1Njc4OWFiY2RlZg==".toList,
      "V6ZfXO5qqmvxSclbvcj19rbJtaN4Y57ApcpKuxIED9M=".toList⟩ := by
    decide +kernel
  refine ⟨(hcleared swapped).mpr ?_, hrefused swapped fun salt digest hwritten => ?_⟩
  · rw [← needsRehash_eq_false_iff_fields, needsRehash_eq_false_iff]
    exact ⟨_, hread, by decide +kernel⟩
  · have hcost := congrArg (fun text => (Text.split '$' text.toList)[3]?) hwritten
    rw [split_encode] at hcost
    have hother : (Text.split '$' swapped.toList)[3]? ≠ some smallHasher.params.cost.chars := by
      decide +kernel
    exact hother hcost

/-- Under other parameters a hash is accepted for the candidates that it is accepted for under its
own, as long as costs and length of the digest are the same: salts of another length are no reason
to refuse it. They are a reason to hash again, as is every other difference. -/
theorem hash_under_other_params
    (hkdf : ∀ c n key salt password, (h.kdf c n key salt password).length = n)
    {salt : Bytes} {password stored : String} (hlength : salt.length = h.params.saltLength)
    (hhash : h.hash secret salt password = .ok stored) (q : Params) :
    (∀ candidate, (h.under q).verify secret stored candidate = .success ↔
      q.cost = h.params.cost ∧ q.outputLength = h.params.outputLength ∧
        h.verify secret stored candidate = .success) ∧
    h.verify secret stored password = .success ∧
    ((h.under q).needsRehash stored = true ↔ q ≠ h.params) := by
  refine ⟨fun _ => verify_under_eq_success_iff hkdf hhash, verify_of_hash hkdf hhash, ?_⟩
  obtain ⟨digest, hderive, rfl⟩ := hash_eq_ok_iff.mp hhash
  obtain ⟨hsalt, hdigest⟩ := filled_of_derive hkdf hderive
  rw [← Bool.not_eq_false, not_iff_not, needsRehash_encode_eq_false_iff hsalt hdigest,
    outputLength_eq_of_derive hkdf hderive, hlength]
  constructor
  · rintro ⟨hcost, hsalts, houtput⟩
    calc q = ⟨q.cost, q.outputLength, q.saltLength⟩ := rfl
      _ = ⟨h.params.cost, h.params.outputLength, h.params.saltLength⟩ := by
        rw [← hcost, ← hsalts, ← houtput]
        rfl
  · rintro rfl
    exact ⟨rfl, rfl, rfl⟩

theorem hash_under_longer_salts : ∃ stored,
    lightHasher.hash (.ok pepper) lightSalt "hunter2" = .ok stored ∧
      (lightHasher.under ⟨⟨1024, 1, 1⟩, 32, 17⟩).verify (.ok pepper) stored "hunter2" = .success ∧
      (lightHasher.under ⟨⟨1024, 1, 1⟩, 32, 17⟩).needsRehash stored = true := by
  have hwritten : lightHasher.hash (.ok pepper) lightSalt "hunter2" =
      .ok (encode lightHasher.params lightSalt lightDigest) := rfl
  obtain ⟨haccepted, hown, hrehash⟩ := hash_under_other_params (h := lightHasher) length_argon2id
    (by decide) hwritten ⟨⟨1024, 1, 1⟩, 32, 17⟩
  exact ⟨_, hwritten, (haccepted "hunter2").mpr ⟨rfl, rfl, hown⟩, hrehash.mpr (by decide)⟩

end AuthCore.Password.Hasher
