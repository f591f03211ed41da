import AuthCore.Password.Hasher
import AuthCore.Proofs.Digest.OutputLength
import AuthCore.Proofs.Text.Base64RoundTrip
import AuthCore.Proofs.Text.DecimalDigits
import AuthCore.Proofs.Text.Identifiers

/-!
A stored hash is accepted for a candidate exactly when it is the text that hashing the candidate
under some salt writes. The reader of stored hashes passes over much; what it passes over is caught
because the whole text is written again and compared.
-/

set_option autoImplicit false

namespace AuthCore.Password

theorem dollar_not_mem_base64 (bs : Bytes) : '$' ∉ base64 bs := by
  intro h
  rcases Text.Base64.mem_encodeWith h with h | ⟨n, hn, h⟩
  · exact absurd h (by decide)
  · exact Text.Base64.standard_symbol_isPlain hn (by simp [← h])

theorem base64_ne_nil {bs : Bytes} (h : bs ≠ []) : base64 bs ≠ [] :=
  Text.Base64.encodeWith_ne_nil Text.Base64.standard ['='] h

theorem Cost.dollar_not_mem_chars (c : Cost) : '$' ∉ c.chars := by
  have hdigits (n : Nat) : '$' ∉ Text.Decimal.digits n := by
    intro h
    exact absurd (Text.Decimal.isDigit_of_mem_digits h) (by decide)
  simp [Cost.chars, hdigits]

theorem split_encode (p : Params) (salt digest : Bytes) :
    Text.split '$' (encode p salt digest).toList =
      [[], algorithm, version, p.cost.chars, base64 salt, base64 digest] := by
  have hchars : (encode p salt digest).toList = [] ++ '$' :: (algorithm ++ '$' :: (version ++
      '$' :: (p.cost.chars ++ '$' :: (base64 salt ++ '$' :: base64 digest)))) := by
    simp [encode, encodeChars, lead]
  rw [hchars, Text.split_append (by simp), Text.split_append (by decide),
    Text.split_append (by decide), Text.split_append p.cost.dollar_not_mem_chars,
    Text.split_append (dollar_not_mem_base64 salt),
    Text.split_of_not_mem (dollar_not_mem_base64 digest)]

theorem read?_encode (p : Params) {salt digest : Bytes} (hsalt : salt ≠ [])
    (hdigest : digest ≠ []) :
    Encoded.read? (encode p salt digest) =
      some ⟨algorithm, version, p.cost.chars, base64 salt, base64 digest⟩ := by
  have hcost : p.cost.chars ≠ [] := by simp [Cost.chars]
  have hfilled : [[], algorithm, version, p.cost.chars, base64 salt, base64 digest].filter
      (fun f => !f.isEmpty) = [algorithm, version, p.cost.chars, base64 salt, base64 digest] := by
    have halgorithm : algorithm ≠ [] := by decide
    have hversion : version ≠ [] := by decide
    simp [hcost, halgorithm, hversion, base64_ne_nil hsalt, base64_ne_nil hdigest]
  simp only [Encoded.read?, split_encode, hfilled]

def Encoded.saltOf? (stored : String) : Option Bytes :=
  (Encoded.read? stored).bind Encoded.saltBytes?

theorem saltOf?_encode (p : Params) {salt digest : Bytes} (hsalt : salt ≠ [])
    (hdigest : digest ≠ []) : Encoded.saltOf? (encode p salt digest) = some salt := by
  rw [Encoded.saltOf?, read?_encode p hsalt hdigest]
  exact Text.Base64.decodeChars?_encodeWith salt

/-- A salt of the least length can stand in the field of the salt only. -/
theorem salt_eq_of_piece {p : Params} {salt salt' : Bytes} (hlength : leastSalt ≤ salt.length)
    (hpiece : base64 salt ∈ [algorithm, version, p.cost.chars, base64 salt']) : salt = salt' := by
  have hread : Text.Base64.decodeChars? (base64 salt) = some salt :=
    Text.Base64.decodeChars?_encodeWith salt
  simp only [List.mem_cons, List.not_mem_nil, or_false] at hpiece
  rcases hpiece with h | h | h | h
  · have hshort : Text.Base64.decodeChars? algorithm =
        some [0x6A, 0xB8, 0x28, 0x9F, 0x68, 0x9D] := by
      decide
    rw [h, hshort] at hread
    cases hread
    simp [leastSalt] at hlength
  · have hnone : Text.Base64.decodeChars? version = none := by decide
    rw [h, hnone] at hread
    cases hread
  · rw [h, Cost.chars, Text.Base64.decodeChars?_pad_second] at hread
    cases hread
  · rw [h] at hread
    exact Option.some.inj (hread.symm.trans (Text.Base64.decodeChars?_encodeWith salt'))

/-- The first field is empty and the digest is the last, so a field between two dollar signs is one
of the four between them. -/
theorem piece_of_encode {p : Params} {front piece back : List Char} {salt digest : Bytes}
    (hpiece : '$' ∉ piece)
    (htext : front ++ '$' :: (piece ++ '$' :: back) = (encode p salt digest).toList) :
    piece ∈ [algorithm, version, p.cost.chars, base64 salt] := by
  have hpieces := split_encode p salt digest
  rw [← htext, Text.split_append_split, Text.split_append hpiece] at hpieces
  obtain ⟨first, middle, hfront⟩ := List.exists_cons_of_ne_nil (Text.split_ne_nil '$' front)
  obtain ⟨rest, last, hback⟩ : ∃ rest last, Text.split '$' back = rest ++ [last] :=
    ⟨_, _, (List.dropLast_concat_getLast (Text.split_ne_nil '$' back)).symm⟩
  rw [hfront, hback, List.cons_append] at hpieces
  have hinner : (middle ++ piece :: rest) ++ [last] =
      [algorithm, version, p.cost.chars, base64 salt] ++ [base64 digest] := by
    simpa using (List.cons.inj hpieces).2
  rw [← (List.append_inj' hinner rfl).1]
  simp

namespace Hasher

variable {h : Hasher} {secret : Except Failure Bytes}

theorem derive_eq_ok_iff {salt password digest : Bytes} :
    h.derive secret salt password = .ok digest ↔ ∃ key, secret = .ok key ∧
      h.params.fault? = none ∧ leastSalt ≤ salt.length ∧
      digest = h.kdf h.params.cost h.params.outputLength key salt password := by
  cases secret with
  | error f =>
    refine iff_of_false (fun hderive => ?_) (by simp)
    cases hderive
  | ok key =>
    have hopen : h.derive (.ok key) salt password = h.params.check.bind fun _ =>
        if salt.length < leastSalt then .error (.hashing .saltTooShort)
        else .ok (h.kdf h.params.cost h.params.outputLength key salt password) := rfl
    rw [hopen, Params.check]
    cases h.params.fault? with
    | some fault => simp [Except.bind]
    | none =>
      by_cases hshort : salt.length < leastSalt
      · simp [Except.bind, hshort, Nat.not_le_of_lt hshort]
      · simp [Except.bind, hshort, Nat.le_of_not_lt hshort, eq_comm]

theorem outputLength_of_fault? {p : Params} (h : p.fault? = none) : 4 ≤ p.outputLength := by
  refine Nat.le_of_not_lt fun hshort => ?_
  rw [Params.fault?, if_pos hshort] at h
  grind

theorem filled_of_derive (hkdf : ∀ c n key salt password, (h.kdf c n key salt password).length = n)
    {salt password digest : Bytes} (hderive : h.derive secret salt password = .ok digest) :
    salt ≠ [] ∧ digest ≠ [] := by
  obtain ⟨key, _, hfault, hsalt, rfl⟩ := derive_eq_ok_iff.mp hderive
  have houtput := outputLength_of_fault? hfault
  have hlength := hkdf h.params.cost h.params.outputLength key salt password
  constructor
  · rintro rfl
    simp [leastSalt] at hsalt
  · intro hnil
    rw [hnil, List.length_nil] at hlength
    omega

theorem recompute?_eq_some_iff {stored candidate again : String} :
    h.recompute? secret stored candidate = some again ↔ ∃ salt digest,
      Encoded.saltOf? stored = some salt ∧
      h.derive secret salt (Text.Utf8.encode candidate) = .ok digest ∧
      again = encode h.params salt digest := by
  constructor
  · intro hagain
    simp only [recompute?, Option.bind_eq_bind, Option.bind_eq_some_iff] at hagain
    obtain ⟨e, hread, salt, hbytes, hagain⟩ := hagain
    have hsalt : Encoded.saltOf? stored = some salt :=
      Option.bind_eq_some_iff.mpr ⟨e, hread, hbytes⟩
    split at hagain
    · rename_i digest hderive
      exact ⟨salt, digest, hsalt, hderive, (Option.some.inj hagain).symm⟩
    · cases hagain
  · rintro ⟨salt, digest, hsalt, hderive, rfl⟩
    obtain ⟨e, hread, hbytes⟩ := Option.bind_eq_some_iff.mp hsalt
    simp only [recompute?, hread, hbytes, hderive, Option.bind_eq_bind, Option.bind_some,
      Option.pure_def]

theorem verify_eq_success_iff {stored candidate : String} :
    h.verify secret stored candidate = .success ↔
      h.recompute? secret stored candidate = some stored := by
  unfold verify
  split
  · simp [*]
  · simp [*]

theorem written_of_verify {stored candidate : String}
    (hverify : h.verify secret stored candidate = .success) : ∃ salt digest,
      Encoded.saltOf? stored = some salt ∧
      h.derive secret salt (Text.Utf8.encode candidate) = .ok digest ∧
      stored = encode h.params salt digest :=
  recompute?_eq_some_iff.mp (verify_eq_success_iff.mp hverify)

theorem verify_written (hkdf : ∀ c n key salt password, (h.kdf c n key salt password).length = n)
    {candidate : String} {salt digest : Bytes}
    (hderive : h.derive secret salt (Text.Utf8.encode candidate) = .ok digest) :
    h.verify secret (encode h.params salt digest) candidate = .success := by
  obtain ⟨hsalt, hdigest⟩ := filled_of_derive hkdf hderive
  exact verify_eq_success_iff.mpr (recompute?_eq_some_iff.mpr
    ⟨salt, digest, saltOf?_encode h.params hsalt hdigest, hderive, rfl⟩)

theorem eq_of_verify {stored stored' candidate : String}
    (hverify : h.verify secret stored candidate = .success)
    (hverify' : h.verify secret stored' candidate = .success)
    (hsame : Encoded.saltOf? stored' = Encoded.saltOf? stored) : stored' = stored := by
  obtain ⟨salt, digest, hsalt, hderive, hstored⟩ := written_of_verify hverify
  obtain ⟨salt', digest', hsalt', hderive', hstored'⟩ := written_of_verify hverify'
  obtain rfl : salt' = salt := Option.some.inj (hsalt'.symm.trans (hsame.trans hsalt))
  obtain rfl : digest' = digest := Except.ok.inj (hderive'.symm.trans hderive)
  rw [hstored', hstored]

theorem verify_eq_failed {stored candidate : String}
    (hverify : h.verify secret stored candidate ≠ .success) :
    h.verify secret stored candidate = .failed := by
  cases hfound : h.verify secret stored candidate with
  | success => exact absurd hfound hverify
  | failed => rfl

theorem eq_of_verify_framed {stored changed candidate : String} {salt : Bytes}
    {front back : List Char} (hverify : h.verify secret stored candidate = .success)
    (hsalt : Encoded.saltOf? stored = some salt)
    (htext : changed.toList = front ++ '$' :: (base64 salt ++ '$' :: back))
    (hchanged : h.verify secret changed candidate = .success) : changed = stored := by
  obtain ⟨salt', digest, hsalt', hderive, _⟩ := written_of_verify hverify
  obtain rfl : salt = salt' := Option.some.inj (hsalt.symm.trans hsalt')
  obtain ⟨_, _, _, hlength, _⟩ := derive_eq_ok_iff.mp hderive
  obtain ⟨other, digest', hother, _, hwritten⟩ := written_of_verify hchanged
  have hpiece : base64 salt ∈ [algorithm, version, h.params.cost.chars, base64 other] :=
    piece_of_encode (dollar_not_mem_base64 salt) (by rw [← htext, hwritten])
  obtain rfl : salt = other := salt_eq_of_piece hlength hpiece
  exact eq_of_verify hverify hchanged (hother.trans hsalt.symm)

/-- A candidate is accepted for exactly the texts that hashing it under some salt writes. So every
hash of it is accepted, each salt has at most one accepted text, and an accepted text that is
changed is refused unless its salt changes: whether a reader finds the same salt or none, and
whatever stands before and behind the salt. -/
theorem verification_exact
    (hkdf : ∀ c n key salt password, (h.kdf c n key salt password).length = n)
    (secret : Except Failure Bytes) (candidate : String) :
    (∀ stored, h.verify secret stored candidate = .success ↔ ∃ salt digest,
      h.derive secret salt (Text.Utf8.encode candidate) = .ok digest ∧
        stored = encode h.params salt digest) ∧
    (∀ salt stored, h.hash secret salt candidate = .ok stored →
      h.verify secret stored candidate = .success) ∧
    (∀ stored stored' salt, h.verify secret stored candidate = .success →
      h.verify secret stored' candidate = .success → Encoded.saltOf? stored = some salt →
      Encoded.saltOf? stored' = some salt → stored' = stored) ∧
    (∀ stored changed, h.verify secret stored candidate = .success → changed ≠ stored →
      (∀ salt ∈ Encoded.saltOf? changed, Encoded.saltOf? stored = some salt) →
      h.verify secret changed candidate = .failed) ∧
    ∀ stored changed salt front back, h.verify secret stored candidate = .success →
      changed ≠ stored → Encoded.saltOf? stored = some salt →
      changed.toList = front ++ '$' :: (base64 salt ++ '$' :: back) →
      h.verify secret changed candidate = .failed := by
  refine ⟨fun stored => ⟨fun hverify => ?_, ?_⟩, ?_, ?_, ?_, ?_⟩
  · obtain ⟨salt, digest, _, hderive, hstored⟩ := written_of_verify hverify
    exact ⟨salt, digest, hderive, hstored⟩
  · rintro ⟨salt, digest, hderive, rfl⟩
    exact verify_written hkdf hderive
  · intro salt stored hhash
    cases hderive : h.derive secret salt (Text.Utf8.encode candidate) with
    | error f =>
      rw [hash, hderive] at hhash
      cases hhash
    | ok digest =>
      rw [hash, hderive] at hhash
      cases hhash
      exact verify_written hkdf hderive
  · intro stored stored' salt hverify hverify' hsalt hsalt'
    exact eq_of_verify hverify hverify' (hsalt'.trans hsalt.symm)
  · intro stored changed hverify hne hsame
    refine verify_eq_failed fun hchanged => hne ?_
    obtain ⟨salt, _, hsalt, _, _⟩ := written_of_verify hchanged
    exact eq_of_verify hverify hchanged (hsalt.trans (hsame salt hsalt).symm)
  · intro stored changed salt front back hverify hne hsalt htext
    exact verify_eq_failed fun hchanged =>
      hne (eq_of_verify_framed hverify hsalt htext hchanged)

theorem length_argon2id (c : Cost) (n : Nat) (key salt password : Bytes) :
    (argon2id c n key salt password).length = n :=
  Digest.Argon2.length_derive _ n key salt password

def lightHasher : Hasher := .new ⟨⟨1024, 1, 1⟩, 32, 16⟩ 2

def pepper : Bytes := Text.Utf8.encode "pepper"

def lightSalt : Bytes := List.replicate 16 7

def lightDigest : Bytes :=
  argon2id ⟨1024, 1, 1⟩ 32 pepper lightSalt (Text.Utf8.encode "hunter2")

theorem verification_exact_light : ∃ stored,
    lightHasher.hash (.ok pepper) lightSalt "hunter2" = .ok stored ∧
      lightHasher.verify (.ok pepper) stored "hunter2" = .success ∧
      lightHasher.verify (.ok pepper) (stored ++ "$") "hunter2" = .failed := by
  obtain ⟨_, hhash, _, _, hframed⟩ :=
    verification_exact (h := lightHasher) length_argon2id (.ok pepper) "hunter2"
  have hwritten : lightHasher.hash (.ok pepper) lightSalt "hunter2" =
      .ok (encode lightHasher.params lightSalt lightDigest) := rfl
  have hverify := hhash lightSalt _ hwritten
  have hdigest : lightDigest ≠ [] :=
    List.ne_nil_of_length_pos (by rw [lightDigest, length_argon2id]; decide)
  have hlength : lightSalt ≠ [] := by decide
  have hsalt := saltOf?_encode lightHasher.params hlength hdigest
  refine ⟨_, hwritten, hverify, hframed _ _ _ ('$' :: (algorithm ++ '$' :: (version ++
    '$' :: lightHasher.params.cost.chars))) (base64 lightDigest ++ ['$']) hverify ?_ hsalt ?_⟩
  · intro heq
    simpa using congrArg String.length heq
  · simp [encode, encodeChars, lead]

end Hasher

end AuthCore.Password
