import AuthCore.Proofs.Cache.GlobLanguage
import AuthCore.Proofs.Text.Identifiers
import AuthCore.Session.Key

set_option autoImplicit false

namespace AuthCore.Session.Key

open AuthCore.Cache (Glob.isMatch Glob.escape)

theorem toList_compose (keyPrefix : String) (owner : Uuid) (nonce : String) :
    (compose keyPrefix owner nonce).toList =
      keyPrefix.toList ++ '_' :: (owner.chars ++ '_' :: nonce.toList) := by
  simp [compose, separator, Uuid.text_toList]

theorem read?_eq_some_iff {keyPrefix raw : String} {k : Key} :
    read? keyPrefix raw = some k ↔ k.text = raw ∧ '_' ∉ keyPrefix.toList ∧ ∃ nonce, nonce ≠ [] ∧
      raw.toList = keyPrefix.toList ++ '_' :: (k.owner.chars ++ '_' :: nonce) := by
  constructor
  · intro h
    simp only [read?, Option.bind_eq_bind, Option.bind_eq_some_iff] at h
    obtain ⟨⟨first, rest⟩, hfirst, ⟨segment, nonce⟩, hsecond, owner, _, h⟩ := h
    split at h
    · rename_i hsame
      obtain ⟨hfirstSegment, hsegment, hnonce⟩ := hsame
      cases h
      obtain ⟨hraw, hfree⟩ := Text.splitOnce_eq_some_iff.mp hfirst
      obtain ⟨hrest, _⟩ := Text.splitOnce_eq_some_iff.mp hsecond
      dsimp only at hfirstSegment hsegment hrest
      refine ⟨rfl, hfirstSegment ▸ hfree, nonce, hnonce, ?_⟩
      rw [hraw, hfirstSegment, hrest, ← hsegment]
      rfl
    · simp at h
  · rintro ⟨rfl, hfree, nonce, hnonce, hraw⟩
    have hfirst := Text.splitOnce_append hfree (k.owner.chars ++ '_' :: nonce)
    have hsecond := Text.splitOnce_append k.owner.underscore_not_mem_chars nonce
    simp only [read?, separator, hraw, hfirst, hsecond, Uuid.readChars?_chars, Option.bind_eq_bind,
      Option.bind_some]
    simp [hnonce]

theorem text_of_read? {keyPrefix raw : String} {k : Key} (h : read? keyPrefix raw = some k) :
    k.text = raw :=
  (read?_eq_some_iff.mp h).1

theorem read?_text_of_read? {keyPrefix raw : String} {k : Key}
    (h : read? keyPrefix raw = some k) : read? keyPrefix k.text = some k := by
  rw [text_of_read? h, h]

theorem read?_generate {random : Nat → Bytes} {keyPrefix : String} {owner : Uuid} {count : Nat}
    {k : Key} (hfree : '_' ∉ keyPrefix.toList) (hfull : (random count).length = count)
    (h : generate random keyPrefix owner count = .ok k) :
    k.owner = owner ∧ read? keyPrefix k.text = some k := by
  unfold generate at h
  split at h
  · cases h
  · rename_i hcount
    cases h
    have hbytes : random count ≠ [] := by
      intro hnil
      rw [hnil] at hfull
      simp [leastNonce, ← hfull] at hcount
    refine ⟨rfl, read?_eq_some_iff.mpr ⟨rfl, hfree, _, ?_, toList_compose ..⟩⟩
    simpa [Text.Base64.encodeUrl] using Text.Base64.encodeWith_ne_nil Text.Base64.urlSafe [] hbytes

theorem isSpecial_of_mem_chars {u : Uuid} {c : Char} (h : c ∈ u.chars) :
    Cache.Glob.isSpecial c = false := by
  rcases Uuid.mem_chars h with rfl | ⟨n, hn, rfl⟩
  · rfl
  · have hplain := Text.Hex.digit_isPlain hn
    simp only [List.mem_cons, List.not_mem_nil, or_false, not_or] at hplain
    simp [Cache.Glob.isSpecial, hplain]

theorem isMatch_ownerPattern_iff {keyPrefix raw : String} {owner : Uuid} :
    Glob.isMatch (ownerPattern keyPrefix owner) raw = true ↔
      ∃ nonce, raw.toList = keyPrefix.toList ++ '_' :: (owner.chars ++ '_' :: nonce) := by
  have hpattern : ownerPattern keyPrefix owner = Glob.escape keyPrefix ++
      (String.singleton separator ++ owner.text ++ String.singleton separator ++ "*") := by
    simp only [ownerPattern, String.append_assoc]
  have htokens : Cache.Glob.tokens (String.singleton separator ++ owner.text ++
      String.singleton separator ++ "*").toList =
        ('_' :: owner.chars ++ ['_']).map Cache.Glob.Token.literal ++ [.any] := by
    have hplain : ∀ c ∈ '_' :: owner.chars ++ ['_'], Cache.Glob.isSpecial c = false := by
      intro c hc
      by_cases hmark : c = '_'
      · rw [hmark]
        rfl
      · exact isSpecial_of_mem_chars (u := owner) (by simpa [hmark] using hc)
    have h := Cache.Glob.tokens_plain_append hplain ['*']
    simpa [separator, Uuid.text_toList, Cache.Glob.tokens] using h
  rw [hpattern, Cache.Glob.isMatch_iff_append, htokens]
  constructor
  · rintro ⟨r, hraw, hr⟩
    obtain ⟨nonce, rfl, _⟩ := Cache.Glob.matches_literals.mp hr
    exact ⟨nonce, by simpa using hraw⟩
  · rintro ⟨nonce, hraw⟩
    refine ⟨'_' :: owner.chars ++ ['_'] ++ nonce, by simpa using hraw, ?_⟩
    exact Cache.Glob.matches_literals.mpr ⟨nonce, rfl, Cache.Glob.matches_anything nonce⟩

theorem isMatch_of_read? {keyPrefix raw : String} {k : Key} (h : read? keyPrefix raw = some k) :
    Glob.isMatch (ownerPattern keyPrefix k.owner) raw = true := by
  obtain ⟨_, _, nonce, _, hraw⟩ := read?_eq_some_iff.mp h
  exact isMatch_ownerPattern_iff.mpr ⟨nonce, hraw⟩

/-- The segment after the prefix has one length for all owners, so it tells them apart. -/
theorem owner_eq_of_isMatch {keyPrefix raw : String} {k : Key} {owner : Uuid}
    (h : read? keyPrefix raw = some k)
    (hmatch : Glob.isMatch (ownerPattern keyPrefix owner) raw = true) : owner = k.owner := by
  obtain ⟨_, _, nonce, _, hraw⟩ := read?_eq_some_iff.mp h
  obtain ⟨other, hother⟩ := isMatch_ownerPattern_iff.mp hmatch
  have hboth := List.append_cancel_left (hother.symm.trans hraw)
  have hsegments := (List.cons.inj hboth).2
  have hlength : owner.chars.length = k.owner.chars.length := by
    rw [owner.length_chars, k.owner.length_chars]
  exact Uuid.chars_injective (List.append_inj_left hsegments hlength)

end AuthCore.Session.Key
