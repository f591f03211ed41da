import AuthCore.Proofs.Session.KeyGrammar
import AuthCore.Proofs.Text.Spellings

set_option autoImplicit false

namespace AuthCore.Session.Key

open AuthCore.Cache (Glob.isMatch Glob.namespaced)

theorem isMatch_ownerPattern_iff_compose {keyPrefix raw : String} {owner : Uuid} :
    Glob.isMatch (ownerPattern keyPrefix owner) raw = true ↔
      ∃ nonce, raw = compose keyPrefix owner nonce := by
  rw [isMatch_ownerPattern_iff]
  constructor
  · rintro ⟨nonce, hraw⟩
    refine ⟨String.ofList nonce, ?_⟩
    rw [← String.toList_inj, toList_compose, hraw, String.toList_ofList]
  · rintro ⟨nonce, rfl⟩
    exact ⟨nonce.toList, toList_compose ..⟩

/-- Prefix and owner hold no separator, so they end at the first two of a key. -/
theorem sections_eq_of_compose {first second : String} (hfirst : '_' ∉ first.toList)
    (hsecond : '_' ∉ second.toList) {a b : Uuid} {nonce other : String}
    (h : compose first a nonce = compose second b other) : first = second ∧ a = b := by
  rw [← String.toList_inj, toList_compose, toList_compose,
    Text.append_separator_inj hfirst hsecond,
    Text.append_separator_inj a.underscore_not_mem_chars b.underscore_not_mem_chars] at h
  exact ⟨String.toList_inj.mp h.1, Uuid.chars_injective h.2.1⟩

theorem isMatch_compose_iff {first second : String} (hfirst : '_' ∉ first.toList)
    (hsecond : '_' ∉ second.toList) (a b : Uuid) (nonce : String) :
    Glob.isMatch (ownerPattern first a) (compose second b nonce) = true ↔
      first = second ∧ a = b := by
  rw [isMatch_ownerPattern_iff_compose]
  constructor
  · rintro ⟨other, h⟩
    obtain ⟨hsame, howner⟩ := sections_eq_of_compose hsecond hfirst h
    exact ⟨hsame.symm, howner.symm⟩
  · rintro ⟨rfl, rfl⟩
    exact ⟨nonce, rfl⟩

theorem isMatch_namespaced_append {space pattern key : String} :
    Glob.isMatch (Glob.namespaced space pattern) (space ++ key) = true ↔
      Glob.isMatch pattern key = true := by
  rw [Cache.Glob.isMatch_namespaced_iff]
  constructor
  · rintro ⟨rest, hrest, hmatch⟩
    rw [String.append_right_inj] at hrest
    rwa [hrest]
  · intro hmatch
    exact ⟨key, rfl, hmatch⟩

/-- One owner's pattern under one prefix finds the keys of that owner and prefix only, also from
within a namespace. -/
theorem owner_pattern_isolates {first second : String} (hfirst : '_' ∉ first.toList)
    (hsecond : '_' ∉ second.toList) (a b : Uuid) (nonce space : String) :
    (Glob.isMatch (ownerPattern first a) (compose second b nonce) = true ↔
      first = second ∧ a = b) ∧
    (Glob.isMatch (Glob.namespaced space (ownerPattern first a))
      (space ++ compose second b nonce) = true ↔ first = second ∧ a = b) := by
  rw [isMatch_namespaced_append]
  exact ⟨isMatch_compose_iff hfirst hsecond a b nonce, isMatch_compose_iff hfirst hsecond a b nonce⟩

def someOwner : Uuid := ⟨[10, 27, 44, 61, 78, 95, 74, 107, 140, 125, 158, 15, 26, 43, 60, 77], rfl⟩

def otherOwner : Uuid := ⟨[10, 27, 44, 61, 78, 95, 74, 107, 140, 125, 158, 15, 26, 43, 60, 78], rfl⟩

/-- The prefix of one key begins with the other's, and the nonce holds the other's whole key. -/
theorem owner_pattern_isolates_lookalike :
    '_' ∉ "S*".toList ∧ '_' ∉ "S".toList ∧
    Glob.isMatch (ownerPattern "S*" someOwner)
      (compose "S" otherOwner ("_" ++ compose "S*" someOwner "n")) = false ∧
    Glob.isMatch (Glob.namespaced "t[1]:" (ownerPattern "S*" someOwner))
      ("t[1]:" ++ compose "S*" someOwner "n") = true := by
  have hstar : '_' ∉ "S*".toList := by decide
  have hplain : '_' ∉ "S".toList := by decide
  obtain ⟨hother, _⟩ := owner_pattern_isolates hstar hplain someOwner otherOwner
    ("_" ++ compose "S*" someOwner "n") "t[1]:"
  obtain ⟨_, hown⟩ := owner_pattern_isolates hstar hstar someOwner someOwner "n" "t[1]:"
  refine ⟨hstar, hplain, ?_, hown.mpr ⟨rfl, rfl⟩⟩
  rw [← Bool.not_eq_true, hother]
  decide

theorem read?_eq_some_iff_compose {keyPrefix raw : String} {k : Key} :
    read? keyPrefix raw = some k ↔ '_' ∉ keyPrefix.toList ∧ k.text = raw ∧
      ∃ nonce, nonce ≠ "" ∧ raw = compose keyPrefix k.owner nonce := by
  rw [read?_eq_some_iff]
  constructor
  · rintro ⟨htext, hfree, nonce, hnonce, hraw⟩
    refine ⟨hfree, htext, String.ofList nonce, ?_, ?_⟩
    · simpa using hnonce
    · rw [← String.toList_inj, toList_compose, hraw, String.toList_ofList]
  · rintro ⟨hfree, htext, nonce, hnonce, rfl⟩
    exact ⟨htext, hfree, nonce.toList, by simpa using hnonce, toList_compose ..⟩

theorem exists_generate (random : Nat → Bytes) (keyPrefix : String) (owner : Uuid) {count : Nat}
    (hcount : leastNonce ≤ count) : ∃ k, generate random keyPrefix owner count = .ok k :=
  ⟨_, if_neg (Nat.not_lt.mpr hcount)⟩

theorem segment_eq_of_read? {keyPrefix segment nonce : String} {k : Key}
    (hsegment : '_' ∉ segment.toList)
    (h : read? keyPrefix (keyPrefix ++ "_" ++ segment ++ "_" ++ nonce) = some k) :
    segment = k.owner.text := by
  obtain ⟨_, hfree, rest, _, hraw⟩ := read?_eq_some_iff.mp h
  have hsections : keyPrefix.toList ++ '_' :: (segment.toList ++ '_' :: nonce.toList) =
      keyPrefix.toList ++ '_' :: (k.owner.chars ++ '_' :: rest) := by simpa using hraw
  rw [Text.append_separator_inj hfree hfree,
    Text.append_separator_inj hsegment k.owner.underscore_not_mem_chars] at hsections
  rw [← String.toList_inj, Uuid.text_toList, hsections.2.1]

/-- A key is what `compose` writes of a prefix, an owner and a nonce that is not empty. No spelling
of the owner but the written one stands in a key, although each is read as that owner. -/
theorem session_key_grammar (keyPrefix : String) :
    (∀ (raw : String) (k : Key), read? keyPrefix raw = some k ↔
      '_' ∉ keyPrefix.toList ∧ k.text = raw ∧
        ∃ nonce, nonce ≠ "" ∧ raw = compose keyPrefix k.owner nonce) ∧
    ('_' ∉ keyPrefix.toList → ∀ (random : Nat → Bytes) (owner : Uuid) (count : Nat),
      leastNonce ≤ count → (random count).length = count →
      ∃ k, generate random keyPrefix owner count = .ok k ∧ k.owner = owner ∧
        read? keyPrefix k.text = some k) ∧
    (∀ (owner : Uuid) (spelling nonce : String), owner.Spelling spelling.toList →
      spelling ≠ owner.text → Uuid.read? spelling = some owner ∧
        read? keyPrefix (keyPrefix ++ "_" ++ spelling ++ "_" ++ nonce) = none) := by
  refine ⟨fun raw k => read?_eq_some_iff_compose, fun hfree random owner count hcount hfull => ?_,
    fun owner spelling nonce hspelling hother => ?_⟩
  · obtain ⟨k, hk⟩ := exists_generate random keyPrefix owner hcount
    exact ⟨k, hk, read?_generate hfree hfull hk⟩
  · have hread : Uuid.read? spelling = some owner := Uuid.readChars?_eq_some_iff.mpr hspelling
    refine ⟨hread, ?_⟩
    rw [Option.eq_none_iff_forall_ne_some]
    intro k hk
    have hsegment := segment_eq_of_read? hspelling.underscore_not_mem hk
    rw [hsegment, Uuid.read?_text] at hread
    cases hread
    exact hother hsegment

theorem session_key_grammar_upperCase :
    '_' ∉ "S".toList ∧
    read? "S" "S_0a1b2c3d-4e5f-4a6b-8c7d-9e0f1a2b3c4d_n_1" =
      some ⟨"S_0a1b2c3d-4e5f-4a6b-8c7d-9e0f1a2b3c4d_n_1", someOwner⟩ ∧
    (∃ k, generate (List.replicate · 255) "S" someOwner 16 = .ok k ∧ k.owner = someOwner ∧
      read? "S" k.text = some k) ∧
    Uuid.read? "0A1B2C3D-4E5F-4A6B-8C7D-9E0F1A2B3C4D" = some someOwner ∧
    read? "S" "S_0A1B2C3D-4E5F-4A6B-8C7D-9E0F1A2B3C4D_n_1" = none := by
  obtain ⟨hgrammar, hgenerated, hspelled⟩ := session_key_grammar "S"
  have hfree : '_' ∉ "S".toList := by decide
  have hwritten : someOwner.text = "0a1b2c3d-4e5f-4a6b-8c7d-9e0f1a2b3c4d" := by decide
  have hupper : someOwner.Spelling "0A1B2C3D-4E5F-4A6B-8C7D-9E0F1A2B3C4D".toList :=
    .hyphenated (by decide)
  have hother : "0A1B2C3D-4E5F-4A6B-8C7D-9E0F1A2B3C4D" ≠ someOwner.text := by
    rw [hwritten]
    decide
  refine ⟨hfree, ?_, ?_, hspelled someOwner _ "n_1" hupper hother⟩
  · refine (hgrammar _ _).mpr ⟨hfree, rfl, "n_1", by decide, ?_⟩
    rw [compose, hwritten]
    rfl
  · exact hgenerated hfree _ someOwner 16 (by decide) (by decide)

end AuthCore.Session.Key
