import AuthCore.Proofs.Cache.GlobLanguage

set_option autoImplicit false

namespace AuthCore.Cache.Glob

inductive Stands : (pattern key : List Char) → Prop where
  | nil : Stands [] []
  | star {ps rest : List Char} (skipped : List Char) (h : Stands ps rest) :
    Stands ('*' :: ps) (skipped ++ rest)
  | mark {ps rest : List Char} (c : Char) (h : Stands ps rest) : Stands ('?' :: ps) (c :: rest)
  | escaped {ps rest : List Char} (c : Char) (h : Stands ps rest) :
    Stands ('\\' :: c :: ps) (c :: rest)
  | lastBackslash : Stands ['\\'] ['\\']
  | itself {c : Char} {ps rest : List Char} (hstar : c ≠ '*') (hmark : c ≠ '?')
    (hslash : c ≠ '\\') (h : Stands ps rest) : Stands (c :: ps) (c :: rest)

theorem matches_literal_iff {c : Char} {ts : List Token} {key : List Char} :
    Matches (.literal c :: ts) key ↔ ∃ rest, key = c :: rest ∧ Matches ts rest :=
  matches_literals (l := [c])

theorem matches_one_iff {ts : List Token} {key : List Char} :
    Matches (.one :: ts) key ↔ ∃ c rest, key = c :: rest ∧ Matches ts rest := by
  simp [matches_cons_iff, Token.takes]

theorem matches_tokens_iff (pattern key : List Char) :
    Matches (tokens pattern) key ↔ Stands pattern key := by
  fun_induction tokens pattern generalizing key with
  | case1 =>
    constructor
    · rintro ⟨⟩
      exact .nil
    · rintro ⟨⟩
      exact .nil
  | case2 =>
    rw [matches_literal_iff]
    constructor
    · rintro ⟨_, rfl, ⟨⟩⟩
      exact .lastBackslash
    · intro h
      cases h with
      | lastBackslash => exact ⟨[], rfl, .nil⟩
      | itself _ _ hslash => exact absurd rfl hslash
  | case3 c ps ih =>
    rw [matches_literal_iff]
    constructor
    · rintro ⟨rest, rfl, h⟩
      exact .escaped c ((ih rest).mp h)
    · intro h
      cases h with
      | escaped _ h => exact ⟨_, rfl, (ih _).mpr h⟩
      | itself _ _ hslash => exact absurd rfl hslash
  | case4 ps ih =>
    rw [matches_any_iff]
    constructor
    · rintro ⟨skipped, rest, rfl, h⟩
      exact .star skipped ((ih rest).mp h)
    · intro h
      cases h with
      | star skipped h => exact ⟨skipped, _, rfl, (ih _).mpr h⟩
      | itself hstar => exact absurd rfl hstar
  | case5 ps ih =>
    rw [matches_one_iff]
    constructor
    · rintro ⟨c, rest, rfl, h⟩
      exact .mark c ((ih rest).mp h)
    · intro h
      cases h with
      | mark c h => exact ⟨c, _, rfl, (ih _).mpr h⟩
      | itself _ hmark => exact absurd rfl hmark
  | case6 c ps hlast hslash hstar hmark ih =>
    rw [matches_literal_iff]
    have hplain : c ≠ '\\' := by
      rintro rfl
      cases ps with
      | nil => exact hlast rfl rfl
      | cons d ps => exact hslash d ps rfl rfl
    constructor
    · rintro ⟨rest, rfl, h⟩
      exact .itself hstar hmark hplain ((ih rest).mp h)
    · intro h
      cases h with
      | itself _ _ _ h => exact ⟨_, rfl, (ih _).mpr h⟩
      | star => exact absurd rfl hstar
      | mark => exact absurd rfl hmark
      | escaped | lastBackslash => exact absurd rfl hplain

theorem length_tokens_le (pattern : List Char) : (tokens pattern).length ≤ pattern.length := by
  fun_induction tokens pattern <;> simp only [List.length_nil, List.length_cons] at * <;> omega

/-- The search ends, after at most as many steps as there are pairs of places in pattern and key,
and finds a match just where the pattern stands for the key. -/
theorem search_decides_meaning (pattern key : String) :
    (∃ count ≤ (pattern.toList.length + 1) * (key.toList.length + 1),
      (Position.start (tokens pattern.toList) key.toList).Ends count (isMatch pattern key)) ∧
    (isMatch pattern key = true ↔ Stands pattern.toList key.toList) := by
  constructor
  · obtain ⟨count, hcount, hends⟩ := matchesTokens_ends (tokens pattern.toList) key.toList
    have hless := Nat.mul_le_mul_right (key.toList.length + 1)
      (Nat.add_le_add_right (length_tokens_le pattern.toList) 1)
    exact ⟨count, Nat.le_trans hcount hless, hends⟩
  · rw [isMatch, matchesTokens_iff, matches_tokens_iff]

example : isMatch "*ab*ab?" "xababyabz" = true := by decide +kernel

theorem escapeChars_append (l m : List Char) :
    escapeChars (l ++ m) = escapeChars l ++ escapeChars m := by
  induction l with
  | nil => rfl
  | cons c l ih =>
    rw [List.cons_append, escapeChars, escapeChars, ih]
    split <;> rfl

theorem escape_append (l m : String) : escape (l ++ m) = escape l ++ escape m := by
  rw [← String.toList_inj, String.toList_append, toList_escape, toList_escape, toList_escape,
    String.toList_append, escapeChars_append]

theorem isMatch_escape_iff {l key : String} : isMatch (escape l) key = true ↔ key = l := by
  have happend := isMatch_iff_append l "" key
  rw [String.append_empty] at happend
  rw [happend, ← String.toList_inj]
  constructor
  · rintro ⟨rest, hkey, hrest⟩
    change Matches [] rest at hrest
    cases hrest
    simpa using hkey
  · intro hkey
    exact ⟨[], by simpa using hkey, .nil⟩

/-- An escaped text takes itself away from the key and leaves the rest to the pattern behind it. -/
theorem escaped_front_exact (l : String) :
    (∀ pattern key, isMatch (namespaced l pattern) key = true ↔
      ∃ rest, key = l ++ rest ∧ isMatch pattern rest = true) ∧
    (∀ key, isMatch (escape l) key = true ↔ key = l) ∧
    (∀ space pattern,
      namespaced l (namespaced space pattern) = namespaced (l ++ space) pattern) := by
  refine ⟨fun pattern key => isMatch_namespaced_iff, fun key => isMatch_escape_iff, ?_⟩
  intro space pattern
  simp only [namespaced, escape_append, String.append_assoc]

end AuthCore.Cache.Glob
