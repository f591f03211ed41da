import AuthCore.Proofs.Cache.LastStar

set_option autoImplicit false

namespace AuthCore.Cache.Glob

theorem matches_literals {l : List Char} {ts : List Token} {key : List Char} :
    Matches (l.map Token.literal ++ ts) key ↔ ∃ r, key = l ++ r ∧ Matches ts r := by
  induction l generalizing key with
  | nil => simp
  | cons c l ih =>
    constructor
    · intro h
      cases h with
      | literal h =>
        obtain ⟨r, rfl, hr⟩ := ih.mp h
        exact ⟨r, rfl, hr⟩
    · rintro ⟨r, rfl, hr⟩
      exact .literal (ih.mpr ⟨r, rfl, hr⟩)

theorem matches_anything (key : List Char) : Matches [.any] key := by
  induction key with
  | nil => exact .anyNone .nil
  | cons c cs ih => exact .anyMore ih

/-- Brackets are escaped although they stand for themselves, so not all of these are needed. -/
theorem tokens_plain {c : Char} (h : isSpecial c = false) (cs : List Char) :
    tokens (c :: cs) = .literal c :: tokens cs := by
  simp only [isSpecial, Bool.or_eq_false_iff, beq_eq_false_iff_ne] at h
  obtain ⟨⟨⟨⟨hstar, hmark⟩, _⟩, _⟩, hslash⟩ := h
  rw [tokens]
  · exact fun hc _ => hslash hc
  · exact fun _ _ hc _ => hslash hc
  · exact hstar
  · exact hmark

theorem tokens_plain_append {l : List Char} (h : ∀ c ∈ l, isSpecial c = false) (p : List Char) :
    tokens (l ++ p) = l.map Token.literal ++ tokens p := by
  induction l with
  | nil => rfl
  | cons c l ih =>
    rw [List.cons_append, tokens_plain (h c (by simp)), ih fun d hd => h d (by simp [hd])]
    rfl

theorem tokens_escapeChars_append (l p : List Char) :
    tokens (escapeChars l ++ p) = l.map Token.literal ++ tokens p := by
  induction l with
  | nil => rfl
  | cons c l ih =>
    by_cases hc : isSpecial c = true
    · simp [escapeChars, hc, tokens, ih]
    · have hplain : isSpecial c = false := by simpa using hc
      rw [escapeChars, if_neg hc, List.cons_append, tokens_plain hplain, ih]
      rfl

theorem toList_escape (text : String) : (escape text).toList = escapeChars text.toList := by
  simp [escape]

theorem isMatch_iff_append (l : String) (p key : String) :
    isMatch (escape l ++ p) key = true ↔
      ∃ r, key.toList = l.toList ++ r ∧ Matches (tokens p.toList) r := by
  rw [isMatch, matchesTokens_iff, String.toList_append, toList_escape, tokens_escapeChars_append,
    matches_literals]

theorem isMatch_namespaced_iff {space pattern text : String} :
    isMatch (namespaced space pattern) text = true ↔
      ∃ key, text = space ++ key ∧ isMatch pattern key = true := by
  rw [namespaced, isMatch_iff_append]
  constructor
  · rintro ⟨r, htext, hmatches⟩
    refine ⟨String.ofList r, ?_, ?_⟩
    · rw [← String.toList_inj, htext, String.toList_append, String.toList_ofList]
    · rwa [isMatch, matchesTokens_iff, String.toList_ofList]
  · rintro ⟨key, rfl, hmatch⟩
    exact ⟨key.toList, String.toList_append, (matchesTokens_iff _ _).mp hmatch⟩

end AuthCore.Cache.Glob
