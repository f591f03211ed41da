import AuthCore.Proofs.Json.Tokens

set_option autoImplicit false

namespace AuthCore.Json

open Reader

theorem spelled_word {t : Token} {v v' : Value} {i j rest : Input} {c : Char} {w : List Char}
    (hskip : skip i = some c :: j) (ht : Lexeme t (shown (c :: w))) (hv : v.tokens = [t])
    (h : ((word? w j).map fun r => (v, r)) = some (v', rest)) : Spelled v'.tokens i rest := by
  obtain ⟨after, hread, hend⟩ := Option.map_eq_some_iff.mp h
  cases hend
  rw [hv]
  rw [word?_eq_some_iff] at hread
  exact spelled_single_iff.mpr ⟨_, by rw [hskip, hread]; rfl, ht⟩

/-- The readers with `fuel` take texts only. -/
structure Sound (fuel : Nat) : Prop where
  value {i rest : Input} {v : Value} (h : value? fuel i = some (v, rest)) : Spelled v.tokens i rest
  items {i rest : Input} {vs : List Value} (h : items? fuel i = some (vs, rest)) :
    vs ≠ [] ∧ Spelled (itemTokens vs) i rest
  members {i rest : Input} {ms : List (Option String × Value)}
    (h : members? fuel i = some (ms, rest)) : ms ≠ [] ∧ Spelled (memberTokens ms) i rest

theorem Sound.spelled_value {fuel : Nat} (hsound : Sound fuel) {i rest : Input} {v : Value}
    (h : value? (fuel + 1) i = some (v, rest)) : Spelled v.tokens i rest := by
  rw [value?] at h
  split at h
  · rename_i c j hskip
    split at h
    · rename_i hc
      subst hc
      obtain ⟨⟨text, after⟩, hread, hend⟩ := Option.map_eq_some_iff.mp h
      cases hend
      exact spelled_string_iff.mpr ⟨j, _, hskip, hread, .nil _⟩
    split at h
    · rename_i hc
      subst hc
      split at h
      · rename_i hclose
        cases h
        exact spelled_mark_iff.mpr ⟨_, hskip, spelled_mark_iff.mpr ⟨_, hclose, .nil _⟩⟩
      · obtain ⟨⟨vs, after⟩, hread, hend⟩ := Option.map_eq_some_iff.mp h
        cases hend
        exact spelled_mark_iff.mpr
          ⟨_, hskip, (spelled_skip_iff (itemTokens_ne_nil vs)).mp (hsound.items hread).2⟩
    split at h
    · rename_i hc
      subst hc
      split at h
      · split at h
        · rename_i hclose hc
          cases h
          subst hc
          exact spelled_mark_iff.mpr ⟨_, hskip, spelled_mark_iff.mpr ⟨_, hclose, .nil _⟩⟩
        · rename_i hopen _
          obtain ⟨⟨ms, after⟩, hread, hend⟩ := Option.map_eq_some_iff.mp h
          cases hend
          rw [← hopen] at hread
          exact spelled_mark_iff.mpr
            ⟨_, hskip, (spelled_skip_iff (memberTokens_ne_nil ms)).mp (hsound.members hread).2⟩
      · cases h
    split at h
    · rename_i hc
      exact spelled_word hskip (hc ▸ .null) rfl h
    split at h
    · rename_i hc
      exact spelled_word hskip (hc ▸ .yes) rfl h
    split at h
    · rename_i hc
      exact spelled_word hskip (hc ▸ .no) rfl h
    · obtain ⟨⟨n, after⟩, hread, hend⟩ := Option.map_eq_some_iff.mp h
      cases hend
      obtain ⟨cs, hcs, hj⟩ := numeral_of_number? hread
      exact spelled_single_iff.mpr ⟨_, hskip.trans hj, .number hcs⟩
  · cases h

theorem Sound.spelled_items {fuel : Nat} (hsound : Sound fuel) {i rest : Input} {vs : List Value}
    (h : items? (fuel + 1) i = some (vs, rest)) : vs ≠ [] ∧ Spelled (itemTokens vs) i rest := by
  rw [items?] at h
  split at h
  · cases h
  · rename_i v j hvalue
    have hfirst := hsound.value hvalue
    split at h
    · rename_i k hcomma
      obtain ⟨⟨ws, after⟩, hread, hend⟩ := Option.map_eq_some_iff.mp h
      cases hend
      obtain ⟨hne, hlater⟩ := hsound.items hread
      refine ⟨by simp, ?_⟩
      rw [itemTokens, if_neg (by simpa using hne)]
      exact hfirst.append (spelled_mark_iff.mpr ⟨k, hcomma, hlater⟩)
    · rename_i hclose
      cases h
      exact ⟨by simp, hfirst.append (spelled_mark_iff.mpr ⟨_, hclose, .nil _⟩)⟩
    · cases h

theorem Sound.spelled_members {fuel : Nat} (hsound : Sound fuel) {i rest : Input}
    {ms : List (Option String × Value)} (h : members? (fuel + 1) i = some (ms, rest)) :
    ms ≠ [] ∧ Spelled (memberTokens ms) i rest := by
  rw [members?] at h
  split at h
  · rename_i j hquote
    split at h
    · cases h
    · rename_i name after hname
      split at h
      · rename_i j hcolon
        split at h
        · cases h
        · rename_i v j' hvalue
          have hfirst (us : List Token) (hus : Spelled us j' rest) :
              Spelled (.string name :: .mark .colon :: (v.tokens ++ us)) i rest :=
            spelled_string_iff.mpr ⟨_, _, hquote, hname,
              spelled_mark_iff.mpr ⟨j, hcolon, (hsound.value hvalue).append hus⟩⟩
          split at h
          · rename_i d k hmark
            split at h
            · rename_i hd
              subst hd
              obtain ⟨⟨ns, after⟩, hread, hend⟩ := Option.map_eq_some_iff.mp h
              cases hend
              obtain ⟨hne, hlater⟩ := hsound.members hread
              refine ⟨by simp, ?_⟩
              rw [memberTokens, if_neg (by simpa using hne)]
              exact hfirst _ (spelled_mark_iff.mpr ⟨k, hmark, hlater⟩)
            split at h
            · rename_i hd
              subst hd
              cases h
              exact ⟨by simp, hfirst _ (spelled_mark_iff.mpr ⟨_, hmark, .nil _⟩)⟩
            · cases h
          · cases h
      · cases h
  · cases h

theorem sound (fuel : Nat) : Sound fuel := by
  induction fuel with
  | zero => exact ⟨fun h => by simp [value?] at h, fun h => by simp [items?] at h,
      fun h => by simp [members?] at h⟩
  | succ fuel ih => exact ⟨ih.spelled_value, ih.spelled_items, ih.spelled_members⟩

theorem stops_of_blank {c : Option Char} (hc : isBlank c = true) (i : Input) : Stops (c :: i) := by
  simp only [isBlank, Bool.or_eq_true, beq_iff_eq] at hc
  rcases hc with ((rfl | rfl) | rfl) | rfl
  all_goals exact stops_cons (by decide) i

theorem Blank.stops {i : Input} (h : Blank i) : Stops i := by
  cases i with
  | nil => trivial
  | cons c i => exact stops_of_blank (h c (by simp)) i

theorem stops_of_mark {m : Mark} {ts : List Token} {i rest : Input}
    (h : Spelled (.mark m :: ts) i rest) : Stops i := by
  obtain ⟨j, hskip, _⟩ := spelled_mark_iff.mp h
  obtain ⟨blanks, hblanks, hi⟩ := exists_blanks i
  rw [hi, hskip]
  cases blanks with
  | nil => exact stops_cons (by cases m <;> decide) j
  | cons c blanks => exact stops_of_blank (hblanks c (by simp)) _

/-- The readers with `fuel` take all texts that have no more tokens. -/
structure Complete (fuel : Nat) : Prop where
  value {i rest : Input} {v : Value} (hfuel : v.tokens.length ≤ fuel)
    (h : Spelled v.tokens i rest) (hstops : ∀ n, v = .number n → Stops rest) :
    value? fuel i = some (v, rest)
  items {i rest : Input} {vs : List Value} (hne : vs ≠ []) (hfuel : (itemTokens vs).length ≤ fuel)
    (h : Spelled (itemTokens vs) i rest) : items? fuel i = some (vs, rest)
  members {i rest : Input} {ms : List (Option String × Value)} (hne : ms ≠ [])
    (hfuel : (memberTokens ms).length ≤ fuel) (h : Spelled (memberTokens ms) i rest) :
    members? fuel i = some (ms, rest)

theorem marks_of_numeral {c : Char} (h : c = '-' ∨ c.isDigit = true) :
    c ≠ '"' ∧ c ≠ '[' ∧ c ≠ Char.ofNat 123 ∧ c ≠ 'n' ∧ c ≠ 't' ∧ c ≠ 'f' := by
  refine ⟨?_, ?_, ?_, ?_, ?_, ?_⟩
  all_goals
    rintro rfl
    rcases h with h | h <;> exact absurd h (by decide)

theorem Value.head_ne_bracket {v : Value} {ts : List Token} {i rest : Input}
    (h : Spelled (v.tokens ++ ts) i rest) : ∃ c j, skip i = some c :: j ∧ c ≠ ']' := by
  obtain ⟨t, us, htokens, ht⟩ : ∃ t us, v.tokens = t :: us ∧ t ≠ .mark .closeArray := by
    cases v <;> exact ⟨_, _, rfl, by simp⟩
  rw [htokens, List.cons_append] at h
  obtain ⟨piece, j, hskip, hlexeme, _⟩ := spelled_cons_iff.mp h
  cases hlexeme with
  | mark m =>
    refine ⟨m.char, j, hskip, ?_⟩
    cases m with
    | closeArray => exact absurd rfl ht
    | _ => decide
  | null | yes | no => exact ⟨_, _, hskip, by decide⟩
  | number hcs =>
    obtain ⟨c, tail, rfl, hc⟩ := hcs.head
    refine ⟨c, _, hskip, ?_⟩
    rintro rfl
    rcases hc with hc | hc <;> exact absurd hc (by decide)
  | string => exact ⟨'"', _, hskip, by decide⟩

theorem Complete.reads_value {fuel : Nat} (hcomplete : Complete fuel) {i rest : Input} {v : Value}
    (hfuel : v.tokens.length ≤ fuel + 1) (h : Spelled v.tokens i rest)
    (hstops : ∀ n, v = .number n → Stops rest) : value? (fuel + 1) i = some (v, rest) := by
  rw [value?]
  cases v with
  | null =>
    obtain ⟨_, hskip, ⟨⟩⟩ := spelled_single_iff.mp h
    rw [hskip]
    simp [shown, word?]
  | bool b =>
    obtain ⟨_, hskip, hlexeme⟩ := spelled_single_iff.mp h
    rw [hskip]
    cases hlexeme <;> simp [shown, word?]
  | number n =>
    obtain ⟨_, hskip, hlexeme⟩ := spelled_single_iff.mp h
    cases hlexeme with
    | number hcs =>
      have hread := number?_of_numeral hcs (hstops n rfl)
      obtain ⟨c, tail, rfl, hc⟩ := hcs.head
      obtain ⟨hquote, hbracket, hbrace, hnull, htrue, hfalse⟩ := marks_of_numeral hc
      rw [shown_cons, List.cons_append] at hskip hread
      rw [hskip]
      simp [hquote, hbracket, hbrace, hnull, htrue, hfalse, hread]
  | string t =>
    obtain ⟨j, k, hskip, hread, ⟨⟩⟩ := spelled_string_iff.mp h
    rw [hskip]
    simp [hread]
  | array vs =>
    rw [Value.tokens] at hfuel h
    obtain ⟨j, hskip, htail⟩ := spelled_mark_iff.mp h
    rw [hskip]
    cases vs with
    | nil =>
      obtain ⟨k, hclose, ⟨⟩⟩ := spelled_mark_iff.mp htail
      simp [Mark.char, hclose]
    | cons v vs =>
      have hread := hcomplete.items (by simp) (by simpa using hfuel)
        ((spelled_skip_iff (itemTokens_ne_nil _)).mpr htail)
      obtain ⟨c, k, hopen, hc⟩ := Value.head_ne_bracket htail
      rw [hopen] at hread
      simp [Mark.char, hopen, hc, hread]
  | object ms =>
    rw [Value.tokens] at hfuel h
    obtain ⟨j, hskip, htail⟩ := spelled_mark_iff.mp h
    rw [hskip]
    cases ms with
    | nil =>
      obtain ⟨k, hclose, ⟨⟩⟩ := spelled_mark_iff.mp htail
      simp [Mark.char, hclose]
    | cons m ms =>
      have hread := hcomplete.members (by simp) (by simpa using hfuel)
        ((spelled_skip_iff (memberTokens_ne_nil _)).mpr htail)
      obtain ⟨k, _, hopen, _⟩ := spelled_string_iff.mp htail
      rw [hopen] at hread
      simp [Mark.char, hopen, hread]

theorem Complete.reads_items {fuel : Nat} (hcomplete : Complete fuel) {i rest : Input}
    {vs : List Value} (hne : vs ≠ []) (hfuel : (itemTokens vs).length ≤ fuel + 1)
    (h : Spelled (itemTokens vs) i rest) : items? (fuel + 1) i = some (vs, rest) := by
  obtain ⟨v, vs, rfl⟩ := List.exists_cons_of_ne_nil hne
  rw [itemTokens] at hfuel h
  obtain ⟨j, hfirst, hlater⟩ := h.split
  cases vs with
  | nil =>
    rw [if_pos (by simp)] at hfuel hlater
    simp only [List.length_append, List.length_cons, List.length_nil] at hfuel
    have hread := hcomplete.value (by omega) hfirst fun _ _ => stops_of_mark hlater
    obtain ⟨k, hclose, ⟨⟩⟩ := spelled_mark_iff.mp hlater
    rw [items?, hread]
    simp [Mark.char, hclose]
  | cons w vs =>
    rw [if_neg (by simp)] at hfuel hlater
    simp only [List.length_append, List.length_cons] at hfuel
    have hread := hcomplete.value (by omega) hfirst fun _ _ => stops_of_mark hlater
    obtain ⟨k, hcomma, hlater⟩ := spelled_mark_iff.mp hlater
    have htail := hcomplete.items (by simp) (by omega) hlater
    rw [items?, hread]
    simp [Mark.char, hcomma, htail]

theorem Complete.reads_members {fuel : Nat} (hcomplete : Complete fuel) {i rest : Input}
    {ms : List (Option String × Value)} (hne : ms ≠ [])
    (hfuel : (memberTokens ms).length ≤ fuel + 1) (h : Spelled (memberTokens ms) i rest) :
    members? (fuel + 1) i = some (ms, rest) := by
  obtain ⟨⟨name, v⟩, ms, rfl⟩ := List.exists_cons_of_ne_nil hne
  rw [memberTokens] at hfuel h
  obtain ⟨j, j', hquote, hname, h⟩ := spelled_string_iff.mp h
  obtain ⟨k, hcolon, h⟩ := spelled_mark_iff.mp h
  obtain ⟨k', hfirst, hlater⟩ := h.split
  simp only [List.length_cons, List.length_append] at hfuel
  cases ms with
  | nil =>
    rw [if_pos (by simp)] at hfuel hlater
    have hread := hcomplete.value (by omega) hfirst fun _ _ => stops_of_mark hlater
    obtain ⟨l, hclose, ⟨⟩⟩ := spelled_mark_iff.mp hlater
    rw [members?, hquote]
    simp [Mark.char, hname, hcolon, hread, hclose]
  | cons m ms =>
    rw [if_neg (by simp)] at hfuel hlater
    simp only [List.length_cons] at hfuel
    have hread := hcomplete.value (by omega) hfirst fun _ _ => stops_of_mark hlater
    obtain ⟨l, hcomma, hlater⟩ := spelled_mark_iff.mp hlater
    have htail := hcomplete.members (by simp) (by omega) hlater
    rw [members?, hquote]
    simp [Mark.char, hname, hcolon, hread, hcomma, htail]

theorem complete (fuel : Nat) : Complete fuel := by
  induction fuel with
  | zero =>
    refine ⟨fun hfuel => ?_, fun _ hfuel => ?_, fun _ hfuel => ?_⟩
    · exact absurd (List.eq_nil_of_length_eq_zero (Nat.le_zero.mp hfuel)) (Value.tokens_ne_nil _)
    · exact absurd (List.eq_nil_of_length_eq_zero (Nat.le_zero.mp hfuel)) (itemTokens_ne_nil _)
    · exact absurd (List.eq_nil_of_length_eq_zero (Nat.le_zero.mp hfuel)) (memberTokens_ne_nil _)
  | succ fuel ih => exact ⟨ih.reads_value, ih.reads_items, ih.reads_members⟩

theorem Spelled.length_le {ts : List Token} {i rest : Input} (h : Spelled ts i rest) :
    ts.length ≤ i.length := by
  induction h with
  | nil => simp
  | cons _ h _ ih =>
    obtain ⟨c, tail, rfl, _⟩ := h.head
    simp only [List.length_cons, List.length_append]
    omega

theorem isEmpty_skip_iff {i : Input} : (skip i).isEmpty = true ↔ Blank i := by
  rw [List.isEmpty_iff, skip, List.dropWhile_eq_nil_iff]
  rfl

theorem read?_of_spelled {v : Value} {i rest : Input} (h : Spelled v.tokens i rest)
    (hstops : ∀ n, v = .number n → Stops rest) :
    read? i = if (skip rest).isEmpty then some v else none := by
  have hread := (complete (2 * i.length + 2)).value (by have hle := h.length_le; omega) h hstops
  rw [read?, hread]

theorem read?_eq_some_iff {i : Input} {v : Value} : read? i = some v ↔ Document v i := by
  constructor
  · intro h
    unfold read? at h
    split at h
    · rename_i v' rest hread
      split at h
      · rename_i hempty
        cases h
        exact ⟨rest, (sound _).value hread, isEmpty_skip_iff.mp hempty⟩
      · cases h
    · cases h
  · rintro ⟨rest, hspelled, hblank⟩
    rw [read?_of_spelled hspelled fun _ _ => hblank.stops, if_pos (isEmpty_skip_iff.mpr hblank)]

theorem read?_followed {v : Value} {i : Input} (h : Document v i) (hnumber : ∀ n, v ≠ .number n)
    (more : Input) : read? (i ++ more) = if (skip more).isEmpty then some v else none := by
  obtain ⟨rest, hspelled, hblank⟩ := h
  rw [read?_of_spelled (hspelled.followed more) fun n hn => absurd hn (hnumber n),
    skip_blank hblank]

end AuthCore.Json
