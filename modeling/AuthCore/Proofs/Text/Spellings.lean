import AuthCore.Proofs.Text.Identifiers

set_option autoImplicit false

namespace AuthCore

namespace Text

/-- A property of small characters can be looked up in a table of them. -/
theorem of_table {P : Char → Prop} (table : ∀ n : Fin 128, P (Char.ofNat n)) {c : Char}
    (h : c.toNat < 128) : P c := by
  have hc := table ⟨c.toNat, h⟩
  rwa [Char.ofNat_toNat] at hc

theorem toLower_of_large {c : Char} (h : 128 ≤ c.toNat) : c.toLower = c := by
  unfold Char.toLower
  rw [dif_neg]
  rintro ⟨_, hlast⟩
  have hlow : c.toNat ≤ 90 := hlast
  omega

theorem toLower_eq_hyphen_iff (c : Char) : c.toLower = '-' ↔ c = '-' := by
  by_cases hsmall : c.toNat < 128
  · exact of_table (P := fun c => c.toLower = '-' ↔ c = '-') (by decide) hsmall
  · rw [toLower_of_large (by omega)]

theorem split_map {sep : Char} {f : Char → Char} (h : ∀ c, f c = sep ↔ c = sep) (cs : List Char) :
    split sep (cs.map f) = (split sep cs).map (List.map f) := by
  induction cs with
  | nil => rfl
  | cons c cs ih =>
    rw [List.map_cons, split, split, ih]
    by_cases hc : c = sep
    · rw [if_pos ((h c).mpr hc), if_pos hc, List.map_cons, List.map_nil]
    · obtain ⟨piece, pieces, hpieces⟩ := List.exists_cons_of_ne_nil (split_ne_nil sep cs)
      rw [if_neg (mt (h c).mp hc), if_neg hc, hpieces]
      rfl

theorem split_eq_cons {sep : Char} {cs first : List Char} {rest : List (List Char)}
    (h : split sep cs = first :: rest) :
    rest = [] ∧ cs = first ∨ ∃ tail, cs = first ++ sep :: tail ∧ split sep tail = rest := by
  induction cs generalizing first with
  | nil =>
    cases h
    exact .inl ⟨rfl, rfl⟩
  | cons c cs ih =>
    obtain ⟨piece, pieces, hpieces⟩ := List.exists_cons_of_ne_nil (split_ne_nil sep cs)
    by_cases hc : c = sep
    · simp only [split, hc, ↓reduceIte, List.cons.injEq] at h
      obtain ⟨rfl, rfl⟩ := h
      exact .inr ⟨cs, by simp [hc], rfl⟩
    · simp only [split, hc, ↓reduceIte, hpieces, List.cons.injEq] at h
      obtain ⟨rfl, rfl⟩ := h
      rcases ih hpieces with ⟨hnil, rfl⟩ | ⟨tail, rfl, htail⟩
      · exact .inl ⟨hnil, rfl⟩
      · exact .inr ⟨tail, rfl, htail⟩

theorem eq_append_of_split {sep : Char} {cs first second : List Char} {rest : List (List Char)}
    (h : split sep cs = first :: second :: rest) :
    ∃ tail, cs = first ++ sep :: tail ∧ split sep tail = second :: rest := by
  rcases split_eq_cons h with ⟨hnil, _⟩ | htail
  · cases hnil
  · exact htail

theorem eq_of_split_singleton {sep : Char} {cs piece : List Char} (h : split sep cs = [piece]) :
    cs = piece := by
  rcases split_eq_cons h with ⟨_, hcs⟩ | ⟨tail, _, htail⟩
  · exact hcs
  · exact absurd htail (split_ne_nil sep tail)

namespace Hex

theorem digitValue?_toLower (c : Char) : digitValue? c.toLower = digitValue? c := by
  by_cases hsmall : c.toNat < 128
  · exact of_table (P := fun c => digitValue? c.toLower = digitValue? c) (by decide) hsmall
  · rw [toLower_of_large (by omega)]

theorem toLower_of_digitValue? {c : Char} {n : Nat} (h : digitValue? c = some n) :
    n < 16 ∧ c.toLower = digit n := by
  have hsmall : c.toNat < 128 := by
    unfold digitValue? at h
    split at h
    · rename_i hrange
      exact Nat.lt_of_le_of_lt (show c.toNat ≤ '9'.toNat from hrange.2) (by decide)
    · split at h
      · rename_i hrange
        exact Nat.lt_of_le_of_lt (show c.toNat ≤ 'f'.toNat from hrange.2) (by decide)
      · split at h
        · rename_i hrange
          exact Nat.lt_of_le_of_lt (show c.toNat ≤ 'F'.toNat from hrange.2) (by decide)
        · cases h
  have hdigit : ∀ n ∈ digitValue? c, n < 16 ∧ c.toLower = digit n :=
    of_table (P := fun c => ∀ n ∈ digitValue? c, n < 16 ∧ c.toLower = digit n) (by decide) hsmall
  exact hdigit n h

theorem decodeChars?_map_toLower (cs : List Char) :
    decodeChars? (cs.map Char.toLower) = decodeChars? cs := by
  fun_induction decodeChars? cs with
  | case1 | case2 => rfl
  | case3 h l cs ih => simp only [List.map_cons, decodeChars?, digitValue?_toLower, ih]

theorem map_toLower_of_decodeChars? {cs : List Char} {bs : Bytes}
    (h : decodeChars? cs = some bs) : cs.map Char.toLower = encodeChars bs := by
  fun_induction decodeChars? cs generalizing bs with
  | case1 =>
    cases h
    rfl
  | case2 => cases h
  | case3 high low cs ih =>
    simp only [Option.bind_eq_bind, Option.bind_eq_some_iff, Option.pure_def,
      Option.some.injEq] at h
    obtain ⟨m, hm, n, hn, rest, hrest, rfl⟩ := h
    obtain ⟨hmlt, hhigh⟩ := toLower_of_digitValue? hm
    obtain ⟨hnlt, hlow⟩ := toLower_of_digitValue? hn
    have hbyte : (UInt8.ofNat (m * 16 + n)).toNat = m * 16 + n := by
      rw [UInt8.toNat_ofNat']
      omega
    rw [encodeChars, hbyte, List.map_cons, List.map_cons, ih hrest, hhigh, hlow,
      show (m * 16 + n) / 16 = m by omega, show (m * 16 + n) % 16 = n by omega]

end Hex

end Text

namespace Uuid

theorem hyphenate_append {a b c d : List Char} (ha : a.length = 8) (hb : b.length = 4)
    (hc : c.length = 4) (hd : d.length = 4) (e : List Char) :
    hyphenate (a ++ (b ++ (c ++ (d ++ e)))) =
      a ++ '-' :: (b ++ '-' :: (c ++ '-' :: (d ++ '-' :: e))) := by
  simp (disch := omega) [hyphenate, ha, hb, hc, List.drop_append, List.drop_eq_nil_of_le]

theorem readHyphenated?_map_toLower (cs : List Char) :
    readHyphenated? (cs.map Char.toLower) = readHyphenated? cs := by
  have hlengths : ∀ parts : List (List Char),
      (parts.map (List.map Char.toLower)).map List.length = parts.map List.length := by simp
  rw [readHyphenated?, readHyphenated?, Text.split_map Text.toLower_eq_hyphen_iff]
  simp only [hlengths, ← List.map_flatten, Text.Hex.decodeChars?_map_toLower]

theorem ofBytes?_eq_some_iff {bs : Bytes} {u : Uuid} : ofBytes? bs = some u ↔ bs = u.bytes := by
  constructor
  · intro h
    unfold ofBytes? at h
    split at h
    · cases h
      rfl
    · cases h
  · rintro rfl
    rw [ofBytes?, dif_pos u.size]

theorem exists_of_groups {cs : List Char} (h : (Text.split '-' cs).map List.length = groups) :
    ∃ a b c d e, cs = a ++ '-' :: (b ++ '-' :: (c ++ '-' :: (d ++ '-' :: e))) ∧
      Text.split '-' cs = [a, b, c, d, e] ∧
      a.length = 8 ∧ b.length = 4 ∧ c.length = 4 ∧ d.length = 4 := by
  generalize hparts : Text.split '-' cs = parts at h
  simp only [groups, List.map_eq_cons_iff, List.map_eq_nil_iff] at h
  obtain ⟨a, _, rfl, ha, b, _, rfl, hb, c, _, rfl, hc, d, _, rfl, hd, e, _, rfl, _, rfl⟩ := h
  obtain ⟨second, rfl, hsecond⟩ := Text.eq_append_of_split hparts
  obtain ⟨third, rfl, hthird⟩ := Text.eq_append_of_split hsecond
  obtain ⟨fourth, rfl, hfourth⟩ := Text.eq_append_of_split hthird
  obtain ⟨fifth, rfl, hfifth⟩ := Text.eq_append_of_split hfourth
  obtain rfl := Text.eq_of_split_singleton hfifth
  exact ⟨a, b, c, d, fifth, rfl, rfl, ha, hb, hc, hd⟩

theorem readHyphenated?_eq_some_iff {cs : List Char} {u : Uuid} :
    readHyphenated? cs = some u ↔ cs.map Char.toLower = u.chars := by
  constructor
  · intro h
    simp only [readHyphenated?] at h
    split at h
    · rename_i hgroups
      obtain ⟨bs, hbs, hu⟩ := Option.bind_eq_some_iff.mp h
      obtain rfl := ofBytes?_eq_some_iff.mp hu
      obtain ⟨a, b, c, d, e, hcs, hparts, ha, hb, hc, hd⟩ := exists_of_groups hgroups
      have hdigits := Text.Hex.map_toLower_of_decodeChars? hbs
      rw [hparts] at hdigits
      rw [chars, ← hdigits, hcs]
      simp only [List.flatten_cons, List.flatten_nil, List.append_nil, List.map_append,
        List.map_cons]
      rw [hyphenate_append (by simpa) (by simpa) (by simpa) (by simpa)]
      rfl
    · cases h
  · intro h
    rw [← readHyphenated?_map_toLower, h, readHyphenated?_chars]

theorem length_of_map_toLower_digits {u : Uuid} {cs : List Char}
    (h : cs.map Char.toLower = Text.Hex.encodeChars u.bytes) : cs.length = 32 := by
  rw [← List.length_map Char.toLower, h, Text.Hex.length_encodeChars, u.size]

theorem readPlain?_eq_some_iff {cs : List Char} {u : Uuid} :
    readPlain? cs = some u ↔ cs.map Char.toLower = Text.Hex.encodeChars u.bytes := by
  constructor
  · intro h
    unfold readPlain? at h
    split at h
    · obtain ⟨bs, hbs, hu⟩ := Option.bind_eq_some_iff.mp h
      obtain rfl := ofBytes?_eq_some_iff.mp hu
      exact Text.Hex.map_toLower_of_decodeChars? hbs
    · cases h
  · intro h
    rw [readPlain?, if_pos (length_of_map_toLower_digits h), ← Text.Hex.decodeChars?_map_toLower, h,
      Text.Hex.decodeChars?_encodeChars]
    exact ofBytes?_eq_some_iff.mpr rfl

theorem readBraced?_eq_some_iff {text : List Char} {u : Uuid} :
    readBraced? text = some u ↔ ∃ cs, text = Char.ofNat 123 :: (cs ++ [Char.ofNat 125]) ∧
      cs.map Char.toLower = u.chars := by
  constructor
  · intro h
    unfold readBraced? at h
    split at h
    · rename_i c rest
      split at h
      · rename_i hbraces
        obtain ⟨rfl, hlast⟩ := hbraces
        obtain ⟨cs, rfl⟩ := List.getLast?_eq_some_iff.mp hlast
        rw [List.dropLast_concat] at h
        exact ⟨cs, rfl, readHyphenated?_eq_some_iff.mp h⟩
      · cases h
    · cases h
  · rintro ⟨cs, rfl, hcs⟩
    rw [readBraced?, if_pos ⟨rfl, List.getLast?_concat⟩, List.dropLast_concat]
    exact readHyphenated?_eq_some_iff.mpr hcs

theorem readUrn?_eq_some_iff {text : List Char} {u : Uuid} :
    readUrn? text = some u ↔ ∃ lead cs, text = lead ++ cs ∧ lead.map Char.toLower = urn ∧
      cs.map Char.toLower = u.chars := by
  constructor
  · intro h
    unfold readUrn? at h
    split at h
    · rename_i hlead
      exact ⟨_, _, (List.take_append_drop urn.length text).symm, hlead,
        readHyphenated?_eq_some_iff.mp h⟩
    · cases h
  · rintro ⟨lead, cs, rfl, hlead, hcs⟩
    have hlength : urn.length = lead.length := by rw [← hlead, List.length_map]
    rw [readUrn?, hlength, List.take_left, List.drop_left, if_pos hlead]
    exact readHyphenated?_eq_some_iff.mpr hcs

/-- The texts for an identifier. -/
inductive Spelling (u : Uuid) : List Char → Prop where
  | hyphenated {cs : List Char} (h : cs.map Char.toLower = u.chars) : Spelling u cs
  | plain {cs : List Char} (h : cs.map Char.toLower = Text.Hex.encodeChars u.bytes) :
    Spelling u cs
  | braced {cs : List Char} (h : cs.map Char.toLower = u.chars) :
    Spelling u (Char.ofNat 123 :: (cs ++ [Char.ofNat 125]))
  | urn {lead cs : List Char} (hlead : lead.map Char.toLower = Uuid.urn)
    (h : cs.map Char.toLower = u.chars) : Spelling u (lead ++ cs)

theorem length_of_map_toLower {u : Uuid} {cs : List Char} (h : cs.map Char.toLower = u.chars) :
    cs.length = 36 := by
  rw [← List.length_map Char.toLower, h, u.length_chars]

theorem readHyphenated?_eq_none {cs : List Char} (h : cs.length ≠ 36) :
    readHyphenated? cs = none := by
  rw [Option.eq_none_iff_forall_ne_some]
  intro u hu
  exact h (length_of_map_toLower (readHyphenated?_eq_some_iff.mp hu))

theorem readPlain?_eq_none {cs : List Char} (h : cs.length ≠ 32) : readPlain? cs = none :=
  if_neg h

theorem readBraced?_eq_none {cs : List Char} (h : cs.length ≠ 38) : readBraced? cs = none := by
  rw [Option.eq_none_iff_forall_ne_some]
  intro u hu
  obtain ⟨inner, rfl, hinner⟩ := readBraced?_eq_some_iff.mp hu
  exact h (by simp [length_of_map_toLower hinner])

/-- The readers take texts of different lengths, so the order in which they are tried does not
matter. -/
theorem readChars?_eq_some_iff {u : Uuid} {text : List Char} :
    readChars? text = some u ↔ Spelling u text := by
  constructor
  · intro h
    simp only [readChars?, Option.orElse_eq_orElse, Option.orElse_eq_or, Option.or_eq_some_iff] at h
    rcases h with h | ⟨_, h | ⟨_, h | ⟨_, h⟩⟩⟩
    · exact .hyphenated (readHyphenated?_eq_some_iff.mp h)
    · exact .plain (readPlain?_eq_some_iff.mp h)
    · obtain ⟨cs, rfl, hcs⟩ := readBraced?_eq_some_iff.mp h
      exact .braced hcs
    · obtain ⟨lead, cs, rfl, hlead, hcs⟩ := readUrn?_eq_some_iff.mp h
      exact .urn hlead hcs
  · intro h
    cases h with
    | hyphenated h => simp [readChars?, readHyphenated?_eq_some_iff.mpr h]
    | plain h =>
      have hlength := length_of_map_toLower_digits h
      have hhyphenated : readHyphenated? text = none := readHyphenated?_eq_none (by omega)
      simp [readChars?, hhyphenated, readPlain?_eq_some_iff.mpr h]
    | @braced cs h =>
      have hread := readBraced?_eq_some_iff.mpr ⟨cs, rfl, h⟩
      have hlong : (Char.ofNat 123 :: (cs ++ [Char.ofNat 125])).length = 38 := by
        simp [length_of_map_toLower h]
      generalize Char.ofNat 123 :: (cs ++ [Char.ofNat 125]) = text at hread hlong
      have hhyphenated : readHyphenated? text = none := readHyphenated?_eq_none (by omega)
      have hplain : readPlain? text = none := readPlain?_eq_none (by omega)
      simp [readChars?, hhyphenated, hplain, hread]
    | @urn lead cs hlead h =>
      have hlong : (lead ++ cs).length = 45 := by
        rw [List.length_append, ← List.length_map Char.toLower, hlead, length_of_map_toLower h]
        rfl
      have hhyphenated : readHyphenated? (lead ++ cs) = none := readHyphenated?_eq_none (by omega)
      have hplain : readPlain? (lead ++ cs) = none := readPlain?_eq_none (by omega)
      have hbraced : readBraced? (lead ++ cs) = none := readBraced?_eq_none (by omega)
      simp [readChars?, hhyphenated, hplain, hbraced,
        readUrn?_eq_some_iff.mpr ⟨lead, cs, rfl, hlead, h⟩]

theorem underscore_not_mem_of_map {cs ds : List Char} (h : cs.map Char.toLower = ds)
    (hds : '_' ∉ ds) : '_' ∉ cs := by
  rintro hmem
  apply hds
  rw [← h]
  exact List.mem_map_of_mem hmem

theorem Spelling.underscore_not_mem {u : Uuid} {text : List Char} (h : Spelling u text) :
    '_' ∉ text := by
  cases h with
  | hyphenated h => exact underscore_not_mem_of_map h u.underscore_not_mem_chars
  | plain h =>
    apply underscore_not_mem_of_map h
    intro hmem
    obtain ⟨n, hn, hdigit⟩ := Text.Hex.mem_encodeChars _ hmem
    exact Text.Hex.digit_isPlain hn (by simp [← hdigit])
  | braced h =>
    have hinner := underscore_not_mem_of_map h u.underscore_not_mem_chars
    simp [hinner]
  | urn hlead h =>
    have hrest := underscore_not_mem_of_map h u.underscore_not_mem_chars
    have hfront := underscore_not_mem_of_map hlead (by decide)
    simp [hrest, hfront]

end Uuid

end AuthCore
