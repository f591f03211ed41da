import AuthCore.Uuid

set_option autoImplicit false

namespace AuthCore

namespace Text

theorem splitOnce_append {sep : Char} {first : List Char} (h : sep ∉ first) (rest : List Char) :
    splitOnce sep (first ++ sep :: rest) = some (first, rest) := by
  induction first with
  | nil => simp [splitOnce]
  | cons c first ih =>
    have hc : c ≠ sep := fun e => h (by simp [e])
    have htail : sep ∉ first := fun e => h (by simp [e])
    simp [splitOnce, hc, ih htail]

theorem splitOnce_eq_some_iff {sep : Char} {cs first rest : List Char} :
    splitOnce sep cs = some (first, rest) ↔ cs = first ++ sep :: rest ∧ sep ∉ first := by
  constructor
  · intro h
    induction cs generalizing first with
    | nil => simp [splitOnce] at h
    | cons c cs ih =>
      by_cases hc : c = sep
      · simp only [splitOnce, hc, ↓reduceIte, Option.some.injEq, Prod.mk.injEq] at h
        obtain ⟨rfl, rfl⟩ := h
        simp [hc]
      · simp only [splitOnce, hc, ↓reduceIte, Option.map_eq_some_iff, Prod.mk.injEq] at h
        obtain ⟨⟨tail, after⟩, hcut, rfl, rfl⟩ := h
        obtain ⟨rfl, hmem⟩ := ih hcut
        exact ⟨rfl, by simp [hmem, Ne.symm hc]⟩
  · rintro ⟨rfl, h⟩
    exact splitOnce_append h rest

theorem append_separator_inj {sep : Char} {first second rest other : List Char}
    (hfirst : sep ∉ first) (hsecond : sep ∉ second) :
    first ++ sep :: rest = second ++ sep :: other ↔ first = second ∧ rest = other := by
  constructor
  · intro h
    have hcut := splitOnce_append hfirst rest
    rw [h, splitOnce_append hsecond other] at hcut
    cases hcut
    exact ⟨rfl, rfl⟩
  · rintro ⟨rfl, rfl⟩
    rfl

theorem split_of_not_mem {sep : Char} {cs : List Char} (h : sep ∉ cs) : split sep cs = [cs] := by
  induction cs with
  | nil => rfl
  | cons c cs ih =>
    have hc : c ≠ sep := fun e => h (by simp [e])
    have htail : sep ∉ cs := fun e => h (by simp [e])
    simp [split, hc, ih htail]

theorem split_ne_nil (sep : Char) (cs : List Char) : split sep cs ≠ [] := by
  cases cs with
  | nil => simp [split]
  | cons c cs =>
    unfold split
    split
    · simp
    · split <;> simp

theorem split_append_split (sep : Char) (first rest : List Char) :
    split sep (first ++ sep :: rest) = split sep first ++ split sep rest := by
  induction first with
  | nil => simp [split]
  | cons c first ih =>
    by_cases hc : c = sep
    · simp [split, hc, ih]
    · obtain ⟨piece, pieces, hpieces⟩ := List.exists_cons_of_ne_nil (split_ne_nil sep first)
      simp [split, hc, ih, hpieces]

theorem split_append {sep : Char} {first : List Char} (h : sep ∉ first) (rest : List Char) :
    split sep (first ++ sep :: rest) = first :: split sep rest := by
  rw [split_append_split, split_of_not_mem h]
  rfl

namespace Hex

theorem digitValue?_digit {n : Nat} (h : n < 16) : digitValue? (digit n) = some n := by
  have hall : ∀ n : Fin 16, digitValue? (digit n) = some n.val := by decide
  exact hall ⟨n, h⟩

theorem digit_isPlain {n : Nat} (h : n < 16) :
    digit n ∉ ['-', '_', '*', '?', '[', ']', '\\'] := by
  have hall : ∀ n : Fin 16, digit n ∉ ['-', '_', '*', '?', '[', ']', '\\'] := by decide
  exact hall ⟨n, h⟩

theorem decodeChars?_encodeChars (bs : Bytes) : decodeChars? (encodeChars bs) = some bs := by
  induction bs with
  | nil => rfl
  | cons b bs ih =>
    have hb : b.toNat < 256 := b.toNat_lt
    have hhigh : b.toNat / 16 < 16 := by omega
    have hlow : b.toNat % 16 < 16 := by omega
    have hbyte : UInt8.ofNat (b.toNat / 16 * 16 + b.toNat % 16) = b := by
      rw [show b.toNat / 16 * 16 + b.toNat % 16 = b.toNat by omega, UInt8.ofNat_toNat]
    simp only [encodeChars, decodeChars?, digitValue?_digit hhigh, digitValue?_digit hlow, ih,
      Option.bind_eq_bind, Option.bind_some, Option.pure_def, hbyte]

theorem length_encodeChars (bs : Bytes) : (encodeChars bs).length = 2 * bs.length := by
  induction bs with
  | nil => rfl
  | cons b bs ih =>
    simp only [encodeChars, List.length_cons, ih]
    omega

theorem mem_encodeChars (bs : Bytes) {c : Char} (h : c ∈ encodeChars bs) :
    ∃ n, n < 16 ∧ c = digit n := by
  induction bs with
  | nil => simp [encodeChars] at h
  | cons b bs ih =>
    have hb : b.toNat < 256 := b.toNat_lt
    simp only [encodeChars, List.mem_cons] at h
    rcases h with rfl | rfl | h
    · exact ⟨b.toNat / 16, by omega, rfl⟩
    · exact ⟨b.toNat % 16, by omega, rfl⟩
    · exact ih h

end Hex

end Text

namespace Uuid

theorem chars_eq (u : Uuid) : ∃ a b c d e : List Char,
    u.chars = a ++ '-' :: (b ++ '-' :: (c ++ '-' :: (d ++ '-' :: e))) ∧
      Text.Hex.encodeChars u.bytes = a ++ (b ++ (c ++ (d ++ e))) ∧
      a.length = 8 ∧ b.length = 4 ∧ c.length = 4 ∧ d.length = 4 ∧ e.length = 12 := by
  have hlen : (Text.Hex.encodeChars u.bytes).length = 32 := by
    rw [Text.Hex.length_encodeChars, u.size]
  generalize hh : Text.Hex.encodeChars u.bytes = h at hlen
  refine ⟨h.take 8, (h.drop 8).take 4, (h.drop 12).take 4, (h.drop 16).take 4, h.drop 20,
    by rw [chars, hyphenate, hh], ?_, ?_, ?_, ?_, ?_, ?_⟩
  · have hd : (h.drop 16).take 4 ++ h.drop 20 = h.drop 16 := by
      simpa using List.take_append_drop 4 (h.drop 16)
    have hc : (h.drop 12).take 4 ++ h.drop 16 = h.drop 12 := by
      simpa using List.take_append_drop 4 (h.drop 12)
    have hb : (h.drop 8).take 4 ++ h.drop 12 = h.drop 8 := by
      simpa using List.take_append_drop 4 (h.drop 8)
    rw [hd, hc, hb, List.take_append_drop]
  all_goals simp [hlen]

theorem length_chars (u : Uuid) : u.chars.length = 36 := by
  obtain ⟨a, b, c, d, e, hchars, _, ha, hb, hc, hd, he⟩ := u.chars_eq
  simp [hchars, ha, hb, hc, hd, he]

theorem readHyphenated?_chars (u : Uuid) : readHyphenated? u.chars = some u := by
  obtain ⟨a, b, c, d, e, hchars, hhex, ha, hb, hc, hd, he⟩ := u.chars_eq
  have hfree : ∀ x, x ∈ a ++ (b ++ (c ++ (d ++ e))) → x ≠ '-' := by
    intro x hx hx'
    rw [← hhex] at hx
    obtain ⟨n, hn, rfl⟩ := Text.Hex.mem_encodeChars _ hx
    exact Text.Hex.digit_isPlain hn (by simp [hx'])
  have hparts : Text.split '-' u.chars = [a, b, c, d, e] := by
    rw [hchars, Text.split_append fun h => hfree '-' (by simp [h]) rfl,
      Text.split_append fun h => hfree '-' (by simp [h]) rfl,
      Text.split_append fun h => hfree '-' (by simp [h]) rfl,
      Text.split_append fun h => hfree '-' (by simp [h]) rfl,
      Text.split_of_not_mem fun h => hfree '-' (by simp [h]) rfl]
  have hflat : [a, b, c, d, e].flatten = Text.Hex.encodeChars u.bytes := by simp [hhex]
  have hgroups : [a, b, c, d, e].map List.length = groups := by simp [ha, hb, hc, hd, he, groups]
  simp only [readHyphenated?, hparts, hgroups, ↓reduceIte, hflat, Text.Hex.decodeChars?_encodeChars,
    Option.bind_some]
  simp [ofBytes?, u.size]

theorem readChars?_chars (u : Uuid) : readChars? u.chars = some u := by
  simp [readChars?, readHyphenated?_chars]

theorem chars_injective {u v : Uuid} (h : u.chars = v.chars) : u = v := by
  have hu := readChars?_chars u
  rw [h, readChars?_chars v] at hu
  exact (Option.some.inj hu).symm

theorem mem_chars {u : Uuid} {x : Char} (h : x ∈ u.chars) :
    x = '-' ∨ ∃ n, n < 16 ∧ x = Text.Hex.digit n := by
  obtain ⟨a, b, c, d, e, hchars, hhex, _⟩ := u.chars_eq
  by_cases hx : x = '-'
  · exact .inl hx
  · right
    apply Text.Hex.mem_encodeChars u.bytes
    rw [hhex]
    simpa [hchars, hx] using h

theorem underscore_not_mem_chars (u : Uuid) : '_' ∉ u.chars := by
  intro h
  rcases mem_chars h with h | ⟨n, hn, h⟩
  · exact absurd h (by decide)
  · exact Text.Hex.digit_isPlain hn (by simp [← h])

theorem text_toList (u : Uuid) : u.text.toList = u.chars := String.toList_ofList

theorem read?_text (u : Uuid) : read? u.text = some u := by
  rw [read?, text_toList, readChars?_chars]

end Uuid

end AuthCore
