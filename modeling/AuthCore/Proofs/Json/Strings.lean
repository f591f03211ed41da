import AuthCore.Json.Reader

set_option autoImplicit false

namespace AuthCore.Json

open Reader

inductive Hex4 : Nat → Input → Prop where
  | digits {a b c d : Char} {w x y z : Nat} (ha : Text.Hex.digitValue? a = some w)
    (hb : Text.Hex.digitValue? b = some x) (hc : Text.Hex.digitValue? c = some y)
    (hd : Text.Hex.digitValue? d = some z) :
    Hex4 (w * 4096 + x * 256 + y * 16 + z) [some a, some b, some c, some d]

inductive LowHalf : Nat → Input → Prop where
  | escape {l : Nat} {q : Input} (h : Hex4 l q) (hl : 0xDC00 ≤ l ∧ l ≤ 0xDFFF) :
    LowHalf l (some '\\' :: some 'u' :: q)

def paired (high low : Nat) : Char :=
  Char.ofNat (0x10000 + (high - 0xD800) * 1024 + (low - 0xDC00))

/-- A string after its opening quote, and its text if it has one. A surrogate that is no half of a
pair and a piece that is no character leave it without. -/
inductive Content : Option (List Char) → Input → Prop where
  | close : Content (some []) [some '"']
  | gap {t : Option (List Char)} {i : Input} (h : Content t i) : Content none (none :: i)
  | plain {t : Option (List Char)} {i : Input} {c : Char} (hquote : c ≠ '"') (hslash : c ≠ '\\')
    (hcontrol : 0x20 ≤ c.toNat) (h : Content t i) : Content (t.map (c :: ·)) (some c :: i)
  | short {t : Option (List Char)} {i : Input} {e d : Char} (he : shortEscape? e = some d)
    (h : Content t i) : Content (t.map (d :: ·)) (some '\\' :: some e :: i)
  | unit {t : Option (List Char)} {i p : Input} {u : Nat} (hu : Hex4 u p)
    (hsingle : u < 0xD800 ∨ 0xDFFF < u) (h : Content t i) :
    Content (t.map (Char.ofNat u :: ·)) (some '\\' :: some 'u' :: (p ++ i))
  | pair {t : Option (List Char)} {i p half : Input} {u l : Nat} (hu : Hex4 u p)
    (hhigh : 0xD800 ≤ u ∧ u ≤ 0xDBFF) (hl : LowHalf l half) (h : Content t i) :
    Content (t.map (paired u l :: ·)) (some '\\' :: some 'u' :: (p ++ (half ++ i)))
  | lone {t : Option (List Char)} {i p : Input} {u : Nat} (hu : Hex4 u p)
    (hhalf : 0xD800 ≤ u ∧ u ≤ 0xDFFF)
    (halone : u ≤ 0xDBFF → ∀ l half j, LowHalf l half → i ≠ half ++ j) (h : Content t i) :
    Content none (some '\\' :: some 'u' :: (p ++ i))

theorem unit?_eq_some_iff {u : Nat} {i rest : Input} :
    unit? i = some (u, rest) ↔ ∃ p, Hex4 u p ∧ i = p ++ rest := by
  constructor
  · intro h
    unfold unit? at h
    split at h
    · simp only [Option.bind_eq_bind, Option.bind_eq_some_iff, Option.pure_def, Option.some.injEq,
        Prod.mk.injEq] at h
      obtain ⟨w, hw, x, hx, y, hy, z, hz, rfl, rfl⟩ := h
      exact ⟨_, .digits hw hx hy hz, rfl⟩
    · cases h
  · rintro ⟨p, ⟨ha, hb, hc, hd⟩, rfl⟩
    simp [unit?, ha, hb, hc, hd]

theorem lowHalf?_eq_some_iff {l : Nat} {i rest : Input} :
    lowHalf? i = some (l, rest) ↔ ∃ half, LowHalf l half ∧ i = half ++ rest := by
  constructor
  · intro h
    unfold lowHalf? at h
    split at h
    · split at h
      · rename_i hunit
        split at h
        · rename_i hl
          cases h
          obtain ⟨q, hq, rfl⟩ := unit?_eq_some_iff.mp hunit
          exact ⟨_, .escape hq hl, rfl⟩
        · cases h
      · cases h
    · cases h
  · rintro ⟨half, ⟨hq, hl⟩, rfl⟩
    simp only [List.cons_append, lowHalf?, unit?_eq_some_iff.mpr ⟨_, hq, rfl⟩, if_pos hl]

theorem Hex4.length {u : Nat} {p : Input} (h : Hex4 u p) : p.length = 4 := by
  cases h
  rfl

theorem LowHalf.length {l : Nat} {half : Input} (h : LowHalf l half) : half.length = 6 := by
  obtain ⟨hq, _⟩ := h
  simp [hq.length]

theorem Content.length_of_unit {t : Option (List Char)} {i : Input}
    (h : Content t (some '\\' :: some 'u' :: i)) : 4 ≤ i.length := by
  have hlong {u : Nat} {p j : Input} (hu : Hex4 u p) (hi : i = p ++ j) : 4 ≤ i.length := by
    rw [hi, List.length_append, hu.length]
    omega
  generalize hj : some '\\' :: some 'u' :: i = j at h
  cases h with
  | close => cases hj
  | gap => cases hj
  | plain _ hslash => exact absurd (Option.some.inj (List.cons.inj hj).1).symm hslash
  | short he =>
    cases hj
    rw [show shortEscape? 'u' = none by decide] at he
    cases he
  | unit hu => exact hlong hu (List.cons.inj (List.cons.inj hj).2).2
  | pair hu => exact hlong hu (List.cons.inj (List.cons.inj hj).2).2
  | lone hu => exact hlong hu (List.cons.inj (List.cons.inj hj).2).2

theorem Content.lowHalf?_append {t : Option (List Char)} {i : Input} (h : Content t i)
    (halone : ∀ l half j, LowHalf l half → i ≠ half ++ j) (rest : Input) :
    lowHalf? (i ++ rest) = none := by
  rw [Option.eq_none_iff_forall_ne_some]
  rintro ⟨l, after⟩ hread
  obtain ⟨half, hhalf, hi⟩ := lowHalf?_eq_some_iff.mp hread
  have hlong : half.length ≤ i.length := by
    rw [hhalf.length]
    obtain ⟨hq, _⟩ := hhalf
    match i, h with
    | [], h => cases h
    | [_], h =>
      cases h with
      | close => cases hi
      | gap h => cases h
      | plain _ _ _ h => cases h
    | c :: d :: i, h =>
      simp only [List.cons_append, List.cons.injEq] at hi
      obtain ⟨rfl, rfl, _⟩ := hi
      simpa using h.length_of_unit
  obtain ⟨j, rfl⟩ : half <+: i :=
    List.prefix_of_prefix_length_le ⟨after, hi.symm⟩ ⟨rest, rfl⟩ hlong
  exact halone l half j hhalf rfl

def joined (before t : Option (List Char)) : Option String :=
  before.bind fun cs => t.map fun ds => String.ofList (cs.reverse ++ ds)

theorem joined_none_left (t : Option (List Char)) : joined none t = none := rfl

theorem joined_none_right (before : Option (List Char)) : joined before none = none := by
  cases before <;> rfl

theorem joined_cons (before t : Option (List Char)) (c : Char) :
    joined (before.map (c :: ·)) t = joined before (t.map (c :: ·)) := by
  cases before <;> cases t <;> simp only [joined, Option.map_some, Option.map_none,
    Option.bind_some, Option.bind_none, List.reverse_cons, List.append_assoc, List.cons_append,
    List.nil_append]

theorem escaped_single {u : Nat} (h : u < 0xD800 ∨ 0xDFFF < u) (i : Input) :
    escaped u i = (some (Char.ofNat u), i) := by
  rw [escaped, if_neg (by omega), if_neg (by omega)]

theorem escaped_pair {u l : Nat} (h : 0xD800 ≤ u ∧ u ≤ 0xDBFF) {half : Input}
    (hl : LowHalf l half) (i : Input) : escaped u (half ++ i) = (some (paired u l), i) := by
  rw [escaped, if_pos h, lowHalf?_eq_some_iff.mpr ⟨half, hl, rfl⟩]
  rfl

theorem escaped_lone {u : Nat} (h : 0xD800 ≤ u ∧ u ≤ 0xDFFF) {i : Input}
    (halone : u ≤ 0xDBFF → lowHalf? i = none) : escaped u i = (none, i) := by
  unfold escaped
  split
  · rename_i hhigh
    rw [halone hhigh.2]
  · rw [if_pos (by omega)]

theorem string?_plain {c : Char} (hquote : c ≠ '"') (hslash : c ≠ '\\') (hcontrol : 0x20 ≤ c.toNat)
    (fuel : Nat) (before : Option (List Char)) (rest : Input) :
    string? (fuel + 1) before (some c :: rest) = string? fuel (before.map (c :: ·)) rest := by
  simp [string?, hquote, hslash, Nat.not_lt.mpr hcontrol]

theorem string?_short {e d : Char} (he : shortEscape? e = some d) (fuel : Nat)
    (before : Option (List Char)) (rest : Input) :
    string? (fuel + 1) before (some '\\' :: some e :: rest) =
      string? fuel (before.map (d :: ·)) rest := by
  have hunit : e ≠ 'u' := by
    rintro rfl
    rw [show shortEscape? 'u' = none by decide] at he
    cases he
  simp [string?, he]

theorem string?_unit {u : Nat} {p : Input} (hu : Hex4 u p) (fuel : Nat)
    (before : Option (List Char)) (rest : Input) :
    string? (fuel + 1) before (some '\\' :: some 'u' :: (p ++ rest)) =
      string? fuel (before.bind fun cs => (escaped u rest).1.map (· :: cs)) (escaped u rest).2 := by
  simp [string?, unit?_eq_some_iff.mpr ⟨p, hu, rfl⟩]

theorem bind_some_cons (before : Option (List Char)) (c : Char) :
    (before.bind fun cs => (some c).map (· :: cs)) = before.map (c :: ·) := by
  cases before <;> rfl

theorem bind_none_cons (before : Option (List Char)) :
    (before.bind fun cs => (none : Option Char).map (· :: cs)) = none := by
  cases before <;> rfl

theorem Content.exists_succ {t : Option (List Char)} {i : Input} (h : Content t i) {n : Nat}
    (hn : i.length ≤ n) : ∃ m, n = m + 1 := by
  have hpos : 0 < i.length := by cases h <;> simp
  exact ⟨n - 1, by omega⟩

theorem string?_of_content {t : Option (List Char)} {i : Input} (h : Content t i) {fuel : Nat}
    (hfuel : i.length ≤ fuel) (before : Option (List Char)) (rest : Input) :
    string? fuel before (i ++ rest) = some (joined before t, rest) := by
  obtain ⟨fuel, rfl⟩ := h.exists_succ hfuel
  -- The end of a string takes one unit of fuel, and every step before it one more.
  induction h generalizing fuel before with
  | close => cases before <;> simp [string?, joined]
  | gap h ih =>
    obtain ⟨fuel, rfl⟩ := h.exists_succ (n := fuel) (by simp at hfuel; omega)
    have hread := ih none fuel (by simpa using hfuel)
    rw [List.cons_append, string?, hread, joined_none_left, joined_none_right]
  | plain hquote hslash hcontrol h ih =>
    obtain ⟨fuel, rfl⟩ := h.exists_succ (n := fuel) (by simp at hfuel; omega)
    rw [List.cons_append, string?_plain hquote hslash hcontrol,
      ih _ fuel (by simpa using hfuel), joined_cons]
  | short he h ih =>
    obtain ⟨fuel, rfl⟩ := h.exists_succ (n := fuel) (by simp at hfuel; omega)
    rw [List.cons_append, List.cons_append, string?_short he,
      ih _ fuel (by simp at hfuel; omega), joined_cons]
  | unit hu hsingle h ih =>
    obtain ⟨fuel, rfl⟩ := h.exists_succ (n := fuel) (by simp at hfuel; omega)
    rw [List.cons_append, List.cons_append, List.append_assoc, string?_unit hu,
      escaped_single hsingle, bind_some_cons, ih _ fuel (by simp at hfuel; omega), joined_cons]
  | pair hu hhigh hl h ih =>
    obtain ⟨fuel, rfl⟩ := h.exists_succ (n := fuel) (by simp at hfuel; omega)
    rw [List.cons_append, List.cons_append, List.append_assoc, List.append_assoc, string?_unit hu,
      escaped_pair hhigh hl, bind_some_cons, ih _ fuel (by simp at hfuel; omega), joined_cons]
  | lone hu hhalf halone h ih =>
    obtain ⟨fuel, rfl⟩ := h.exists_succ (n := fuel) (by simp at hfuel; omega)
    rw [List.cons_append, List.cons_append, List.append_assoc, string?_unit hu,
      escaped_lone hhalf fun hhigh => h.lowHalf?_append (halone hhigh) rest, bind_none_cons,
      ih _ fuel (by simp at hfuel; omega), joined_none_left, joined_none_right]

/-- What a code unit stands for, by what follows it. -/
theorem escaped_cases (u : Nat) (i : Input) :
    ((u < 0xD800 ∨ 0xDFFF < u) ∧ escaped u i = (some (Char.ofNat u), i)) ∨
    (∃ l half j, (0xD800 ≤ u ∧ u ≤ 0xDBFF) ∧ LowHalf l half ∧ i = half ++ j ∧
      escaped u i = (some (paired u l), j)) ∨
    ((0xD800 ≤ u ∧ u ≤ 0xDFFF) ∧ (u ≤ 0xDBFF → ∀ l half j, LowHalf l half → i ≠ half ++ j) ∧
      escaped u i = (none, i)) := by
  by_cases hsingle : u < 0xD800 ∨ 0xDFFF < u
  · exact .inl ⟨hsingle, escaped_single hsingle i⟩
  have hhalf : 0xD800 ≤ u ∧ u ≤ 0xDFFF := by omega
  by_cases hpair : u ≤ 0xDBFF ∧ ∃ l half j, LowHalf l half ∧ i = half ++ j
  · obtain ⟨hhigh, l, half, j, hl, rfl⟩ := hpair
    exact .inr (.inl ⟨l, half, j, ⟨hhalf.1, hhigh⟩, hl, rfl, escaped_pair ⟨hhalf.1, hhigh⟩ hl j⟩)
  · have halone : u ≤ 0xDBFF → ∀ l half j, LowHalf l half → i ≠ half ++ j :=
      fun hhigh l half j hl hi => hpair ⟨hhigh, l, half, j, hl, hi⟩
    refine .inr (.inr ⟨hhalf, halone, escaped_lone hhalf fun hhigh => ?_⟩)
    rw [Option.eq_none_iff_forall_ne_some]
    rintro ⟨l, j⟩ hread
    obtain ⟨half, hl, hi⟩ := lowHalf?_eq_some_iff.mp hread
    exact halone hhigh l half j hl hi

theorem content_of_string? {fuel : Nat} {before : Option (List Char)} {i rest : Input}
    {text : Option String} (h : string? fuel before i = some (text, rest)) :
    ∃ t piece, Content t piece ∧ i = piece ++ rest ∧ text = joined before t := by
  induction fuel generalizing before i with
  | zero => cases h
  | succ fuel ih =>
    match i with
    | [] => cases h
    | none :: i =>
      obtain ⟨t, piece, hpiece, rfl, rfl⟩ := ih h
      exact ⟨none, _, .gap hpiece, rfl, by rw [joined_none_left, joined_none_right]⟩
    | some c :: i =>
      unfold string? at h
      split at h
      · rename_i hquote
        cases h
        refine ⟨some [], _, .close, by rw [hquote]; rfl, ?_⟩
        cases before <;> simp [joined]
      split at h
      · rename_i hslash
        subst hslash
        split at h
        · split at h
          · rename_i u i hunit
            obtain ⟨p, hu, rfl⟩ := unit?_eq_some_iff.mp hunit
            rcases escaped_cases u i with ⟨hsingle, hread⟩ | ⟨l, half, j, hhigh, hl, rfl, hread⟩ |
              ⟨hhalf, halone, hread⟩
            · rw [hread] at h
              dsimp only at h
              rw [bind_some_cons] at h
              obtain ⟨t, piece, hpiece, rfl, rfl⟩ := ih h
              exact ⟨_, _, .unit hu hsingle hpiece, by simp, joined_cons ..⟩
            · rw [hread] at h
              dsimp only at h
              rw [bind_some_cons] at h
              obtain ⟨t, piece, hpiece, rfl, rfl⟩ := ih h
              exact ⟨_, _, .pair hu hhigh hl hpiece, by simp, joined_cons ..⟩
            · rw [hread] at h
              dsimp only at h
              rw [bind_none_cons] at h
              obtain ⟨t, piece, hpiece, rfl, rfl⟩ := ih h
              refine ⟨none, _, .lone hu hhalf ?_ hpiece, by simp, ?_⟩
              · intro hhigh l half j hl hi
                exact halone hhigh l half (j ++ rest) hl (by rw [hi, List.append_assoc])
              · rw [joined_none_left, joined_none_right]
          · cases h
        · split at h
          · rename_i d hd
            obtain ⟨t, piece, hpiece, rfl, rfl⟩ := ih h
            exact ⟨_, _, .short hd hpiece, rfl, joined_cons ..⟩
          · cases h
        · cases h
      split at h
      · cases h
      · rename_i hquote hslash hcontrol
        obtain ⟨t, piece, hpiece, rfl, rfl⟩ := ih h
        exact ⟨_, _, .plain hquote hslash (Nat.le_of_not_lt hcontrol) hpiece, rfl, joined_cons ..⟩

theorem string?_eq_some_iff {i rest : Input} {text : Option String} :
    string? (i.length + 1) (some []) i = some (text, rest) ↔
      ∃ t piece, Content t piece ∧ i = piece ++ rest ∧ text = t.map String.ofList := by
  have hjoined (t : Option (List Char)) : joined (some []) t = t.map String.ofList := rfl
  constructor
  · intro h
    obtain ⟨t, piece, hpiece, hi, htext⟩ := content_of_string? h
    exact ⟨t, piece, hpiece, hi, by rw [htext, hjoined]⟩
  · rintro ⟨t, piece, hpiece, rfl, rfl⟩
    rw [string?_of_content hpiece (by simp only [List.length_append]; omega), hjoined]

theorem Content.getLast? {t : Option (List Char)} {i : Input} (h : Content t i) :
    i.getLast? = some (some '"') := by
  induction h with
  | close => rfl
  | gap _ ih | plain _ _ _ _ ih | short _ _ ih => simp [List.getLast?_cons, ih]
  | unit _ _ _ ih | pair _ _ _ _ ih | lone _ _ _ _ ih =>
    simp [List.getLast?_cons, List.getLast?_append, ih]

end AuthCore.Json
