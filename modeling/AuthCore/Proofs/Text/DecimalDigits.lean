import AuthCore.Text.Decimal

set_option autoImplicit false

namespace AuthCore.Text.Decimal

theorem digitValue?_of_isDigit {c : Char} (h : c.isDigit = true) :
    digitValue? c = some (c.toNat - '0'.toNat) := by
  simp only [Char.isDigit, Bool.and_eq_true, decide_eq_true_eq] at h
  have hrange : '0' ≤ c ∧ c ≤ '9' := h
  simp [digitValue?, hrange]

theorem isDigit_of_char {c : Char} (h : c.isDigit = true) : isDigit c = true := by
  simp [isDigit, digitValue?_of_isDigit h]

theorem isDigit_of_mem_digits {n : Nat} {c : Char} (h : c ∈ digits n) : c.isDigit = true :=
  Nat.isDigit_of_mem_toDigits (by decide) (by decide) h

theorem isDigit_of_mem_padded (width n : Nat) {c : Char} (h : c ∈ padded width n) :
    c.isDigit = true := by
  rcases List.mem_append.mp h with h | h
  · rw [(List.mem_replicate.mp h).2]
    decide
  · exact isDigit_of_mem_digits h

theorem readFrom?_eq {cs : List Char} (h : ∀ c ∈ cs, c.isDigit = true) (acc : Nat) :
    readFrom? acc cs = some (Nat.ofDigitChars 10 cs acc) := by
  induction cs generalizing acc with
  | nil => rfl
  | cons c cs ih =>
    have htail : ∀ d ∈ cs, d.isDigit = true := fun d hd => h d (by simp [hd])
    rw [readFrom?, digitValue?_of_isDigit (h c (by simp)), Nat.ofDigitChars_cons, Nat.mul_comm 10]
    exact ih htail _

theorem read?_eq {cs : List Char} (hne : cs ≠ []) (h : ∀ c ∈ cs, c.isDigit = true) :
    read? cs = some (Nat.ofDigitChars 10 cs 0) := by
  cases cs with
  | nil => exact absurd rfl hne
  | cons c cs => exact readFrom?_eq h 0

theorem padded_ne_nil (width n : Nat) : padded width n ≠ [] :=
  List.append_ne_nil_of_right_ne_nil _ Nat.toDigits_ne_nil

theorem ofDigitChars_padded (width n : Nat) : Nat.ofDigitChars 10 (padded width n) 0 = n := by
  rw [padded, Nat.ofDigitChars_append, Nat.ofDigitChars_replicate_zero, Nat.mul_zero]
  exact Nat.ofDigitChars_ten_toDigits

theorem read?_padded (width n : Nat) : read? (padded width n) = some n := by
  rw [read?_eq (padded_ne_nil width n) fun _ => isDigit_of_mem_padded width n, ofDigitChars_padded]

theorem read?_digits (n : Nat) : read? (digits n) = some n := by
  have hne : digits n ≠ [] := Nat.toDigits_ne_nil
  rw [read?_eq hne fun _ => isDigit_of_mem_digits]
  exact congrArg some Nat.ofDigitChars_ten_toDigits

theorem readBelow?_digits {n bound : Nat} (h : n < bound) :
    readBelow? bound (digits n) = some n := by
  have hbelow : (read? (digits n)).filter (fun n => decide (n < bound)) = some n := by
    rw [read?_digits, Option.filter_some, if_pos (decide_eq_true h)]
  unfold readBelow?
  split
  · rename_i rest heq
    have hplus : '+'.isDigit = true := isDigit_of_mem_digits (n := n) (by simp [heq])
    exact absurd hplus (by decide)
  · exact hbelow

theorem length_padded {width bound n : Nat} (hwidth : 0 < width)
    (hbound : Nat.pow 10 width = bound) (h : n < bound) : (padded width n).length = width := by
  subst hbound
  have hdigits : (digits n).length ≤ width := (Nat.length_toDigits_le_iff (by decide) hwidth).mpr h
  simp only [padded, List.length_append, List.length_replicate]
  omega

theorem head_digits_ne_zero {n : Nat} (h : 0 < n) : ∃ c cs, digits n = c :: cs ∧ c ≠ '0' := by
  induction n using Nat.strongRecOn with
  | _ n ih =>
    by_cases hn : n < 10
    · refine ⟨n.digitChar, [], Nat.toDigits_of_lt_base hn, ?_⟩
      have hall : ∀ d : Fin 10, 0 < d.val → d.val.digitChar ≠ '0' := by decide
      exact hall ⟨n, hn⟩ h
    · obtain ⟨c, cs, hhead, hc⟩ := ih (n / 10) (by omega) (by omega)
      refine ⟨c, cs ++ [(n % 10).digitChar], ?_, hc⟩
      rw [digits, Nat.toDigits_of_base_le (by decide) (by omega)]
      exact congrArg (· ++ [(n % 10).digitChar]) hhead

/-- The spellings of a number: digits, alone or behind a plus sign. -/
inductive Numeral : List Char → Nat → Prop where
  | plain {ds : List Char} (hne : ds ≠ []) (h : ∀ c ∈ ds, c.isDigit = true) :
    Numeral ds (Nat.ofDigitChars 10 ds 0)
  | signed {ds : List Char} (hne : ds ≠ []) (h : ∀ c ∈ ds, c.isDigit = true) :
    Numeral ('+' :: ds) (Nat.ofDigitChars 10 ds 0)

theorem isDigit_of_digitValue? {c : Char} {d : Nat} (h : digitValue? c = some d) :
    c.isDigit = true := by
  unfold digitValue? at h
  split at h
  · rename_i hrange
    simp only [Char.isDigit, Bool.and_eq_true, decide_eq_true_eq]
    exact hrange
  · cases h

theorem isDigit_of_readFrom? {cs : List Char} {acc n : Nat} (h : readFrom? acc cs = some n) :
    ∀ c ∈ cs, c.isDigit = true := by
  induction cs generalizing acc with
  | nil => simp
  | cons c cs ih =>
    unfold readFrom? at h
    split at h
    · rename_i d hd
      exact List.forall_mem_cons.mpr ⟨isDigit_of_digitValue? hd, ih h⟩
    · cases h

theorem read?_eq_some_iff {cs : List Char} {n : Nat} : read? cs = some n ↔
    cs ≠ [] ∧ (∀ c ∈ cs, c.isDigit = true) ∧ Nat.ofDigitChars 10 cs 0 = n := by
  constructor
  · intro h
    have hne : cs ≠ [] := by
      rintro rfl
      cases h
    have hdigits : ∀ c ∈ cs, c.isDigit = true := by
      obtain ⟨c, rest, rfl⟩ := List.exists_cons_of_ne_nil hne
      exact isDigit_of_readFrom? h
    exact ⟨hne, hdigits, Option.some.inj ((read?_eq hne hdigits).symm.trans h)⟩
  · rintro ⟨hne, hdigits, rfl⟩
    exact read?_eq hne hdigits

theorem readBelow?_of_plain {cs : List Char} (h : ∀ c ∈ cs, c.isDigit = true) (bound : Nat) :
    readBelow? bound cs = (read? cs).filter fun n => decide (n < bound) := by
  unfold readBelow?
  split
  · exact absurd (h '+' (by simp)) (by decide)
  · rfl

theorem readBelow?_eq_some_iff {bound n : Nat} {cs : List Char} :
    readBelow? bound cs = some n ↔ Numeral cs n ∧ n < bound := by
  constructor
  · intro h
    simp only [readBelow?, Option.filter_eq_some_iff, decide_eq_true_eq] at h
    obtain ⟨hread, hbound⟩ := h
    split at hread
    · obtain ⟨hne, hdigits, rfl⟩ := read?_eq_some_iff.mp hread
      exact ⟨.signed hne hdigits, hbound⟩
    · obtain ⟨hne, hdigits, rfl⟩ := read?_eq_some_iff.mp hread
      exact ⟨.plain hne hdigits, hbound⟩
  · rintro ⟨hnumeral, hbound⟩
    cases hnumeral with
    | plain hne hdigits =>
      rw [readBelow?_of_plain hdigits, read?_eq hne hdigits, Option.filter_some,
        if_pos (decide_eq_true hbound)]
    | signed hne hdigits =>
      simp only [readBelow?]
      rw [read?_eq hne hdigits, Option.filter_some, if_pos (decide_eq_true hbound)]

theorem numeral_digits (n : Nat) : Numeral (digits n) n := by
  have hplain := Numeral.plain (show digits n ≠ [] from Nat.toDigits_ne_nil)
    fun _ => isDigit_of_mem_digits
  rwa [show Nat.ofDigitChars 10 (digits n) 0 = n from Nat.ofDigitChars_ten_toDigits] at hplain

theorem Numeral.ne_nil {cs : List Char} {n : Nat} (h : Numeral cs n) : cs ≠ [] := by
  cases h with
  | plain hne => exact hne
  | signed => simp

/-- A spelling is that of one number. -/
theorem Numeral.unique {cs : List Char} {n m : Nat} (hn : Numeral cs n) (hm : Numeral cs m) :
    n = m := by
  have hread := readBelow?_eq_some_iff.mpr ⟨hn, show n < max n m + 1 by omega⟩
  rw [readBelow?_eq_some_iff.mpr ⟨hm, show m < max n m + 1 by omega⟩] at hread
  exact (Option.some.inj hread).symm

theorem Numeral.not_mem {cs : List Char} {n : Nat} (h : Numeral cs n) {c : Char}
    (hdigit : c.isDigit = false) (hplus : c ≠ '+') : c ∉ cs := by
  intro hmem
  cases h with
  | plain _ hdigits => simp [hdigits c hmem] at hdigit
  | signed _ hdigits =>
    rcases List.mem_cons.mp hmem with rfl | hmem
    · exact hplus rfl
    · simp [hdigits c hmem] at hdigit

end AuthCore.Text.Decimal
