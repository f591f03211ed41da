import AuthCore.Json.Writer
import AuthCore.Proofs.Json.Documents
import AuthCore.Proofs.Text.Identifiers
import AuthCore.Proofs.Text.Utf8RoundTrip

set_option autoImplicit false

namespace AuthCore.Json

open Reader

theorem hex4_escaped {n : Nat} (h : n < 0x20) :
    Hex4 n (shown ['0', '0', Text.Hex.digit (n / 16), Text.Hex.digit (n % 16)]) := by
  have hzero : Text.Hex.digitValue? '0' = some 0 := by decide
  have hhigh := Text.Hex.digitValue?_digit (n := n / 16) (by omega)
  have hlow := Text.Hex.digitValue?_digit (n := n % 16) (by omega)
  have hsum : 0 * 4096 + 0 * 256 + n / 16 * 16 + n % 16 = n := by omega
  have hdigits := Hex4.digits hzero hzero hhigh hlow
  rwa [hsum] at hdigits

theorem Content.escape {t : Option (List Char)} {i : Input} (h : Content t i) (c : Char) :
    Content (t.map (c :: ·)) (shown (escape c) ++ i) := by
  unfold Json.escape
  split
  · subst c; exact .short (by decide) h
  split
  · subst c; exact .short (by decide) h
  split
  · subst c; exact .short (by decide) h
  split
  · subst c; exact .short (by decide) h
  split
  · subst c; exact .short (by decide) h
  split
  · rename_i hc
    rw [← Char.ofNat_toNat c, hc]
    exact .short (by decide) h
  split
  · rename_i hc
    rw [← Char.ofNat_toNat c, hc]
    exact .short (by decide) h
  split
  · rename_i hcontrol
    have hunit := Content.unit (hex4_escaped hcontrol) (.inl (by omega)) h
    rwa [Char.ofNat_toNat] at hunit
  · rename_i hquote hslash _ _ _ _ _ hcontrol
    exact .plain hquote hslash (Nat.le_of_not_lt hcontrol) h

theorem content_quoted (cs : List Char) :
    Content (some cs) (shown (cs.flatMap escape ++ ['"'])) := by
  induction cs with
  | nil => exact .close
  | cons c cs ih =>
    rw [List.flatMap_cons, List.append_assoc, shown_append]
    exact ih.escape c

theorem lexeme_quoted (s : String) : Lexeme (.string (some s)) (shown (quoted s)) := by
  have hlexeme := Lexeme.string (content_quoted s.toList)
  rwa [Option.map_some, String.ofList_toList] at hlexeme

theorem quoted_unescaped {s : String} (h : ∀ c ∈ s.toList, escape c = [c]) :
    quoted s = '"' :: (s.toList ++ ['"']) := by
  have hcontent : s.toList.flatMap escape = s.toList.flatMap fun c => [c] := List.flatMap_congr h
  rw [quoted, hcontent, List.flatMap_singleton']

theorem writeString_some (s : String) : writeString (some s) = quoted s := rfl

theorem writeChars_text (s : String) : writeChars (.text s) = quoted s := by
  rw [Value.text, writeChars, writeString_some]

theorem magnitude_figures (ds : List Char) :
    magnitude (figures ds) = Nat.ofDigitChars 10 ds 0 := by
  rw [figures, magnitude, List.foldl_map, Nat.ofDigitChars_eq_foldl]
  simp only [Nat.mul_comm 10]

theorem whole_digits (n : Nat) : Whole (Text.Decimal.digits n) := by
  by_cases hn : n = 0
  · rw [hn]
    exact .zero
  · have hdigit {c : Char} (hc : c ∈ Text.Decimal.digits n) : c.isDigit = true :=
      Text.Decimal.isDigit_of_mem_digits hc
    obtain ⟨c, cs, hhead, hc⟩ := Text.Decimal.head_digits_ne_zero (n := n) (by omega)
    rw [hhead] at hdigit ⊢
    exact .digits ⟨by simp, fun _ => hdigit⟩ hc

theorem unsigned_digits (negative : Bool) (n : Nat) :
    Unsigned negative (.integer negative n) (Text.Decimal.digits n) := by
  have hvalue := magnitude_figures (Text.Decimal.digits n)
  rw [show Nat.ofDigitChars 10 (Text.Decimal.digits n) 0 = n from
    Nat.ofDigitChars_ten_toDigits] at hvalue
  have hunsigned : Unsigned negative _ _ := .whole (whole_digits n)
  rwa [hvalue] at hunsigned

def Number.Plain : Number → Prop
  | .integer false n => n < limit64
  | .integer true n => 0 < n ∧ n ≤ limit63
  | .decimal .. => False

inductive Plain : Value → Prop where
  | null : Plain .null
  | bool (b : Bool) : Plain (.bool b)
  | number {n : Number} (h : n.Plain) : Plain (.number n)
  | text (s : String) : Plain (.string (some s))
  | array {vs : List Value} (h : ∀ v ∈ vs, Plain v) : Plain (.array vs)
  | object {ms : List (Option String × Value)} (hkeys : ∀ m ∈ ms, m.1.isSome = true)
      (h : ∀ m ∈ ms, Plain m.2) : Plain (.object ms)

theorem writeNumber_whole {n : Nat} (h : n < limit64) :
    writeNumber (.integer false n) = Text.Decimal.digits n := by
  have hlimit : (n : Int) < limit64 := Int.ofNat_lt.mpr h
  have hrange : -(limit63 : Int) ≤ n ∧ (n : Int) < limit64 := ⟨by omega, hlimit⟩
  simp [writeNumber, Number.toInt?, hrange]

theorem writeNumber_negative {n : Nat} (hpos : 0 < n) (h : n ≤ limit63) :
    writeNumber (.integer true n) = '-' :: Text.Decimal.digits n := by
  have hlimit : (n : Int) ≤ limit63 := Int.ofNat_le.mpr h
  have hrange : -(limit63 : Int) ≤ -(n : Int) ∧ -(n : Int) < limit64 := ⟨by omega, by omega⟩
  have hneg : -(n : Int) < 0 := by omega
  obtain ⟨n, rfl⟩ : ∃ k, n = k + 1 := ⟨n - 1, by omega⟩
  simp only [writeNumber, Number.toInt?, hrange, and_self, ↓reduceIte, hneg, Int.natAbs_neg,
    Int.natAbs_natCast]
  rfl

theorem numeral_writeNumber {n : Number} (h : n.Plain) : Numeral n (writeNumber n) := by
  match n with
  | .integer false n =>
    rw [writeNumber_whole h]
    exact .plain (unsigned_digits false n)
  | .integer true n =>
    rw [writeNumber_negative h.1 h.2]
    exact .minus (unsigned_digits true n)

theorem Spelled.lexeme {t : Token} {ts : List Token} {piece i rest : Input} (h : Lexeme t piece)
    (htail : Spelled ts i rest) : Spelled (t :: ts) (piece ++ i) rest :=
  @Spelled.cons t ts [] piece i rest nofun h htail

theorem Spelled.mark {ts : List Token} {i rest : Input} (m : Mark) (htail : Spelled ts i rest) :
    Spelled (.mark m :: ts) (some m.char :: i) rest :=
  .lexeme (.mark m) htail

/-- A value whose written text stands for its tokens, whatever follows it. -/
def Written (v : Value) : Prop := ∀ rest, Spelled v.tokens (shown (writeChars v) ++ rest) rest

theorem spelled_writeItems {vs : List Value} (h : ∀ v ∈ vs, Written v) (rest : Input) :
    Spelled (itemTokens vs) (shown (writeItems vs ++ [']']) ++ rest) rest := by
  have hclose : Spelled [.mark .closeArray] (some ']' :: rest) rest :=
    .mark .closeArray (.nil rest)
  induction vs with
  | nil => exact hclose
  | cons v vs ih =>
    have hfirst := h v (by simp)
    cases vs with
    | nil =>
      rw [writeItems, shown_append, List.append_assoc, itemTokens]
      exact (hfirst _).append hclose
    | cons w vs =>
      have hlater := ih fun x hx => h x (by simp [hx])
      rw [writeItems, List.append_assoc, List.cons_append, shown_append, shown_cons,
        List.append_assoc, itemTokens]
      · exact (hfirst _).append (.mark .comma hlater)
      · simp

theorem spelled_writeMembers {ms : List (Option String × Value)}
    (hkeys : ∀ m ∈ ms, m.1.isSome = true) (h : ∀ m ∈ ms, Written m.2) (rest : Input) :
    Spelled (memberTokens ms) (shown (writeMembers ms ++ [Char.ofNat 125]) ++ rest) rest := by
  have hclose : Spelled [.mark .closeObject] (some (Char.ofNat 125) :: rest) rest :=
    .mark .closeObject (.nil rest)
  induction ms with
  | nil => exact hclose
  | cons m ms ih =>
    obtain ⟨key, v⟩ := m
    obtain ⟨k, rfl⟩ := Option.isSome_iff_exists.mp (hkeys (key, v) (by simp))
    have hfirst : Written v := h (some k, v) (by simp)
    have hname {us : List Token} {i : Input} (hus : Spelled us i rest) :
        Spelled (.string (some k) :: .mark .colon :: us)
          (shown (writeString (some k)) ++ some ':' :: i) rest :=
      .lexeme (lexeme_quoted k) (.mark .colon hus)
    cases ms with
    | nil =>
      rw [writeMembers, List.append_assoc, List.cons_append, shown_append, shown_cons, shown_append,
        List.append_assoc, List.cons_append, List.append_assoc, memberTokens]
      exact hname ((hfirst _).append hclose)
    | cons n ms =>
      have hlater := ih (fun x hx => hkeys x (by simp [hx])) fun x hx => h x (by simp [hx])
      rw [writeMembers, List.append_assoc, List.cons_append, List.append_assoc, List.cons_append,
        shown_append, shown_cons, shown_append, shown_cons, List.append_assoc, List.cons_append,
        List.append_assoc, memberTokens]
      · exact hname ((hfirst _).append (.mark .comma hlater))
      · simp

theorem written_of_plain {v : Value} (h : Plain v) : Written v := by
  induction h with
  | null => exact fun rest => .lexeme .null (.nil rest)
  | bool b =>
    cases b with
    | false => exact fun rest => .lexeme .no (.nil rest)
    | true => exact fun rest => .lexeme .yes (.nil rest)
  | number h => exact fun rest => .lexeme (.number (numeral_writeNumber h)) (.nil rest)
  | text s => exact fun rest => .lexeme (lexeme_quoted s) (.nil rest)
  | array _ ih =>
    intro rest
    rw [writeChars, shown_cons]
    exact .mark .openArray (spelled_writeItems ih rest)
  | object hkeys _ ih =>
    intro rest
    rw [writeChars, shown_cons]
    exact .mark .openObject (spelled_writeMembers hkeys ih rest)

theorem read?_writeChars {v : Value} (h : Plain v) : read? (shown (writeChars v)) = some v := by
  have hwritten := written_of_plain h []
  rw [List.append_nil] at hwritten
  exact read?_eq_some_iff.mpr ⟨[], hwritten, nofun⟩

theorem ofBytes?_write {v : Value} (h : Plain v) :
    ofBytes? (Text.Utf8.encode (write v)) = some v := by
  rw [ofBytes?, write, Text.Utf8.encode, String.toList_ofList, Text.Utf8.scan_encodeChars]
  exact read?_writeChars h

theorem Number.plain_ofInt {i : Int} (h : inInt64 i = true) : (Number.ofInt i).Plain := by
  simp only [inInt64, Bool.and_eq_true, decide_eq_true_eq] at h
  by_cases hneg : i < 0
  · have hsign : Number.ofInt i = .integer true i.natAbs := by simp [ofInt, hneg]
    rw [hsign]
    exact ⟨by omega, by omega⟩
  · have hsign : Number.ofInt i = .integer false i.natAbs := by simp [ofInt, hneg]
    have hlimit : limit63 < limit64 := by decide
    rw [hsign]
    exact (by omega : i.natAbs < limit64)

theorem Value.int?_int (i : Int) : (Value.int i).int? = some i := by
  by_cases hneg : i < 0
  · obtain ⟨n, rfl⟩ : ∃ n : Nat, i = -((n + 1 : Nat) : Int) := ⟨i.natAbs - 1, by omega⟩
    have habs : (-((n + 1 : Nat) : Int)).natAbs = n + 1 := by omega
    simp only [int, Number.ofInt, hneg, decide_true, habs]
    rfl
  · obtain ⟨n, rfl⟩ : ∃ n : Nat, i = n := ⟨i.natAbs, by omega⟩
    simp only [int, Number.ofInt, hneg, decide_false, Int.natAbs_natCast]
    rfl

end AuthCore.Json
