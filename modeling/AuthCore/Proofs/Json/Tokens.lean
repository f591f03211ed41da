import AuthCore.Proofs.Json.Numerals
import AuthCore.Proofs.Json.Strings
import Mathlib.Data.List.DropRight

set_option autoImplicit false

namespace AuthCore.Json

open Reader

inductive Mark where
  | openArray
  | closeArray
  | openObject
  | closeObject
  | comma
  | colon
deriving DecidableEq

def Mark.char : Mark → Char
  | openArray => '['
  | closeArray => ']'
  | openObject => Char.ofNat 123
  | closeObject => Char.ofNat 125
  | comma => ','
  | colon => ':'

inductive Token where
  | mark (m : Mark)
  | null
  | bool (b : Bool)
  | number (n : Number)
  | string (text : Option String)

inductive Lexeme : Token → Input → Prop where
  | mark (m : Mark) : Lexeme (.mark m) [some m.char]
  | null : Lexeme .null (shown ['n', 'u', 'l', 'l'])
  | yes : Lexeme (.bool true) (shown ['t', 'r', 'u', 'e'])
  | no : Lexeme (.bool false) (shown ['f', 'a', 'l', 's', 'e'])
  | number {n : Number} {cs : List Char} (h : Numeral n cs) : Lexeme (.number n) (shown cs)
  | string {t : Option (List Char)} {piece : Input} (h : Content t piece) :
    Lexeme (.string (t.map String.ofList)) (some '"' :: piece)

def Blank (i : Input) : Prop := ∀ c ∈ i, isBlank c = true

/-- Tokens at the front of an input, with any blanks before each of them, and what is left. -/
inductive Spelled : List Token → Input → Input → Prop where
  | nil (rest : Input) : Spelled [] rest rest
  | cons {t : Token} {ts : List Token} {blanks piece i rest : Input} (hblanks : Blank blanks)
    (h : Lexeme t piece) (htail : Spelled ts i rest) :
    Spelled (t :: ts) (blanks ++ (piece ++ i)) rest

mutual

def Value.tokens : Value → List Token
  | .null => [.null]
  | .bool b => [.bool b]
  | .number n => [.number n]
  | .string t => [.string t]
  | .array vs => .mark .openArray :: itemTokens vs
  | .object ms => .mark .openObject :: memberTokens ms

def itemTokens : List Value → List Token
  | [] => [.mark .closeArray]
  | v :: vs =>
    v.tokens ++ (if vs.isEmpty then [.mark .closeArray] else .mark .comma :: itemTokens vs)

def memberTokens : List (Option String × Value) → List Token
  | [] => [.mark .closeObject]
  | (k, v) :: ms => .string k :: .mark .colon :: (v.tokens ++
    (if ms.isEmpty then [.mark .closeObject] else .mark .comma :: memberTokens ms))

end

def Document (v : Value) (i : Input) : Prop := ∃ rest, Spelled v.tokens i rest ∧ Blank rest

theorem Spelled.append {ts us : List Token} {i j k : Input} (h : Spelled ts i j)
    (h' : Spelled us j k) : Spelled (ts ++ us) i k := by
  induction h with
  | nil => exact h'
  | cons hblanks h _ ih => exact .cons hblanks h (ih h')

theorem Spelled.split {ts us : List Token} {i k : Input} (h : Spelled (ts ++ us) i k) :
    ∃ j, Spelled ts i j ∧ Spelled us j k := by
  induction ts generalizing i with
  | nil => exact ⟨i, .nil i, h⟩
  | cons t ts ih =>
    cases h with
    | cons hblanks h htail =>
      obtain ⟨j, hfirst, hsecond⟩ := ih htail
      exact ⟨j, .cons hblanks h hfirst, hsecond⟩

theorem Spelled.followed {ts : List Token} {i rest : Input} (h : Spelled ts i rest) (more : Input) :
    Spelled ts (i ++ more) (rest ++ more) := by
  induction h with
  | nil => exact .nil _
  | cons hblanks h _ ih =>
    rw [List.append_assoc, List.append_assoc]
    exact .cons hblanks h ih

theorem skip_blank {blanks : Input} (h : Blank blanks) (i : Input) : skip (blanks ++ i) = skip i :=
  List.dropWhile_append_of_pos h

theorem exists_blanks (i : Input) : ∃ blanks, Blank blanks ∧ i = blanks ++ skip i :=
  ⟨i.takeWhile isBlank, fun _ hc => List.mem_takeWhile_imp hc, List.takeWhile_append_dropWhile.symm⟩

theorem skip_skip (i : Input) : skip (skip i) = skip i :=
  List.dropWhile_idempotent isBlank i

theorem isBlank_of_numeral {c : Char} (h : c = '-' ∨ c.isDigit = true) :
    isBlank (some c) = false := by
  cases hblank : isBlank (some c) with
  | false => rfl
  | true =>
    simp only [isBlank, Bool.or_eq_true, beq_iff_eq, Option.some.injEq] at hblank
    rcases hblank with ((rfl | rfl) | rfl) | rfl
    all_goals rcases h with h | h <;> exact absurd h (by decide)

theorem skip_cons {c : Char} (h : isBlank (some c) = false) (i : Input) :
    skip (some c :: i) = some c :: i := by
  simp [skip, h]

theorem Lexeme.head {t : Token} {piece : Input} (h : Lexeme t piece) :
    ∃ c tail, piece = some c :: tail ∧ isBlank (some c) = false := by
  cases h with
  | mark m => exact ⟨m.char, [], rfl, by cases m <;> decide⟩
  | null | yes | no => exact ⟨_, _, rfl, by decide⟩
  | number h =>
    obtain ⟨c, tail, rfl, hc⟩ := h.head
    exact ⟨c, shown tail, rfl, isBlank_of_numeral hc⟩
  | string => exact ⟨'"', _, rfl, by decide⟩

theorem spelled_cons_iff {t : Token} {ts : List Token} {i rest : Input} :
    Spelled (t :: ts) i rest ↔
      ∃ piece j, skip i = piece ++ j ∧ Lexeme t piece ∧ Spelled ts j rest := by
  constructor
  · intro h
    cases h with
    | @cons _ _ blanks piece j _ hblanks h htail =>
      refine ⟨piece, j, ?_, h, htail⟩
      obtain ⟨c, tail, rfl, hc⟩ := h.head
      rw [skip_blank hblanks, List.cons_append, skip_cons hc]
  · rintro ⟨piece, j, hskip, h, htail⟩
    obtain ⟨blanks, hblanks, hi⟩ := exists_blanks i
    rw [hi, hskip]
    exact .cons hblanks h htail

theorem spelled_skip_iff {ts : List Token} (hne : ts ≠ []) {i rest : Input} :
    Spelled ts (skip i) rest ↔ Spelled ts i rest := by
  obtain ⟨t, ts, rfl⟩ := List.exists_cons_of_ne_nil hne
  rw [spelled_cons_iff, spelled_cons_iff, skip_skip]

theorem spelled_mark_iff {m : Mark} {ts : List Token} {i rest : Input} :
    Spelled (.mark m :: ts) i rest ↔ ∃ j, skip i = some m.char :: j ∧ Spelled ts j rest := by
  rw [spelled_cons_iff]
  constructor
  · rintro ⟨_, j, hskip, ⟨⟩, htail⟩
    exact ⟨j, hskip, htail⟩
  · rintro ⟨j, hskip, htail⟩
    exact ⟨_, j, hskip, .mark m, htail⟩

theorem spelled_string_iff {text : Option String} {ts : List Token} {i rest : Input} :
    Spelled (.string text :: ts) i rest ↔ ∃ j k, skip i = some '"' :: j ∧
      string? (j.length + 1) (some []) j = some (text, k) ∧ Spelled ts k rest := by
  rw [spelled_cons_iff]
  constructor
  · rintro ⟨piece, k, hskip, hlexeme, htail⟩
    generalize ht : Token.string text = t at hlexeme
    cases hlexeme with
    | string hpiece =>
      cases ht
      exact ⟨_, k, hskip, string?_eq_some_iff.mpr ⟨_, _, hpiece, rfl, rfl⟩, htail⟩
    | _ => cases ht
  · rintro ⟨j, k, hskip, hread, htail⟩
    obtain ⟨t, piece, hpiece, rfl, rfl⟩ := string?_eq_some_iff.mp hread
    exact ⟨_, k, hskip, .string hpiece, htail⟩

theorem word?_eq_some_iff {w : List Char} {i rest : Input} :
    word? w i = some rest ↔ i = shown w ++ rest := by
  induction w generalizing i with
  | nil => simp [word?, shown, eq_comm]
  | cons c w ih =>
    rcases i with _ | ⟨_ | d, i⟩
    · simp [word?, shown]
    · simp [word?, shown]
    · by_cases hc : d = c
      · simp [word?, hc, ih, shown_cons]
      · simp [word?, hc, shown_cons]

theorem Value.tokens_ne_nil (v : Value) : v.tokens ≠ [] := by
  cases v <;> simp [tokens]

theorem itemTokens_ne_nil (vs : List Value) : itemTokens vs ≠ [] := by
  cases vs with
  | nil => simp [itemTokens]
  | cons v vs =>
    rw [itemTokens]
    exact List.append_ne_nil_of_left_ne_nil v.tokens_ne_nil _

theorem memberTokens_ne_nil (ms : List (Option String × Value)) : memberTokens ms ≠ [] := by
  cases ms <;> simp [memberTokens]

theorem spelled_single_iff {t : Token} {i rest : Input} :
    Spelled [t] i rest ↔ ∃ piece, skip i = piece ++ rest ∧ Lexeme t piece := by
  rw [spelled_cons_iff]
  constructor
  · rintro ⟨piece, j, hskip, h, ⟨⟩⟩
    exact ⟨piece, hskip, h⟩
  · rintro ⟨piece, hskip, h⟩
    exact ⟨piece, rest, hskip, h, .nil rest⟩

theorem getLast?_append_ne {i j : Input} (hi : i.getLast? ≠ some none)
    (hj : j.getLast? ≠ some none) :
    (i ++ j).getLast? ≠ some none := by
  rw [List.getLast?_append]
  cases h : j.getLast? with
  | none => simpa using hi
  | some c => simpa [h] using hj

theorem getLast?_shown_ne (cs : List Char) : (shown cs).getLast? ≠ some none := by
  intro h
  simpa [shown] using List.mem_of_getLast? h

theorem Blank.getLast?_ne {i : Input} (h : Blank i) : i.getLast? ≠ some none := by
  intro hlast
  exact absurd (h none (List.mem_of_getLast? hlast)) (by decide)

theorem Lexeme.getLast?_ne {t : Token} {piece : Input} (h : Lexeme t piece) :
    piece.getLast? ≠ some none := by
  cases h with
  | mark m => simp
  | null | yes | no | number => exact getLast?_shown_ne _
  | string h => simp [List.getLast?_cons, h.getLast?]

theorem Spelled.getLast?_ne {ts : List Token} {i rest : Input} (h : Spelled ts i rest)
    (hrest : rest.getLast? ≠ some none) : i.getLast? ≠ some none := by
  induction h with
  | nil => exact hrest
  | cons hblanks h _ ih =>
    exact getLast?_append_ne hblanks.getLast?_ne (getLast?_append_ne h.getLast?_ne (ih hrest))

theorem Document.getLast?_ne {v : Value} {i : Input} (h : Document v i) :
    i.getLast? ≠ some none := by
  obtain ⟨rest, hspelled, hblank⟩ := h
  exact hspelled.getLast?_ne hblank.getLast?_ne

end AuthCore.Json
