import AuthCore.Config.Toml.Document
import AuthCore.Proofs.Config.Fields

set_option autoImplicit false

namespace AuthCore.Config

namespace Field

def tables (f : Field) : List String := f.path.dropLast

def key (f : Field) : String := f.path.getLastD ""

end Field

def Raw.nest : (path : List String) → Raw → Raw
  | [], v => v
  | name :: path, v => .table [(name, nest path v)]

namespace Toml

section Quotes

def escaped (c : Char) : List Char :=
  if c = '"' ∨ c = '\\' then ['\\', c]
  else if isAllowed c then [c]
  else ['\\', 'u', '0', '0', Text.Hex.digit (c.toNat / 16), Text.Hex.digit (c.toNat % 16)]

def quoted (text : String) : List Char := '"' :: (text.toList.flatMap escaped ++ ['"'])

theorem codePoint?_low : ∀ n < 128,
    codePoint? ['0', '0', Text.Hex.digit (n / 16), Text.Hex.digit (n % 16)] =
      some (Char.ofNat n) := by
  decide

theorem lt_of_not_isAllowed {c : Char} (h : isAllowed c = false) : c.toNat < 128 := by
  simp only [isAllowed, Bool.or_eq_false_iff, Bool.and_eq_false_iff, bne_eq_false_iff_eq,
    decide_eq_false_iff_not] at h
  omega

theorem basic?_escaped (cs rest : List Char) {fuel : Nat} (h : cs.length < fuel) :
    basic? fuel (cs.flatMap escaped ++ '"' :: rest) = some (cs, rest) := by
  induction cs generalizing fuel with
  | nil =>
    obtain ⟨fuel, rfl⟩ := Nat.exists_eq_add_of_lt h
    simp [basic?]
  | cons c cs ih =>
    obtain ⟨fuel, rfl⟩ := Nat.exists_eq_add_of_lt (Nat.zero_lt_of_lt h)
    have hrest : basic? fuel (cs.flatMap escaped ++ '"' :: rest) = some (cs, rest) :=
      ih (by simpa using h)
    rw [Nat.zero_add, List.flatMap_cons, List.append_assoc, escaped]
    split
    · rename_i hc
      rcases hc with rfl | rfl <;> simp [basic?, escape?, hrest]
    · rename_i hc
      rw [not_or] at hc
      split
      · rename_i hallowed
        simp [basic?, hc, hallowed, hrest]
      · rename_i hallowed
        have hcode := codePoint?_low c.toNat (lt_of_not_isAllowed (by simpa using hallowed))
        rw [Char.ofNat_toNat] at hcode
        simp [basic?, escape?, hcode, hrest]

theorem exists_escaped (c : Char) : ∃ d ds, escaped c = d :: ds ∧ d ≠ '"' := by
  unfold escaped
  split
  · simp
  · split <;> simp_all

theorem length_le_flatMap_escaped (cs : List Char) : cs.length ≤ (cs.flatMap escaped).length := by
  induction cs with
  | nil => exact Nat.zero_le _
  | cons c cs ih =>
    obtain ⟨d, ds, hd, -⟩ := exists_escaped c
    simp only [List.flatMap_cons, hd, List.length_append, List.length_cons]
    omega

theorem text?_quoted (text : String) (rest : List Char) :
    text? (quoted text ++ '\n' :: rest) = some (text, '\n' :: rest) := by
  have hquoted : quoted text ++ '\n' :: rest =
      '"' :: (text.toList.flatMap escaped ++ '"' :: '\n' :: rest) := by simp [quoted]
  have hbasic : basic? ((text.toList.flatMap escaped ++ '"' :: '\n' :: rest).length + 1)
      (text.toList.flatMap escaped ++ '"' :: '\n' :: rest) = some (text.toList, '\n' :: rest) :=
    basic?_escaped _ _ (by
      have := length_le_flatMap_escaped text.toList
      simp only [List.length_append]
      omega)
  -- Three quotes would begin a text of several lines, but a quote of the text itself is escaped.
  have hsingle : ∀ more,
      text.toList.flatMap escaped ++ '"' :: '\n' :: rest ≠ '"' :: '"' :: more := by
    intro more h
    cases htext : text.toList with
    | nil => simp [htext] at h
    | cons c cs =>
      obtain ⟨d, ds, hd, hne⟩ := exists_escaped c
      simp [htext, hd, hne] at h
  rw [hquoted]
  generalize text.toList.flatMap escaped ++ '"' :: '\n' :: rest = cs at hbasic hsingle
  unfold text?
  split
  · rename_i h
    exact absurd (List.cons.inj h).2 (hsingle _)
  · rename_i h
    rw [← (List.cons.inj h).2, hbasic]
    simp
  · rename_i hother h
    exact absurd (List.cons.inj h).1.symm hother
  · rename_i h
    cases h

theorem value?_quoted (fuel : Nat) (text : String) (rest : List Char) :
    value? (fuel + 1) (quoted text ++ '\n' :: rest) = some (.text text, '\n' :: rest) := by
  have h := text?_quoted text rest
  rw [quoted, List.cons_append] at h ⊢
  simp only [value?, h]
  rfl

end Quotes

section Lines

variable {fuel : Nat} {doc doc' : Entries} {current current' : Current} {c : Char}
  {cs rest rest' : List Char}

theorem lines?_header (h : header? doc cs = some ((doc', current'), rest))
    (hend : finishLine? rest = some rest') :
    lines? (fuel + 1) doc current ('[' :: cs) = lines? fuel doc' current' rest' := by
  have hskip : skipLines ('[' :: cs).length ('[' :: cs) = '[' :: cs := rfl
  rw [lines?, hskip]
  simp [h, hend]

theorem lines?_entry (hc : c ≠ '[') (hskip : skipLines (c :: cs).length (c :: cs) = c :: cs)
    (h : entry? doc current (c :: cs) = some (doc', rest)) (hend : finishLine? rest = some rest') :
    lines? (fuel + 1) doc current (c :: cs) = lines? fuel doc' current rest' := by
  rw [lines?, hskip]
  split
  · rename_i hnil
    cases hnil
  · rename_i hheader
    exact absurd (List.cons.inj hheader).1 hc
  · simp [h, hend]

theorem entry?_quoted {key text : String}
    (hkey : key? cs.length cs = some (([], key), '=' :: ' ' :: (quoted text ++ ['\n'])))
    (hput : within? (fun es => addKey? .opened es [] key (.text text)) current doc = some doc') :
    entry? doc current cs = some (doc', ['\n']) := by
  have hspace : skipSpaces (' ' :: (quoted text ++ ['\n'])) = quoted text ++ ['\n'] := rfl
  rw [ entry?, hkey]
  simp [mark?, hspace, value?_quoted, hput]

end Lines

section Document

def header (f : Field) : List Char := (".".intercalate f.tables).toList ++ [']']

def line (f : Field) (text : String) : List Char :=
  f.key.toList ++ ' ' :: '=' :: ' ' :: (quoted text ++ ['\n'])

def document (f : Field) (text : String) : String :=
  String.ofList ('[' :: (header f ++ '\n' :: line f text))

def opened : (path : List String) → Entries → Entries
  | [], es => es
  | [name], es => [(name, .table .opened es)]
  | name :: path, es => [(name, .table .passed (opened path es))]

variable (f : Field) (text : String)

theorem header?_header (rest : List Char) :
    header? [] (header f ++ rest) = some ((opened f.tables [], f.tables), rest) := by
  cases f <;> rfl

theorem key?_line : key? (line f text).length (line f text) =
    some (([], f.key), '=' :: ' ' :: (quoted text ++ ['\n'])) := by
  cases f <;> rfl

theorem skipLines_line : skipLines (line f text).length (line f text) = line f text := by
  cases f <;> rfl

theorem exists_line : ∃ c cs, line f text = c :: cs ∧ c ≠ '[' := by
  cases f <;> exact ⟨_, _, rfl, by decide⟩

theorem within?_opened (v : Raw) :
    within? (fun es => addKey? .opened es [] f.key v) f.tables (opened f.tables []) =
      some (opened f.tables [(f.key, .value v)]) := by
  cases f <;> rfl

theorem entriesToRaw_opened (v : Raw) :
    entriesToRaw (opened f.tables [(f.key, .value v)]) = (Raw.nest f.path v).entries := by
  cases f <;> rfl

theorem read?_document :
    read? (document f text) = some (Raw.nest f.path (.text text)).entries := by
  obtain ⟨c, cs, hline, hc⟩ := exists_line f text
  have hentry : entry? (opened f.tables []) f.tables (c :: cs) =
      some (opened f.tables [(f.key, .value (.text text))], ['\n']) :=
    entry?_quoted (hline ▸ key?_line f text) (within?_opened f _)
  have hlines (fuel : Nat) : lines? (fuel + 3) [] [] ('[' :: (header f ++ '\n' :: line f text)) =
      some (opened f.tables [(f.key, .value (.text text))]) := by
    rw [lines?_header (header?_header f _) (by rfl), hline,
      lines?_entry hc (hline ▸ skipLines_line f text) hentry (by rfl)]
    rfl
  have hmark : unmarked ('[' :: (header f ++ '\n' :: line f text)) =
      '[' :: (header f ++ '\n' :: line f text) := rfl
  have hfuel : ('[' :: (header f ++ '\n' :: line f text)).length + 1 =
      (header f ++ line f text).length + 3 := by
    simp only [List.length_cons, List.length_append]
    omega
  rw [read?, document, String.toList_ofList, hmark, hfuel, hlines, Option.map_some,
    entriesToRaw_opened]

end Document

end Toml

end AuthCore.Config
