import AuthCore.Text.Base64

set_option autoImplicit false

namespace AuthCore.Text.Base64

def Alphabet.Distinct (a : Alphabet) : Prop := ∀ n, n < 64 → a.value? (a.symbol n) = some n

theorem distinct_standard : standard.Distinct := by
  intro n hn
  have hall : ∀ n : Fin 64, standard.value? (standard.symbol n) = some n.val := by decide
  exact hall ⟨n, hn⟩

theorem standard_symbol_isPlain {n : Nat} (h : n < 64) : standard.symbol n ∉ ['=', '$'] := by
  have hall : ∀ n : Fin 64, standard.symbol n ∉ ['=', '$'] := by decide
  exact hall ⟨n, h⟩

theorem standard_symbol_ne_pad {n : Nat} (h : n < 64) : standard.symbol n ≠ '=' := by
  have hplain := standard_symbol_isPlain h
  simp only [List.mem_cons, not_or] at hplain
  exact hplain.1

theorem ofNat_eq_of_eq {n : Nat} {b : UInt8} (h : n = b.toNat) : UInt8.ofNat n = b := by
  rw [h, UInt8.ofNat_toNat]

variable {a : Alphabet}

theorem one?_symbols (h : a.Distinct) (x : UInt8) :
    one? a (a.symbol (x.toNat / 4)) (a.symbol (x.toNat % 4 * 16)) = some [x] := by
  have hx : x.toNat < 256 := x.toNat_lt
  have hspare : x.toNat % 4 * 16 % 16 = 0 := by omega
  have hbyte : UInt8.ofNat (x.toNat / 4 * 4 + x.toNat % 4 * 16 / 16) = x :=
    ofNat_eq_of_eq (by omega)
  simp only [one?, h _ (show x.toNat / 4 < 64 by omega), h _ (show x.toNat % 4 * 16 < 64 by omega),
    Option.bind_eq_bind, Option.bind_some, hspare, ↓reduceIte, hbyte, Option.pure_def]

theorem two?_symbols (h : a.Distinct) (x y : UInt8) {n : Nat}
    (hn : n = x.toNat * 256 + y.toNat) :
    two? a (a.symbol (n / 1024)) (a.symbol (n / 16 % 64)) (a.symbol (n % 16 * 4)) =
      some [x, y] := by
  have hx : x.toNat < 256 := x.toNat_lt
  have hy : y.toNat < 256 := y.toNat_lt
  have hspare : n % 16 * 4 % 4 = 0 := by omega
  have hbits : n / 1024 * 1024 + n / 16 % 64 * 16 + n % 16 * 4 / 4 = n := by omega
  have hfirst : UInt8.ofNat (n / 256) = x := ofNat_eq_of_eq (by omega)
  have hsecond : UInt8.ofNat (n % 256) = y := ofNat_eq_of_eq (by omega)
  simp only [two?, h _ (show n / 1024 < 64 by omega), h _ (show n / 16 % 64 < 64 by omega),
    h _ (show n % 16 * 4 < 64 by omega), Option.bind_eq_bind, Option.bind_some, hspare, ↓reduceIte,
    hbits, hfirst, hsecond, Option.pure_def]

theorem three?_symbols (h : a.Distinct) (x y z : UInt8) {n : Nat}
    (hn : n = x.toNat * 65536 + y.toNat * 256 + z.toNat) :
    three? a (a.symbol (n / 262144)) (a.symbol (n / 4096 % 64)) (a.symbol (n / 64 % 64))
      (a.symbol (n % 64)) = some [x, y, z] := by
  have hx : x.toNat < 256 := x.toNat_lt
  have hy : y.toNat < 256 := y.toNat_lt
  have hz : z.toNat < 256 := z.toNat_lt
  have hbits : n / 262144 * 262144 + n / 4096 % 64 * 4096 + n / 64 % 64 * 64 + n % 64 = n := by
    omega
  have hfirst : UInt8.ofNat (n / 65536) = x := ofNat_eq_of_eq (by omega)
  have hsecond : UInt8.ofNat (n / 256 % 256) = y := ofNat_eq_of_eq (by omega)
  have hthird : UInt8.ofNat (n % 256) = z := ofNat_eq_of_eq (by omega)
  simp only [three?, h _ (show n / 262144 < 64 by omega), h _ (show n / 4096 % 64 < 64 by omega),
    h _ (show n / 64 % 64 < 64 by omega), h _ (show n % 64 < 64 by omega), Option.bind_eq_bind,
    Option.bind_some, hbits, hfirst, hsecond, hthird, Option.pure_def]

/-- A full group is read as one whether or not more follows: its last symbol is no padding. -/
theorem decodeChars?_group {c d e f : Char} (hf : f ≠ '=') (rest : List Char) :
    decodeChars? (c :: d :: e :: f :: rest) =
      (three? standard c d e f).bind fun group => (decodeChars? rest).map (group ++ ·) := by
  cases rest with
  | nil =>
    cases hgroup : three? standard c d e f <;> simp [decodeChars?, hf, hgroup]
  | cons r rest =>
    cases hgroup : three? standard c d e f with
    | none => simp [decodeChars?, hgroup]
    | some group => cases hrest : decodeChars? (r :: rest) <;> simp [decodeChars?, hgroup, hrest]

theorem decodeChars?_encodeWith (bs : Bytes) :
    decodeChars? (encodeWith standard ['='] bs) = some bs := by
  match bs with
  | [] => rfl
  | [x] =>
    simp only [encodeWith, List.cons_append, List.nil_append, decodeChars?, ↓reduceIte]
    exact one?_symbols distinct_standard x
  | [x, y] =>
    have hsymbol : standard.symbol ((x.toNat * 256 + y.toNat) % 16 * 4) ≠ '=' :=
      standard_symbol_ne_pad (by omega)
    simp only [encodeWith, decodeChars?, ↓reduceIte, hsymbol]
    exact two?_symbols distinct_standard x y rfl
  | x :: y :: z :: rest =>
    have hlast := standard_symbol_ne_pad
      (show (x.toNat * 65536 + y.toNat * 256 + z.toNat) % 64 < 64 by omega)
    rw [encodeWith, decodeChars?_group hlast, three?_symbols distinct_standard x y z rfl,
      decodeChars?_encodeWith rest]
    rfl

theorem decodeChars?_pad_second (c : Char) (rest : List Char) :
    decodeChars? (c :: '=' :: rest) = none := by
  have hpad : standard.value? '=' = none := by decide
  have hone : one? standard c '=' = none := by
    cases hc : standard.value? c <;> simp [one?, hc, hpad]
  have htwo (e : Char) : two? standard c '=' e = none := by
    cases hc : standard.value? c <;> simp [two?, hc, hpad]
  have hthree (e f : Char) : three? standard c '=' e f = none := by
    cases hc : standard.value? c <;> simp [three?, hc, hpad]
  match rest with
  | [] | [_] => rfl
  | [e, f] => simp [decodeChars?, hone, htwo, hthree]
  | e :: f :: g :: rest => simp [decodeChars?, hthree]

theorem mem_encodeWith {pad : List Char} {bs : Bytes} {c : Char} (h : c ∈ encodeWith a pad bs) :
    c ∈ pad ∨ ∃ n, n < 64 ∧ c = a.symbol n := by
  match bs with
  | [] => cases h
  | [x] =>
    have hx : x.toNat < 256 := x.toNat_lt
    simp only [encodeWith, List.mem_cons, List.mem_append, or_self] at h
    rcases h with rfl | rfl | h
    · exact .inr ⟨_, by omega, rfl⟩
    · exact .inr ⟨_, by omega, rfl⟩
    · exact .inl h
  | [x, y] =>
    have hx : x.toNat < 256 := x.toNat_lt
    have hy : y.toNat < 256 := y.toNat_lt
    simp only [encodeWith, List.mem_cons] at h
    rcases h with rfl | rfl | rfl | h
    · exact .inr ⟨_, by omega, rfl⟩
    · exact .inr ⟨_, by omega, rfl⟩
    · exact .inr ⟨_, by omega, rfl⟩
    · exact .inl h
  | x :: y :: z :: rest =>
    have hx : x.toNat < 256 := x.toNat_lt
    have hy : y.toNat < 256 := y.toNat_lt
    have hz : z.toNat < 256 := z.toNat_lt
    simp only [encodeWith, List.mem_cons] at h
    rcases h with rfl | rfl | rfl | rfl | h
    · exact .inr ⟨_, by omega, rfl⟩
    · exact .inr ⟨_, by omega, rfl⟩
    · exact .inr ⟨_, by omega, rfl⟩
    · exact .inr ⟨_, by omega, rfl⟩
    · exact mem_encodeWith h

theorem distinct_urlSafe : urlSafe.Distinct := by
  intro n hn
  have hall : ∀ n : Fin 64, urlSafe.value? (urlSafe.symbol n) = some n.val := by decide
  exact hall ⟨n, hn⟩

/-- The URL form needs no padding to be read back: the count of symbols tells the last group. -/
theorem decodeUrlChars?_encodeWith (bs : Bytes) :
    decodeUrlChars? (encodeWith urlSafe [] bs) = some bs := by
  match bs with
  | [] => rfl
  | [x] => exact one?_symbols distinct_urlSafe x
  | [x, y] => exact two?_symbols distinct_urlSafe x y rfl
  | x :: y :: z :: rest =>
    simp only [encodeWith, decodeUrlChars?, three?_symbols distinct_urlSafe x y z rfl,
      decodeUrlChars?_encodeWith rest, Option.bind_eq_bind, Option.bind_some, Option.pure_def,
      List.cons_append, List.nil_append]

theorem decodeUrl?_encodeUrl (bs : Bytes) : decodeUrl? (encodeUrl bs) = some bs := by
  rw [decodeUrl?, encodeUrl, String.toList_ofList, decodeUrlChars?_encodeWith]

theorem of_mem_encodeUrl {P : Char → Prop} (hall : ∀ n : Fin 64, P (urlSafe.symbol n)) {bs : Bytes}
    {c : Char} (h : c ∈ (encodeUrl bs).toList) : P c := by
  rw [encodeUrl, String.toList_ofList] at h
  rcases mem_encodeWith h with h | ⟨n, hn, rfl⟩
  · cases h
  · exact hall ⟨n, hn⟩

theorem point_not_mem_encodeUrl (bs : Bytes) : '.' ∉ (encodeUrl bs).toList :=
  fun h => of_mem_encodeUrl (P := (· ≠ '.')) (by decide) h rfl

/-- The characters of a text in the URL alphabet: letters, digits, hyphens and underscores. -/
def IsUrlChar (c : Char) : Prop := c.isAlphanum = true ∨ c = '-' ∨ c = '_'

instance : DecidablePred IsUrlChar := fun c => by unfold IsUrlChar; infer_instance

theorem isUrlChar_of_mem_encodeUrl {bs : Bytes} {c : Char} (h : c ∈ (encodeUrl bs).toList) :
    IsUrlChar c := of_mem_encodeUrl (by decide) h

end AuthCore.Text.Base64
