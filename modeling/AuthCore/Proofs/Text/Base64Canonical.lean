import AuthCore.Proofs.Text.Base64RoundTrip
import AuthCore.Proofs.Text.Spellings

set_option autoImplicit false

namespace AuthCore.Text.Base64

theorem symbol_of_value? {c : Char} {v : Nat} (h : standard.value? c = some v) :
    v < 64 ∧ standard.symbol v = c := by
  have hsmall : c.toNat < 128 := by
    unfold Alphabet.value? at h
    split at h
    · rename_i hrange
      exact Nat.lt_of_le_of_lt (show c.toNat ≤ 'Z'.toNat from hrange.2) (by decide)
    split at h
    · rename_i hrange
      exact Nat.lt_of_le_of_lt (show c.toNat ≤ 'z'.toNat from hrange.2) (by decide)
    split at h
    · rename_i hrange
      exact Nat.lt_of_le_of_lt (show c.toNat ≤ '9'.toNat from hrange.2) (by decide)
    split at h
    · subst c
      decide
    split at h
    · subst c
      decide
    · cases h
  have hsymbol : ∀ v ∈ standard.value? c, v < 64 ∧ standard.symbol v = c :=
    of_table (P := fun c => ∀ v ∈ standard.value? c, v < 64 ∧ standard.symbol v = c)
      (by decide) hsmall
  exact hsymbol v h

theorem toNat_byte {n : Nat} (h : n < 256) : (UInt8.ofNat n).toNat = n :=
  UInt8.toNat_ofNat'.trans (Nat.mod_eq_of_lt h)

theorem one?_eq_some {c d : Char} {bs : Bytes} (h : one? standard c d = some bs) :
    encodeWith standard ['='] bs = [c, d, '=', '='] := by
  simp only [one?, Option.bind_eq_bind, Option.bind_eq_some_iff] at h
  obtain ⟨u, hu, v, hv, h⟩ := h
  obtain ⟨hult, rfl⟩ := symbol_of_value? hu
  obtain ⟨hvlt, rfl⟩ := symbol_of_value? hv
  split at h
  · rename_i hspare
    cases h
    have hbyte : (UInt8.ofNat (u * 4 + v / 16)).toNat = u * 4 + v / 16 := toNat_byte (by omega)
    rw [encodeWith, hbyte, show (u * 4 + v / 16) / 4 = u by omega,
      show (u * 4 + v / 16) % 4 * 16 = v by omega]
    rfl
  · cases h

theorem two?_eq_some {c d e : Char} {bs : Bytes} (h : two? standard c d e = some bs) :
    encodeWith standard ['='] bs = [c, d, e, '='] := by
  simp only [two?, Option.bind_eq_bind, Option.bind_eq_some_iff] at h
  obtain ⟨u, hu, v, hv, w, hw, h⟩ := h
  obtain ⟨hult, rfl⟩ := symbol_of_value? hu
  obtain ⟨hvlt, rfl⟩ := symbol_of_value? hv
  obtain ⟨hwlt, rfl⟩ := symbol_of_value? hw
  split at h
  · rename_i hspare
    cases h
    generalize hn : u * 1024 + v * 16 + w / 4 = n
    have hsum : n / 256 * 256 + n % 256 = n := Nat.div_add_mod' n 256
    have hu : n / 1024 = u := by omega
    have hv : n / 16 % 64 = v := by omega
    have hw : n % 16 * 4 = w := by omega
    have hhigh : (UInt8.ofNat (n / 256)).toNat = n / 256 := toNat_byte (by omega)
    have hlow : (UInt8.ofNat (n % 256)).toNat = n % 256 := toNat_byte (by omega)
    simp only [encodeWith, hhigh, hlow, hsum, hu, hv, hw]
  · cases h

/-- A full group stands in front of whatever follows it. -/
theorem three?_eq_some {c d e f : Char} {group : Bytes} (h : three? standard c d e f = some group)
    (rest : Bytes) : encodeWith standard ['='] (group ++ rest) =
      c :: d :: e :: f :: encodeWith standard ['='] rest := by
  simp only [three?, Option.bind_eq_bind, Option.bind_eq_some_iff] at h
  obtain ⟨u, hu, v, hv, w, hw, x, hx, h⟩ := h
  obtain ⟨hult, rfl⟩ := symbol_of_value? hu
  obtain ⟨hvlt, rfl⟩ := symbol_of_value? hv
  obtain ⟨hwlt, rfl⟩ := symbol_of_value? hw
  obtain ⟨hxlt, rfl⟩ := symbol_of_value? hx
  cases h
  have hsum (n : Nat) : n / 65536 * 65536 + n / 256 % 256 * 256 + n % 256 = n := by omega
  generalize hn : u * 262144 + v * 4096 + w * 64 + x = n
  have hu : n / 262144 = u := by omega
  have hv : n / 4096 % 64 = v := by omega
  have hw : n / 64 % 64 = w := by omega
  have hx : n % 64 = x := by omega
  have hfirst : (UInt8.ofNat (n / 65536)).toNat = n / 65536 := toNat_byte (by omega)
  have hsecond : (UInt8.ofNat (n / 256 % 256)).toNat = n / 256 % 256 := toNat_byte (by omega)
  have hthird : (UInt8.ofNat (n % 256)).toNat = n % 256 := toNat_byte (by omega)
  simp only [List.cons_append, List.nil_append, encodeWith, hfirst, hsecond, hthird, hsum, hu, hv,
    hw, hx]

theorem eq_encodeWith_of_decodeChars? {cs : List Char} {bs : Bytes}
    (h : decodeChars? cs = some bs) : cs = encodeWith standard ['='] bs := by
  fun_induction decodeChars? cs generalizing bs with
  | case1 =>
    cases h
    rfl
  | case2 c d => exact (one?_eq_some h).symm
  | case3 c d e => exact (two?_eq_some h).symm
  | case4 c d e f =>
    have hgroup := three?_eq_some h []
    rw [List.append_nil] at hgroup
    exact hgroup.symm
  | case5 c d e f rest _ ih =>
    simp only [Option.bind_eq_bind, Option.bind_eq_some_iff] at h
    obtain ⟨group, hgroup, bytes, hbytes, h⟩ := h
    cases h
    rw [three?_eq_some hgroup, ← ih hbytes]
  | case6 => cases h

theorem decodeChars?_eq_some_iff {cs : List Char} {bs : Bytes} :
    decodeChars? cs = some bs ↔ cs = encodeWith standard ['='] bs :=
  ⟨eq_encodeWith_of_decodeChars?, fun h => by rw [h, decodeChars?_encodeWith]⟩

end AuthCore.Text.Base64
