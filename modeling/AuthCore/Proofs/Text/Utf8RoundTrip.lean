import AuthCore.Text.Utf8

set_option autoImplicit false

namespace AuthCore.Text.Utf8

theorem scanFrom_begins {b : UInt8} {p : Pending} (h : lead b = .begins p) (bs : Bytes) :
    scanFrom none (b :: bs) = scanFrom (some p) bs := by
  simp [scanFrom, h]

theorem toNat_ofNat_of_lt {n : Nat} (h : n < 256) : (UInt8.ofNat n).toNat = n := by
  simp [Nat.mod_eq_of_lt h]

theorem scanFrom_more {more low high bits n : Nat} (hlow : low ≤ n) (hhigh : n ≤ high)
    (hn : n < 256) (bs : Bytes) :
    scanFrom (some ⟨more + 2, low, high, bits⟩) (UInt8.ofNat n :: bs) =
      scanFrom (some ⟨more + 1, 0x80, 0xBF, bits * 64 + n % 64⟩) bs := by
  simp only [scanFrom, toNat_ofNat_of_lt hn, hlow, hhigh, and_self, ↓reduceIte]
  rw [if_neg (by omega)]
  rfl

theorem scanFrom_last {low high bits n : Nat} (hlow : low ≤ n) (hhigh : n ≤ high)
    (hn : n < 256) (bs : Bytes) : scanFrom (some ⟨1, low, high, bits⟩) (UInt8.ofNat n :: bs) =
      some (Char.ofNat (bits * 64 + n % 64)) :: scanFrom none bs := by
  simp [scanFrom, toNat_ofNat_of_lt hn, hlow, hhigh]

theorem lead_one {n : Nat} (h : n < 0x80) : lead (UInt8.ofNat n) = .char (Char.ofNat n) := by
  simp only [lead, toNat_ofNat_of_lt (n := n) (by omega), h, ↓reduceIte]

theorem lead_two {n : Nat} (hlow : 0xC2 ≤ n) (hhigh : n < 0xE0) :
    lead (UInt8.ofNat n) = .begins ⟨1, 0x80, 0xBF, n - 0xC0⟩ := by
  unfold lead
  rw [toNat_ofNat_of_lt (by omega), if_neg (by omega), if_neg (by omega), if_pos hhigh]

/-- The first byte of three narrows the range of the second: what is shorter, and surrogates, are
left out. -/
theorem lead_three {v : Nat} (hlow : 0x800 ≤ v) (hhigh : v ≤ 0xFFFF)
    (hpair : v < 0xD800 ∨ 0xDFFF < v) : ∃ low high,
      lead (UInt8.ofNat (v / 4096 + 0xE0)) = .begins ⟨2, low, high, v / 4096⟩ ∧
        low ≤ v / 64 % 64 + 0x80 ∧ v / 64 % 64 + 0x80 ≤ high := by
  unfold lead
  rw [toNat_ofNat_of_lt (by omega), if_neg (by omega), if_neg (by omega), if_neg (by omega)]
  by_cases hfirst : v / 4096 = 0
  · refine ⟨0xA0, 0xBF, ?_, by omega, by omega⟩
    rw [if_pos (by omega), hfirst]
  · rw [if_neg (by omega)]
    by_cases hsurrogate : v / 4096 = 0xD
    · refine ⟨0x80, 0x9F, ?_, by omega, by omega⟩
      rw [if_pos (by omega), hsurrogate]
    · refine ⟨0x80, 0xBF, ?_, by omega, by omega⟩
      rw [if_neg (by omega), if_pos (by omega), Nat.add_sub_cancel]

theorem lead_four {v : Nat} (hlow : 0xFFFF < v) (hhigh : v < 0x110000) : ∃ low high,
    lead (UInt8.ofNat (v / 262144 + 0xF0)) = .begins ⟨3, low, high, v / 262144⟩ ∧
      low ≤ v / 4096 % 64 + 0x80 ∧ v / 4096 % 64 + 0x80 ≤ high := by
  unfold lead
  rw [toNat_ofNat_of_lt (by omega), if_neg (by omega), if_neg (by omega), if_neg (by omega),
    if_neg (by omega), if_neg (by omega), if_neg (by omega)]
  by_cases hfirst : v / 262144 = 0
  · refine ⟨0x90, 0xBF, ?_, by omega, by omega⟩
    rw [if_pos (by omega), hfirst]
  · rw [if_neg (by omega)]
    by_cases hlast : v / 262144 = 4
    · refine ⟨0x80, 0x8F, ?_, by omega, by omega⟩
      rw [if_neg (by omega), if_pos (by omega), hlast]
    · refine ⟨0x80, 0xBF, ?_, by omega, by omega⟩
      rw [if_pos (by omega), Nat.add_sub_cancel]

theorem scanFrom_encodeChar (c : Char) (rest : Bytes) :
    scanFrom none (String.utf8EncodeChar c ++ rest) = some c :: scanFrom none rest := by
  have hvalid : c.toNat < 0xD800 ∨ 0xDFFF < c.toNat ∧ c.toNat < 0x110000 := c.valid
  have hchar : Char.ofNat c.toNat = c := Char.ofNat_toNat c
  generalize hv : c.toNat = v at hvalid hchar
  have hval : c.val.toNat = v := hv
  unfold String.utf8EncodeChar
  simp only [hval]
  by_cases hone : v ≤ 0x7F
  · rw [if_pos hone]
    simp only [List.cons_append, List.nil_append, scanFrom, lead_one (n := v) (by omega), hchar]
  rw [if_neg hone]
  by_cases htwo : v ≤ 0x7FF
  · have hbits : (v / 64 % 32 + 0xC0 - 0xC0) * 64 + (v % 64 + 0x80) % 64 = v := by omega
    rw [if_pos htwo]
    simp only [List.cons_append, List.nil_append]
    rw [scanFrom_begins (lead_two (by omega) (by omega)),
      scanFrom_last (by omega) (by omega) (by omega), hbits, hchar]
  rw [if_neg htwo]
  by_cases hthree : v ≤ 0xFFFF
  · obtain ⟨low, high, hlead, hlow, hhigh⟩ := lead_three (v := v) (by omega) hthree (by omega)
    have hfirst : v / 4096 % 16 = v / 4096 := by omega
    have hbits : (v / 4096 * 64 + (v / 64 % 64 + 0x80) % 64) * 64 + (v % 64 + 0x80) % 64 = v := by
      omega
    rw [if_pos hthree, hfirst]
    simp only [List.cons_append, List.nil_append]
    rw [scanFrom_begins hlead, scanFrom_more hlow hhigh (by omega),
      scanFrom_last (by omega) (by omega) (by omega), hbits, hchar]
  · obtain ⟨low, high, hlead, hlow, hhigh⟩ := lead_four (v := v) (by omega) (by omega)
    have hfirst : v / 262144 % 8 = v / 262144 := by omega
    have hbits : ((v / 262144 * 64 + (v / 4096 % 64 + 0x80) % 64) * 64 +
        (v / 64 % 64 + 0x80) % 64) * 64 + (v % 64 + 0x80) % 64 = v := by omega
    rw [if_neg hthree, hfirst]
    simp only [List.cons_append, List.nil_append]
    rw [scanFrom_begins hlead, scanFrom_more hlow hhigh (by omega),
      scanFrom_more (by omega) (by omega) (by omega),
      scanFrom_last (by omega) (by omega) (by omega), hbits, hchar]

theorem scan_encodeChars (cs : List Char) : scan (encodeChars cs) = cs.map some := by
  induction cs with
  | nil => rfl
  | cons c cs ih =>
    rw [encodeChars, List.flatMap_cons, scan, scanFrom_encodeChar]
    exact congrArg (some c :: ·) ih

theorem decode?_encode (s : String) : decode? (encode s) = some s := by
  have hall : (s.toList.map some).mapM id = some (s.toList.map id) :=
    List.mapM_map.trans List.mapM_pure
  rw [decode?, encode, scan_encodeChars, hall, List.map_id, Option.map_some, String.ofList_toList]

end AuthCore.Text.Utf8
