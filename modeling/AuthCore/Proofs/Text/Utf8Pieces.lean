import AuthCore.Proofs.Text.Utf8RoundTrip

set_option autoImplicit false

namespace AuthCore.Text.Utf8

theorem scanFrom_none_cons (b : UInt8) (bs : Bytes) : scanFrom none (b :: bs) =
    match lead b with
    | .char c => some c :: scanFrom none bs
    | .begins p => scanFrom (some p) bs
    | .invalid => none :: scanFrom none bs := rfl

theorem scanFrom_some_cons (p : Pending) (b : UInt8) (bs : Bytes) : scanFrom (some p) (b :: bs) =
    if p.low ≤ b.toNat ∧ b.toNat ≤ p.high then
      if p.more ≤ 1 then some (Char.ofNat (p.bits * 64 + b.toNat % 64)) :: scanFrom none bs
      else scanFrom (some ⟨p.more - 1, 0x80, 0xBF, p.bits * 64 + b.toNat % 64⟩) bs
    else none :: scanFrom none (b :: bs) := rfl

theorem getLast?_tail_ne {piece : Option Char} {pieces : List (Option Char)}
    (h : (piece :: pieces).getLast? ≠ some none) : pieces.getLast? ≠ some none := by
  intro hlast
  rw [List.getLast?_cons, hlast] at h
  exact h rfl

/-- A text that ends with a gap may end inside of a character, which what follows would complete. -/
theorem scanFrom_append {state : Option Pending} {front : Bytes}
    (h : (scanFrom state front).getLast? ≠ some none) (back : Bytes) :
    scanFrom state (front ++ back) = scanFrom state front ++ scanFrom none back := by
  induction front generalizing state with
  | nil =>
    cases state with
    | none => rfl
    | some p => exact absurd rfl h
  | cons b front ih =>
    have hnone (h : (scanFrom none (b :: front)).getLast? ≠ some none) :
        scanFrom none (b :: front ++ back) = scanFrom none (b :: front) ++ scanFrom none back := by
      rw [scanFrom_none_cons] at h
      rw [List.cons_append, scanFrom_none_cons, scanFrom_none_cons]
      generalize lead b = l at h
      cases l with
      | char c => exact congrArg (some c :: ·) (ih (getLast?_tail_ne h))
      | begins p => exact ih h
      | invalid => exact congrArg (none :: ·) (ih (getLast?_tail_ne h))
    cases state with
    | none => exact hnone h
    | some p =>
      rw [scanFrom_some_cons] at h
      rw [List.cons_append, scanFrom_some_cons, scanFrom_some_cons]
      split
      · rename_i hrange
        rw [if_pos hrange] at h
        split
        · rename_i hmore
          rw [if_pos hmore] at h
          exact congrArg (_ :: ·) (ih (getLast?_tail_ne h))
        · rename_i hmore
          rw [if_neg hmore] at h
          exact ih h
      · rename_i hrange
        rw [if_neg hrange] at h
        exact congrArg (none :: ·) (hnone (getLast?_tail_ne h))

/-- What has begun ends as a character from 128 on, if it ends as one. -/
def Pending.Wide (p : Pending) : Prop :=
  2 ≤ p.bits ∨ (2 ≤ p.more ∧ (1 ≤ p.bits ∨ (0x90 ≤ p.low ∧ p.high ≤ 0xBF)))

def Narrow (piece : Option Char) : Prop := ∃ c, piece = some c ∧ 0 < c.toNat ∧ c.toNat < 0x80

theorem lead_cases (b : UInt8) : (b.toNat < 0x80 ∧ lead b = .char (Char.ofNat b.toNat)) ∨
    (∃ p, p.Wide ∧ lead b = .begins p) ∨ lead b = .invalid := by
  have hbyte : b.toNat < 256 := b.toNat_lt
  have hbegins {p : Pending} (hwide : p.Wide) : (∃ q, q.Wide ∧ Lead.begins p = .begins q) ∨
      Lead.begins p = .invalid := .inl ⟨p, hwide, rfl⟩
  unfold lead
  dsimp only
  split
  · exact .inl ⟨‹_›, rfl⟩
  refine .inr ?_
  repeat' split
  all_goals first
    | exact .inr rfl
    | exact hbegins (by simp only [Pending.Wide]; omega)

theorem not_narrow_ofNat {n : Nat} (h : 0x80 ≤ n) : ¬ Narrow (some (Char.ofNat n)) := by
  rintro ⟨c, hc, hpos, hlow⟩
  obtain rfl := Option.some.inj hc
  by_cases hvalid : n.isValidChar
  · have hof : Char.ofNat n = Char.ofNatAux n hvalid := dif_pos hvalid
    rw [hof] at hlow
    exact Nat.not_lt.mpr h hlow
  · have hof : Char.ofNat n = Char.ofNat 0 := dif_neg hvalid
    rw [hof] at hpos
    exact absurd hpos (by decide)

theorem Pending.Wide.head {p : Pending} (h : p.Wide) (bs : Bytes) :
    ∃ piece rest, scanFrom (some p) bs = piece :: rest ∧ ¬ Narrow piece := by
  have hgap : ¬ Narrow none := by
    rintro ⟨c, hc, _⟩
    cases hc
  induction bs generalizing p with
  | nil => exact ⟨none, [], rfl, hgap⟩
  | cons b bs ih =>
    rw [scanFrom_some_cons]
    split
    · rename_i hrange
      split
      · rename_i hmore
        refine ⟨_, _, rfl, not_narrow_ofNat ?_⟩
        unfold Wide at h
        omega
      · refine ih ?_
        unfold Wide at h ⊢
        dsimp only
        omega
    · exact ⟨none, _, rfl, hgap⟩

theorem scan_eq_map_of_narrow {bs : Bytes} (h : ∀ piece ∈ scan bs, Narrow piece) :
    scan bs = bs.map fun b => some (Char.ofNat b.toNat) := by
  induction bs with
  | nil => rfl
  | cons b bs ih =>
    rw [scan, scanFrom_none_cons] at h ⊢
    rcases lead_cases b with ⟨_, hlead⟩ | ⟨p, hwide, hlead⟩ | hlead
    · rw [hlead] at h ⊢
      exact congrArg (_ :: ·) (ih fun piece hpiece => h piece (.tail _ hpiece))
    · rw [hlead] at h
      obtain ⟨piece, rest, hscan, hpiece⟩ := hwide.head bs
      exact absurd (h piece (by simp [hscan])) hpiece
    · rw [hlead] at h
      obtain ⟨c, hc, _⟩ := h none (.head _)
      cases hc

theorem scan_of_lt {bs : Bytes} (h : ∀ b ∈ bs, b.toNat < 0x80) :
    scan bs = bs.map fun b => some (Char.ofNat b.toNat) := by
  induction bs with
  | nil => rfl
  | cons b bs ih =>
    obtain ⟨hb, hbs⟩ := List.forall_mem_cons.mp h
    rw [scan, scanFrom_none_cons, lead, if_pos hb]
    exact congrArg (_ :: ·) (ih hbs)

end AuthCore.Text.Utf8
