import AuthCore.Rsa.Key
import Mathlib.Data.Int.ModEq
import Mathlib.FieldTheory.Finite.Basic

set_option autoImplicit false

namespace AuthCore.Rsa

/-- The steps multiply `result` by the power that is left. -/
theorem powModFrom_eq (m : Nat) {bits result : Nat} (hresult : result % m = result) (b : Nat)
    {e : Nat} (he : e < 2 ^ bits) : powModFrom m bits result b e = result * b ^ e % m := by
  induction bits generalizing result b e with
  | zero =>
    have hzero : e = 0 := by simpa using he
    rw [powModFrom, hzero, pow_zero, mul_one, hresult]
  | succ bits ih =>
    have hhalf : e / 2 < 2 ^ bits := by
      rw [pow_succ] at he
      omega
    have hsquare : (b * b % m) ^ (e / 2) ≡ b ^ (2 * (e / 2)) [MOD m] := by
      rw [pow_mul, pow_two]
      exact (Nat.mod_modEq _ _).pow _
    rw [powModFrom]
    by_cases hodd : e % 2 = 1
    · have hsplit : result * b ^ e = result * b * b ^ (2 * (e / 2)) := by
        rw [mul_assoc, ← pow_succ']
        congr 2
        omega
      rw [if_pos hodd, ih (Nat.mod_mod _ _) _ hhalf, hsplit]
      exact (Nat.mod_modEq _ _).mul hsquare
    · have heven : 2 * (e / 2) = e := by omega
      rw [if_neg hodd, ih hresult _ hhalf]
      rw [heven] at hsquare
      exact hsquare.mul_left _

theorem powMod_eq (b e m : Nat) : powMod b e m = b ^ e % m := by
  have hstart : 1 % m * (b % m) ^ e ≡ 1 * b ^ e [MOD m] :=
    (Nat.mod_modEq _ _).mul ((Nat.mod_modEq _ _).pow _)
  rw [powMod, powModFrom_eq m (Nat.mod_mod _ _) _ Nat.lt_log2_self, ← one_mul (b ^ e)]
  exact hstart

theorem powMod_modEq (b e m : Nat) : powMod b e m ≡ b ^ e [MOD m] := by
  rw [powMod_eq]
  exact Nat.mod_modEq _ _

theorem toNat_emod_modEq {m : Nat} (hm : 0 < m) (x : Int) : ((x % m).toNat : Int) ≡ x [ZMOD m] := by
  rw [Int.toNat_of_nonneg (Int.emod_nonneg x (by omega))]
  exact Int.mod_modEq x m

/-- Two steps of Euclid's algorithm halve the second number. -/
theorem mod_mod_lt {r s k : Nat} (hs : s < 2 ^ (k + 1)) (hr : r % s ≠ 0) :
    s % (r % s) < 2 ^ k := by
  rcases Nat.eq_zero_or_pos s with rfl | hpos
  · simp
  have hlt : s % (r % s) < r % s := Nat.mod_lt _ (Nat.pos_of_ne_zero hr)
  have hquot : 1 ≤ s / (r % s) := Nat.div_pos (Nat.mod_lt _ hpos).le (Nat.pos_of_ne_zero hr)
  have hsum : r % s + s % (r % s) ≤ s := by
    calc r % s + s % (r % s) ≤ r % s * (s / (r % s)) + s % (r % s) :=
          Nat.add_le_add_right (Nat.le_mul_of_pos_right _ hquot) _
      _ = s := Nat.div_add_mod _ _
  rw [pow_succ] at hs
  omega

/-- Euclid's algorithm has come to `(r, s)`, which are `x * a` and `y * a` modulo `m`. -/
structure Reached (a m r s : Nat) (x y : Int) : Prop where
  first : (r : Int) ≡ x * a [ZMOD m]
  second : (s : Int) ≡ y * a [ZMOD m]

theorem Reached.start (a m : Nat) : Reached a m m (a % m) 0 1 where
  first := by simp [Int.ModEq]
  second := by simp [Int.ModEq]

theorem Reached.step {a m r s : Nat} {x y : Int} (h : Reached a m r s x y) :
    Reached a m s (r % s) y (x - (r / s : Nat) * y) where
  first := h.second
  second := by
    have hrest : ((r % s : Nat) : Int) = r - (r / s : Nat) * s := by
      rw [Int.natCast_mod, Int.emod_def, Int.natCast_div, mul_comm]
    rw [hrest, sub_mul, mul_assoc]
    exact h.first.sub (h.second.mul_left _)

theorem inverseFrom_zero (m fuel r : Nat) (x y : Int) :
    inverseFrom m fuel r 0 x y = (x % m).toNat := by
  cases fuel <;> simp [inverseFrom]

theorem inverseFrom_step (m fuel r : Nat) {s : Nat} (hs : s ≠ 0) (x y : Int) :
    inverseFrom m (fuel + 1) r s x y =
      inverseFrom m fuel s (r % s) y (x - (r / s : Nat) * y) := by
  rw [inverseFrom, if_neg hs]

theorem gcd_step (r s : Nat) : Nat.gcd r s = Nat.gcd s (r % s) := by
  rw [Nat.gcd_comm r s, Nat.gcd_rec, Nat.gcd_comm]

/-- With fuel for all steps, the coefficient of the greatest common divisor comes out. -/
theorem inverseFrom_mul {a m : Nat} (hm : 0 < m) {k fuel r s : Nat} {x y : Int}
    (h : Reached a m r s x y) (hs : s < 2 ^ k) (hfuel : 2 * k ≤ fuel) :
    (inverseFrom m fuel r s x y : Int) * a ≡ Nat.gcd r s [ZMOD m] := by
  have hlast {r fuel : Nat} {x y : Int} (h : Reached a m r 0 x y) :
      (inverseFrom m fuel r 0 x y : Int) * a ≡ Nat.gcd r 0 [ZMOD m] := by
    rw [inverseFrom_zero, Nat.gcd_zero_right]
    exact ((toNat_emod_modEq hm x).mul_right _).trans h.first.symm
  induction k generalizing fuel r s x y with
  | zero =>
    obtain rfl : s = 0 := by simpa using hs
    exact hlast h
  | succ k ih =>
    by_cases hzero : s = 0
    · subst hzero
      exact hlast h
    obtain ⟨fuel, rfl⟩ : ∃ f, fuel = f + 2 := ⟨fuel - 2, by omega⟩
    rw [inverseFrom_step m (fuel + 1) r hzero, gcd_step]
    have hnext := h.step
    by_cases hrest : r % s = 0
    · rw [hrest] at hnext ⊢
      exact hlast hnext
    · rw [inverseFrom_step m fuel s hrest, gcd_step]
      exact ih hnext.step (mod_mod_lt hs hrest) (by omega)

theorem inverse_mul {a m : Nat} (hm : 0 < m) (hcoprime : Nat.Coprime a m) :
    (inverse a m : Int) * a ≡ 1 [ZMOD m] := by
  have hlog : a % m < 2 ^ (m.log2 + 1) := (Nat.mod_lt a hm).trans Nat.lt_log2_self
  have hgcd : Nat.gcd m (a % m) = 1 := by
    rw [← gcd_step]
    exact hcoprime
  have hmul := inverseFrom_mul hm (Reached.start a m) hlog
    (show 2 * (m.log2 + 1) ≤ 2 * m.log2 + 4 by omega)
  rwa [hgcd] at hmul

/-- Powers with an exponent that is one modulo `p - 1` change nothing modulo a prime `p`. -/
theorem pow_modEq_self {p k : Nat} (hp : p.Prime) (hpos : 0 < k) (hk : k ≡ 1 [MOD p - 1])
    (m : Nat) : m ^ k ≡ m [MOD p] := by
  by_cases hdvd : p ∣ m
  · have hzero : m ≡ 0 [MOD p] := (Nat.modEq_zero_iff_dvd).mpr hdvd
    have hpow : m ^ k ≡ 0 [MOD p] := (Nat.modEq_zero_iff_dvd).mpr (dvd_pow hdvd hpos.ne')
    exact hpow.trans hzero.symm
  obtain ⟨j, hj⟩ := (Nat.modEq_iff_dvd' hpos).mp hk.symm
  have hexponent : k = (p - 1) * j + 1 := by omega
  have hfermat : m ^ (p - 1) ≡ 1 [MOD p] := by
    have hcoprime : Nat.Coprime m p := ((Nat.Prime.coprime_iff_not_dvd hp).mpr hdvd).symm
    simpa [Nat.totient_prime hp] using Nat.ModEq.pow_totient hcoprime
  calc m ^ k = (m ^ (p - 1)) ^ j * m := by rw [hexponent, pow_succ, pow_mul]
    _ ≡ 1 ^ j * m [MOD p] := (hfermat.pow j).mul_right m
    _ = m := by rw [one_pow, one_mul]

end AuthCore.Rsa
