import AuthCore.Proofs.Digest.NumberBytes
import AuthCore.Proofs.Rsa.Arithmetic
import AuthCore.Rsa.Signature

set_option autoImplicit false

namespace AuthCore.Rsa

open Digest.Words

/-- The least size of a modulus that has room for a padded digest: 62 bytes. -/
def leastSize : Nat := digestInfo.length + 32 + 11

theorem padded?_eq_some {size : Nat} {digest block : Bytes} (h : padded? size digest = some block) :
    block.length = size ∧ ∃ rest, block = 0 :: rest := by
  unfold padded? at h
  dsimp only at h
  split at h
  · rename_i hroom
    cases h
    refine ⟨?_, _, rfl⟩
    simp only [List.length_cons, List.length_append, List.length_replicate] at hroom ⊢
    omega
  · cases h

theorem padded?_isSome_iff {size : Nat} (message : Bytes) :
    (padded? size (Digest.sha256.run message)).isSome ↔ leastSize ≤ size := by
  have hlength : (digestInfo ++ Digest.sha256.run message).length + 11 = leastSize := by
    rw [List.length_append, Digest.length_sha256, leastSize]
  unfold padded?
  dsimp only
  rw [hlength]
  split <;> simp [*]

/-- A padded digest is less than the modulus: its first byte is zero. -/
theorem ofBytes_padded_lt {k : PublicKey} (hn : k.n ≠ 0) {digest block : Bytes}
    (h : padded? k.size digest = some block) : ofBytes block < k.n := by
  obtain ⟨hlength, rest, rfl⟩ := padded?_eq_some h
  have hrest : rest.length = k.size - 1 := by
    rw [List.length_cons] at hlength
    omega
  calc ofBytes (0 :: rest) = ofBytes rest := ofBytes_zero_cons rest
    _ < 256 ^ rest.length := ofBytes_lt rest
    _ = 256 ^ (k.size - 1) := by rw [hrest]
    _ ≤ k.n := (PublicKey.pow_size_le hn).1

namespace PrivateKey

variable {k : PrivateKey}

theorem Valid.n_ne_zero (h : k.Valid) : k.publicKey.n ≠ 0 := by
  intro hzero
  have hodd := h.1.1
  omega

theorem apply_lt (h : k.Valid) (m : Nat) : k.apply m < k.publicKey.n := by
  obtain ⟨-, hn, hp, hq, -, -⟩ := h
  have hp' : (0 : Int) < k.p := by omega
  generalize hx : ((powMod m (k.d % (k.p - 1)) k.p : Int) - powMod m (k.d % (k.q - 1)) k.q) *
    inverse k.q k.p = x
  have hquotient : (x % k.p).toNat < k.p := by
    have := Int.emod_lt_of_pos x hp'
    omega
  have hrest : powMod m (k.d % (k.q - 1)) k.q < k.q := by
    rw [powMod_eq]
    exact Nat.mod_lt _ (by omega)
  rw [hn, apply, hx]
  calc (x % k.p).toNat * k.q + powMod m (k.d % (k.q - 1)) k.q
      < (x % k.p).toNat * k.q + k.q := Nat.add_lt_add_left hrest _
    _ = ((x % k.p).toNat + 1) * k.q := by rw [Nat.add_mul, Nat.one_mul]
    _ ≤ k.p * k.q := Nat.mul_le_mul_right _ hquotient

theorem apply_modEq_q (m : Nat) :
    k.apply m ≡ m ^ (k.d % (k.q - 1)) [MOD k.q] := by
  have hmultiple (x y : Nat) : x * k.q + y ≡ y [MOD k.q] := by
    rw [Nat.ModEq, Nat.mul_add_mod_self_right]
  exact (hmultiple _ _).trans (powMod_modEq m (k.d % (k.q - 1)) k.q)

theorem apply_modEq_p (hp : 0 < k.p) (hencodable : k.encodable = true) (m : Nat) :
    k.apply m ≡ m ^ (k.d % (k.p - 1)) [MOD k.p] := by
  have hcoprime : Nat.Coprime k.q k.p := by
    rw [encodable, beq_iff_eq] at hencodable
    exact Nat.Coprime.symm hencodable
  refine Nat.ModEq.trans ?_ (powMod_modEq _ _ _)
  unfold apply
  generalize powMod m (k.d % (k.p - 1)) k.p = x
  generalize powMod m (k.d % (k.q - 1)) k.q = y
  rw [← Int.natCast_modEq_iff]
  push_cast
  calc ((((x : Int) - y) * inverse k.q k.p % k.p).toNat : Int) * k.q + y
      ≡ ((x : Int) - y) * inverse k.q k.p * k.q + y [ZMOD k.p] :=
        ((toNat_emod_modEq hp _).mul_right _).add_right _
    _ = ((x : Int) - y) * (inverse k.q k.p * k.q) + y := by rw [mul_assoc]
    _ ≡ ((x : Int) - y) * 1 + y [ZMOD k.p] := ((inverse_mul hp hcoprime).mul_left _).add_right _
    _ = x := by rw [mul_one, sub_add_cancel]

/-- Modulo an odd prime factor the two exponents undo each other. -/
theorem pow_pow_modEq {p d e : Nat} (hp : p.Prime) (hodd : p % 2 = 1)
    (hd : d * e % (p - 1) = 1 % (p - 1)) (m : Nat) : (m ^ (d % (p - 1))) ^ e ≡ m [MOD p] := by
  have hleast : 2 ≤ p - 1 := by
    have := hp.two_le
    omega
  have hone : d % (p - 1) * e ≡ 1 [MOD p - 1] := ((Nat.mod_modEq _ _).mul_right e).trans hd
  have hpos : 0 < d % (p - 1) * e := by
    rcases Nat.eq_zero_or_pos (d % (p - 1) * e) with hzero | hpos
    · rw [hzero] at hone
      have hdvd := Nat.le_of_dvd Nat.one_pos (Nat.modEq_zero_iff_dvd.mp hone.symm)
      omega
    · exact hpos
  rw [← pow_mul]
  exact pow_modEq_self hp hpos hone m

theorem apply_pow_mod (h : k.Valid) (hencodable : k.encodable = true) (hp : k.p.Prime)
    (hq : k.q.Prime) {m : Nat} (hm : m < k.publicKey.n) :
    powMod (k.apply m) k.publicKey.e k.publicKey.n = m := by
  obtain ⟨⟨hodd, -, -, -, -⟩, hn, -, -, hdp, hdq⟩ := h
  have hfactors : k.p % 2 = 1 ∧ k.q % 2 = 1 := by
    rwa [hn, ← Nat.odd_iff, Nat.odd_mul, Nat.odd_iff, Nat.odd_iff] at hodd
  have hmodP : k.apply m ^ k.publicKey.e ≡ m [MOD k.p] :=
    ((apply_modEq_p hp.pos hencodable m).pow _).trans
      (pow_pow_modEq hp hfactors.1 hdp m)
  have hmodQ : k.apply m ^ k.publicKey.e ≡ m [MOD k.q] :=
    ((apply_modEq_q m).pow _).trans (pow_pow_modEq hq hfactors.2 hdq m)
  have hcoprime : Nat.Coprime k.p k.q := by simpa [encodable] using hencodable
  have hmod : k.apply m ^ k.publicKey.e ≡ m [MOD k.p * k.q] :=
    (Nat.modEq_and_modEq_iff_modEq_mul hcoprime).mp ⟨hmodP, hmodQ⟩
  rw [powMod_eq, hn, hmod, Nat.mod_eq_of_lt (hn ▸ hm)]

theorem sign?_eq_some_iff {message signature : Bytes} : k.sign? message = some signature ↔
    ∃ block, padded? k.publicKey.size (Digest.sha256.run message) = some block ∧
      powMod (k.apply (ofBytes block)) k.publicKey.e k.publicKey.n = ofBytes block ∧
      signature = bigEndian k.publicKey.size (k.apply (ofBytes block)) := by
  simp only [sign?, Option.bind_eq_bind, Option.bind_eq_some_iff]
  refine exists_congr fun block => and_congr_right fun _ => ?_
  split
  · rename_i hcheck
    simp [hcheck, eq_comm]
  · rename_i hcheck
    simp [hcheck]

theorem verify_of_sign? (h : k.Valid) {message signature : Bytes}
    (hsign : k.sign? message = some signature) :
    k.publicKey.verify message signature = true := by
  obtain ⟨block, hblock, hcheck, rfl⟩ := sign?_eq_some_iff.mp hsign
  have hbound := (apply_lt h (ofBytes block)).trans (PublicKey.pow_size_le h.n_ne_zero).2
  have hlength : block.length = k.publicKey.size := (padded?_eq_some hblock).1
  have hback : bigEndian k.publicKey.size (ofBytes block) = block := by
    rw [← hlength, bigEndian_ofBytes]
  simp [PublicKey.verify, length_bigEndian, hblock, ofBytes_bigEndian hbound, hcheck, hback]

theorem leastSize_le_of_sign? {message signature : Bytes}
    (hsign : k.sign? message = some signature) : leastSize ≤ k.publicKey.size := by
  obtain ⟨block, hblock, -⟩ := sign?_eq_some_iff.mp hsign
  exact (padded?_isSome_iff message).mp (Option.isSome_of_eq_some hblock)

/-- A key of prime factors with room for the padding signs every message. -/
theorem exists_sign? (h : k.Valid) (hencodable : k.encodable = true) (hp : k.p.Prime)
    (hq : k.q.Prime) (hsize : leastSize ≤ k.publicKey.size) (message : Bytes) :
    ∃ signature, k.sign? message = some signature := by
  obtain ⟨block, hblock⟩ := Option.isSome_iff_exists.mp ((padded?_isSome_iff message).mpr hsize)
  have hcheck := apply_pow_mod h hencodable hp hq (ofBytes_padded_lt h.n_ne_zero hblock)
  exact ⟨_, sign?_eq_some_iff.mpr ⟨block, hblock, hcheck, rfl⟩⟩

end PrivateKey

end AuthCore.Rsa
