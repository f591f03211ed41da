import AuthCore.Digest.Sha2
import AuthCore.Rsa.Key
import Mathlib.Algebra.Ring.Nat
import Mathlib.Data.List.Induction

set_option autoImplicit false

namespace AuthCore.Digest

namespace Words

theorem length_littleEndian (size n : Nat) : (littleEndian size n).length = size := by
  induction size generalizing n with
  | zero => rfl
  | succ size ih => rw [littleEndian, List.length_cons, ih]

theorem length_bigEndian (size n : Nat) : (bigEndian size n).length = size := by
  rw [bigEndian, List.length_reverse, length_littleEndian]

theorem ofBytes_append_singleton (bs : Bytes) (b : UInt8) :
    ofBytes (bs ++ [b]) = ofBytes bs * 256 + b.toNat := by
  simp [ofBytes]

theorem bigEndian_succ (size n : Nat) :
    bigEndian (size + 1) n = bigEndian size (n / 256) ++ [UInt8.ofNat n] := by
  rw [bigEndian, littleEndian, List.reverse_cons, ← bigEndian]

theorem ofBytes_bigEndian {size n : Nat} (h : n < 256 ^ size) : ofBytes (bigEndian size n) = n := by
  induction size generalizing n with
  | zero =>
    rw [Nat.pow_zero] at h
    rw [Nat.lt_one_iff.mp h]
    rfl
  | succ size ih =>
    have hrest : n / 256 < 256 ^ size := by
      rw [Nat.pow_succ] at h
      exact Nat.div_lt_of_lt_mul (by omega)
    rw [bigEndian_succ, ofBytes_append_singleton, ih hrest, UInt8.toNat_ofNat']
    omega

theorem bigEndian_ofBytes (bs : Bytes) : bigEndian bs.length (ofBytes bs) = bs := by
  induction bs using List.reverseRecOn with
  | nil => rfl
  | append_singleton bs b ih =>
    have hb : b.toNat < 256 := b.toNat_lt
    have hrest : (ofBytes bs * 256 + b.toNat) / 256 = ofBytes bs := by omega
    have hlast : UInt8.ofNat (ofBytes bs * 256 + b.toNat) = b := by
      apply UInt8.toNat_inj.mp
      rw [UInt8.toNat_ofNat']
      omega
    rw [List.length_append, List.length_singleton, ofBytes_append_singleton, bigEndian_succ, hrest,
      hlast, ih]

theorem ofBytes_lt (bs : Bytes) : ofBytes bs < 256 ^ bs.length := by
  induction bs using List.reverseRecOn with
  | nil => exact Nat.one_pos
  | append_singleton bs b ih =>
    have hb : b.toNat < 256 := b.toNat_lt
    rw [ofBytes_append_singleton, List.length_append, List.length_singleton, Nat.pow_succ]
    omega

theorem ofBytes_zero_cons (bs : Bytes) : ofBytes (0 :: bs) = ofBytes bs := by
  simp [ofBytes]

theorem pow_le_ofBytes_cons {b : UInt8} (hb : b ≠ 0) (bs : Bytes) :
    256 ^ bs.length ≤ ofBytes (b :: bs) := by
  induction bs using List.reverseRecOn with
  | nil =>
    have hpos : b.toNat ≠ 0 := fun h => hb (UInt8.toNat_inj.mp h)
    simp only [ofBytes, List.foldl_cons, List.foldl_nil, List.length_nil, Nat.pow_zero]
    omega
  | append_singleton bs c ih =>
    rw [← List.cons_append, ofBytes_append_singleton, List.length_append, List.length_singleton,
      Nat.pow_succ]
    omega

/-- The bytes of a number, the highest first, with none in front that says nothing. -/
structure Minimal (n : Nat) (bs : Bytes) : Prop where
  value : ofBytes bs = n
  head : bs.head? ≠ some 0

theorem Minimal.length_le {n : Nat} {bs other : Bytes} (h : Minimal n bs)
    (hother : ofBytes other = n) : bs.length ≤ other.length := by
  cases bs with
  | nil => exact Nat.zero_le _
  | cons b bs =>
    have hb : b ≠ 0 := fun hzero => h.head (congrArg some hzero)
    have hlow := pow_le_ofBytes_cons hb bs
    have hhigh := ofBytes_lt other
    rw [h.value, ← hother] at hlow
    have hpow : 256 ^ bs.length < 256 ^ other.length := Nat.lt_of_le_of_lt hlow hhigh
    exact (Nat.pow_lt_pow_iff_right (by decide)).mp hpow

theorem Minimal.unique {n : Nat} {bs other : Bytes} (h : Minimal n bs) (h' : Minimal n other) :
    bs = other := by
  have hlength : bs.length = other.length :=
    Nat.le_antisymm (h.length_le h'.value) (h'.length_le h.value)
  calc bs = bigEndian bs.length (ofBytes bs) := (bigEndian_ofBytes bs).symm
    _ = bigEndian other.length (ofBytes other) := by rw [hlength, h.value, h'.value]
    _ = other := bigEndian_ofBytes other

end Words

namespace Sha2

theorem length_bytes (s : State UInt32) : s.bytes.length = 32 := by
  rfl

end Sha2

theorem length_sha256 (message : Bytes) : (sha256.run message).length = 32 := by
  change (List.take 32 (Sha2.State.bytes _)).length = 32
  rw [List.length_take, Sha2.length_bytes, Nat.min_self]

end AuthCore.Digest

namespace AuthCore.Rsa.PublicKey

open Digest.Words

theorem pow_log2_le {n : Nat} (h : n ≠ 0) :
    256 ^ (n.log2 / 8) ≤ n ∧ n < 256 ^ (n.log2 / 8 + 1) := by
  have hbase (k : Nat) : 256 ^ k = 2 ^ (8 * k) := by rw [Nat.pow_mul]
  rw [hbase, hbase]
  constructor
  · calc 2 ^ (8 * (n.log2 / 8)) ≤ 2 ^ n.log2 := Nat.pow_le_pow_right (by decide) (by omega)
      _ ≤ n := Nat.log2_self_le h
  · calc n < 2 ^ (n.log2 + 1) := Nat.lt_log2_self
      _ ≤ 2 ^ (8 * (n.log2 / 8 + 1)) := Nat.pow_le_pow_right (by decide) (by omega)

theorem ofBytes_minimalBytes (n : Nat) : ofBytes (minimalBytes n) = n := by
  by_cases h : n = 0
  · subst h
    rfl
  · exact ofBytes_bigEndian (pow_log2_le h).2

theorem minimal_minimalBytes {n : Nat} (h : n ≠ 0) : Minimal n (minimalBytes n) := by
  refine ⟨ofBytes_minimalBytes n, fun hhead => ?_⟩
  obtain ⟨rest, hbytes⟩ := List.head?_eq_some_iff.mp hhead
  have hlength : rest.length + 1 = n.log2 / 8 + 1 := by
    rw [← List.length_cons, ← hbytes, minimalBytes, length_bigEndian]
  have hsmall : n < 256 ^ rest.length := by
    rw [← ofBytes_minimalBytes n, hbytes, ofBytes_zero_cons]
    exact ofBytes_lt rest
  rw [Nat.add_right_cancel hlength] at hsmall
  exact Nat.not_lt.mpr (pow_log2_le h).1 hsmall

theorem pow_size_le {k : PublicKey} (h : k.n ≠ 0) :
    256 ^ (k.size - 1) ≤ k.n ∧ k.n < 256 ^ k.size := by
  rw [size, if_neg h, Nat.add_sub_cancel]
  exact pow_log2_le h

end AuthCore.Rsa.PublicKey
