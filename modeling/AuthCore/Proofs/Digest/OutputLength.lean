import AuthCore.Digest.Argon2

set_option autoImplicit false

namespace AuthCore.Digest

theorem Words.length_littleEndian64 (x : UInt64) : (littleEndian64 x).length = 8 := by
  simp [littleEndian64, littleEndian32]

theorem Blake2b.length_digest {length : Nat} (h : length ≤ 64) (message : Bytes) :
    (digest length message).length = length := by
  simp [digest, Words.length_littleEndian64, h]

namespace Argon2

theorem length_extend {rounds left : Nat} (hlow : 32 * rounds ≤ left)
    (hhigh : left ≤ 32 * rounds + 64) (v : Bytes) : (extend rounds left v).length = left := by
  induction rounds generalizing left v with
  | zero => exact Blake2b.length_digest (by omega) v
  | succ rounds ih =>
    have hnext : (Blake2b.digest 64 v).length = 64 := Blake2b.length_digest (Nat.le_refl 64) v
    rw [extend, List.length_append, List.length_take, hnext, ih (by omega) (by omega)]
    omega

theorem length_longDigest (length : Nat) (message : Bytes) :
    (longDigest length message).length = length := by
  unfold longDigest
  dsimp only
  split
  · rename_i hshort
    exact Blake2b.length_digest hshort _
  · rename_i hlong
    have hfirst (input : Bytes) : (Blake2b.digest 64 input).length = 64 :=
      Blake2b.length_digest (Nat.le_refl 64) input
    rw [List.length_append, List.length_take, hfirst, length_extend (by omega) (by omega)]
    omega

theorem length_derive (c : Costs) (length : Nat) (secret salt password : Bytes) :
    (derive c length secret salt password).length = length :=
  length_longDigest length _

end Argon2

end AuthCore.Digest
