import AuthCore.Asn1.Der

/-!
RSA keys and their arithmetic. A private key is accepted when its numbers fit together; the
primality of its factors is not tested.
-/

set_option autoImplicit false

namespace AuthCore.Rsa

structure PublicKey where
  n : Nat
  e : Nat
deriving DecidableEq

namespace PublicKey

/-- The bytes that hold a number, at least one and the first not zero unless it is the only one. -/
def minimalBytes (n : Nat) : Bytes := Digest.Words.bigEndian (n.log2 / 8 + 1) n

def size (k : PublicKey) : Nat := if k.n = 0 then 0 else k.n.log2 / 8 + 1

/-- One more than the greatest exponent. -/
def exponentLimit : Nat := 0x200000000

def Valid (k : PublicKey) : Prop :=
  k.n % 2 = 1 ∧ k.e % 2 = 1 ∧ 3 ≤ k.e ∧ k.e < exponentLimit ∧ k.e < k.n

instance (k : PublicKey) : Decidable k.Valid := by unfold Valid; infer_instance

end PublicKey

structure PrivateKey where
  publicKey : PublicKey
  d : Nat
  p : Nat
  q : Nat
deriving DecidableEq

namespace PrivateKey

def Valid (k : PrivateKey) : Prop :=
  k.publicKey.Valid ∧ k.publicKey.n = k.p * k.q ∧ 1 < k.p ∧ 1 < k.q ∧
    k.d * k.publicKey.e % (k.p - 1) = 1 % (k.p - 1) ∧
    k.d * k.publicKey.e % (k.q - 1) = 1 % (k.q - 1)

instance (k : PrivateKey) : Decidable k.Valid := by unfold Valid; infer_instance

/-- Whether the key can be stored with the coefficient that joins results modulo its factors. -/
def encodable (k : PrivateKey) : Bool := Nat.gcd k.p k.q == 1

end PrivateKey

/-- `b ^ e` modulo `m`, one step for each bit of the exponent. -/
def powModFrom (m : Nat) : (bits : Nat) → (result b e : Nat) → Nat
  | 0, result, _, _ => result
  | bits + 1, result, b, e =>
    powModFrom m bits (if e % 2 = 1 then result * b % m else result) (b * b % m) (e / 2)

def powMod (b e m : Nat) : Nat := powModFrom m (e.log2 + 1) (1 % m) (b % m) e

/-- The steps of Euclid's algorithm on `(r, s)`, where `r` and `s` are `x * a` and `y * a` modulo
`m`. -/
def inverseFrom (m : Nat) : (fuel : Nat) → (r s : Nat) → (x y : Int) → Nat
  | 0, _, _, x, _ => (x % m).toNat
  | fuel + 1, r, s, x, y =>
    if s = 0 then (x % m).toNat else inverseFrom m fuel s (r % s) y (x - (r / s : Nat) * y)

def inverse (a m : Nat) : Nat := inverseFrom m (2 * m.log2 + 4) m (a % m) 0 1

end AuthCore.Rsa
