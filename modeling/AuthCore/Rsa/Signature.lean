import AuthCore.Digest.Sha2
import AuthCore.Rsa.Key

set_option autoImplicit false

namespace AuthCore.Rsa

/-- The fixed bytes in front of a SHA-256 digest. -/
def digestInfo : Bytes :=
  [0x30, 0x31, 0x30, 0x0D, 0x06, 0x09, 0x60, 0x86, 0x48, 0x01, 0x65, 0x03, 0x04, 0x02, 0x01, 0x05,
    0x00, 0x04, 0x20]

def padded? (size : Nat) (digest : Bytes) : Option Bytes :=
  let body := digestInfo ++ digest
  if body.length + 11 ≤ size then
    some (0x00 :: 0x01 :: (List.replicate (size - body.length - 3) 0xFF ++ 0x00 :: body))
  else none

def PrivateKey.apply (k : PrivateKey) (m : Nat) : Nat :=
  let x := powMod m (k.d % (k.p - 1)) k.p
  let y := powMod m (k.d % (k.q - 1)) k.q
  let h := ((x : Int) - y) * inverse k.q k.p % k.p
  h.toNat * k.q + y

/-- The signature of a message. A key too small for the padding gives none. -/
def PrivateKey.sign? (k : PrivateKey) (message : Bytes) : Option Bytes := do
  let size := k.publicKey.size
  let block ← padded? size (Digest.sha256.run message)
  let m := Digest.Words.ofBytes block
  let s := k.apply m
  if powMod s k.publicKey.e k.publicKey.n = m then return Digest.Words.bigEndian size s else none

def PublicKey.verify (k : PublicKey) (message signature : Bytes) : Bool :=
  signature.length == k.size &&
    padded? k.size (Digest.sha256.run message) ==
      some (Digest.Words.bigEndian k.size (powMod (Digest.Words.ofBytes signature) k.e k.n))

end AuthCore.Rsa
