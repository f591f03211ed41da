import AuthCore.Digest.Argon2
import AuthCore.Password.Encoded
import AuthCore.Password.Secret

/-!
Hashing passwords and checking candidates against stored hashes. A candidate is accepted when
hashing it again under the stored salt gives the stored text, character for character.
-/

set_option autoImplicit false

namespace AuthCore.Password

/-- A keyed digest of a password: costs, length, secret, salt and password. -/
abbrev Kdf := Cost → Nat → (secret salt password : Bytes) → Bytes

def argon2id : Kdf := fun c length secret salt password =>
  Digest.Argon2.derive ⟨c.memory.toNat, c.time.toNat, c.lanes.toNat⟩ length secret salt password

inductive Verification where
  | success
  | failed
deriving DecidableEq

def Verification.isSuccess : Verification → Bool
  | success => true
  | failed => false

structure Hasher where
  params : Params
  kdf : Kdf := argon2id
  slots : Nat

def leastSalt : Nat := 8

namespace Hasher

def new (params : Params) (maxConcurrent : Nat) : Hasher :=
  { params := params, slots := max 1 maxConcurrent }

/-- The digest under the secret. A secret that cannot be had is reported first, then parameters
that cannot be used, then a salt that is too short. -/
def derive (h : Hasher) (secret : Except Failure Bytes) (salt password : Bytes) :
    Except Failure Bytes := do
  let key ← secret
  h.params.check
  if salt.length < leastSalt then .error (.hashing .saltTooShort)
  else .ok (h.kdf h.params.cost h.params.outputLength key salt password)

def hash (h : Hasher) (secret : Except Failure Bytes) (salt : Bytes) (password : String) :
    Except Failure String := do
  let digest ← h.derive secret salt (Text.Utf8.encode password)
  return encode h.params salt digest

def recompute? (h : Hasher) (secret : Except Failure Bytes) (stored candidate : String) :
    Option String := do
  let e ← Encoded.read? stored
  let salt ← e.saltBytes?
  match h.derive secret salt (Text.Utf8.encode candidate) with
  | .ok digest => return encode h.params salt digest
  | .error _ => none

def verify (h : Hasher) (secret : Except Failure Bytes) (stored candidate : String) :
    Verification :=
  if h.recompute? secret stored candidate = some stored then .success else .failed

def needsRehash (h : Hasher) (stored : String) : Bool :=
  match Encoded.read? stored with
  | some e => !e.agrees h.params
  | none => true

end Hasher

end AuthCore.Password
