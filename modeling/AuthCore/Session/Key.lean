import AuthCore.Cache.Glob
import AuthCore.Failure
import AuthCore.Text.Base64
import AuthCore.Text.Quoted
import AuthCore.Text.Split
import AuthCore.Uuid

/-!
Session keys: the prefix, the owner and a random nonce, joined by underscores. A client presents
the whole key, and the nonce alone proves that it may. The owner stands there in one spelling only,
so that the owner's pattern finds every key.
-/

set_option autoImplicit false

namespace AuthCore.Session

def separator : Char := '_'

structure Key where
  text : String
  owner : Uuid
deriving DecidableEq

namespace Key

def compose (keyPrefix : String) (owner : Uuid) (nonce : String) : String :=
  keyPrefix ++ String.singleton separator ++ owner.text ++ String.singleton separator ++ nonce

def ownerPattern (keyPrefix : String) (owner : Uuid) : String :=
  Cache.Glob.escape keyPrefix ++ String.singleton separator ++ owner.text ++
    String.singleton separator ++ "*"

def leastNonce : Nat := 16

/-- A fresh key, where `random n` is `n` random bytes. -/
def generate (random : Nat → Bytes) (keyPrefix : String) (owner : Uuid) (nonceBytes : Nat) :
    Except Failure Key :=
  if nonceBytes < leastNonce then .error (.nonceTooShort leastNonce nonceBytes)
  else .ok ⟨compose keyPrefix owner (Text.Base64.encodeUrl (random nonceBytes)), owner⟩

def read? (keyPrefix raw : String) : Option Key := do
  let (first, rest) ← Text.splitOnce separator raw.toList
  let (segment, nonce) ← Text.splitOnce separator rest
  let owner ← Uuid.readChars? segment
  if first = keyPrefix.toList ∧ owner.chars = segment ∧ nonce ≠ [] then return ⟨raw, owner⟩
  else none

/-- The key for diagnostics, which leave the nonce out. -/
def describe (k : Key) : String := Text.describe "SessionKey" [("owner_id", k.owner.text)] false

end Key

end AuthCore.Session
