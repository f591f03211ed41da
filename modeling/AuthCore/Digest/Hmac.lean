import AuthCore.Digest.Sha2

set_option autoImplicit false

namespace AuthCore.Digest

def xorBytes (xs ys : Bytes) : Bytes := xs.zipWith (· ^^^ ·) ys

/-- The key on one block of the hash: hashed if it is longer, filled up with zeros. -/
def blockKey (h : Hash) (key : Bytes) : Bytes :=
  let short := if h.blockSize < key.length then h.run key else key
  short ++ List.replicate (h.blockSize - short.length) 0

def hmac (h : Hash) (key message : Bytes) : Bytes :=
  let block := blockKey h key
  h.run (block.map (· ^^^ 0x5C) ++ h.run (block.map (· ^^^ 0x36) ++ message))

namespace Pbkdf2

/-- The sum of `rounds` further links of a chain, after `last`. -/
def chain (link : Bytes → Bytes) : (rounds : Nat) → (last sum : Bytes) → Bytes
  | 0, _, sum => sum
  | rounds + 1, last, sum =>
    let next := link last
    chain link rounds next (xorBytes sum next)

def block (link : Bytes → Bytes) (salt : Bytes) (iterations index : Nat) : Bytes :=
  let first := link (salt ++ Words.bigEndian 4 index)
  chain link (iterations - 1) first first

def derive (h : Hash) (password salt : Bytes) (iterations length : Nat) : Bytes :=
  let key := blockKey h password
  let size := (h.run []).length
  let blocks := (length + size - 1) / size
  ((List.range blocks).flatMap fun i => block (hmac h key) salt iterations (i + 1)).take length

end Pbkdf2

end AuthCore.Digest
