import AuthCore.Asn1.Pem
import AuthCore.Cipher.Aes
import AuthCore.Digest.Scrypt
import AuthCore.Failure
import AuthCore.Number.Limits
import AuthCore.Rsa.Key

set_option autoImplicit false

namespace AuthCore.Rsa

open Asn1

/-- A key in the layout of PKCS #1, with two factors. The numbers that can be computed from the
others need only be there. -/
def readPkcs1? (bs : Bytes) : Option PrivateKey := do
  let e ← Der.only? bs
  let items ← e.sequence?
  match ← items.mapM Element.nat? with
  | [0, n, e, d, p, q, _, _, _] =>
    let k : PrivateKey := ⟨⟨n, e⟩, d, p, q⟩
    if k.Valid then return k else none
  | _ => none

namespace Pkcs8

def rsaEncryption : Bytes := [0x2A, 0x86, 0x48, 0x86, 0xF7, 0x0D, 0x01, 0x01, 0x01]

def isExtension (e : Element) : Bool :=
  Tag.isContext e.tag && Tag.isConstructed e.tag && (Der.only? e.content).isSome

def isBits (content : Bytes) : Bool := content.head? == some 0

/-- The fields after the key: attributes, then a public key exactly if the version has one, then
extensions. -/
def restValid (hasPublicKey : Bool) (items : List Element) : Bool :=
  let items := items.dropWhile fun e => Tag.isContext e.tag && Tag.number e.tag == 0
  match items with
  | [] => !hasPublicKey
  | e :: rest =>
    if Tag.isContext e.tag && Tag.number e.tag == 1 then
      hasPublicKey && !Tag.isConstructed e.tag && isBits e.content && rest.all isExtension
    else !hasPublicKey && items.all isExtension

end Pkcs8

def readPkcs8? (bs : Bytes) : Option PrivateKey := do
  let e ← Der.only? bs
  match ← e.sequence? with
  | version :: algorithm :: key :: rest =>
    let v ← version.natBelow? 2
    let a ← Algorithm.of? algorithm
    let parameters ← a.parameters
    let content ← key.octets?
    if a.objectId = Pkcs8.rsaEncryption ∧ parameters.isNull ∧ Pkcs8.restValid (v == 1) rest then
      readPkcs1? content
    else none
  | _ => none

namespace Pbes2

def scheme : Bytes := [0x2A, 0x86, 0x48, 0x86, 0xF7, 0x0D, 0x01, 0x05, 0x0D]

def pbkdf2 : Bytes := [0x2A, 0x86, 0x48, 0x86, 0xF7, 0x0D, 0x01, 0x05, 0x0C]

def scrypt : Bytes := [0x2B, 0x06, 0x01, 0x04, 0x01, 0xDA, 0x47, 0x04, 0x0B]

def hashes : List (Bytes × Digest.Hash) :=
  let id (n : UInt8) : Bytes := [0x2A, 0x86, 0x48, 0x86, 0xF7, 0x0D, 0x02, n]
  [(id 8, Digest.sha224), (id 9, Digest.sha256), (id 10, Digest.sha384), (id 11, Digest.sha512)]

/-- The key size of each cipher, in bytes. -/
def ciphers : List (Bytes × Nat) :=
  let id (n : UInt8) : Bytes := [0x60, 0x86, 0x48, 0x01, 0x65, 0x03, 0x04, 0x01, n]
  [(id 2, 16), (id 22, 24), (id 42, 32)]

/-- The key size may be stated, and is then that of the cipher. -/
def sizeAgrees (size : Nat) (stated : Element) : Bool := stated.natBelow? limit16 == some size

def hash? (e : Element) : Option Digest.Hash := do
  let a ← Algorithm.of? e
  let parameters ← a.parameters
  if parameters.isNull then hashes.lookup a.objectId else none

/-- Where the hash is not named it is one that is refused. -/
def pbkdf2Key? (passphrase : Bytes) (size : Nat) : List Element → Option Bytes
  | [salt, iterations, hash] => do
    let s ← salt.octets?
    let i ← iterations.natBelow? limit32
    return Digest.Pbkdf2.derive (← hash? hash) passphrase s i size
  | [salt, iterations, stated, hash] => do
    let s ← salt.octets?
    let i ← iterations.natBelow? limit32
    if sizeAgrees size stated then
      return Digest.Pbkdf2.derive (← hash? hash) passphrase s i size
    else none
  | _ => none

def scryptCostsValid (n r p : Nat) : Bool :=
  decide (0 < r) && decide (0 < p) && decide (0 < n) && Nat.pow 2 n.log2 == n &&
    decide (n.log2 < r * 16) && decide (r * p < 0x40000000)

def scryptKey? (passphrase : Bytes) (size : Nat) : List Element → Option Bytes
  | salt :: cost :: blockSize :: parallelism :: rest => do
    let s ← salt.octets?
    let n ← cost.natBelow? limit64
    let r ← blockSize.natBelow? limit16
    let p ← parallelism.natBelow? limit16
    let agrees : Bool :=
      match rest with
      | [] => true
      | [stated] => sizeAgrees size stated
      | _ => false
    if agrees ∧ scryptCostsValid n r p then return Digest.Scrypt.derive n r p passphrase s size
    else none
  | _ => none

def key? (passphrase : Bytes) (size : Nat) (a : Algorithm) : Option Bytes := do
  let items ← (← a.parameters).sequence?
  if a.objectId = pbkdf2 then pbkdf2Key? passphrase size items
  else if a.objectId = scrypt then scryptKey? passphrase size items
  else none

def decrypt? (passphrase bs : Bytes) : Option Bytes := do
  let e ← Der.only? bs
  match ← e.sequence? with
  | [algorithm, data] =>
    let a ← Algorithm.of? algorithm
    let input ← data.octets?
    if a.objectId = scheme then
      match ← (← a.parameters).sequence? with
      | [derivation, encryption] =>
        let kdf ← Algorithm.of? derivation
        let cipher ← Algorithm.of? encryption
        let iv ← (← cipher.parameters).octets?
        let size ← ciphers.lookup cipher.objectId
        if iv.length = 16 then
          let key ← key? passphrase size kdf
          Cipher.Aes.decrypt? key iv input
        else none
      | _ => none
    else none
  | _ => none

end Pbes2

def readPlain? (pem : String) : Option PrivateKey :=
  ((Pem.decode? "PRIVATE KEY" pem).bind readPkcs8?) <|>
    ((Pem.decode? "RSA PRIVATE KEY" pem).bind readPkcs1?)

def readEncrypted? (passphrase pem : String) : Option PrivateKey := do
  let bs ← Pem.decode? "ENCRYPTED PRIVATE KEY" pem
  readPkcs8? (← Pbes2.decrypt? (Text.Utf8.encode passphrase) bs)

def decodePrivateKey (pem : String) : (passphrase : Option String) → Except Failure PrivateKey
  | some passphrase =>
    match readEncrypted? passphrase pem with
    | some k => .ok k
    | none => .error (.keyNotDecrypted "no private key under this passphrase")
  | none =>
    match readPlain? pem with
    | some k => .ok k
    | none => .error (.keyNotParsed "no plain private key")

end AuthCore.Rsa
