import AuthCore.Number.Limits
import AuthCore.Password.Params
import AuthCore.Text.Base64
import AuthCore.Text.Split

/-!
Password hashes as text: algorithm, version, costs, salt and digest, each after a dollar sign.
Reading asks for five fields and leaves their content alone; a verifier compares whole texts.
-/

set_option autoImplicit false

namespace AuthCore.Password

def algorithm : List Char := "argon2id".toList

def version : List Char := "v=19".toList

def Cost.chars (c : Cost) : List Char :=
  let number (n : UInt32) := Text.Decimal.digits n.toNat
  'm' :: '=' :: (number c.memory ++ ',' :: 't' :: '=' :: (number c.time ++
    ',' :: 'p' :: '=' :: number c.lanes))

def lead (c : Cost) : List Char :=
  '$' :: (algorithm ++ '$' :: (version ++ '$' :: (c.chars ++ ['$'])))

def base64 (bs : Bytes) : List Char := Text.Base64.encodeWith Text.Base64.standard ['='] bs

def encodeChars (c : Cost) (salt digest : Bytes) : List Char :=
  lead c ++ (base64 salt ++ '$' :: base64 digest)

def encode (p : Params) (salt digest : Bytes) : String :=
  String.ofList (encodeChars p.cost salt digest)

inductive CostName where
  | memory
  | time
  | lanes
deriving DecidableEq

def CostName.ofChars? : List Char → Option CostName
  | ['m'] => some .memory
  | ['t'] => some .time
  | ['p'] => some .lanes
  | _ => none

def costItem? (cs : List Char) : Option (CostName × UInt32) := do
  let (name, value) ← Text.splitOnce '=' cs
  let n ← Text.Decimal.readBelow? limit32 value
  return (← CostName.ofChars? name, UInt32.ofNat n)

/-- A slot for each name, empty until an item of the block fills it. -/
@[ext]
structure CostSlots where
  slot : CostName → Option UInt32

namespace CostSlots

def empty : CostSlots := ⟨fun _ => none⟩

def fill? (s : CostSlots) (name : CostName) (n : UInt32) : Option CostSlots :=
  match s.slot name with
  | none => some ⟨fun other => if other = name then some n else s.slot other⟩
  | some _ => none

def take? (s : CostSlots) (item : List Char) : Option CostSlots := do
  let (name, n) ← costItem? item
  s.fill? name n

end CostSlots

/-- The costs of a block, in any order, each once. -/
def cost? (block : List Char) : Option Cost := do
  let s ← (Text.split ',' block).foldlM CostSlots.take? .empty
  return ⟨← s.slot .memory, ← s.slot .time, ← s.slot .lanes⟩

structure Encoded where
  algorithm : List Char
  version : List Char
  params : List Char
  salt : List Char
  digest : List Char
deriving DecidableEq

namespace Encoded

/-- The fields between dollar signs, empty ones left out. There must be five. -/
def read? (stored : String) : Option Encoded :=
  match (Text.split '$' stored.toList).filter fun f => !f.isEmpty with
  | [a, v, p, s, d] => some ⟨a, v, p, s, d⟩
  | _ => none

def saltBytes? (e : Encoded) : Option Bytes := Text.Base64.decodeChars? e.salt

def digestBytes? (e : Encoded) : Option Bytes := Text.Base64.decodeChars? e.digest

def cost? (e : Encoded) : Option Cost := Password.cost? e.params

def agrees (e : Encoded) (p : Params) : Bool :=
  e.algorithm == Password.algorithm && e.version == Password.version && e.cost? == some p.cost &&
    e.saltBytes?.map List.length == some p.saltLength &&
    e.digestBytes?.map List.length == some p.outputLength

end Encoded

end AuthCore.Password
