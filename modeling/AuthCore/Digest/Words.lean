import AuthCore.Text.Utf8

set_option autoImplicit false

namespace AuthCore.Digest.Words

/-- Consecutive pieces of `n` items, for positive `n`; the last may be shorter. -/
def chunks {α : Type} (n : Nat) : List α → List (List α)
  | [] => []
  | x :: xs => (x :: xs.take (n - 1)) :: chunks n (xs.drop (n - 1))
termination_by items => items.length
decreasing_by
  simp only [List.length_drop, List.length_cons]
  omega

/-- The number whose base-256 digits are `bs`, the first the highest. -/
def ofBytes (bs : Bytes) : Nat := bs.foldl (fun n b => n * 256 + b.toNat) 0

/-- The lowest `size` base-256 digits of `n`, the lowest first. -/
def littleEndian : (size n : Nat) → Bytes
  | 0, _ => []
  | size + 1, n => UInt8.ofNat n :: littleEndian size (n / 256)

def bigEndian (size n : Nat) : Bytes := (littleEndian size n).reverse

def ofBigEndian32 (bs : Bytes) : UInt32 := bs.foldl (fun n b => n <<< 8 ||| b.toUInt32) 0

def ofBigEndian64 (bs : Bytes) : UInt64 := bs.foldl (fun n b => n <<< 8 ||| b.toUInt64) 0

def bigEndian32 (x : UInt32) : Bytes :=
  [(x >>> 24).toUInt8, (x >>> 16).toUInt8, (x >>> 8).toUInt8, x.toUInt8]

def littleEndian32 (x : UInt32) : Bytes :=
  [x.toUInt8, (x >>> 8).toUInt8, (x >>> 16).toUInt8, (x >>> 24).toUInt8]

def bigEndian64 (x : UInt64) : Bytes :=
  bigEndian32 (x >>> 32).toUInt32 ++ bigEndian32 x.toUInt32

def littleEndian64 (x : UInt64) : Bytes :=
  littleEndian32 x.toUInt32 ++ littleEndian32 (x >>> 32).toUInt32

def ofLittleEndian32 (bs : Bytes) : UInt32 := ofBigEndian32 bs.reverse

def ofLittleEndian64 (bs : Bytes) : UInt64 := ofBigEndian64 bs.reverse

end AuthCore.Digest.Words
