import AuthCore.Digest.Words

set_option autoImplicit false

namespace AuthCore.Cipher.Aes

open Digest.Words (chunks)

/-- Multiplication by the field element `x`. -/
def double (a : UInt8) : UInt8 := if a &&& 0x80 = 0 then a <<< 1 else a <<< 1 ^^^ 0x1B

def mulFrom : (bits : Nat) → (sum a b : UInt8) → UInt8
  | 0, sum, _, _ => sum
  | bits + 1, sum, a, b =>
    mulFrom bits (if b &&& 1 = 0 then sum else sum ^^^ a) (double a) (b >>> 1)

def mul (a b : UInt8) : UInt8 := mulFrom 8 0 a b

/-- The power 254, which inverts what is not zero. -/
def inverse (a : UInt8) : UInt8 :=
  let a2 := mul a a
  let a4 := mul a2 a2
  let a8 := mul a4 a4
  let a16 := mul a8 a8
  let a32 := mul a16 a16
  let a64 := mul a32 a32
  let a128 := mul a64 a64
  mul a128 (mul a64 (mul a32 (mul a16 (mul a8 (mul a4 a2)))))

def rotate (a n : UInt8) : UInt8 := a <<< n ||| a >>> (8 - n)

def substitute (a : UInt8) : UInt8 :=
  let b := inverse a
  b ^^^ rotate b 1 ^^^ rotate b 2 ^^^ rotate b 3 ^^^ rotate b 4 ^^^ 0x63

def allBytes : List UInt8 := (List.range 256).map UInt8.ofNat

def box : Array UInt8 := (allBytes.map substitute).toArray

def unbox : Array UInt8 :=
  allBytes.foldl (fun t a => t.setIfInBounds (substitute a).toNat a) (Array.replicate 256 0)

def table (factor : UInt8) : Array UInt8 := (allBytes.map (mul factor)).toArray

def by9 : Array UInt8 := table 9

def by11 : Array UInt8 := table 11

def by13 : Array UInt8 := table 13

def by14 : Array UInt8 := table 14

def look (t : Array UInt8) (a : UInt8) : UInt8 := t.getD a.toNat 0

def xorBytes (xs ys : Bytes) : Bytes := xs.zipWith (· ^^^ ·) ys

def turnWord : Bytes → Bytes
  | [] => []
  | b :: bs => bs ++ [b]

/-- Words of the key schedule, latest first; `size` words make the key. -/
def expand (size : Nat) : (left index : Nat) → (factor : UInt8) → List Bytes → List Bytes
  | 0, _, _, ws => ws
  | left + 1, index, factor, ws =>
    let last := ws.headD []
    let far := ws.getD (size - 1) []
    if index % size = 0 then
      let mixed := (turnWord last).map (look box)
      expand size left (index + 1) (double factor)
        (xorBytes far (xorBytes mixed [factor, 0, 0, 0]) :: ws)
    else if 6 < size ∧ index % size = 4 then
      expand size left (index + 1) factor (xorBytes far (last.map (look box)) :: ws)
    else expand size left (index + 1) factor (xorBytes far last :: ws)

/-- One key of 16 bytes for each round and one more, the last first. -/
def roundKeys (key : Bytes) : List Bytes :=
  let size := key.length / 4
  let total := 4 * (size + 7)
  let words := (expand size (total - size) size 1 (chunks 4 key).reverse).reverse
  ((chunks 4 words).map List.flatten).reverse

/-- Rows move right by their number; bytes are stored column by column. -/
def unshift : Bytes → Bytes
  | [a0, a1, a2, a3, b0, b1, b2, b3, c0, c1, c2, c3, d0, d1, d2, d3] =>
    [a0, d1, c2, b3, b0, a1, d2, c3, c0, b1, a2, d3, d0, c1, b2, a3]
  | bs => bs

def unmix : Bytes → Bytes
  | a :: b :: c :: d :: rest =>
    (look by14 a ^^^ look by11 b ^^^ look by13 c ^^^ look by9 d) ::
      (look by9 a ^^^ look by14 b ^^^ look by11 c ^^^ look by13 d) ::
      (look by13 a ^^^ look by9 b ^^^ look by14 c ^^^ look by11 d) ::
      (look by11 a ^^^ look by13 b ^^^ look by9 c ^^^ look by14 d) :: unmix rest
  | bs => bs

def unroll (state : Bytes) : List Bytes → Bytes
  | [] => state
  | [k] => xorBytes ((unshift state).map (look unbox)) k
  | k :: ks => unroll (unmix (xorBytes ((unshift state).map (look unbox)) k)) ks

def decryptBlock (keys : List Bytes) (block : Bytes) : Bytes :=
  match keys with
  | [] => block
  | k :: ks => unroll (xorBytes block k) ks

def unchain (keys : List Bytes) : (before : Bytes) → List Bytes → Bytes
  | _, [] => []
  | before, b :: bs => xorBytes (decryptBlock keys b) before ++ unchain keys b bs

def unpad? (bs : Bytes) : Option Bytes :=
  match bs.getLast? with
  | none => none
  | some last =>
    let n := last.toNat
    let keep := bs.length - n
    if 1 ≤ n ∧ n ≤ 16 ∧ n ≤ bs.length ∧ (bs.drop keep).all (· == last) then some (bs.take keep)
    else none

def decrypt? (key iv input : Bytes) : Option Bytes :=
  if input.length % 16 = 0 ∧ input ≠ [] then
    unpad? (unchain (roundKeys key) iv (chunks 16 input))
  else none

end AuthCore.Cipher.Aes
