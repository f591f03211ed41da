import AuthCore.Digest.Hmac
import AuthCore.Number.Limits

set_option autoImplicit false

namespace AuthCore.Digest.Scrypt

structure Cell where
  a0 : UInt32
  a1 : UInt32
  a2 : UInt32
  a3 : UInt32
  b0 : UInt32
  b1 : UInt32
  b2 : UInt32
  b3 : UInt32
  c0 : UInt32
  c1 : UInt32
  c2 : UInt32
  c3 : UInt32
  d0 : UInt32
  d1 : UInt32
  d2 : UInt32
  d3 : UInt32
deriving Inhabited

namespace Cell

@[inline] def zipWith (f : UInt32 → UInt32 → UInt32) (x y : Cell) : Cell :=
  ⟨f x.a0 y.a0, f x.a1 y.a1, f x.a2 y.a2, f x.a3 y.a3,
    f x.b0 y.b0, f x.b1 y.b1, f x.b2 y.b2, f x.b3 y.b3,
    f x.c0 y.c0, f x.c1 y.c1, f x.c2 y.c2, f x.c3 y.c3,
    f x.d0 y.d0, f x.d1 y.d1, f x.d2 y.d2, f x.d3 y.d3⟩

def xor (x y : Cell) : Cell := zipWith (· ^^^ ·) x y

def add (x y : Cell) : Cell := zipWith (· + ·) x y

structure Quarter where
  a : UInt32
  b : UInt32
  c : UInt32
  d : UInt32

@[inline] def turn (a b c d : UInt32) : Quarter :=
  let b := b ^^^ Sha2.rotate32 (a + d) 25
  let c := c ^^^ Sha2.rotate32 (b + a) 23
  let d := d ^^^ Sha2.rotate32 (c + b) 19
  let a := a ^^^ Sha2.rotate32 (d + c) 14
  ⟨a, b, c, d⟩

def doubleRound (x : Cell) : Cell :=
  let p := turn x.a0 x.b0 x.c0 x.d0
  let q := turn x.b1 x.c1 x.d1 x.a1
  let r := turn x.c2 x.d2 x.a2 x.b2
  let s := turn x.d3 x.a3 x.b3 x.c3
  let t := turn p.a q.d r.c s.b
  let u := turn q.a r.d s.c p.b
  let v := turn r.a s.d p.c q.b
  let w := turn s.a p.d q.c r.b
  ⟨t.a, t.b, t.c, t.d, u.d, u.a, u.b, u.c, v.c, v.d, v.a, v.b, w.b, w.c, w.d, w.a⟩

def core (x : Cell) : Cell :=
  x.add (doubleRound (doubleRound (doubleRound (doubleRound x))))

def ofBytes (bs : Bytes) : Cell :=
  match (Words.chunks 4 bs).map Words.ofLittleEndian32 with
  | [a0, a1, a2, a3, b0, b1, b2, b3, c0, c1, c2, c3, d0, d1, d2, d3] =>
    ⟨a0, a1, a2, a3, b0, b1, b2, b3, c0, c1, c2, c3, d0, d1, d2, d3⟩
  | _ => default

def toBytes (x : Cell) : Bytes :=
  [x.a0, x.a1, x.a2, x.a3, x.b0, x.b1, x.b2, x.b3, x.c0, x.c1, x.c2, x.c3, x.d0, x.d1, x.d2,
    x.d3].flatMap Words.littleEndian32

end Cell

abbrev Block := List Cell

def unzip : Block → Block × Block
  | [] => ([], [])
  | [x] => ([x], [])
  | x :: y :: rest =>
    let (evens, odds) := unzip rest
    (x :: evens, y :: odds)

def mixFrom : Cell → Block → Block
  | _, [] => []
  | x, c :: cs =>
    let y := (x.xor c).core
    y :: mixFrom y cs

def blockMix (b : Block) : Block :=
  let (evens, odds) := unzip (mixFrom (b.getLast?.getD default) b)
  evens ++ odds

def xorBlock (x y : Block) : Block := x.zipWith Cell.xor y

def fill : (rounds : Nat) → Block → Array Block → Array Block × Block
  | 0, b, v => (v, b)
  | rounds + 1, b, v => fill rounds (blockMix b) (v.push b)

def indexOf (n : Nat) (b : Block) : Nat :=
  let last := b.getLast?.getD default
  (last.a0.toNat + last.a1.toNat * limit32) % n

def revisit (n : Nat) (v : Array Block) : (rounds : Nat) → Block → Block
  | 0, b => b
  | rounds + 1, b => revisit n v rounds (blockMix (xorBlock b (v.getD (indexOf n b) [])))

def roMix (n : Nat) (b : Block) : Block :=
  let (v, b) := fill n b #[]
  revisit n v n b

def derive (n r p : Nat) (password salt : Bytes) (length : Nat) : Bytes :=
  let start := Pbkdf2.derive sha256 password salt 1 (p * 128 * r)
  let mixed := (Words.chunks (128 * r) start).flatMap fun bs =>
    (roMix n ((Words.chunks 64 bs).map Cell.ofBytes)).flatMap Cell.toBytes
  Pbkdf2.derive sha256 password mixed 1 length

end AuthCore.Digest.Scrypt
