import AuthCore.Digest.Sha2

set_option autoImplicit false

namespace AuthCore.Digest.Blake2b

/-- Which message word each place of a round takes. -/
def orders : List (List Nat) := [
  [0, 1, 2, 3, 4, 5, 6, 7, 8, 9, 10, 11, 12, 13, 14, 15],
  [14, 10, 4, 8, 9, 15, 13, 6, 1, 12, 0, 2, 11, 7, 5, 3],
  [11, 8, 12, 0, 5, 2, 15, 13, 10, 14, 3, 6, 7, 1, 9, 4],
  [7, 9, 3, 1, 13, 12, 11, 14, 2, 6, 5, 10, 4, 0, 15, 8],
  [9, 0, 5, 7, 2, 4, 10, 15, 14, 1, 11, 12, 6, 8, 3, 13],
  [2, 12, 6, 10, 0, 11, 8, 3, 4, 13, 7, 5, 15, 14, 1, 9],
  [12, 5, 1, 15, 14, 13, 4, 10, 0, 7, 6, 3, 9, 2, 8, 11],
  [13, 11, 7, 14, 12, 1, 3, 9, 5, 0, 15, 4, 8, 6, 2, 10],
  [6, 15, 14, 9, 11, 3, 0, 8, 12, 2, 13, 7, 1, 4, 10, 5],
  [10, 2, 8, 4, 7, 6, 1, 5, 15, 11, 9, 14, 3, 12, 13, 0],
  [0, 1, 2, 3, 4, 5, 6, 7, 8, 9, 10, 11, 12, 13, 14, 15],
  [14, 10, 4, 8, 9, 15, 13, 6, 1, 12, 0, 2, 11, 7, 5, 3]]

structure Quad where
  a : UInt64
  b : UInt64
  c : UInt64
  d : UInt64

def Quad.mix (v : Quad) (x y : UInt64) : Quad :=
  let a := v.a + v.b + x
  let d := Sha2.rotate64 (v.d ^^^ a) 32
  let c := v.c + d
  let b := Sha2.rotate64 (v.b ^^^ c) 24
  let a := a + b + y
  let d := Sha2.rotate64 (d ^^^ a) 16
  let c := c + d
  let b := Sha2.rotate64 (b ^^^ c) 63
  ⟨a, b, c, d⟩

structure Columns where
  p : Quad
  q : Quad
  r : Quad
  s : Quad

/-- Moves the diagonals into the columns. -/
def Columns.skew (v : Columns) : Columns :=
  ⟨⟨v.p.a, v.q.b, v.r.c, v.s.d⟩, ⟨v.q.a, v.r.b, v.s.c, v.p.d⟩, ⟨v.r.a, v.s.b, v.p.c, v.q.d⟩,
    ⟨v.s.a, v.p.b, v.q.c, v.r.d⟩⟩

def Columns.unskew (v : Columns) : Columns :=
  ⟨⟨v.p.a, v.s.b, v.r.c, v.q.d⟩, ⟨v.q.a, v.p.b, v.s.c, v.r.d⟩, ⟨v.r.a, v.q.b, v.p.c, v.s.d⟩,
    ⟨v.s.a, v.r.b, v.q.c, v.p.d⟩⟩

def Columns.mix (v : Columns) (m : Array UInt64) : List Nat → Columns
  | [e, f, g, h, i, j, k, l] =>
    ⟨v.p.mix (m.getD e 0) (m.getD f 0), v.q.mix (m.getD g 0) (m.getD h 0),
      v.r.mix (m.getD i 0) (m.getD j 0), v.s.mix (m.getD k 0) (m.getD l 0)⟩
  | _ => v

def round (m : Array UInt64) (v : Columns) (order : List Nat) : Columns :=
  ((v.mix m (order.take 8)).skew.mix m (order.drop 8)).unskew

/-- The chaining words, in pairs of one column each. -/
structure Chain where
  h0 : UInt64
  h1 : UInt64
  h2 : UInt64
  h3 : UInt64
  h4 : UInt64
  h5 : UInt64
  h6 : UInt64
  h7 : UInt64

def start : Chain :=
  ⟨0x6a09e667f3bcc908, 0xbb67ae8584caa73b, 0x3c6ef372fe94f82b, 0xa54ff53a5f1d36f1,
    0x510e527fade682d1, 0x9b05688c2b3e6c1f, 0x1f83d9abfb41bd6b, 0x5be0cd19137e2179⟩

/-- One block, where `count` bytes of the message end with it. -/
def compress (h : Chain) (block : Bytes) (count : Nat) (last : Bool) : Chain :=
  let m := ((Words.chunks 8 block).map Words.ofLittleEndian64).toArray
  let f : UInt64 := if last then ~~~start.h6 else start.h6
  let v : Columns :=
    ⟨⟨h.h0, h.h4, start.h0, start.h4 ^^^ UInt64.ofNat count⟩, ⟨h.h1, h.h5, start.h1, start.h5⟩,
      ⟨h.h2, h.h6, start.h2, f⟩, ⟨h.h3, h.h7, start.h3, start.h7⟩⟩
  let w := orders.foldl (round m) v
  ⟨h.h0 ^^^ w.p.a ^^^ w.p.c, h.h1 ^^^ w.q.a ^^^ w.q.c, h.h2 ^^^ w.r.a ^^^ w.r.c,
    h.h3 ^^^ w.s.a ^^^ w.s.c, h.h4 ^^^ w.p.b ^^^ w.p.d, h.h5 ^^^ w.q.b ^^^ w.q.d,
    h.h6 ^^^ w.r.b ^^^ w.r.d, h.h7 ^^^ w.s.b ^^^ w.s.d⟩

def fill (block : Bytes) : Bytes := block ++ List.replicate (128 - block.length) 0

/-- All blocks but the last are full; an empty message has one block. -/
def blocks (count : Nat) (h : Chain) : List Bytes → Chain
  | [] => compress h (fill []) count true
  | [b] => compress h (fill b) (count + b.length) true
  | b :: bs => blocks (count + b.length) (compress h b (count + b.length) false) bs

def digest (length : Nat) (message : Bytes) : Bytes :=
  let h : Chain := { start with h0 := start.h0 ^^^ 0x01010000 ^^^ UInt64.ofNat length }
  let g := blocks 0 h (Words.chunks 128 message)
  ([g.h0, g.h1, g.h2, g.h3, g.h4, g.h5, g.h6, g.h7].flatMap Words.littleEndian64).take length

end AuthCore.Digest.Blake2b
