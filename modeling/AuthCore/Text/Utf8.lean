/-!
UTF-8 text as bytes. Decoding is one pass over the bytes; each maximal piece that is no
character is reported as one gap, so a reader decides whether a gap is fatal (`decode?`),
replaced (`decodeLossy`) or left to a later stage (`scan`).
-/

set_option autoImplicit false

namespace AuthCore

/-- Byte strings: cached values, secrets, key files. -/
abbrev Bytes := List UInt8

namespace Text.Utf8

def encodeChars (cs : List Char) : Bytes := cs.flatMap String.utf8EncodeChar

def encode (s : String) : Bytes := encodeChars s.toList

/-- A character that has begun: how many bytes it still needs, the range of the next one, and
its bits so far. -/
structure Pending where
  more : Nat
  low : Nat
  high : Nat
  bits : Nat

inductive Lead where
  | char (c : Char)
  | begins (p : Pending)
  | invalid

def lead (byte : UInt8) : Lead :=
  let b := byte.toNat
  if b < 0x80 then .char (Char.ofNat b)
  else if b < 0xC2 then .invalid
  else if b < 0xE0 then .begins ⟨1, 0x80, 0xBF, b - 0xC0⟩
  else if b = 0xE0 then .begins ⟨2, 0xA0, 0xBF, 0⟩
  else if b = 0xED then .begins ⟨2, 0x80, 0x9F, 0xD⟩
  else if b < 0xF0 then .begins ⟨2, 0x80, 0xBF, b - 0xE0⟩
  else if b = 0xF0 then .begins ⟨3, 0x90, 0xBF, 0⟩
  else if b < 0xF4 then .begins ⟨3, 0x80, 0xBF, b - 0xF0⟩
  else if b = 0xF4 then .begins ⟨3, 0x80, 0x8F, 4⟩
  else .invalid

/-- The characters of `bs`; `none` stands for a maximal piece that is no character. -/
def scanFrom (state : Option Pending) : Bytes → List (Option Char)
  | [] => if state.isSome then [none] else []
  | b :: bs =>
    let begin : List (Option Char) :=
      match lead b with
      | .char c => some c :: scanFrom none bs
      | .begins p => scanFrom (some p) bs
      | .invalid => none :: scanFrom none bs
    match state with
    | none => begin
    | some p =>
      if p.low ≤ b.toNat ∧ b.toNat ≤ p.high then
        let bits := p.bits * 64 + b.toNat % 64
        if p.more ≤ 1 then some (Char.ofNat bits) :: scanFrom none bs
        else scanFrom (some ⟨p.more - 1, 0x80, 0xBF, bits⟩) bs
      else none :: begin

def scan (bs : Bytes) : List (Option Char) := scanFrom none bs

def decode? (bs : Bytes) : Option String :=
  ((scan bs).mapM id).map String.ofList

/-- Each piece that is no character becomes U+FFFD. -/
def decodeLossy (bs : Bytes) : String :=
  String.ofList ((scan bs).map (·.getD (Char.ofNat 0xFFFD)))

end Text.Utf8

end AuthCore
