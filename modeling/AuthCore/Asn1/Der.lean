import AuthCore.Digest.Words

set_option autoImplicit false

namespace AuthCore.Asn1

structure Element where
  tag : UInt8
  content : Bytes
deriving DecidableEq

namespace Tag

def integer : UInt8 := 0x02

def octetString : UInt8 := 0x04

def null : UInt8 := 0x05

def objectId : UInt8 := 0x06

def sequence : UInt8 := 0x30

def universal : List Nat :=
  [0x01, 0x02, 0x03, 0x04, 0x05, 0x06, 0x09, 0x0A, 0x0C, 0x12, 0x13, 0x14, 0x15, 0x16, 0x17, 0x18,
    0x1A, 0x1E, 0x30, 0x31]

def known (tag : UInt8) : Bool :=
  if tag.toNat < 64 then universal.contains tag.toNat else tag.toNat % 32 != 31

def isContext (tag : UInt8) : Bool := tag.toNat / 64 == 2

def isConstructed (tag : UInt8) : Bool := tag.toNat / 32 % 2 == 1

def number (tag : UInt8) : Nat := tag.toNat % 32

end Tag

namespace Der

def length? : Bytes → Option (Nat × Bytes)
  | [] => none
  | b :: rest =>
    if b.toNat < 128 then some (b.toNat, rest)
    else
      let size := b.toNat - 128
      let n := Digest.Words.ofBytes (rest.take size)
      if 1 ≤ size ∧ size ≤ 4 ∧ size ≤ rest.length ∧ 128 ≤ n ∧ Nat.pow 256 (size - 1) ≤ n then
        some (n, rest.drop size)
      else none

def next? : Bytes → Option (Element × Bytes)
  | [] => none
  | tag :: rest =>
    match length? rest with
    | some (n, rest) =>
      if Tag.known tag ∧ n ≤ rest.length then some (⟨tag, rest.take n⟩, rest.drop n) else none
    | none => none

theorem length?_lt {bs rest : Bytes} {n : Nat} (h : length? bs = some (n, rest)) :
    rest.length < bs.length := by
  cases bs with
  | nil => simp [length?] at h
  | cons b tail =>
    simp only [length?] at h
    split at h
    · simp only [Option.some.injEq, Prod.mk.injEq] at h
      rw [← h.2]
      exact Nat.lt_succ_self _
    · split at h
      · simp only [Option.some.injEq, Prod.mk.injEq] at h
        rw [← h.2, List.length_drop, List.length_cons]
        omega
      · exact absurd h (by simp)

theorem next?_lt {bs rest : Bytes} {e : Element} (h : next? bs = some (e, rest)) :
    rest.length < bs.length := by
  cases bs with
  | nil => simp [next?] at h
  | cons tag tail =>
    simp only [next?] at h
    split at h
    · rename_i heq
      have hlt := length?_lt heq
      split at h
      · simp only [Option.some.injEq, Prod.mk.injEq] at h
        rw [← h.2, List.length_drop, List.length_cons]
        omega
      · exact absurd h (by simp)
    · exact absurd h (by simp)

def elements? (bs : Bytes) : Option (List Element) :=
  match bs with
  | [] => some []
  | b :: tail =>
    match h : next? (b :: tail) with
    | some (e, rest) =>
      have := next?_lt h
      (elements? rest).map (e :: ·)
    | none => none
termination_by bs.length
decreasing_by exact this

def only? (bs : Bytes) : Option Element :=
  match elements? bs with
  | some [e] => some e
  | _ => none

end Der

namespace Element

def ofTag? (tag : UInt8) (e : Element) : Option Bytes :=
  if e.tag = tag then some e.content else none

def sequence? (e : Element) : Option (List Element) :=
  (e.ofTag? Tag.sequence).bind Der.elements?

/-- A number from zero on, without a zero byte that is not needed. -/
def nat? (e : Element) : Option Nat :=
  match e.ofTag? Tag.integer with
  | some [b] => if b.toNat < 128 then some b.toNat else none
  | some (b :: c :: rest) =>
    if b.toNat < 128 ∧ (b = 0 → 128 ≤ c.toNat) then some (Digest.Words.ofBytes (b :: c :: rest))
    else none
  | _ => none

def natBelow? (bound : Nat) (e : Element) : Option Nat :=
  e.nat?.filter fun n => decide (n < bound)

def octets? (e : Element) : Option Bytes := e.ofTag? Tag.octetString

def isNull (e : Element) : Bool := e.tag == Tag.null && e.content.isEmpty

end Element

structure Algorithm where
  objectId : Bytes
  parameters : Option Element

def Algorithm.of? (e : Element) : Option Algorithm :=
  match e.sequence? with
  | some [o] => (o.ofTag? Tag.objectId).map fun id => ⟨id, none⟩
  | some [o, p] => (o.ofTag? Tag.objectId).map fun id => ⟨id, some p⟩
  | _ => none

end AuthCore.Asn1
