import AuthCore.Number.Shortest
import AuthCore.Text.Utf8

/-!
JSON documents. A string that holds a lone surrogate or ill-formed bytes is lexically a string but
spells no text, so the text of a string is optional; it matters only where the string is used.
-/

set_option autoImplicit false

namespace AuthCore.Json

/-- A number as written. A decimal is `± significand * 10 ^ exponent`; of its digits it keeps those
that fit in 64 bits. -/
inductive Number where
  | integer (negative : Bool) (magnitude : Nat)
  | decimal (negative : Bool) (significand : Nat) (exponent : Int)
deriving DecidableEq

inductive Value where
  | null
  | bool (b : Bool)
  | number (n : Number)
  | string (text : Option String)
  | array (items : List Value)
  | object (members : List (Option String × Value))

namespace Value

mutual

def decEq : (v w : Value) → Decidable (v = w)
  | .null, .null => isTrue rfl
  | .bool b, .bool c => decidable_of_iff (b = c) (by simp)
  | .number m, .number n => decidable_of_iff (m = n) (by simp)
  | .string s, .string t => decidable_of_iff (s = t) (by simp)
  | .array vs, .array ws =>
    have := decEqItems vs ws
    decidable_of_iff (vs = ws) (by simp)
  | .object ms, .object ns =>
    have := decEqMembers ms ns
    decidable_of_iff (ms = ns) (by simp)
  | .null, .bool _ | .null, .number _ | .null, .string _ | .null, .array _ | .null, .object _
  | .bool _, .null | .bool _, .number _ | .bool _, .string _ | .bool _, .array _
  | .bool _, .object _ | .number _, .null | .number _, .bool _ | .number _, .string _
  | .number _, .array _ | .number _, .object _ | .string _, .null | .string _, .bool _
  | .string _, .number _ | .string _, .array _ | .string _, .object _ | .array _, .null
  | .array _, .bool _ | .array _, .number _ | .array _, .string _ | .array _, .object _
  | .object _, .null | .object _, .bool _ | .object _, .number _ | .object _, .string _
  | .object _, .array _ => isFalse nofun

def decEqItems : (vs ws : List Value) → Decidable (vs = ws)
  | [], [] => isTrue rfl
  | [], _ :: _ | _ :: _, [] => isFalse nofun
  | v :: vs, w :: ws =>
    have := decEq v w
    have := decEqItems vs ws
    decidable_of_iff (v = w ∧ vs = ws) (by simp)

def decEqMembers : (ms ns : List (Option String × Value)) → Decidable (ms = ns)
  | [], [] => isTrue rfl
  | [], _ :: _ | _ :: _, [] => isFalse nofun
  | (j, v) :: ms, (k, w) :: ns =>
    have := decEq v w
    have := decEqMembers ms ns
    decidable_of_iff (j = k ∧ v = w ∧ ms = ns) (by simp [and_assoc])

end

instance : DecidableEq Value := decEq

end Value

namespace Number

/-- The leading digits of `n` that fit in 64 bits, and how many digits follow them. -/
def leading (n : Nat) : (fuel dropped : Nat) → Nat × Nat
  | 0, dropped => (n, dropped)
  | fuel + 1, dropped => if n < limit64 then (n, dropped) else leading (n / 10) fuel (dropped + 1)

/-- The double for `± n * 10 ^ e`: `n` is rounded, then scaled by rounded powers of ten, which for
long numbers may miss the nearest double. No double stands for what is out of range. -/
def scale? (negative : Bool) (n : Nat) (e : Int) : Option Binary64 :=
  let start := Binary64.ofDecimal negative n 0
  let power (k : Int) := Binary64.ofDecimal false 1 k
  let value :=
    if n = 0 ∨ e < -616 then Binary64.zero negative
    else if 308 < e then Binary64.infinite negative
    else if 0 ≤ e then start.mul (power e)
    else if -308 ≤ e then start.div (power (-e))
    else (start.div (power 308)).div (power (-e - 308))
  if value.isFinite then some value else none

def toBinary64? : Number → Option Binary64
  | integer negative magnitude =>
    let (n, dropped) := leading magnitude (Binary64.decimalLength magnitude) 0
    scale? negative n dropped
  | decimal negative significand exponent => scale? negative significand exponent

/-- The whole number, where the text has neither point nor exponent. A negative zero is none. -/
def toInt? : Number → Option Int
  | integer false magnitude => some magnitude
  | integer true 0 => none
  | integer true magnitude => some (-(magnitude : Int))
  | decimal .. => none

def ofNat (n : Nat) : Number := integer false n

def ofInt (i : Int) : Number := integer (decide (i < 0)) i.natAbs

end Number

namespace Value

def text (s : String) : Value := string (some s)

def nat (n : Nat) : Value := number (.ofNat n)

def int (i : Int) : Value := number (.ofInt i)

def record (members : List (String × Value)) : Value :=
  object (members.map fun m => (some m.1, m.2))

def text? : Value → Option String
  | string t => t
  | _ => none

def bool? : Value → Option Bool
  | bool b => some b
  | _ => none

def int? : Value → Option Int
  | number n => n.toInt?
  | _ => none

def natBelow? (bound : Nat) (v : Value) : Option Nat :=
  match v.int? with
  | some (Int.ofNat n) => if n < bound then some n else none
  | _ => none

def items? : Value → Option (List Value)
  | array vs => some vs
  | _ => none

mutual

def depth : Value → Nat
  | array vs => depthItems vs + 1
  | object ms => depthMembers ms + 1
  | _ => 0

def depthItems : List Value → Nat
  | [] => 0
  | v :: vs => max (depth v) (depthItems vs)

def depthMembers : List (Option String × Value) → Nat
  | [] => 0
  | (_, v) :: ms => max (depth v) (depthMembers ms)

end

mutual

def representable : Value → Bool
  | number n => n.toBinary64?.isSome
  | string t => t.isSome
  | array vs => representableItems vs
  | object ms => representableMembers ms
  | _ => true

def representableItems : List Value → Bool
  | [] => true
  | v :: vs => representable v && representableItems vs

def representableMembers : List (Option String × Value) → Bool
  | [] => true
  | (k, v) :: ms => k.isSome && representable v && representableMembers ms

end

/-- Deeper documents are refused where a whole document is kept. -/
def depthLimit : Nat := 127

def keepable (v : Value) : Bool := decide (v.depth ≤ depthLimit) && v.representable

/-- Puts a member into the order of keys, in place of an earlier member of that key. -/
def insertMember (key : Option String) (v : Value) :
    List (Option String × Value) → List (Option String × Value)
  | [] => [(key, v)]
  | m :: ms =>
    if key.getD "" < m.1.getD "" then (key, v) :: m :: ms
    else if key = m.1 then (key, v) :: ms
    else m :: insertMember key v ms

mutual

/-- The same document with the members of each object in the order of their keys; of two equal
keys the later counts. -/
def canonical : Value → Value
  | array vs => array (canonicalItems vs)
  | object ms => object (canonicalMembers ms [])
  | v => v

def canonicalItems : List Value → List Value
  | [] => []
  | v :: vs => canonical v :: canonicalItems vs

def canonicalMembers :
    List (Option String × Value) → List (Option String × Value) → List (Option String × Value)
  | [], sorted => sorted
  | (k, v) :: ms, sorted => canonicalMembers ms (insertMember k (canonical v) sorted)

end

end Value

end AuthCore.Json
