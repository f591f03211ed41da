import AuthCore.Failure
import AuthCore.Number.Limits

set_option autoImplicit false

namespace AuthCore.Password

/-- What a hash costs: memory in KiB, passes over it, and lanes. -/
structure Cost where
  memory : UInt32
  time : UInt32
  lanes : UInt32
deriving DecidableEq

structure Params where
  cost : Cost
  outputLength : Nat
  saltLength : Nat
deriving DecidableEq

namespace Params

def current : Params := ⟨⟨256 * 1024, 3, 4⟩, 256, 128⟩

def mostLanes : UInt32 := 0xFFFFFF

/-- The first fault of the parameters, if they have one. The least memory for the lanes is computed
in 32 bits. -/
def fault? (p : Params) : Option HashFault :=
  if p.cost.memory < 8 ∨ p.cost.memory < p.cost.lanes * 8 then some .memoryTooSmall
  else if p.cost.time < 1 then some .timeTooSmall
  else if p.cost.lanes < 1 then some .threadsNotEnough
  else if mostLanes < p.cost.lanes then some .threadsTooMany
  else if p.outputLength < 4 then some .outputTooShort
  else if limit32 ≤ p.outputLength then some .outputTooLong
  else none

def check (p : Params) : Except Failure Unit :=
  match p.fault? with
  | some f => .error (.hashParameters f)
  | none => .ok ()

end Params

end AuthCore.Password
