set_option autoImplicit false

namespace AuthCore

/-- Numbers of 16 bits lie below this; the other limits are alike. -/
def limit16 : Nat := 0x10000

def limit32 : Nat := 0x100000000

/-- The magnitude of the least signed number of 64 bits. -/
def limit63 : Nat := 0x8000000000000000

def limit64 : Nat := 0x10000000000000000

def inInt64 (i : Int) : Bool := decide (-(limit63 : Int) ≤ i) && decide (i < limit63)

end AuthCore
