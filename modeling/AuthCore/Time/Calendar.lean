set_option autoImplicit false

namespace AuthCore.Time

structure Date where
  year : Int
  month : Nat
  day : Nat
deriving DecidableEq

namespace Date

def isLeap (year : Int) : Bool := year % 4 = 0 && (year % 100 ≠ 0 || year % 400 = 0)

def monthLength (year : Int) (month : Nat) : Nat :=
  if month = 2 then if isLeap year then 29 else 28
  else if month = 4 ∨ month = 6 ∨ month = 9 ∨ month = 11 then 30
  else 31

def Valid (d : Date) : Prop :=
  1 ≤ d.month ∧ d.month ≤ 12 ∧ 1 ≤ d.day ∧ d.day ≤ monthLength d.year d.month

instance (d : Date) : Decidable d.Valid := by unfold Valid; infer_instance

/-- Days of an era, and of the days before 1970-01-01 since the era of year 0 began. -/
def eraDays : Nat := 146097

def epochOffset : Int := 719468

def toDays (d : Date) : Int :=
  let year := if d.month ≤ 2 then d.year - 1 else d.year
  let month := if d.month ≤ 2 then d.month + 9 else d.month - 3
  let inEra := (year % 400).toNat
  let dayOfYear := (153 * month + 2) / 5 + d.day - 1
  year / 400 * eraDays + (inEra * 365 + inEra / 4 - inEra / 100 + dayOfYear : Nat) - epochOffset

def ofDays (days : Int) : Date :=
  let n := days + epochOffset
  let era := n / eraDays
  let inEra := (n % eraDays).toNat
  let century := min 3 (inEra / 36524)
  let inCentury := inEra - century * 36524
  let quad := inCentury / 1461
  let inQuad := inCentury - quad * 1461
  let single := min 3 (inQuad / 365)
  let dayOfYear := inQuad - single * 365
  let month := (5 * dayOfYear + 2) / 153
  let day := dayOfYear - (153 * month + 2) / 5 + 1
  let year := era * 400 + (century * 100 + quad * 4 + single : Nat)
  if month < 10 then ⟨year, month + 3, day⟩ else ⟨year + 1, month - 9, day⟩

end Date

end AuthCore.Time
