import AuthCore.Time.Calendar

set_option autoImplicit false

namespace AuthCore.Time.Date

/-- The date of a day of a year that begins in March; both are counted from zero. -/
def ofMarch (year : Int) (dayOfYear : Nat) : Date :=
  let month := (5 * dayOfYear + 2) / 153
  let day := dayOfYear - (153 * month + 2) / 5 + 1
  if month < 10 then ⟨year, month + 3, day⟩ else ⟨year + 1, month - 9, day⟩

/-- A year of an era by its century, its place in the century by fours, and its place in those. -/
structure Place where
  century : Nat
  quad : Nat
  single : Nat
  dayOfYear : Nat

/-- Only the last year of four ends in a leap day, and of the last four years of a century only
those of the last century. -/
structure Place.InEra (p : Place) : Prop where
  century_le : p.century ≤ 3
  quad_le : p.quad ≤ 24
  single_le : p.single ≤ 3
  day_le : p.dayOfYear ≤ 365
  leap : p.dayOfYear = 365 → p.single = 3 ∧ (p.quad < 24 ∨ p.century = 3)

def Place.year (p : Place) (era : Int) : Int :=
  era * 400 + (p.century * 100 + p.quad * 4 + p.single : Nat)

def Place.days (p : Place) : Nat :=
  p.century * 36524 + p.quad * 1461 + p.single * 365 + p.dayOfYear

theorem ofDays_eq (days : Int) : ∃ (era : Int) (p : Place), p.InEra ∧
    days + epochOffset = era * eraDays + p.days ∧
      ofDays days = ofMarch (p.year era) p.dayOfYear := by
  let n := ((days + epochOffset) % eraDays).toNat
  let century := min 3 (n / 36524)
  let quad := (n - century * 36524) / 1461
  let single := min 3 ((n - century * 36524 - quad * 1461) / 365)
  have hn : (n : Int) = (days + epochOffset) % 146097 := by
    simp only [n, eraDays]
    omega
  have hera : days + epochOffset = (days + epochOffset) / eraDays * eraDays + n := by
    rw [hn]
    simp only [eraDays]
    omega
  have hbound : n < 146097 := by omega
  have hcentury : century ≤ 3 ∧ century * 36524 ≤ n ∧
      (century < 3 → n - century * 36524 < 36524) := by
    simp only [century]
    omega
  have hquad : quad * 1461 ≤ n - century * 36524 ∧ n - century * 36524 - quad * 1461 < 1461 := by
    simp only [quad]
    omega
  have hsingle : single ≤ 3 ∧ single * 365 ≤ n - century * 36524 - quad * 1461 ∧
      (single < 3 → n - century * 36524 - quad * 1461 - single * 365 < 365) := by
    simp only [single]
    omega
  refine ⟨(days + epochOffset) / eraDays,
    ⟨century, quad, single, n - century * 36524 - quad * 1461 - single * 365⟩, ?_, ?_, rfl⟩
  · exact {
      century_le := hcentury.1
      quad_le := by dsimp only; omega
      single_le := hsingle.1
      day_le := by dsimp only; omega
      leap := by dsimp only; omega }
  · refine hera.trans
      (congrArg (fun k : Nat => (days + epochOffset) / eraDays * eraDays + (k : Int)) ?_)
    simp only [Place.days]
    omega

theorem isLeap_iff (year : Int) :
    isLeap year = true ↔ year % 4 = 0 ∧ (year % 100 ≠ 0 ∨ year % 400 = 0) := by
  simp [isLeap]

theorem isLeap_year {p : Place} (h : p.InEra) (era : Int) (hday : p.dayOfYear = 365) :
    isLeap (p.year era + 1) = true := by
  obtain ⟨hcentury, hquad, _, _, hleap⟩ := h
  have hleap := hleap hday
  rw [isLeap_iff, Place.year]
  omega

/-- The last day of a year that begins in March is there only if it is the leap day. -/
theorem valid_ofMarch {year : Int} {dayOfYear : Nat} (hday : dayOfYear ≤ 365)
    (hleap : dayOfYear = 365 → isLeap (year + 1) = true) : (ofMarch year dayOfYear).Valid := by
  unfold ofMarch Valid
  dsimp only
  have hmonth : (5 * dayOfYear + 2) / 153 < 12 := by omega
  split
  · unfold monthLength
    dsimp only
    repeat' split
    all_goals omega
  · have hlength : 28 ≤ monthLength (year + 1) 2 := by
      unfold monthLength
      repeat' split
      all_goals omega
    have hfebruary : dayOfYear = 365 → monthLength (year + 1) 2 = 29 := by
      intro h
      simp [monthLength, hleap h]
    have hjanuary : monthLength (year + 1) 1 = 31 := by simp [monthLength]
    dsimp only
    have hcases : (5 * dayOfYear + 2) / 153 - 9 = 1 ∨ (5 * dayOfYear + 2) / 153 - 9 = 2 := by omega
    rcases hcases with h | h
    · rw [h, hjanuary]
      omega
    · rw [h]
      omega

theorem toDays_ofMarch {p : Place} (h : p.InEra) (era : Int) :
    (ofMarch (p.year era) p.dayOfYear).toDays = era * eraDays + p.days - epochOffset := by
  obtain ⟨hcentury, hquad, hsingle, hday, _⟩ := h
  have hinEra : (p.year era % 400).toNat = p.century * 100 + p.quad * 4 + p.single := by
    rw [Place.year]
    omega
  have hera : p.year era / 400 = era := by
    rw [Place.year]
    omega
  have hmonth : (5 * p.dayOfYear + 2) / 153 < 12 := by omega
  unfold ofMarch toDays
  dsimp only
  split
  · rw [if_neg (by dsimp only; omega), if_neg (by dsimp only; omega)]
    dsimp only
    rw [hinEra, hera, Place.days]
    omega
  · rw [if_pos (by dsimp only; omega), if_pos (by dsimp only; omega)]
    dsimp only
    rw [Int.add_sub_cancel, hinEra, hera, Place.days]
    omega

theorem valid_ofDays (days : Int) : (ofDays days).Valid := by
  obtain ⟨era, p, hp, _, hdate⟩ := ofDays_eq days
  rw [hdate]
  exact valid_ofMarch hp.day_le fun h => isLeap_year hp era h

theorem toDays_ofDays (days : Int) : (ofDays days).toDays = days := by
  obtain ⟨era, p, hp, hdays, hdate⟩ := ofDays_eq days
  rw [hdate, toDays_ofMarch hp]
  omega

end AuthCore.Time.Date
