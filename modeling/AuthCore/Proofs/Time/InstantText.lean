import AuthCore.Proofs.Text.DecimalDigits
import AuthCore.Proofs.Time.CalendarDays
import AuthCore.Time.Rfc3339

set_option autoImplicit false

namespace AuthCore.Time

namespace Instant

/-- What the clock of the calendar can hold: its years, and at most two seconds of nanoseconds. -/
def Representable (t : Instant) : Prop :=
  inRange t.seconds = true ∧ t.nanos < 2 * nanosPerSecond

/-- The moment that the text of a moment names. -/
def settle (t : Instant) : Instant :=
  if nanosPerSecond ≤ t.nanos ∧ t.seconds % 60 ≠ 59 then ⟨t.seconds + 1, t.nanos - nanosPerSecond⟩
  else t

end Instant

namespace Rfc3339

open AuthCore.Text (dropBlanks)
open AuthCore.Text.Decimal (padded)

theorem toNat_of_isDigit {c : Char} (h : c.isDigit = true) : 48 ≤ c.toNat ∧ c.toNat ≤ 57 := by
  simp only [Char.isDigit, Bool.and_eq_true, decide_eq_true_eq] at h
  exact h

theorem isBlank_of_isDigit {c : Char} (h : c.isDigit = true) : Text.isBlank c = false := by
  obtain ⟨hlow, hhigh⟩ := toNat_of_isDigit h
  simp only [Text.isBlank, Bool.or_eq_false_iff, Bool.and_eq_false_iff, decide_eq_false_iff_not,
    beq_eq_false_iff_ne]
  omega

theorem dropBlanks_cons {c : Char} (h : Text.isBlank c = false) (cs : List Char) :
    dropBlanks (c :: cs) = c :: cs := by
  simp [dropBlanks, h]

theorem head_padded (width n : Nat) :
    ∃ c cs, padded width n = c :: cs ∧ c.isDigit = true := by
  cases hhead : padded width n with
  | nil => exact absurd hhead (Text.Decimal.padded_ne_nil width n)
  | cons c cs =>
    exact ⟨c, cs, rfl, Text.Decimal.isDigit_of_mem_padded width n (by simp [hhead])⟩

theorem dropBlanks_padded (width n : Nat) (rest : List Char) :
    dropBlanks (padded width n ++ rest) = padded width n ++ rest := by
  obtain ⟨c, cs, hhead, hc⟩ := head_padded width n
  rw [hhead, List.cons_append, dropBlanks_cons (isBlank_of_isDigit hc)]

theorem takeWhile_take {ds : List Char} (rest : List Char) {width : Nat}
    (hds : ∀ c ∈ ds, c.isDigit = true)
    (hlength : ds.length ≤ width)
    (hstop : ds.length = width ∨ ∃ c r, rest = c :: r ∧ Text.Decimal.isDigit c = false) :
    ((ds ++ rest).take width).takeWhile Text.Decimal.isDigit = ds := by
  rw [List.take_append, List.take_of_length_le hlength, List.takeWhile_append_of_pos
    fun c hc => Text.Decimal.isDigit_of_char (hds c hc)]
  rcases hstop with h | ⟨c, r, rfl, hc⟩
  · simp [h]
  · cases hcount : width - ds.length with
    | zero => simp
    | succ k => simp [hc]

theorem number?_padded (width n : Nat) {bound : Nat} (rest : List Char)
    (hlength : (padded width n).length ≤ bound)
    (hstop : (padded width n).length = bound ∨
      ∃ c r, rest = c :: r ∧ Text.Decimal.isDigit c = false) :
    number? bound (padded width n ++ rest) = some (n, rest) := by
  have htake := takeWhile_take rest (fun _ => Text.Decimal.isDigit_of_mem_padded width n)
    hlength hstop
  simp [number?, htake, Text.Decimal.read?_padded]

theorem field?_padded {n : Nat} (h : n < 100) (rest : List Char) :
    field? (padded 2 n ++ rest) = some (n, rest) := by
  have hlength := Text.Decimal.length_padded (by decide) (show Nat.pow 10 2 = 100 from rfl) h
  rw [field?, dropBlanks_padded, number?_padded 2 n rest (Nat.le_of_eq hlength) (.inl hlength)]

theorem mark?_cons {c : Char} (h : Text.isBlank c = false) (rest : List Char) :
    mark? c (c :: rest) = some rest := by
  simp [mark?, dropBlanks_cons h]

theorem year?_writeYear (year : Int) (rest : List Char) :
    year? (writeYear year ++ '-' :: rest) = some (year, '-' :: rest) := by
  have hstop : ∃ c r, '-' :: rest = c :: r ∧ Text.Decimal.isDigit c = false :=
    ⟨'-', rest, rfl, by decide⟩
  by_cases hshort : 0 ≤ year ∧ year ≤ 9999
  · have hlength := Text.Decimal.length_padded (by decide) (show Nat.pow 10 4 = 10000 from rfl)
      (show year.toNat < 10000 by omega)
    have hread := number?_padded 4 year.toNat ('-' :: rest) (Nat.le_of_eq hlength) (.inl hlength)
    obtain ⟨c, cs, hhead, hc⟩ := head_padded 4 year.toNat
    have hsign : c ≠ '-' ∧ c ≠ '+' := by
      constructor <;> rintro rfl <;> exact absurd hc (by decide)
    have hyear : ((year.toNat : Nat) : Int) = year := by omega
    rw [hhead, List.cons_append] at hread
    rw [writeYear, if_pos hshort, year?, dropBlanks_padded, hhead, List.cons_append]
    simp [hsign, hread, hyear]
  · have hread := number?_padded 4 year.natAbs ('-' :: rest)
      (show _ ≤ (padded 4 year.natAbs ++ '-' :: rest).length by simp) (.inr hstop)
    rw [writeYear, if_neg hshort, year?]
    by_cases hneg : year < 0
    · rw [if_pos hneg, List.cons_append, dropBlanks_cons (by decide)]
      simp only [hread, Option.map_some]
      rw [show -(year.natAbs : Int) = year by omega]
    · rw [if_neg hneg, List.cons_append, dropBlanks_cons (by decide)]
      simp only [hread, Option.map_some]
      rw [show (year.natAbs : Int) = year by omega]

theorem fraction?_point {width bound scale n : Nat} (hpos : 0 < width) (hwidth : width ≤ 9)
    (hbound : Nat.pow 10 width = bound) (hscale : Nat.pow 10 (9 - width) = scale) (h : n < bound)
    (rest : List Char) :
    fraction? ('.' :: padded width n ++ 'Z' :: rest) = some (n * scale, 'Z' :: rest) := by
  have hlength := Text.Decimal.length_padded hpos hbound h
  have htake := takeWhile_take ('Z' :: rest)
    (fun _ => Text.Decimal.isDigit_of_mem_padded width n) (hlength ▸ hwidth)
    (.inr ⟨'Z', rest, rfl, by decide⟩)
  have hz : Text.Decimal.isDigit 'Z' = false := by decide
  simp only [List.cons_append, fraction?, htake, Text.Decimal.read?_padded, hlength,
    List.drop_left' hlength, List.dropWhile_cons, hz]
  rw [← hscale]
  rfl

theorem fraction?_writeFraction {n : Nat} (h : n < nanosPerSecond) (rest : List Char) :
    fraction? (writeFraction n ++ 'Z' :: rest) = some (n, 'Z' :: rest) := by
  simp only [nanosPerSecond] at h
  unfold writeFraction
  split
  · rename_i hzero
    simp [fraction?, hzero]
  split
  · rename_i hmilli
    rw [fraction?_point (by decide) (by decide) (show Nat.pow 10 3 = 1000 from rfl)
      (show Nat.pow 10 6 = 1000000 from rfl) (by omega)]
    rw [show n / 1000000 * 1000000 = n by omega]
  split
  · rename_i hmicro
    rw [fraction?_point (by decide) (by decide) (show Nat.pow 10 6 = 1000000 from rfl)
      (show Nat.pow 10 3 = 1000 from rfl) (by omega)]
    rw [show n / 1000 * 1000 = n by omega]
  · rw [fraction?_point (by decide) (by decide) (show Nat.pow 10 9 = 1000000000 from rfl)
      (show Nat.pow 10 0 = 1 from rfl) h]
    rw [Nat.mul_one]

theorem date?_written (d : Date) (hmonth : d.month < 100) (hday : d.day < 100) (rest : List Char) :
    date? (writeYear d.year ++ '-' :: (padded 2 d.month ++ '-' :: (padded 2 d.day ++ rest))) =
      some (d, rest) := by
  simp only [date?, year?_writeYear, mark?_cons (show Text.isBlank '-' = false by decide),
    field?_padded hmonth, field?_padded hday, Option.bind_eq_bind, Option.bind_some,
    Option.pure_def]

/-- The clock of a moment: `second` may be 60, which stands for the leap second. -/
theorem time?_written {hour minute second nanos : Nat} (hhour : hour < 24) (hminute : minute < 60)
    (hsecond : second < 61) (hnanos : nanos < nanosPerSecond) (rest : List Char) :
    time? (padded 2 hour ++ ':' :: (padded 2 minute ++ ':' :: (padded 2 second ++
      (writeFraction nanos ++ 'Z' :: rest)))) =
      some (if second = 60 then
          (hour * 3600 + minute * 60 + 59, nanos + nanosPerSecond, 'Z' :: rest)
        else (hour * 3600 + minute * 60 + second, nanos, 'Z' :: rest)) := by
  have hrange : ¬ (24 ≤ hour ∨ 60 ≤ minute ∨ 61 ≤ second) := by omega
  simp only [time?, field?_padded (show hour < 100 by omega),
    field?_padded (show minute < 100 by omega), field?_padded (show second < 100 by omega),
    mark?_cons (show Text.isBlank ':' = false by decide), fraction?_writeFraction hnanos, hrange,
    Option.bind_eq_bind, Option.bind_some, Option.pure_def, ↓reduceIte]

theorem secondOfDay_lt (t : Instant) : t.secondOfDay < 86400 := by
  simp only [Instant.secondOfDay, secondsPerDay]
  omega

theorem day_time (t : Instant) : t.dayOf * secondsPerDay + t.secondOfDay = t.seconds := by
  simp only [Instant.dayOf, Instant.secondOfDay, secondsPerDay]
  omega

theorem lastSecond_mod : Instant.lastSecond % 60 = 59 := by decide

theorem inRange_settle {t : Instant} (h : t.Representable) :
    Instant.inRange t.settle.seconds = true := by
  obtain ⟨hrange, _⟩ := h
  unfold Instant.settle
  split
  · rename_i hleap
    have hlast := lastSecond_mod
    simp only [Instant.inRange, Bool.and_eq_true, decide_eq_true_eq] at hrange ⊢
    omega
  · exact hrange

theorem instant_ext {s s' : Int} {n n' : Nat} (hseconds : s = s') (hnanos : n = n') :
    (⟨s, n⟩ : Instant) = ⟨s', n'⟩ := by
  rw [hseconds, hnanos]

theorem settle_eq {t : Instant} (h : t.Representable) :
    t.settle = if t.secondOfDay % 60 + t.nanos / nanosPerSecond = 60 then
        ⟨t.dayOf * secondsPerDay +
            (t.secondOfDay / 3600 * 3600 + t.secondOfDay / 60 % 60 * 60 + 59 : Nat),
          t.nanos % nanosPerSecond + nanosPerSecond⟩
      else ⟨t.dayOf * secondsPerDay + (t.secondOfDay / 3600 * 3600 + t.secondOfDay / 60 % 60 * 60 +
          (t.secondOfDay % 60 + t.nanos / nanosPerSecond) : Nat), t.nanos % nanosPerSecond⟩ := by
  have hday := day_time t
  have hbound := secondOfDay_lt t
  have hminute : t.seconds % 60 = (t.secondOfDay % 60 : Nat) := by
    simp only [secondsPerDay] at hday
    omega
  have hnanos := h.2
  by_cases hleap : nanosPerSecond ≤ t.nanos
  · have hdiv : t.nanos / nanosPerSecond = 1 := by
      simp only [nanosPerSecond] at hleap hnanos ⊢
      omega
    have hmod : t.nanos % nanosPerSecond = t.nanos - nanosPerSecond := by
      simp only [nanosPerSecond] at hleap hnanos ⊢
      omega
    rw [hdiv, hmod]
    by_cases hend : t.secondOfDay % 60 = 59
    · rw [Instant.settle, if_neg (by omega), if_pos (by omega)]
      exact instant_ext (by omega) (by omega)
    · rw [Instant.settle, if_pos ⟨hleap, by omega⟩, if_neg (by omega)]
      exact instant_ext (by omega) rfl
  · have hdiv : t.nanos / nanosPerSecond = 0 := Nat.div_eq_of_lt (by omega)
    have hmod : t.nanos % nanosPerSecond = t.nanos := Nat.mod_eq_of_lt (by omega)
    rw [hdiv, hmod, Instant.settle, if_neg fun hcond => hleap hcond.1, if_neg (by omega)]
    exact instant_ext (by omega) rfl

theorem writeChars_settle {t : Instant} (h : t.Representable) :
    writeChars t.settle = writeChars t := by
  have hnanos := h.2
  unfold Instant.settle
  split
  · rename_i hinside
    obtain ⟨hleap, hend⟩ := hinside
    -- The next second is of the same minute, and the one that the nanoseconds carry is gone.
    have hday : Instant.dayOf ⟨t.seconds + 1, t.nanos - nanosPerSecond⟩ = t.dayOf := by
      simp only [Instant.dayOf, secondsPerDay]
      omega
    have hsecond : Instant.secondOfDay ⟨t.seconds + 1, t.nanos - nanosPerSecond⟩ =
        t.secondOfDay + 1 := by
      simp only [Instant.secondOfDay, secondsPerDay]
      omega
    have hminute : t.secondOfDay % 60 ≠ 59 := by
      simp only [Instant.secondOfDay, secondsPerDay]
      omega
    have hhour : (t.secondOfDay + 1) / 3600 = t.secondOfDay / 3600 := by omega
    have hminutes : (t.secondOfDay + 1) / 60 = t.secondOfDay / 60 := by omega
    have hwhole : (t.nanos - nanosPerSecond) / nanosPerSecond = 0 :=
      Nat.div_eq_of_lt (by omega)
    have hcarried : t.nanos / nanosPerSecond = 1 := by
      simp only [nanosPerSecond] at hleap hnanos ⊢
      omega
    have hfraction : (t.nanos - nanosPerSecond) % nanosPerSecond = t.nanos % nanosPerSecond :=
      (Nat.mod_eq_sub_mod hleap).symm
    have hseconds : (t.secondOfDay + 1) % 60 + 0 = t.secondOfDay % 60 + 1 := by omega
    simp only [writeChars, hday, hsecond, hhour, hminutes, hwhole, hcarried, hfraction, hseconds]
  · rfl

theorem readChars?_writeChars {t : Instant} (h : t.Representable) :
    readChars? (writeChars t) = some t.settle := by
  have hvalid := Date.valid_ofDays t.dayOf
  have hmonth : (Date.ofDays t.dayOf).month < 100 := by
    have := hvalid.2.1
    omega
  have hday : (Date.ofDays t.dayOf).day < 100 := by
    have hlength :
        Date.monthLength (Date.ofDays t.dayOf).year (Date.ofDays t.dayOf).month ≤ 31 := by
      unfold Date.monthLength
      repeat' split
      all_goals omega
    have := hvalid.2.2.2
    omega
  have hsecond := secondOfDay_lt t
  have hnanos : t.nanos / nanosPerSecond ≤ 1 := by
    have := h.2
    simp only [nanosPerSecond] at this ⊢
    omega
  have htime := time?_written (show t.secondOfDay / 3600 < 24 by omega)
    (show t.secondOfDay / 60 % 60 < 60 by omega)
    (show t.secondOfDay % 60 + t.nanos / nanosPerSecond < 61 by omega)
    (Nat.mod_lt t.nanos (by decide)) []
  have hoffset : offset? (dropBlanks ['Z']) = some (0, []) := by decide
  have hseparator (cs : List Char) : separator? ('T' :: cs) = some cs := rfl
  have hrange := inRange_settle h
  rw [settle_eq h] at hrange ⊢
  simp only [readChars?, writeChars, date?_written _ hmonth hday, hseparator, htime,
    Option.bind_eq_bind, Option.bind_some, Date.toDays_ofDays]
  by_cases hleap : t.secondOfDay % 60 + t.nanos / nanosPerSecond = 60
  · rw [if_pos hleap] at hrange ⊢
    simp only [if_pos hleap, hoffset, Option.bind_some, Int.sub_zero, hrange, hvalid]
    rfl
  · rw [if_neg hleap] at hrange ⊢
    simp only [if_neg hleap, hoffset, Option.bind_some, Int.sub_zero, hrange, hvalid]
    rfl

theorem read?_write {t : Instant} (h : t.Representable) : read? (write t) = some t.settle := by
  rw [read?, write, String.toList_ofList, readChars?_writeChars h]

end Rfc3339

end AuthCore.Time
