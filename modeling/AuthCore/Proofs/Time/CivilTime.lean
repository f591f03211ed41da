import AuthCore.Proofs.Time.InstantText

/-!
Moments of civil time: those that the calendar's text can name. A leap second is the last second of
its minute there, so the text of a moment names no other moment, and whatever is read from a text
is of this kind.
-/

set_option autoImplicit false

namespace AuthCore

theorem Text.Decimal.digitValue?_lt {c : Char} {d : Nat} (h : digitValue? c = some d) : d < 10 := by
  unfold digitValue? at h
  split at h
  · rename_i hrange
    have hhigh : c.toNat ≤ '9'.toNat := hrange.2
    have hnine : '9'.toNat = 57 := rfl
    have hzero : '0'.toNat = 48 := rfl
    cases h
    omega
  · cases h

theorem Text.Decimal.readFrom?_lt {acc n : Nat} {cs : List Char} (h : readFrom? acc cs = some n) :
    n < (acc + 1) * Nat.pow 10 cs.length := by
  induction cs generalizing acc with
  | nil =>
    cases h
    exact Nat.lt_of_lt_of_eq (Nat.lt_succ_self _) (Nat.mul_one _).symm
  | cons c cs ih =>
    unfold readFrom? at h
    split at h
    · rename_i d hd
      have hdigit := digitValue?_lt hd
      calc n < (acc * 10 + d + 1) * Nat.pow 10 cs.length := ih h
        _ ≤ (acc + 1) * 10 * Nat.pow 10 cs.length := Nat.mul_le_mul_right _ (by omega)
        _ = (acc + 1) * (Nat.pow 10 cs.length * 10) := by rw [Nat.mul_assoc, Nat.mul_comm 10]
    · cases h

theorem Text.Decimal.read?_lt {n : Nat} {cs : List Char} (h : read? cs = some n) :
    n < Nat.pow 10 cs.length := by
  cases cs with
  | nil => cases h
  | cons c cs => simpa only [Nat.zero_add, Nat.one_mul] using readFrom?_lt h

namespace Time

/-- A moment that the calendar can hold and that its text can name. -/
def Instant.Civil (t : Instant) : Prop :=
  t.Representable ∧ (nanosPerSecond ≤ t.nanos → t.seconds % 60 = 59)

instance (t : Instant) : Decidable t.Representable := inferInstanceAs (Decidable (_ ∧ _))

instance (t : Instant) : Decidable t.Civil := inferInstanceAs (Decidable (_ ∧ _))

theorem Instant.settle_eq_iff {t : Instant} (h : t.Representable) : t.settle = t ↔ t.Civil := by
  unfold settle
  split
  · rename_i hinside
    refine iff_of_false (fun heq => ?_) fun hcivil => hinside.2 (hcivil.2 hinside.1)
    have hseconds := congrArg Instant.seconds heq
    simp only at hseconds
    omega
  · rename_i hcivil
    exact iff_of_true rfl ⟨h, fun hleap => Decidable.byContradiction fun hend =>
      hcivil ⟨hleap, hend⟩⟩

/-- The moment `t` in nanoseconds, as the difference to `now` counts it: seen from a later time of
day, a leap second is the second before it. -/
def Instant.seenFrom (t now : Instant) : Int :=
  if nanosPerSecond ≤ t.nanos ∧ t.secondOfDay < now.secondOfDay then t.toNanos - nanosPerSecond
  else t.toNanos

theorem Instant.leapBetween_eq {t now : Instant} (hnow : now.nanos < nanosPerSecond) :
    t.leapBetween now =
      if nanosPerSecond ≤ t.nanos ∧ t.secondOfDay < now.secondOfDay then -1 else 0 := by
  have hplain : ¬ nanosPerSecond ≤ now.nanos := by omega
  unfold leapBetween
  by_cases hlater : now.secondOfDay < t.secondOfDay
  · rw [if_pos hlater, if_neg hplain, if_neg (by omega)]
  · by_cases hearlier : t.secondOfDay < now.secondOfDay
    · simp only [if_neg hlater, hearlier, and_true, ↓reduceIte]
    · rw [if_neg hlater, if_neg hearlier, if_neg (by omega)]

theorem Instant.toNanos_add_since {t now : Instant} (hnow : now.nanos < nanosPerSecond) :
    now.toNanos + t.since now = t.seenFrom now := by
  rw [since, leapBetween_eq hnow, seenFrom]
  by_cases hleap : nanosPerSecond ≤ t.nanos ∧ t.secondOfDay < now.secondOfDay
  · rw [if_pos hleap, if_pos hleap]
    simp only [toNanos, nanosPerSecond]
    omega
  · rw [if_neg hleap, if_neg hleap]
    simp only [toNanos, nanosPerSecond]
    omega

theorem Instant.seenFrom_of_plain {t now : Instant}
    (h : t.nanos < nanosPerSecond ∨ now.secondOfDay ≤ t.secondOfDay) :
    t.seenFrom now = t.toNanos := by
  rw [seenFrom, if_neg]
  omega

theorem Instant.seenFrom_of_leap {t now : Instant} (hleap : nanosPerSecond ≤ t.nanos)
    (hlater : t.secondOfDay < now.secondOfDay) : t.seenFrom now = t.toNanos - nanosPerSecond :=
  if_pos ⟨hleap, hlater⟩

namespace Rfc3339

theorem fraction?_lt {cs rest : List Char} {nanos : Nat} (h : fraction? cs = some (nanos, rest)) :
    nanos < nanosPerSecond := by
  unfold fraction? at h
  split at h
  · rename_i digits
    simp only [Option.bind_eq_bind, Option.bind_eq_some_iff] at h
    obtain ⟨n, hread, h⟩ := h
    cases h
    generalize hds : (digits.take 9).takeWhile Text.Decimal.isDigit = ds at hread
    have hlength : ds.length ≤ 9 := by
      have htake := (List.takeWhile_sublist Text.Decimal.isDigit (l := digits.take 9)).length_le
      rw [hds, List.length_take] at htake
      omega
    have hn := Text.Decimal.read?_lt hread
    calc n * Nat.pow 10 (9 - ds.length)
        < Nat.pow 10 ds.length * Nat.pow 10 (9 - ds.length) :=
          Nat.mul_lt_mul_of_pos_right hn (Nat.pow_pos (by decide))
      _ = Nat.pow 10 (ds.length + (9 - ds.length)) := (Nat.pow_add 10 _ _).symm
      _ = Nat.pow 10 9 := by rw [Nat.add_sub_cancel' hlength]
  · cases h
    decide

theorem time?_civil {cs rest : List Char} {second nanos : Nat}
    (h : time? cs = some (second, nanos, rest)) :
    nanos < 2 * nanosPerSecond ∧ (nanosPerSecond ≤ nanos → second % 60 = 59) := by
  simp only [time?, Option.bind_eq_bind, Option.bind_eq_some_iff] at h
  obtain ⟨⟨hour, _⟩, _, _, _, ⟨minute, _⟩, _, _, _, ⟨s, _⟩, _, ⟨fraction, _⟩, hfraction, h⟩ := h
  have hlt := fraction?_lt hfraction
  split at h
  · cases h
  · split at h
    · cases h
      omega
    · cases h
      omega

theorem offset?_mod {cs rest : List Char} {offset : Int} (h : offset? cs = some (offset, rest)) :
    offset % 60 = 0 := by
  have hdigits : ∀ {cs rest : List Char} {o : Int}, offsetDigits? cs = some (o, rest) →
      o % 60 = 0 := by
    intro cs rest o ho
    simp only [offsetDigits?, Option.bind_eq_bind, Option.bind_eq_some_iff] at ho
    obtain ⟨⟨hours, _⟩, _, ⟨minutes, _⟩, _, ho⟩ := ho
    split at ho
    · cases ho
      omega
    · cases ho
  unfold offset? at h
  split at h
  · cases h
  · repeat' split at h
    · cases h
      rfl
    · cases h
      rfl
    · exact hdigits h
    · obtain ⟨⟨o, _⟩, ho, heq⟩ := Option.map_eq_some_iff.mp h
      have hmod := hdigits ho
      cases heq
      omega
    · cases h

theorem civil_of_readChars? {cs : List Char} {t : Instant} (h : readChars? cs = some t) :
    t.Civil := by
  simp only [readChars?, Option.bind_eq_bind, Option.bind_eq_some_iff] at h
  obtain ⟨⟨date, _⟩, _, _, _, ⟨second, nanos, _⟩, htime, ⟨offset, _⟩, hoffset, h⟩ := h
  split at h
  · rename_i hvalid
    obtain ⟨hnanos, hleap⟩ := time?_civil htime
    have hwhole := offset?_mod hoffset
    cases h
    refine ⟨⟨hvalid.2.2.2, hnanos⟩, fun hlong => ?_⟩
    have hend := hleap hlong
    simp only [secondsPerDay]
    omega
  · cases h

theorem civil_of_read? {s : String} {t : Instant} (h : read? s = some t) : t.Civil :=
  civil_of_readChars? h

end Rfc3339

end Time

end AuthCore
