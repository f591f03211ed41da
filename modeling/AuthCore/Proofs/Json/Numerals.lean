import AuthCore.Json.Reader
import AuthCore.Proofs.Text.DecimalDigits

set_option autoImplicit false

namespace AuthCore.Json

open Reader

def shown (cs : List Char) : Input := cs.map some

theorem shown_append (cs ds : List Char) : shown (cs ++ ds) = shown cs ++ shown ds :=
  List.map_append

theorem shown_cons (c : Char) (cs : List Char) : shown (c :: cs) = some c :: shown cs := rfl

def Stops : Input → Prop
  | some c :: _ => Text.Decimal.digitValue? c = none ∧ c ≠ '.' ∧ c ≠ 'e' ∧ c ≠ 'E'
  | _ => True

theorem stops_cons {c : Char}
    (h : Text.Decimal.digitValue? c = none ∧ c ≠ '.' ∧ c ≠ 'e' ∧ c ≠ 'E') (i : Input) :
    Stops (some c :: i) :=
  h

def figures (ds : List Char) : List Nat := ds.map fun c => c.toNat - '0'.toNat

structure Digits (ds : List Char) : Prop where
  ne_nil : ds ≠ []
  isDigit : ∀ c ∈ ds, c.isDigit = true

inductive Whole : List Char → Prop where
  | zero : Whole ['0']
  | digits {c : Char} {ds : List Char} (h : Digits (c :: ds)) (hc : c ≠ '0') : Whole (c :: ds)

inductive Fraction : List Char → List Char → Prop where
  | absent : Fraction [] []
  | point {ds : List Char} (h : Digits ds) : Fraction ds ('.' :: ds)

inductive Exponent : Int → List Char → Prop where
  | absent : Exponent 0 []
  | plain {e : Char} {ds : List Char} (he : e = 'e' ∨ e = 'E') (h : Digits ds) :
    Exponent (magnitude (figures ds)) (e :: ds)
  | plus {e : Char} {ds : List Char} (he : e = 'e' ∨ e = 'E') (h : Digits ds) :
    Exponent (magnitude (figures ds)) (e :: '+' :: ds)
  | minus {e : Char} {ds : List Char} (he : e = 'e' ∨ e = 'E') (h : Digits ds) :
    Exponent (-(magnitude (figures ds) : Int)) (e :: '-' :: ds)

def gathered (ds fs : List Char) : Gathered :=
  (figures fs).foldl Gathered.fraction
    { (figures ds).foldl Gathered.whole ⟨0, 0, false⟩ with full := false }

theorem gathered_nil (ds : List Char) : gathered ds [] =
    { (figures ds).foldl Gathered.whole ⟨0, 0, false⟩ with full := false } := rfl

inductive Unsigned (negative : Bool) : Number → List Char → Prop where
  | whole {ds : List Char} (h : Whole ds) :
    Unsigned negative (.integer negative (magnitude (figures ds))) ds
  | decimal {ds fs point power : List Char} {e : Int} (h : Whole ds) (hpoint : Fraction fs point)
    (hpower : Exponent e power) (hne : point ++ power ≠ []) :
    Unsigned negative
      (.decimal negative (gathered ds fs).significand ((gathered ds fs).exponent + e))
      (ds ++ (point ++ power))

inductive Numeral : Number → List Char → Prop where
  | plain {n : Number} {cs : List Char} (h : Unsigned false n cs) : Numeral n cs
  | minus {n : Number} {cs : List Char} (h : Unsigned true n cs) : Numeral n ('-' :: cs)

theorem digits_figures {ds : List Char} (h : ∀ c ∈ ds, c.isDigit = true) {rest : Input}
    (hrest : Reader.digits rest = ([], rest)) :
    Reader.digits (shown ds ++ rest) = (figures ds, rest) := by
  induction ds with
  | nil => exact hrest
  | cons c ds ih =>
    have hc := Text.Decimal.digitValue?_of_isDigit (h c (by simp))
    have htail := ih fun d hd => h d (by simp [hd])
    rw [shown_cons, List.cons_append, Reader.digits, hc]
    simp [htail, figures]

theorem Stops.digits {i : Input} (h : Stops i) : Reader.digits i = ([], i) := by
  match i with
  | [] | none :: _ => rfl
  | some c :: rest => rw [Reader.digits, h.1]

theorem digits_of_head {c : Char} (h : Text.Decimal.digitValue? c = none) (i : Input) :
    Reader.digits (some c :: i) = ([], some c :: i) := by
  rw [Reader.digits, h]

theorem eq_of_digits {i rest : Input} {ns : List Nat} (h : Reader.digits i = (ns, rest)) :
    ∃ ds, (∀ c ∈ ds, c.isDigit = true) ∧ ns = figures ds ∧ i = shown ds ++ rest := by
  induction i generalizing ns with
  | nil =>
    cases h
    exact ⟨[], by simp, rfl, rfl⟩
  | cons piece i ih =>
    cases piece with
    | none =>
      cases h
      exact ⟨[], by simp, rfl, rfl⟩
    | some c =>
      rw [Reader.digits] at h
      split at h
      · rename_i d hd
        obtain ⟨ns', hrest⟩ : ∃ ns', Reader.digits i = (ns', rest) := by
          cases h
          exact ⟨_, rfl⟩
        rw [hrest] at h
        cases h
        have hdigit := Text.Decimal.isDigit_of_digitValue? hd
        obtain ⟨ds, hds, rfl, rfl⟩ := ih hrest
        refine ⟨c :: ds, List.forall_mem_cons.mpr ⟨hdigit, hds⟩, ?_, rfl⟩
        rw [Text.Decimal.digitValue?_of_isDigit hdigit] at hd
        cases hd
        rfl
      · cases h
        exact ⟨[], by simp, rfl, rfl⟩

theorem digitValue?_exponentMark {e : Char} (he : e = 'e' ∨ e = 'E') :
    Text.Decimal.digitValue? e = none := by
  rcases he with rfl | rfl <;> decide

theorem digits_exponent {e : Int} {power : List Char} (h : Exponent e power) {rest : Input}
    (hrest : Stops rest) :
    Reader.digits (shown power ++ rest) = ([], shown power ++ rest) := by
  cases h with
  | absent => exact hrest.digits
  | plain he | plus he | minus he => exact digits_of_head (digitValue?_exponentMark he) _

theorem figures_ne_nil {ds : List Char} (h : Digits ds) : figures ds ≠ [] := by
  rw [figures, Ne, List.map_eq_nil_iff]
  exact h.ne_nil

theorem digits_of_figures_ne_nil {ds : List Char} (h : ∀ c ∈ ds, c.isDigit = true)
    (hne : figures ds ≠ []) : Digits ds := by
  refine ⟨?_, h⟩
  rintro rfl
  exact hne rfl

theorem exponent?_of_exponent {e : Int} {mark : Char} {cs : List Char}
    (h : Exponent e (mark :: cs)) {rest : Input} (hrest : Stops rest) :
    exponent? (shown cs ++ rest) = some (e, rest) := by
  cases h with
  | plain _ hds =>
    have hread := digits_figures hds.isDigit hrest.digits
    obtain ⟨c, ds, rfl⟩ := List.exists_cons_of_ne_nil hds.ne_nil
    have hdigit := hds.isDigit c (by simp)
    have hminus : c ≠ '-' := by rintro rfl; exact absurd hdigit (by decide)
    have hplus : c ≠ '+' := by rintro rfl; exact absurd hdigit (by decide)
    simp_all [exponent?, shown, figures]
  | plus _ hds | minus _ hds =>
    have hread := digits_figures hds.isDigit hrest.digits
    obtain ⟨n, ns, hns⟩ := List.exists_cons_of_ne_nil (figures_ne_nil hds)
    rw [hns] at hread ⊢
    simp [exponent?, shown_cons, hread]

theorem exponent_of_exponent? {e : Int} {i rest : Input} (h : exponent? i = some (e, rest))
    {mark : Char} (hmark : mark = 'e' ∨ mark = 'E') :
    ∃ cs, Exponent e (mark :: cs) ∧ i = shown cs ++ rest := by
  unfold exponent? at h
  dsimp only at h
  split at h
  · cases h
  · rename_i ns after hne hread
    obtain ⟨ds, hds, rfl, hi⟩ := eq_of_digits hread
    have hdigits : Digits ds := by
      refine ⟨?_, hds⟩
      rintro rfl
      exact hne rfl
    cases h
    split at hi
    · exact ⟨_, .minus hmark hdigits, by simp_all [shown]⟩
    · exact ⟨_, .plus hmark hdigits, by simp_all [shown]⟩
    · exact ⟨_, .plain hmark hdigits, by simp_all [shown]⟩

theorem finish?_of_exponent {e : Int} {power : List Char} (h : Exponent e power)
    (negative : Bool) (g : Gathered) {rest : Input} (hrest : Stops rest) :
    finish? negative g (shown power ++ rest) =
      some (.decimal negative g.significand (g.exponent + e), rest) := by
  cases power with
  | nil =>
    cases h
    match rest with
    | [] | none :: _ => simp [shown, finish?]
    | some c :: rest => simp [shown, finish?, hrest.2.2.1, hrest.2.2.2]
  | cons mark cs =>
    have hmark : mark = 'e' ∨ mark = 'E' := by cases h <;> assumption
    rw [shown_cons, List.cons_append, finish?, if_pos hmark, exponent?_of_exponent h hrest]
    rfl

theorem exponent_of_finish?_mark {negative : Bool} {g : Gathered} {n : Number} {mark : Char}
    (hmark : mark = 'e' ∨ mark = 'E') {i rest : Input}
    (h : finish? negative g (some mark :: i) = some (n, rest)) :
    ∃ e cs, Exponent e (mark :: cs) ∧ i = shown cs ++ rest ∧
      n = .decimal negative g.significand (g.exponent + e) := by
  rw [finish?, if_pos hmark] at h
  obtain ⟨⟨e, after⟩, hread, hend⟩ := Option.map_eq_some_iff.mp h
  cases hend
  obtain ⟨cs, hexponent, hi⟩ := exponent_of_exponent? hread hmark
  exact ⟨e, cs, hexponent, hi, rfl⟩

theorem exponent_of_finish? {negative : Bool} {g : Gathered} {n : Number} {i rest : Input}
    (h : finish? negative g i = some (n, rest)) : ∃ e power, Exponent e power ∧
      i = shown power ++ rest ∧ n = .decimal negative g.significand (g.exponent + e) := by
  by_cases hmark : ∃ mark after, i = some mark :: after ∧ (mark = 'e' ∨ mark = 'E')
  · obtain ⟨mark, after, rfl, hmark⟩ := hmark
    obtain ⟨e, cs, hexponent, rfl, hn⟩ := exponent_of_finish?_mark hmark h
    exact ⟨e, mark :: cs, hexponent, rfl, hn⟩
  · have hwhole : n = .decimal negative g.significand g.exponent ∧ i = rest := by
      unfold finish? at h
      split at h
      · rw [if_neg fun he => hmark ⟨_, _, rfl, he⟩] at h
        cases h
        exact ⟨rfl, rfl⟩
      · cases h
        exact ⟨rfl, rfl⟩
    exact ⟨0, [], .absent, hwhole.2, by rw [hwhole.1, Int.add_zero]⟩

theorem figures_of_whole {ds : List Char} (h : Whole ds) :
    figures ds = [0] ∨ ∃ n ns, figures ds = (n + 1) :: ns := by
  cases h with
  | zero => exact .inl (by decide)
  | @digits c ds h hc =>
    have hdigit := h.isDigit c (by simp)
    simp only [Char.isDigit, Bool.and_eq_true, decide_eq_true_eq] at hdigit
    have hlow : 48 ≤ c.toNat := hdigit.1
    have hne : c.toNat ≠ 48 := by
      intro hzero
      apply hc
      rw [← Char.ofNat_toNat c, hzero]
    refine .inr ⟨c.toNat - 49, figures ds, ?_⟩
    rw [figures, List.map_cons, figures]
    congr 1
    change c.toNat - 48 = c.toNat - 49 + 1
    omega

theorem whole_of_figures {ds : List Char} (h : Digits ds)
    (hguard : ∀ n ns, figures ds ≠ 0 :: n :: ns) : Whole ds := by
  obtain ⟨c, cs, rfl⟩ := List.exists_cons_of_ne_nil h.ne_nil
  by_cases hc : c = '0'
  · subst hc
    cases cs with
    | nil => exact .zero
    | cons d cs => exact absurd rfl (hguard _ _)
  · exact .digits h hc

theorem Whole.isDigit {ds : List Char} (h : Whole ds) : ∀ c ∈ ds, c.isDigit = true := by
  cases h with
  | zero =>
    intro c hc
    rw [List.mem_singleton.mp hc]
    rfl
  | digits h => exact h.isDigit

theorem unsigned?_of_unsigned {negative : Bool} {n : Number} {cs : List Char}
    (h : Unsigned negative n cs) {rest : Input} (hrest : Stops rest) :
    unsigned? negative (shown cs ++ rest) = some (n, rest) := by
  cases h with
  | whole hds =>
    rw [unsigned?, digits_figures hds.isDigit hrest.digits]
    rcases figures_of_whole hds with hfigures | ⟨n, ns, hfigures⟩
    all_goals
      rw [hfigures]
      rcases rest with _ | ⟨_ | c, rest⟩
      · rfl
      · rfl
      · simp [hrest.2.1, hrest.2.2.1, hrest.2.2.2]
  | @decimal ds fs point power e hds hpoint hpower hne =>
    rw [shown_append, shown_append, List.append_assoc, List.append_assoc, unsigned?]
    cases hpoint with
    | absent =>
      have hfinish := finish?_of_exponent hpower negative
        ((figures ds).foldl Gathered.whole ⟨0, 0, false⟩) hrest
      obtain ⟨mark, cs, rfl⟩ := List.exists_cons_of_ne_nil hne
      have hmark : mark = 'e' ∨ mark = 'E' := by cases hpower <;> assumption
      have hdot : mark ≠ '.' := by rcases hmark with rfl | rfl <;> decide
      have hread := digits_figures hds.isDigit (digits_exponent hpower hrest)
      rw [show shown [] ++ (shown (mark :: cs) ++ rest) = shown (mark :: cs) ++ rest from rfl,
        hread]
      rw [shown_cons, List.cons_append] at hfinish ⊢
      rcases figures_of_whole hds with hfigures | ⟨n, ns, hfigures⟩
      all_goals
        rw [hfigures] at hfinish ⊢
        simpa [hdot, hmark, gathered_nil, hfigures] using hfinish
    | point hfs =>
      have hfinish := finish?_of_exponent hpower negative (gathered ds fs) hrest
      have hread := digits_figures hds.isDigit (digits_of_head (c := '.') (by decide)
        (shown fs ++ (shown power ++ rest)))
      have hbehind := digits_figures hfs.isDigit (digits_exponent hpower hrest)
      obtain ⟨k, ks, hks⟩ := List.exists_cons_of_ne_nil (figures_ne_nil hfs)
      rw [shown_cons, List.cons_append, hread]
      rw [hks] at hbehind
      rw [gathered, hks] at hfinish
      rcases figures_of_whole hds with hfigures | ⟨n, ns, hfigures⟩
      all_goals
        rw [hfigures] at hfinish ⊢
        simpa [hbehind, gathered, hks, hfigures] using hfinish

theorem unsigned_of_unsigned? {negative : Bool} {n : Number} {i rest : Input}
    (h : unsigned? negative i = some (n, rest)) :
    ∃ cs, Unsigned negative n cs ∧ i = shown cs ++ rest := by
  unfold unsigned? at h
  split at h
  · cases h
  · cases h
  · rename_i ns after hne hzero hread
    obtain ⟨ds, hds, rfl, rfl⟩ := eq_of_digits hread
    have hwhole : Whole ds := by
      refine whole_of_figures (digits_of_figures_ne_nil hds fun hnil => ?_) fun n ns hns => ?_
      · exact hne hnil
      · exact hzero _ _ hns
    dsimp only at h
    split at h
    · rename_i c more
      split at h
      · rename_i hdot
        subst hdot
        split at h
        · cases h
        · rename_i ks after hks hbehind
          obtain ⟨fs, hfs, rfl, rfl⟩ := eq_of_digits hbehind
          have hpoint : Fraction fs ('.' :: fs) :=
            .point (digits_of_figures_ne_nil hfs fun hnil => hks hnil)
          obtain ⟨e, power, hpower, rfl, rfl⟩ := exponent_of_finish? h
          refine ⟨_, .decimal hwhole hpoint hpower (by simp), ?_⟩
          simp [shown]
      · split at h
        · rename_i hmark
          obtain ⟨e, cs, hpower, rfl, rfl⟩ := exponent_of_finish?_mark hmark h
          exact ⟨_, .decimal hwhole .absent hpower (by simp), by simp [shown]⟩
        · cases h
          exact ⟨_, .whole hwhole, rfl⟩
    · cases h
      exact ⟨_, .whole hwhole, rfl⟩

theorem Unsigned.head {negative : Bool} {n : Number} {cs : List Char}
    (h : Unsigned negative n cs) : ∃ c tail, cs = c :: tail ∧ c.isDigit = true := by
  have hwhole {ds : List Char} (hds : Whole ds) : ∃ c tail, ds = c :: tail ∧ c.isDigit = true := by
    cases hds with
    | zero => exact ⟨'0', [], rfl, by decide⟩
    | digits h => exact ⟨_, _, rfl, h.isDigit _ (by simp)⟩
  cases h with
  | whole hds => exact hwhole hds
  | decimal hds =>
    obtain ⟨c, tail, rfl, hc⟩ := hwhole hds
    exact ⟨c, _, rfl, hc⟩

theorem Numeral.head {n : Number} {cs : List Char} (h : Numeral n cs) :
    ∃ c tail, cs = c :: tail ∧ (c = '-' ∨ c.isDigit = true) := by
  cases h with
  | plain h =>
    obtain ⟨c, tail, rfl, hc⟩ := h.head
    exact ⟨c, tail, rfl, .inr hc⟩
  | minus h => exact ⟨'-', _, rfl, .inl rfl⟩

theorem number?_of_numeral {n : Number} {cs : List Char} (h : Numeral n cs) {rest : Input}
    (hrest : Stops rest) : number? (shown cs ++ rest) = some (n, rest) := by
  cases h with
  | plain h =>
    have hread := unsigned?_of_unsigned h hrest
    obtain ⟨c, tail, rfl, hc⟩ := h.head
    have hminus : c ≠ '-' := by
      rintro rfl
      exact absurd hc (by decide)
    simpa [number?, shown, hminus] using hread
  | minus h => exact unsigned?_of_unsigned h hrest

theorem numeral_of_number? {n : Number} {i rest : Input} (h : number? i = some (n, rest)) :
    ∃ cs, Numeral n cs ∧ i = shown cs ++ rest := by
  unfold number? at h
  split at h
  · obtain ⟨cs, hcs, rfl⟩ := unsigned_of_unsigned? h
    exact ⟨'-' :: cs, .minus hcs, rfl⟩
  · obtain ⟨cs, hcs, rfl⟩ := unsigned_of_unsigned? h
    exact ⟨cs, .plain hcs, rfl⟩

end AuthCore.Json
