import AuthCore.Json.Record
import Mathlib.Data.List.Perm.Basic

set_option autoImplicit false

namespace AuthCore.Json

variable {names : List String} {dflt : String → Option Value}
  {inner : String → Value → Value → Prop}

/-- One change of a record: another order, a member that no field has, a field that is written out
with its default, or a change inside of a field. -/
inductive Edit (names : List String) (dflt : String → Option Value)
    (inner : String → Value → Value → Prop) : Value → Value → Prop where
  | reorder {ms ns : List (Option String × Value)} (h : ms.Perm ns) :
    Edit names dflt inner (.object ms) (.object ns)
  | unknown {ms : List (Option String × Value)} {name : String} (h : name ∉ names) (v : Value) :
    Edit names dflt inner (.object ms) (.object ((some name, v) :: ms))
  | default {ms : List (Option String × Value)} {name : String} {v : Value}
    (hfree : ∀ m ∈ ms, m.1 ≠ some name) (h : dflt name = some v) :
    Edit names dflt inner (.object ms) (.object ((some name, v) :: ms))
  | member {ms : List (Option String × Value)} {name : String} {v w : Value} (h : inner name v w) :
    Edit names dflt inner (.object ((some name, v) :: ms)) (.object ((some name, w) :: ms))
  | item {front back : List Value} {name : String} {v w : Value}
    (hname : names[front.length]? = some name) (h : inner name v w) :
    Edit names dflt inner (.array (front ++ v :: back)) (.array (front ++ w :: back))

/-- What may become of a field. -/
inductive Alike (dflt : String → Option Value) (inner : String → Value → Value → Prop)
    (name : String) : Option Value → Option Value → Prop where
  | same (o : Option Value) : Alike dflt inner name o o
  | filled {v : Value} (h : dflt name = some v) : Alike dflt inner name none (some v)
  | changed {v w : Value} (h : inner name v w) : Alike dflt inner name (some v) (some w)

/-- Records whose fields are alike, or none. -/
def AlikeRecords (dflt : String → Option Value) (inner : String → Value → Value → Prop) :
    Option (Record Value) → Option (Record Value) → Prop :=
  Option.Rel fun r s => ∀ name, Alike dflt inner name (r.find name) (s.find name)

theorem find_cons (n name : String) (o : Option Value) (slots : List (String × Option Value)) :
    Record.find ⟨(n, o) :: slots⟩ name = if name = n then o else Record.find ⟨slots⟩ name := by
  rw [Record.find, List.lookup_cons]
  by_cases h : name = n
  · simp [h]
  · simp [beq_false_of_ne h, h, Record.find]

theorem alikeRecords_mapM {f g : String → Option (Option Value)}
    (h : ∀ name ∈ names, Option.Rel (Alike dflt inner name) (f name) (g name)) :
    AlikeRecords dflt inner ((names.mapM fun n => (f n).map fun v => (n, v)).map Record.mk)
      ((names.mapM fun n => (g n).map fun v => (n, v)).map Record.mk) := by
  induction names with
  | nil => exact .some fun _ => .same _
  | cons n names ih =>
    have htail := ih fun name hname => h name (by simp [hname])
    have hhead := h n (by simp)
    simp only [List.mapM_cons]
    generalize (names.mapM fun n => (f n).map fun v => (n, v)) = slots at htail
    generalize (names.mapM fun n => (g n).map fun v => (n, v)) = slots' at htail
    generalize f n = o at hhead
    generalize g n = o' at hhead
    cases hhead with
    | none => exact .none
    | @some o o' hhead =>
      cases slots <;> cases slots' <;> cases htail
      · exact .none
      · rename_i htail
        refine .some fun name => ?_
        rw [find_cons, find_cons]
        split
        · subst name
          exact hhead
        · exact htail name

theorem single?_of_perm {ms ns : List (Option String × Value)} (h : ms.Perm ns) (name : String) :
    single? ms name = single? ns name := by
  have hfilter := h.filter fun m => m.1 == some name
  unfold single?
  generalize ms.filter (fun m => m.1 == some name) = xs at hfilter
  generalize ns.filter (fun m => m.1 == some name) = ys at hfilter
  match xs with
  | [] => rw [List.nil_perm.mp hfilter]
  | [x] => rw [List.singleton_perm.mp hfilter]
  | x :: x' :: xs =>
    match ys with
    | y :: y' :: ys => rfl
    | [] | [y] => simp at hfilter

theorem single?_cons_of_ne {name other : String} (h : other ≠ name) (v : Value)
    (ms : List (Option String × Value)) :
    single? ((some other, v) :: ms) name = single? ms name := by
  simp [single?, h]

theorem single?_cons_self (name : String) (ms : List (Option String × Value)) :
    (single? ms name = some none ∧
      ∀ v, single? ((some name, v) :: ms) name = some (some v)) ∨
    (single? ms name ≠ some none ∧ ∀ v, single? ((some name, v) :: ms) name = none) := by
  unfold single?
  cases hfilter : ms.filter fun m => m.1 == some name with
  | nil => exact .inl ⟨rfl, fun v => by simp [hfilter]⟩
  | cons m rest =>
    refine .inr ⟨?_, fun v => by simp [hfilter]⟩
    cases rest <;> simp

theorem single?_eq_none_iff {name : String} {ms : List (Option String × Value)} :
    single? ms name = some none ↔ ∀ m ∈ ms, m.1 ≠ some name := by
  unfold single?
  cases hfilter : ms.filter fun m => m.1 == some name with
  | nil =>
    rw [List.filter_eq_nil_iff] at hfilter
    simpa using hfilter
  | cons m rest =>
    have hm : m ∈ ms.filter fun m => m.1 == some name := by simp [hfilter]
    obtain ⟨hmem, hname⟩ := List.mem_filter.mp hm
    refine iff_of_false ?_ fun hfree => hfree m hmem (eq_of_beq hname)
    cases rest <;> simp

theorem rel_refl {name : String} (o : Option (Option Value)) :
    Option.Rel (Alike dflt inner name) o o := by
  cases o with
  | none => exact .none
  | some o => exact .some (.same o)

theorem alikeRecords_object {ms ns : List (Option String × Value)}
    (hnamed : (ms.all fun m => m.1.isSome) = ns.all fun m => m.1.isSome)
    (h : ∀ name ∈ names, Option.Rel (Alike dflt inner name) (single? ms name) (single? ns name)) :
    AlikeRecords dflt inner (record? names (.object ms)) (record? names (.object ns)) := by
  rw [record?, record?, hnamed]
  split
  · exact alikeRecords_mapM h
  · exact .none

theorem alike_zipIdx {items items' : List Value} (k : Nat)
    (h : ∀ (i : Nat) (name : String), names[i]? = some name →
      Alike dflt inner name items[k + i]? items'[k + i]?) (name : String) :
    Alike dflt inner name
      (Record.find ⟨(names.zipIdx k).map fun (n, i) => (n, items[i]?)⟩ name)
      (Record.find ⟨(names.zipIdx k).map fun (n, i) => (n, items'[i]?)⟩ name) := by
  induction names generalizing k with
  | nil => exact .same _
  | cons n names ih =>
    rw [List.zipIdx_cons, List.map_cons, List.map_cons, find_cons, find_cons]
    split
    · subst name
      exact h 0 n rfl
    · refine ih (k + 1) fun i name hi => ?_
      have hnext := h (i + 1) name hi
      rwa [Nat.add_right_comm]

theorem alike_getElem? {front back : List Value} {other : String} {v w : Value}
    (h : inner other v w)
    {i : Nat} {name : String} (hname : i = front.length → name = other) :
    Alike dflt inner name (front ++ v :: back)[i]? (front ++ w :: back)[i]? := by
  rcases Nat.lt_trichotomy i front.length with hi | hi | hi
  · rw [List.getElem?_append_left hi, List.getElem?_append_left hi]
    exact .same _
  · rw [hname hi, hi]
    simpa using Alike.changed h
  · obtain ⟨n, rfl⟩ := Nat.exists_eq_add_of_lt hi
    rw [List.getElem?_append_right (by omega), List.getElem?_append_right (by omega)]
    rw [show front.length + n + 1 - front.length = n + 1 by omega, List.getElem?_cons_succ,
      List.getElem?_cons_succ]
    exact .same _

theorem alikeRecords_of_edit {v w : Value} (h : Edit names dflt inner v w) :
    AlikeRecords dflt inner (record? names v) (record? names w) := by
  cases h with
  | reorder hperm =>
    refine alikeRecords_object hperm.all_eq fun name _ => ?_
    rw [single?_of_perm hperm]
    exact rel_refl _
  | @unknown ms other hname v =>
    refine alikeRecords_object rfl fun name hmem => ?_
    have hne : other ≠ name := by
      rintro rfl
      exact hname hmem
    rw [single?_cons_of_ne hne]
    exact rel_refl _
  | @default ms other v hfree h =>
    refine alikeRecords_object rfl fun name _ => ?_
    by_cases hname : other = name
    · subst hname
      rcases single?_cons_self other ms with ⟨hnone, hsome⟩ | ⟨hne, _⟩
      · rw [hnone, hsome]
        exact .some (.filled h)
      · exact absurd (single?_eq_none_iff.mpr hfree) hne
    · rw [single?_cons_of_ne hname]
      exact rel_refl _
  | @member ms other v w h =>
    refine alikeRecords_object rfl fun name _ => ?_
    by_cases hname : other = name
    · subst hname
      rcases single?_cons_self other ms with ⟨_, hsome⟩ | ⟨_, hnone⟩
      · rw [hsome, hsome]
        exact .some (.changed h)
      · rw [hnone, hnone]
        exact .none
    · rw [single?_cons_of_ne hname, single?_cons_of_ne hname]
      exact rel_refl _
  | @item front back other v w hother h =>
    have hlength : (front ++ w :: back).length = (front ++ v :: back).length := by simp
    rw [record?, record?, hlength]
    split
    · refine .some (alike_zipIdx 0 fun i name hi => alike_getElem? h fun hlast => ?_)
      rw [Nat.zero_add] at hlast
      rw [hlast, hother] at hi
      exact (Option.some.inj hi).symm
    · exact .none

section Readers

variable {α : Type} {name : String} {r s : Record Value} {read : Value → Option α}

theorem required?_congr (h : Alike dflt inner name (r.find name) (s.find name))
    (hdefault : dflt name = none) (hinner : ∀ v w, inner name v w → read v = read w) :
    r.required? name read = s.required? name read := by
  unfold Record.required?
  generalize r.find name = o at h
  generalize s.find name = o' at h
  cases h with
  | same => rfl
  | filled h => simp [hdefault] at h
  | changed h => exact hinner _ _ h

theorem withDefault?_congr {d : α} (h : Alike dflt inner name (r.find name) (s.find name))
    (hdefault : ∀ v, dflt name = some v → read v = some d)
    (hinner : ∀ v w, inner name v w → read v = read w) :
    r.withDefault? name d read = s.withDefault? name d read := by
  unfold Record.withDefault?
  generalize r.find name = o at h
  generalize s.find name = o' at h
  cases h with
  | same => rfl
  | filled h => exact (hdefault _ h).symm
  | changed h => exact hinner _ _ h

theorem optional?_congr (h : Alike dflt inner name (r.find name) (s.find name))
    (hdefault : ∀ v, dflt name = some v → v = .null) (hinner : ∀ v w, ¬ inner name v w) :
    optional? r name read = optional? s name read := by
  unfold optional?
  generalize r.find name = o at h
  generalize s.find name = o' at h
  cases h with
  | same => rfl
  | filled h =>
    rw [hdefault _ h]
  | changed h => exact absurd h (hinner _ _)

theorem bind_congr_of_edit {f : Record Value → Option α} {v w : Value}
    (h : Edit names dflt inner v w)
    (hf : ∀ r s : Record Value, (∀ name, Alike dflt inner name (r.find name) (s.find name)) →
      f r = f s) : (record? names v).bind f = (record? names w).bind f := by
  have halike := alikeRecords_of_edit h
  generalize record? names v = o at halike
  generalize record? names w = o' at halike
  cases halike with
  | none => rfl
  | some halike => exact hf _ _ halike

end Readers

/-- What a record reader refuses: a field that stands twice, a field that is missing though it has
no default, or a fault inside of a field. -/
inductive Fault (names required : List String) (inner : String → Value → Prop) : Value → Prop where
  | repeated {front middle back : List (Option String × Value)} {name : String} {v w : Value}
    (hname : name ∈ names) : Fault names required inner
      (.object (front ++ (some name, v) :: (middle ++ (some name, w) :: back)))
  | missing {ms : List (Option String × Value)} {name : String} (hname : name ∈ required)
    (hfree : ∀ m ∈ ms, m.1 ≠ some name) : Fault names required inner (.object ms)
  | member {ms : List (Option String × Value)} {name : String} {v : Value} (hname : name ∈ names)
    (hmem : (some name, v) ∈ ms) (h : inner name v) : Fault names required inner (.object ms)
  | item {items : List Value} {i : Nat} {name : String} {v : Value} (hname : names[i]? = some name)
    (hitem : items[i]? = some v) (h : inner name v) : Fault names required inner (.array items)

theorem find_of_mapM {f : String → Option (Option Value)} {slots : List (String × Option Value)}
    (h : (names.mapM fun n => (f n).map fun v => (n, v)) = some slots) {name : String}
    (hname : name ∈ names) : f name = some (Record.find ⟨slots⟩ name) := by
  induction names generalizing slots with
  | nil => cases hname
  | cons n names ih =>
    simp only [List.mapM_cons, Option.bind_eq_bind, Option.bind_eq_some_iff, Option.pure_def,
      Option.some.injEq, Option.map_eq_some_iff] at h
    obtain ⟨_, ⟨o, ho, rfl⟩, slots, hslots, rfl⟩ := h
    rw [find_cons]
    split
    · subst name
      exact ho
    · rename_i hne
      exact ih hslots ((List.mem_cons.mp hname).resolve_left hne)

theorem single?_of_record? {ms : List (Option String × Value)} {r : Record Value}
    (h : record? names (.object ms) = some r) {name : String} (hname : name ∈ names) :
    single? ms name = some (r.find name) := by
  rw [record?] at h
  split at h
  · obtain ⟨slots, hslots, rfl⟩ := Option.map_eq_some_iff.mp h
    exact find_of_mapM hslots hname
  · cases h

theorem single?_repeated (front middle back : List (Option String × Value)) (name : String)
    (v w : Value) :
    single? (front ++ (some name, v) :: (middle ++ (some name, w) :: back)) name = none := by
  have hfirst : (front ++ (some name, v) :: (middle ++ (some name, w) :: back)).Perm
      ((some name, v) :: (front ++ (middle ++ (some name, w) :: back))) := List.perm_middle
  have hsecond : (front ++ (middle ++ (some name, w) :: back)).Perm
      ((some name, w) :: (front ++ middle ++ back)) := by
    rw [← List.append_assoc]
    exact List.perm_middle
  rw [single?_of_perm (hfirst.trans (hsecond.cons _))]
  simp [single?]

theorem single?_of_mem {ms : List (Option String × Value)} {name : String} {v : Value}
    (h : (some name, v) ∈ ms) {o : Option Value} (hread : single? ms name = some o) :
    o = some v := by
  have hm : (some name, v) ∈ ms.filter fun m => m.1 == some name :=
    List.mem_filter.mpr ⟨h, by simp⟩
  unfold single? at hread
  split at hread
  · rename_i hfilter
    rw [hfilter] at hm
    cases hm
  · rename_i m hfilter
    rw [hfilter, List.mem_singleton] at hm
    cases hread
    rw [← hm]
  · cases hread

theorem find_zipIdx (hnodup : names.Nodup) {items : List Value} (k : Nat) {i : Nat} {name : String}
    (hname : names[i]? = some name) :
    Record.find ⟨(names.zipIdx k).map fun (n, i) => (n, items[i]?)⟩ name = items[k + i]? := by
  induction names generalizing k i with
  | nil => cases hname
  | cons n names ih =>
    obtain ⟨hnew, hrest⟩ := List.nodup_cons.mp hnodup
    rw [List.zipIdx_cons, List.map_cons, find_cons]
    cases i with
    | zero =>
      cases hname
      rw [if_pos rfl, Nat.add_zero]
    | succ i =>
      have hmem : name ∈ names := List.mem_of_getElem? hname
      have hne : name ≠ n := by
        rintro rfl
        exact hnew hmem
      rw [if_neg hne, ih hrest (k + 1) hname, Nat.add_right_comm, Nat.add_assoc]

theorem fault_cases {required : List String} {inner : String → Value → Prop} {v : Value}
    (hnodup : names.Nodup) (hrequired : ∀ name ∈ required, name ∈ names)
    (h : Fault names required inner v) {r : Record Value} (hr : record? names v = some r) :
    (∃ name ∈ required, r.find name = none) ∨ ∃ name v, inner name v ∧ r.find name = some v := by
  cases h with
  | repeated hname =>
    have hread := single?_of_record? hr hname
    rw [single?_repeated] at hread
    cases hread
  | missing hname hfree =>
    have hread := single?_of_record? hr (hrequired _ hname)
    rw [single?_eq_none_iff.mpr hfree] at hread
    exact .inl ⟨_, hname, (Option.some.inj hread).symm⟩
  | member hname hmem h =>
    exact .inr ⟨_, _, h, single?_of_mem hmem (single?_of_record? hr hname)⟩
  | item hname hitem h =>
    rw [record?] at hr
    split at hr
    · cases hr
      refine .inr ⟨_, _, h, ?_⟩
      rw [Record.ofItems, find_zipIdx hnodup 0 hname, Nat.zero_add, hitem]
    · cases hr

theorem bind_eq_none_of_fault {α : Type} {f : Record Value → Option α} {required : List String}
    {inner : String → Value → Prop} {v : Value} (hnodup : names.Nodup)
    (hrequired : ∀ name ∈ required, name ∈ names) (h : Fault names required inner v)
    (hmissing : ∀ r : Record Value, ∀ name ∈ required, r.find name = none → f r = none)
    (hinner : ∀ (r : Record Value) (name : String) (v : Value), inner name v →
      r.find name = some v → f r = none) : (record? names v).bind f = none := by
  cases hr : record? names v with
  | none => rfl
  | some r =>
    rcases fault_cases hnodup hrequired h hr with ⟨name, hname, hnone⟩ | ⟨name, v, hv, hsome⟩
    · exact hmissing r name hname hnone
    · exact hinner r name v hv hsome

end AuthCore.Json
