import AuthCore.Json.Record
import AuthCore.Proofs.Json.RoundTrip

set_option autoImplicit false

namespace AuthCore.Json

theorem plain_record {ms : List (String × Value)} (h : ∀ m ∈ ms, Plain m.2) :
    Plain (.record ms) := by
  refine .object ?_ ?_
  · intro m hm
    obtain ⟨m, _, rfl⟩ := List.mem_map.mp hm
    rfl
  · intro m hm
    obtain ⟨m, hmem, rfl⟩ := List.mem_map.mp hm
    exact h m hmem

theorem mapM_map {α β : Type} {write : α → β} {read : β → Option α} {as : List α}
    (h : ∀ a ∈ as, read (write a) = some a) : (as.map write).mapM read = some as := by
  induction as with
  | nil => rfl
  | cons a as ih =>
    rw [List.map_cons, List.mapM_cons, h a (by simp), ih fun b hb => h b (by simp [hb])]
    rfl

def filled (slots : List (String × Option Value)) : List (String × Value) :=
  slots.filterMap fun s => s.2.map fun v => (s.1, v)

theorem filled_cons (name : String) (o : Option Value) (slots : List (String × Option Value)) :
    filled ((name, o) :: slots) = (o.map fun v => (name, v)).toList ++ filled slots := by
  cases o <;> rfl

theorem name_of_mem_filled {slots : List (String × Option Value)} {m : String × Value}
    (h : m ∈ filled slots) : m.1 ∈ slots.map Prod.fst := by
  obtain ⟨s, hs, hm⟩ := List.mem_filterMap.mp h
  obtain ⟨v, _, rfl⟩ := Option.map_eq_some_iff.mp hm
  exact List.mem_map_of_mem hs

theorem named_filled_eq_nil {slots : List (String × Option Value)} {name : String}
    (h : name ∉ slots.map Prod.fst) :
    ((filled slots).map fun m => (some m.1, m.2)).filter (fun m => m.1 == some name) = [] := by
  rw [List.filter_eq_nil_iff]
  intro x hx
  obtain ⟨m, hm, rfl⟩ := List.mem_map.mp hx
  have hne : m.1 ≠ name := fun heq => h (heq ▸ name_of_mem_filled hm)
  simpa using hne

theorem single?_filled {slots : List (String × Option Value)} (h : (slots.map Prod.fst).Nodup)
    {s : String × Option Value} (hs : s ∈ slots) :
    single? ((filled slots).map fun m => (some m.1, m.2)) s.1 = some s.2 := by
  induction slots with
  | nil => cases hs
  | cons first slots ih =>
    obtain ⟨name, o⟩ := first
    obtain ⟨hnew, hrest⟩ := List.nodup_cons.mp h
    rw [filled_cons]
    rcases List.mem_cons.mp hs with rfl | hmem
    · have hnone := named_filled_eq_nil hnew
      cases o with
      | none => simp [single?, hnone]
      | some v => simp [single?, hnone]
    · have hname : s.1 ∈ slots.map Prod.fst := List.mem_map_of_mem hmem
      have hne : name ≠ s.1 := fun heq => hnew (heq ▸ hname)
      rw [← ih hrest hmem]
      cases o with
      | none => rfl
      | some v => simp [single?, hne]

theorem record?_filled (slots : List (String × Option Value)) (h : (slots.map Prod.fst).Nodup) :
    record? (slots.map Prod.fst) (.record (filled slots)) = some ⟨slots⟩ := by
  have hnamed : ((filled slots).map fun m => (some m.1, m.2)).all (fun m => m.1.isSome) = true := by
    simp
  have hread : (slots.map Prod.fst).mapM (fun n => (single? ((filled slots).map
      fun m => (some m.1, m.2)) n).map fun v => (n, v)) = some slots := by
    have hslot : ∀ s ∈ slots, (single? ((filled slots).map fun m => (some m.1, m.2)) s.1).map
        (fun v => (s.1, v)) = some s := by
      intro s hs
      rw [single?_filled h hs]
      rfl
    exact mapM_map hslot
  rw [Value.record, record?, if_pos hnamed, hread]
  rfl

theorem plain_filled {slots : List (String × Option Value)}
    (h : ∀ s ∈ slots, ∀ v ∈ s.2, Plain v) : Plain (.record (filled slots)) := by
  apply plain_record
  intro m hm
  obtain ⟨s, hs, hm⟩ := List.mem_filterMap.mp hm
  obtain ⟨v, hv, rfl⟩ := Option.map_eq_some_iff.mp hm
  exact h s hs v hv

theorem optional?_map {α β : Type} {r : Record Value} {name : String} {w : α → String}
    {read : Value → Option β} {f : α → β} {o : Option α}
    (hfind : r.find name = o.map fun a => .text (w a))
    (hread : ∀ a ∈ o, read (.text (w a)) = some (f a)) :
    optional? r name read = some (o.map f) := by
  rw [optional?, hfind]
  cases o with
  | none => rfl
  | some a => exact congrArg (Option.map some) (hread a rfl)

theorem withDefault?_unless {α : Type} {r : Record Value} {name : String} {empty : Bool}
    {d a : α} {v : Value} {read : Value → Option α}
    (hfind : r.find name = if empty then none else some v) (hempty : empty = true → d = a)
    (hread : read v = some a) : r.withDefault? name d read = some a := by
  rw [Record.withDefault?, hfind]
  cases empty with
  | true => exact congrArg some (hempty rfl)
  | false => exact hread

end AuthCore.Json
