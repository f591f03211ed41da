import AuthCore.Config.Toml.Document
import AuthCore.Proofs.Config.SettingsTree

set_option autoImplicit false

namespace AuthCore.Config.Toml

/-- Every table that tables lead to has each key once. Tables under double brackets become items of
an array, which no key leads into. -/
inductive Item.Keyed : Item → Prop where
  | value {r : Raw} (h : r.Keyed) : Keyed (.value r)
  | table {origin : Origin} {es : Entries} (hnodup : (es.map Prod.fst).Nodup)
    (hes : ∀ e ∈ es, Keyed e.2) : Keyed (.table origin es)
  | tables {all : List Entries} : Keyed (.tables all)

def Keyed (es : Entries) : Prop := (es.map Prod.fst).Nodup ∧ ∀ e ∈ es, e.2.Keyed

theorem keyed_nil : Keyed [] := ⟨.nil, fun _ h => (by cases h)⟩

theorem Keyed.item {es : Entries} (h : Keyed es) (origin : Origin) : (Item.table origin es).Keyed :=
  .table h.1 h.2

theorem Keyed.of_lookup {es : Entries} (h : Keyed es) {name : String} {item : Item}
    (hitem : es.lookup name = some item) : item.Keyed :=
  h.2 _ (mem_of_lookup hitem)

theorem Item.Keyed.entries {origin : Origin} {es : Entries} (h : (Item.table origin es).Keyed) :
    Toml.Keyed es := by
  cases h with
  | table hnodup hes => exact ⟨hnodup, hes⟩

theorem entriesToRaw_eq_map (es : Entries) :
    entriesToRaw es = es.map fun e => (e.1, e.2.toRaw) := by
  induction es with
  | nil => rfl
  | cons e es ih => rw [entriesToRaw, ih, List.map_cons]

theorem Item.Keyed.toRaw {item : Item} (h : item.Keyed) : item.toRaw.Keyed := by
  induction h with
  | value h => exact h
  | tables => exact .leaf nofun
  | table hnodup _ ih =>
    rw [Item.toRaw, entriesToRaw_eq_map]
    refine .table (by simpa [Function.comp_def] using hnodup) fun e he => ?_
    obtain ⟨source, hsource, rfl⟩ := List.mem_map.mp he
    exact ih source hsource

theorem Keyed.toRaw {es : Entries} (h : Keyed es) : (Raw.table (entriesToRaw es)).Keyed :=
  (h.item .opened).toRaw

theorem mem_putItem {name : String} {item : Item} {es : Entries} {e : String × Item}
    (h : e ∈ putItem name item es) : e = (name, item) ∨ e ∈ es := by
  induction es with
  | nil => simpa [putItem] using h
  | cons first es ih =>
    unfold putItem at h
    split at h
    · exact (List.mem_cons.mp h).imp_right (List.mem_cons_of_mem first)
    · rcases List.mem_cons.mp h with rfl | h
      · exact .inr List.mem_cons_self
      · exact (ih h).imp_right (List.mem_cons_of_mem first)

theorem nodup_putItem {name : String} {item : Item} {es : Entries}
    (h : (es.map Prod.fst).Nodup) : ((putItem name item es).map Prod.fst).Nodup := by
  induction es with
  | nil => simp [putItem]
  | cons first es ih =>
    obtain ⟨hnew, hrest⟩ := List.nodup_cons.mp h
    unfold putItem
    split
    · rename_i hname
      exact List.nodup_cons.mpr ⟨hname ▸ hnew, hrest⟩
    · rename_i hname
      refine List.nodup_cons.mpr ⟨fun hmem => ?_, ih hrest⟩
      obtain ⟨e, he, hfirst⟩ := List.mem_map.mp hmem
      rcases mem_putItem he with rfl | he
      · exact hname hfirst.symm
      · exact hnew (List.mem_map.mpr ⟨e, he, hfirst⟩)

theorem Keyed.putItem {es : Entries} (h : Keyed es) (name : String) {item : Item}
    (hitem : item.Keyed) : Keyed (putItem name item es) := by
  refine ⟨nodup_putItem h.1, fun e he => ?_⟩
  rcases mem_putItem he with rfl | he
  · exact hitem
  · exact h.2 e he

theorem Keyed.addKey? {here : Origin} {es es' : Entries} {path : List String} {key : String}
    {v : Raw} (h : Keyed es) (hv : v.Keyed) (hadd : addKey? here es path key v = some es') :
    Keyed es' := by
  induction path generalizing here es es' with
  | nil =>
    rw [Toml.addKey?] at hadd
    split at hadd
    · cases hadd
    · cases hadd
      exact h.putItem key (.value hv)
  | cons name path ih =>
    rw [Toml.addKey?] at hadd
    split at hadd
    · obtain ⟨inner, hinner, hadd⟩ := Option.bind_eq_some_iff.mp hadd
      cases hadd
      exact h.putItem name ((ih keyed_nil hinner).item _)
    · rename_i origin inner hlookup
      split at hadd
      · cases hadd
      · obtain ⟨inner', hinner, hadd⟩ := Option.bind_eq_some_iff.mp hadd
        cases hadd
        exact h.putItem name ((ih (h.of_lookup hlookup).entries hinner).item origin)
    · split at hadd
      · cases hadd
      · obtain ⟨last, -, hadd⟩ := Option.bind_eq_some_iff.mp hadd
        cases hadd
        exact h.putItem name .tables
    · cases hadd

/-- A change that keeps keys apart keeps them apart wherever it is made. -/
theorem Keyed.within? {change : Entries → Option Entries}
    (hchange : ∀ {es es'}, Keyed es → change es = some es' → Keyed es') {path : List String}
    {es es' : Entries} (h : Keyed es) (hwithin : within? change path es = some es') :
    Keyed es' := by
  induction path generalizing es es' with
  | nil => exact hchange h hwithin
  | cons name path ih =>
    rw [Toml.within?] at hwithin
    split at hwithin
    · obtain ⟨inner, hinner, hwithin⟩ := Option.bind_eq_some_iff.mp hwithin
      cases hwithin
      exact h.putItem name ((ih keyed_nil hinner).item _)
    · rename_i origin inner hlookup
      obtain ⟨inner', hinner, hwithin⟩ := Option.bind_eq_some_iff.mp hwithin
      cases hwithin
      exact h.putItem name ((ih (h.of_lookup hlookup).entries hinner).item origin)
    · obtain ⟨last, -, hwithin⟩ := Option.bind_eq_some_iff.mp hwithin
      cases hwithin
      exact h.putItem name .tables
    · cases hwithin

theorem Keyed.openTable? {key : String} {es es' : Entries} (h : Keyed es)
    (hopen : openTable? key es = some es') : Keyed es' := by
  unfold Toml.openTable? at hopen
  split at hopen
  · cases hopen
    exact h.putItem key (keyed_nil.item _)
  · rename_i inner hlookup
    cases hopen
    exact h.putItem key ((h.of_lookup hlookup).entries.item _)
  · cases hopen

theorem Keyed.openItem? {key : String} {es es' : Entries} (h : Keyed es)
    (hopen : openItem? key es = some es') : Keyed es' := by
  unfold Toml.openItem? at hopen
  split at hopen
  · cases hopen
    exact h.putItem key .tables
  · cases hopen
    exact h.putItem key .tables
  · cases hopen

theorem keyed_integer? {negative : Bool} {cs : List Char} {r : Raw}
    (h : integer? negative cs = some r) : r.Keyed := by
  obtain ⟨ds, -, h⟩ := Option.bind_eq_some_iff.mp h
  obtain ⟨n, -, h⟩ := Option.bind_eq_some_iff.mp h
  dsimp only at h
  generalize (if negative = true then -(n : Int) else n) = i at h
  split at h <;> cases h
  exact .leaf nofun

theorem keyed_float (x : Binary64) : (Raw.float x).Keyed := .leaf nofun

theorem keyed_float? {negative : Bool} {cs : List Char} {r : Raw}
    (h : float? negative cs = some r) : r.Keyed := by
  unfold float? at h
  obtain ⟨w, -, h⟩ := Option.bind_eq_some_iff.mp h
  dsimp only at h
  split at h
  all_goals
    obtain ⟨f, -, h⟩ := Option.bind_eq_some_iff.mp h
    split at h
    all_goals
      obtain ⟨e, -, h⟩ := Option.bind_eq_some_iff.mp h
      obtain ⟨n, -, h⟩ := Option.bind_eq_some_iff.mp h
      split at h <;> cases h
      exact keyed_float _

theorem keyed_unsigned? {negative : Bool} {cs : List Char} {r : Raw}
    (h : unsigned? negative cs = some r) : r.Keyed := by
  unfold unsigned? at h
  split at h
  · cases h
    exact .leaf nofun
  split at h
  · cases h
    exact .leaf nofun
  split at h
  · exact keyed_float? h
  · exact keyed_integer? h

theorem keyed_number? {cs : List Char} {r : Raw} (h : number? cs = some r) : r.Keyed := by
  have hbase {base : Nat} {ds : List Char} (h : (inBase? base ds).map Raw.integer = some r) :
      r.Keyed := by
    obtain ⟨i, -, rfl⟩ := Option.map_eq_some_iff.mp h
    exact .leaf nofun
  unfold number? at h
  split at h
  · exact hbase h
  · exact hbase h
  · exact hbase h
  · exact keyed_unsigned? h
  · exact keyed_unsigned? h
  · exact keyed_unsigned? h

theorem keyed_moment? {cs rest : List Char} {r : Raw} (h : moment? cs = some (r, rest)) :
    r.Keyed := by
  unfold moment? at h
  split at h
  · dsimp only at h
    split at h
    · cases h
      exact .leaf nofun
    · obtain ⟨time, -, h⟩ := Option.bind_eq_some_iff.mp h
      obtain ⟨offset, -, h⟩ := Option.bind_eq_some_iff.mp h
      cases h
      exact .leaf nofun
  · obtain ⟨time, -, h⟩ := Option.map_eq_some_iff.mp h
    cases h
    exact .leaf nofun

theorem keyed_scalar? {cs rest : List Char} {r : Raw} (h : scalar? cs = some (r, rest)) :
    r.Keyed := by
  unfold scalar? at h
  split at h
  · exact keyed_moment? h
  dsimp only at h
  split at h
  · cases h
    exact .leaf nofun
  split at h
  · cases h
    exact .leaf nofun
  · obtain ⟨n, hn, h⟩ := Option.map_eq_some_iff.mp h
    cases h
    exact keyed_number? hn

theorem keyed_value?_inline? (fuel : Nat) :
    (∀ {cs rest : List Char} {v : Raw}, value? fuel cs = some (v, rest) → v.Keyed) ∧
    ∀ {es es' : Entries} {cs rest : List Char}, Keyed es →
      inline? fuel es cs = some (es', rest) → Keyed es' := by
  induction fuel with
  | zero =>
    exact ⟨fun h => (by rw [value?] at h; cases h), fun _ h => (by rw [inline?] at h; cases h)⟩
  | succ fuel ih =>
    obtain ⟨ihvalue, ihinline⟩ := ih
    constructor
    · intro cs rest v h
      rw [value?.eq_def] at h
      dsimp only at h
      split at h
      · cases h
      split at h
      · obtain ⟨text, -, h⟩ := Option.map_eq_some_iff.mp h
        cases h
        exact .leaf nofun
      split at h
      · obtain ⟨items, -, h⟩ := Option.map_eq_some_iff.mp h
        cases h
        exact .leaf nofun
      split at h
      · split at h
        · split at h
          · cases h
            exact .table .nil fun _ he => (by cases he)
          · obtain ⟨found, hinline, h⟩ := Option.map_eq_some_iff.mp h
            cases h
            exact (ihinline keyed_nil hinline).toRaw
        · cases h
      · exact keyed_scalar? h
    · intro es es' cs rest hes h
      rw [inline?] at h
      obtain ⟨⟨⟨path, key⟩, afterKey⟩, -, h⟩ := Option.bind_eq_some_iff.mp h
      obtain ⟨afterMark, -, h⟩ := Option.bind_eq_some_iff.mp h
      obtain ⟨⟨v, afterValue⟩, hvalue, h⟩ := Option.bind_eq_some_iff.mp h
      obtain ⟨added, hadd, h⟩ := Option.bind_eq_some_iff.mp h
      have hadded : Keyed added := hes.addKey? (ihvalue hvalue) hadd
      split at h
      · exact ihinline hadded h
      · split at h <;> cases h
        exact hadded
      · cases h

theorem keyed_of_header {doc : Entries} {cs rest : List Char} {opened : Entries × Current}
    (hdoc : Keyed doc) (h : header? doc cs = some (opened, rest)) : Keyed opened.1 := by
  unfold header? at h
  split at h
  · obtain ⟨⟨⟨path, key⟩, afterKey⟩, -, h⟩ := Option.bind_eq_some_iff.mp h
    dsimp only at h
    split at h
    · obtain ⟨doc', hdoc', h⟩ := Option.bind_eq_some_iff.mp h
      cases h
      exact hdoc.within? (fun hes hopen => hes.openItem? hopen) hdoc'
    · cases h
  · obtain ⟨⟨⟨path, key⟩, afterKey⟩, -, h⟩ := Option.bind_eq_some_iff.mp h
    dsimp only at h
    split at h
    · obtain ⟨doc', hdoc', h⟩ := Option.bind_eq_some_iff.mp h
      cases h
      exact hdoc.within? (fun hes hopen => hes.openTable? hopen) hdoc'
    · cases h

theorem keyed_of_entry {doc doc' : Entries} {current : Current} {cs rest : List Char}
    (hdoc : Keyed doc) (h : entry? doc current cs = some (doc', rest)) : Keyed doc' := by
  obtain ⟨⟨⟨path, key⟩, afterKey⟩, -, h⟩ := Option.bind_eq_some_iff.mp h
  obtain ⟨afterMark, -, h⟩ := Option.bind_eq_some_iff.mp h
  obtain ⟨⟨v, afterValue⟩, hvalue, h⟩ := Option.bind_eq_some_iff.mp h
  obtain ⟨filled, hfilled, h⟩ := Option.bind_eq_some_iff.mp h
  cases h
  exact hdoc.within? (fun hes hadd => hes.addKey? ((keyed_value?_inline? _).1 hvalue) hadd) hfilled

theorem keyed_of_lines {fuel : Nat} {doc doc' : Entries} {current : Current} {cs : List Char}
    (hdoc : Keyed doc) (h : lines? fuel doc current cs = some doc') : Keyed doc' := by
  induction fuel generalizing doc current cs with
  | zero => cases h
  | succ fuel ih =>
    rw [lines?] at h
    split at h
    · cases h
      exact hdoc
    · obtain ⟨⟨⟨opened, current'⟩, rest⟩, hheader, h⟩ := Option.bind_eq_some_iff.mp h
      obtain ⟨rest', -, h⟩ := Option.bind_eq_some_iff.mp h
      exact ih (keyed_of_header hdoc hheader) h
    · obtain ⟨⟨filled, rest⟩, hentry, h⟩ := Option.bind_eq_some_iff.mp h
      obtain ⟨rest', -, h⟩ := Option.bind_eq_some_iff.mp h
      exact ih (keyed_of_entry hdoc hentry) h

theorem keyed_read? {text : String} {es : List (String × Raw)} (h : read? text = some es) :
    (Raw.table es).Keyed := by
  obtain ⟨doc, hlines, rfl⟩ := Option.map_eq_some_iff.mp h
  exact (keyed_of_lines keyed_nil hlines).toRaw

end AuthCore.Config.Toml
