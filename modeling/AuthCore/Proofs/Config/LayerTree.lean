import AuthCore.Config.Layers
import AuthCore.Proofs.Config.Fields

set_option autoImplicit false

namespace AuthCore.Config

section Names

def sections : List String := ["cache", "password", "signing", "session", "logging"]

theorem Path.ofName_of_mem_sections {name : String} (h : name ∈ sections) :
    Path.ofName name = ⟨name, []⟩ := by
  simp only [sections, List.mem_cons, List.not_mem_nil, or_false] at h
  rcases h with rfl | rfl | rfl | rfl | rfl <;> rfl

namespace Field

theorem exists_path (f : Field) : ∃ name ∈ sections, ∃ rest, f.path = name :: rest := by
  cases f <;> exact ⟨_, by decide, _, rfl⟩

theorem path_ne_nil (f : Field) : f.path ≠ [] := by
  obtain ⟨name, -, rest, h⟩ := f.exists_path
  rw [h]
  exact List.cons_ne_nil name rest

theorem ofName_name (f : Field) :
    Step.key (Path.ofName f.name).root :: (Path.ofName f.name).steps = f.path.map .key := by
  cases f <;> cbv

theorem name_injective : Function.Injective name := by
  intro f g h
  have hmap : f.path.map Step.key = g.path.map Step.key := by
    rw [← ofName_name, ← ofName_name, h]
  have hpath : f.path = g.path := List.map_injective_iff.mpr (fun _ _ => Step.key.inj) hmap
  exact eq_of_prefix (hpath ▸ List.prefix_rfl)

end Field

end Names

/-- Laying a value over another does not change what it is read as: tables are read as nothing. -/
theorem Shape.read?_merge (shape : Shape) (base v : Raw) :
    shape.read? (Raw.merge base v) = shape.read? v := by
  by_cases h : ∃ es, v = .table es
  · obtain ⟨es, rfl⟩ := h
    rw [Raw.merge]
    cases shape <;> rfl
  · rw [Raw.merge_of_leaf (not_exists.mp h)]

/-- The tree shows this of the fields: tables lead to each, and each is read as from what was found
for it. -/
structure Shows (r : Raw) (found : Field → Option Raw) : Prop where
  tables : ∀ f : Field, r.TablesAlong f.path
  same : ∀ f : Field, f.ofFound? (r.at? f.path) = f.ofFound? (found f)

namespace Shows

variable {r : Raw} {found : Field → Option Raw}

theorem empty : Shows (.table []) fun _ => none := by
  constructor <;> intro f <;> obtain ⟨name, -, rest, hpath⟩ := f.exists_path <;> rw [hpath]
  · exact ⟨⟨[], rfl⟩, fun v hv => by cases hv⟩
  · rfl

theorem exists_table (h : Shows r found) : ∃ es, r = .table es := (h.tables .level).1

theorem laid {r' : Raw} {later : Field → Option Raw} (h : Shows r found)
    (htables : ∀ f : Field, r'.TablesAlong f.path)
    (hat : ∀ f : Field, r'.at? f.path =
      match later f with
      | some v => some (Raw.merge ((r.at? f.path).getD .vacant) v)
      | none => r.at? f.path) : Shows r' fun f => (later f).or (found f) := by
  refine ⟨htables, fun f => ?_⟩
  rw [hat f]
  cases later f with
  | none => exact h.same f
  | some v => exact f.shape.read?_merge _ v

theorem read?_eq_some_iff (h : Shows r found) {s : Settings} :
    Settings.read? Raw.form r = some s ↔ ∀ f : Field, f.ofFound? (found f) = some (f.get s) := by
  obtain ⟨es, rfl⟩ := h.exists_table
  rw [Settings.read?_eq_some_iff h.tables]
  exact forall_congr' fun f => by rw [h.same f]

end Shows

/-- In the layer of a file, tables lead to every field that is there, and what leads into a section
is only the section's own name. -/
structure Tabled (layer : List (String × Raw)) : Prop where
  tables : ∀ f : Field, (Raw.table layer).TablesAlong f.path
  plain : ∀ e ∈ layer, (Path.ofName e.1).root ∈ sections → Path.ofName e.1 = ⟨e.1, []⟩

theorem Tabled.of_sections {layer : List (String × Raw)}
    (htables : ∀ f : Field, (Raw.table layer).TablesAlong f.path)
    (hnames : ∀ e ∈ layer, e.1 ∈ sections) : Tabled layer :=
  ⟨htables, fun e he _ => Path.ofName_of_mem_sections (hnames e he)⟩

section FileLayer

open Raw (merge assign assignAll)

variable {layer : List (String × Raw)} {name : String}

theorem lookup_assign {e : String × Raw}
    (hplain : (Path.ofName e.1).root ∈ sections → Path.ofName e.1 = ⟨e.1, []⟩)
    (hname : name ∈ sections) (r : Raw) : (assign e.1 e.2 r).entries.lookup name =
      if name = e.1 then some (merge ((r.entries.lookup e.1).getD .vacant) e.2)
      else r.entries.lookup name := by
  rw [assign, Raw.lookup_put]
  by_cases hroot : (Path.ofName e.1).root ∈ sections
  · rw [hplain hroot]
    rfl
  · -- The key leads elsewhere, so it is no section's name either.
    have hother : name ≠ (Path.ofName e.1).root := fun h => hroot (h ▸ hname)
    have hkey : name ≠ e.1 := by
      rintro rfl
      rw [Path.ofName_of_mem_sections hname] at hroot
      exact hroot hname
    rw [if_neg hother, if_neg hkey]

/-- As far as the sections go, putting the entries of a layer into a tree one by one is laying the
layer over it. -/
theorem lookup_assignAll (hnodup : (layer.map Prod.fst).Nodup)
    (hplain : ∀ e ∈ layer, (Path.ofName e.1).root ∈ sections → Path.ofName e.1 = ⟨e.1, []⟩)
    (hname : name ∈ sections) (r : Raw) :
    (assignAll layer r).entries.lookup name = (merge r (.table layer)).entries.lookup name := by
  rw [merge, Raw.entries.eq_1 (Raw.mergeEntries _ _), Raw.lookup_mergeEntries hnodup]
  induction layer generalizing r with
  | nil => rfl
  | cons e layer ih =>
    obtain ⟨hnew, hrest⟩ := List.nodup_cons.mp hnodup
    have hfirst := lookup_assign (hplain e List.mem_cons_self) hname r
    have hstep := ih hrest (fun e' he' => hplain e' (List.mem_cons_of_mem e he')) (assign e.1 e.2 r)
    rw [assignAll, List.foldl_cons, ← assignAll, hstep, hfirst, lookup_cons_eq_ite]
    by_cases h : name = e.1
    · subst h
      rw [lookup_eq_none_of_not_mem hnew, if_pos rfl, if_pos rfl]
    · rw [if_neg h, if_neg h]

theorem exists_table_assignAll {r : Raw} (h : ∃ es, r = .table es) (layer : List (String × Raw)) :
    ∃ es, assignAll layer r = .table es := by
  induction layer generalizing r with
  | nil => exact h
  | cons e layer ih => exact ih ⟨_, rfl⟩

theorem Shows.file {r : Raw} {found : Field → Option Raw} (h : Shows r found)
    (hkeyed : (Raw.table layer).Keyed) (htabled : Tabled layer) :
    Shows (assignAll layer r) fun f => ((Raw.table layer).at? f.path).or (found f) := by
  have hlookup {name : String} (hname : name ∈ sections) :=
    lookup_assignAll hkeyed.nodup htabled.plain hname r
  refine h.laid (fun f => ?_) fun f => ?_
  · have hmerged := (htabled.tables f).merge hkeyed (.inr (h.tables f))
    obtain ⟨name, hname, rest, hpath⟩ := f.exists_path
    rw [hpath] at hmerged ⊢
    refine ⟨exists_table_assignAll h.exists_table layer, fun v hv => ?_⟩
    exact hmerged.2 v ((hlookup hname).symm.trans hv)
  · refine Eq.trans ?_ (Raw.at?_merge hkeyed (htabled.tables f) r)
    obtain ⟨name, hname, rest, hpath⟩ := f.exists_path
    rw [hpath, Raw.at?_cons, Raw.at?_cons, hlookup hname]

end FileLayer

section VariableLayer

open Raw (assign assignAll)

variable {r : Raw} {found : Field → Option Raw}

theorem Shows.put (h : Shows r found) (f : Field) (v : Raw) :
    Shows (assign f.name v r) fun g => (if g = f then some v else none).or (found g) := by
  rw [assign, f.ofName_name]
  refine h.laid (fun g => ?_) fun g => ?_
  · exact .put f.path_ne_nil (fun hbegins => by rw [Field.eq_of_prefix hbegins]) (.inr (h.tables g))
  · by_cases hg : g = f
    · subst hg
      rw [if_pos rfl, Raw.at?_put_self]
    · have habove : ¬ g.path <+: f.path := fun hbegins => hg (Field.eq_of_prefix hbegins)
      have hbelow : ¬ f.path <+: g.path := fun hbegins => hg (Field.eq_of_prefix hbegins).symm
      rw [if_neg hg, Raw.at?_put_other habove hbelow]

theorem Shows.putAll {layer : List (String × Raw)} (h : Shows r found)
    (hfields : ∀ e ∈ layer, ∃ f : Field, e.1 = f.name) (hnodup : (layer.map Prod.fst).Nodup) :
    Shows (assignAll layer r) fun f => (layer.lookup f.name).or (found f) := by
  induction layer generalizing r found with
  | nil => exact h
  | cons e layer ih =>
    obtain ⟨hnew, hrest⟩ := List.nodup_cons.mp hnodup
    obtain ⟨f, hf⟩ := hfields e List.mem_cons_self
    have hlater := ih (h.put f e.2) (fun e' he' => hfields e' (List.mem_cons_of_mem e he')) hrest
    rw [assignAll, List.foldl_cons, ← assignAll, hf]
    refine ⟨hlater.tables, fun g => (hlater.same g).trans ?_⟩
    -- A later entry would win over this one, and look-up finds this one: names occur once.
    rw [lookup_cons_eq_ite]
    by_cases hg : g = f
    · subst hg
      rw [if_pos rfl, if_pos hf.symm, ← hf, lookup_eq_none_of_not_mem hnew]
      rfl
    · rw [if_neg hg, if_neg fun heq => hg (Field.name_injective (heq.trans hf))]
      rfl

end VariableLayer

end AuthCore.Config
