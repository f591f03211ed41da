import AuthCore.Config.Path

set_option autoImplicit false

namespace AuthCore.Config

section Lookup

variable {α : Type}

theorem lookup_cons_eq_ite (e : String × α) (es : List (String × α)) (name : String) :
    (e :: es).lookup name = if name = e.1 then some e.2 else es.lookup name := by
  rw [List.lookup_cons]
  by_cases h : name = e.1
  · simp [h]
  · rw [if_neg h, beq_false_of_ne h]

theorem mem_of_lookup {es : List (String × α)} {name : String} {a : α}
    (h : es.lookup name = some a) : (name, a) ∈ es := by
  obtain ⟨before, after, rfl, -⟩ := List.lookup_eq_some_iff.mp h
  simp

theorem lookup_eq_none_of_not_mem {es : List (String × α)} {name : String}
    (h : name ∉ es.map Prod.fst) : es.lookup name = none := by
  refine List.lookup_eq_none_iff.mpr fun e he => bne_iff_ne.mpr ?_
  rintro rfl
  exact h (List.mem_map_of_mem he)

end Lookup

namespace Raw

def at? : (path : List String) → Raw → Option Raw
  | [], r => some r
  | name :: path, r => (r.entries.lookup name).bind (at? path)

/-- Every table that tables lead to has each key once. -/
inductive Keyed : Raw → Prop where
  | table {es : List (String × Raw)} (hnodup : (es.map Prod.fst).Nodup)
    (hes : ∀ e ∈ es, Keyed e.2) : Keyed (.table es)
  | leaf {r : Raw} (h : ∀ es, r ≠ .table es) : Keyed r

/-- What a path comes by before its end is a table, as far as the path leads. -/
def TablesAlong : (path : List String) → Raw → Prop
  | [], _ => True
  | name :: path, r =>
    (∃ es, r = .table es) ∧ ∀ v, r.entries.lookup name = some v → TablesAlong path v

theorem Keyed.nodup {es : List (String × Raw)} (h : (Raw.table es).Keyed) :
    (es.map Prod.fst).Nodup := by
  cases h with
  | table hnodup _ => exact hnodup
  | leaf h => exact absurd rfl (h es)

theorem Keyed.of_lookup {es : List (String × Raw)} (h : (Raw.table es).Keyed) {name : String}
    {v : Raw} (hv : es.lookup name = some v) : v.Keyed := by
  cases h with
  | table _ hes => exact hes _ (mem_of_lookup hv)
  | leaf h => exact absurd rfl (h es)

theorem lookup_putEntry (name other : String) (v : Raw) (es : List (String × Raw)) :
    (putEntry name v es).lookup other = if other = name then some v else es.lookup other := by
  induction es with
  | nil => rw [putEntry, lookup_cons_eq_ite]
  | cons e es ih =>
    unfold putEntry
    by_cases he : e.1 = name
    · rw [if_pos he, lookup_cons_eq_ite, lookup_cons_eq_ite, he]
      by_cases h : other = name
      · rw [if_pos h, if_pos h]
      · rw [if_neg h, if_neg h, if_neg h]
    · rw [if_neg he, lookup_cons_eq_ite, lookup_cons_eq_ite, ih]
      by_cases h : other = e.1
      · rw [if_pos h, if_pos h, if_neg fun heq => he (h.symm.trans heq)]
      · rw [if_neg h, if_neg h]

theorem merge_of_leaf {v : Raw} (h : ∀ es, v ≠ table es) (base : Raw) : merge base v = v := by
  cases v with
  | table es => exact absurd rfl (h es)
  | _ => rw [merge]; exact h

theorem lookup_mergeEntries {later : List (String × Raw)} (hnodup : (later.map Prod.fst).Nodup)
    (base : List (String × Raw)) (name : String) :
    (mergeEntries base later).lookup name =
      match later.lookup name with
      | some v => some (merge ((base.lookup name).getD .vacant) v)
      | none => base.lookup name := by
  induction later generalizing base with
  | nil => rw [mergeEntries]; rfl
  | cons e later ih =>
    obtain ⟨first, v⟩ := e
    obtain ⟨hnew, hrest⟩ := List.nodup_cons.mp hnodup
    rw [mergeEntries, ih hrest, lookup_putEntry, lookup_cons_eq_ite]
    by_cases h : name = first
    · subst h
      rw [lookup_eq_none_of_not_mem hnew, if_pos rfl, if_pos rfl]
    · rw [if_neg h, if_neg h]

theorem at?_cons (name : String) (path : List String) (r : Raw) :
    r.at? (name :: path) = (r.entries.lookup name).bind (at? path) := rfl

theorem at?_getD_lookup {name : String} {path : List String} (hpath : path ≠ []) (r : Raw) :
    ((r.entries.lookup name).getD .vacant).at? path = r.at? (name :: path) := by
  obtain ⟨next, rest, rfl⟩ := List.exists_cons_of_ne_nil hpath
  rw [at?_cons name]
  cases r.entries.lookup name <;> rfl

theorem getD_at?_getD_lookup (name : String) (path : List String) (r : Raw) :
    (((r.entries.lookup name).getD .vacant).at? path).getD .vacant =
      (r.at? (name :: path)).getD .vacant := by
  cases path with
  | nil => rw [at?_cons]; cases r.entries.lookup name <;> rfl
  | cons next rest => rw [at?_getD_lookup (List.cons_ne_nil next rest)]

/-- Where the later tree has something at the end of a path, that is laid over what the earlier one
has there; where it has nothing, the earlier one shows. -/
theorem at?_merge {path : List String} {later : Raw} (hkeyed : later.Keyed)
    (htables : later.TablesAlong path) (base : Raw) :
    (merge base later).at? path =
      match later.at? path with
      | some v => some (merge ((base.at? path).getD .vacant) v)
      | none => base.at? path := by
  induction path generalizing base later with
  | nil => rfl
  | cons name path ih =>
    obtain ⟨⟨es, rfl⟩, hinner⟩ := htables
    rw [merge, at?, entries, lookup_mergeEntries hkeyed.nodup, at?, entries]
    cases hv : es.lookup name with
    | none => rfl
    | some v =>
      have hstep := ih (hkeyed.of_lookup hv) (hinner v hv) ((base.entries.lookup name).getD .vacant)
      rw [getD_at?_getD_lookup] at hstep
      refine hstep.trans ?_
      cases hend : v.at? path with
      | some w => simp [hend]
      | none =>
        have hpath : path ≠ [] := by
          rintro rfl
          cases hend
        simp [hend, at?_getD_lookup hpath]

/-- A table, or a place that nothing has filled, along a path. -/
def OpenAlong (path : List String) (r : Raw) : Prop := r = .vacant ∨ r.TablesAlong path

theorem OpenAlong.inner {name : String} {path : List String} {r : Raw}
    (h : OpenAlong (name :: path) r) : OpenAlong path ((r.entries.lookup name).getD .vacant) := by
  rcases h with rfl | ⟨-, hinner⟩
  · exact .inl rfl
  · cases hv : r.entries.lookup name with
    | none => exact .inl rfl
    | some v => exact .inr (hinner v hv)

theorem OpenAlong.of_lookup {name : String} {path : List String} {base w : Raw}
    (h : OpenAlong (name :: path) base) (hw : base.entries.lookup name = some w) :
    w.TablesAlong path := by
  rcases h with rfl | ⟨-, hinner⟩
  · cases hw
  · exact hinner w hw

theorem TablesAlong.merge {path : List String} {later : Raw} (hkeyed : later.Keyed)
    (htables : later.TablesAlong path) {base : Raw} (hbase : OpenAlong path base) :
    (Raw.merge base later).TablesAlong path := by
  induction path generalizing base later with
  | nil => trivial
  | cons name path ih =>
    obtain ⟨⟨es, rfl⟩, hinner⟩ := htables
    rw [Raw.merge]
    refine ⟨⟨_, rfl⟩, fun v hv => ?_⟩
    rw [entries, lookup_mergeEntries hkeyed.nodup] at hv
    cases hlater : es.lookup name with
    | some w =>
      rw [hlater] at hv
      obtain rfl := Option.some.inj hv
      exact ih (hkeyed.of_lookup hlater) (hinner w hlater) hbase.inner
    | none =>
      rw [hlater] at hv
      exact hbase.of_lookup hv

section Put

variable {path other : List String} {v : Raw}

theorem lookup_put (v : Raw) (name : String) (steps : List Step) (base : Raw) (found : String) :
    (put v (.key name :: steps) base).entries.lookup found =
      if found = name then some (put v steps ((base.entries.lookup name).getD .vacant))
      else base.entries.lookup found := by
  rw [put, entries, lookup_putEntry]

theorem at?_put_self (v : Raw) (path : List String) (base : Raw) :
    (put v (path.map .key) base).at? path =
      some (merge ((base.at? path).getD .vacant) v) := by
  induction path generalizing base with
  | nil => rfl
  | cons name path ih =>
    rw [List.map_cons, at?_cons, lookup_put, if_pos rfl, Option.bind_some, ih,
      getD_at?_getD_lookup]

/-- A value is put in one place only: what lies neither above nor below it stays. -/
theorem at?_put_other (habove : ¬ other <+: path) (hbelow : ¬ path <+: other) (base : Raw) :
    (put v (path.map .key) base).at? other = base.at? other := by
  induction path generalizing other base with
  | nil => exact absurd List.nil_prefix hbelow
  | cons name path ih =>
    cases other with
    | nil => exact absurd List.nil_prefix habove
    | cons found other =>
      rw [List.map_cons, at?_cons, lookup_put]
      by_cases h : found = name
      · subst h
        rw [List.prefix_cons_inj] at habove hbelow
        have hother : other ≠ [] := fun hnil => habove (hnil ▸ List.nil_prefix)
        rw [if_pos rfl, Option.bind_some, ih habove hbelow, at?_getD_lookup hother]
      · rw [if_neg h]
        rfl

theorem TablesAlong.put (hpath : path ≠ []) (hbelow : path <+: other → path = other) {base : Raw}
    (hbase : OpenAlong other base) : (Raw.put v (path.map .key) base).TablesAlong other := by
  induction path generalizing other base with
  | nil => exact absurd rfl hpath
  | cons name path ih =>
    cases other with
    | nil => trivial
    | cons found other =>
      refine ⟨⟨_, rfl⟩, fun w hw => ?_⟩
      rw [List.map_cons, lookup_put] at hw
      by_cases h : found = name
      · subst h
        rw [if_pos rfl] at hw
        obtain rfl := Option.some.inj hw
        rw [List.prefix_cons_inj, List.cons_inj_right] at hbelow
        by_cases hlast : path = []
        · subst hlast
          rw [← hbelow List.nil_prefix]
          trivial
        · exact ih hlast hbelow hbase.inner
      · rw [if_neg h] at hw
        exact hbase.of_lookup hw

end Put

end Raw

end AuthCore.Config
