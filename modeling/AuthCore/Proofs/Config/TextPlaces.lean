import AuthCore.Proofs.Config.FieldDocument

/-!
Places of a tree that are read as text only. A number or a truth value there may be replaced with
its text: what is laid over the tree or put into it later makes no difference, and the settings read
from it are the same.
-/

set_option autoImplicit false

namespace AuthCore.Config

namespace Raw

/-- A value as the text it is read as, if it is. -/
def worded (v : Raw) : Raw := (v.text?.map text).getD v

/-- The tree with its text put for the value at a path of keys. -/
def wordedAt : (path : List String) → Raw → Raw
  | [], v => v.worded
  | name :: path, table es =>
    table (es.map fun e => (e.1, if e.1 = name then wordedAt path e.2 else e.2))
  | _ :: _, v => v

def wordedEntries (name : String) (path : List String) (es : List (String × Raw)) :
    List (String × Raw) :=
  es.map fun e => (e.1, if e.1 = name then wordedAt path e.2 else e.2)

variable {name : String} {path : List String} {r r' : Raw} {es es' : List (String × Raw)}

theorem entries_wordedAt :
    (wordedAt (name :: path) r).entries = wordedEntries name path r.entries := by
  cases r <;> rfl

theorem entries_wordedAt_nil : (wordedAt [] r).entries = r.entries := by
  cases r <;> rfl

theorem items_wordedAt : (wordedAt path r).items = r.items := by
  cases path <;> cases r <;> rfl

theorem lookup_wordedEntries (other : String) : (wordedEntries name path es).lookup other =
    if other = name then (es.lookup other).map (wordedAt path) else es.lookup other := by
  induction es with
  | nil => simp [wordedEntries]
  | cons e es ih =>
    rw [wordedEntries, List.map_cons, ← wordedEntries, lookup_cons_eq_ite, lookup_cons_eq_ite, ih]
    by_cases he : other = e.1
    · subst he
      by_cases hname : e.1 = name <;> simp [hname]
    · simp [he]

theorem wordedEntries_putEntry (other : String) (v : Raw) :
    wordedEntries name path (putEntry other v es) =
      putEntry other (if other = name then wordedAt path v else v)
        (wordedEntries name path es) := by
  induction es with
  | nil => rfl
  | cons e es ih =>
    by_cases he : e.1 = other
    · simp [putEntry, wordedEntries, he]
    · simpa [putEntry, wordedEntries, he] using ih

/-- Trees that differ at the path only, and there not in what is read as text. -/
def SameWords (path : List String) (r r' : Raw) : Prop := wordedAt path r = wordedAt path r'

theorem SameWords.entries (h : SameWords (name :: path) r r') :
    wordedEntries name path r.entries = wordedEntries name path r'.entries := by
  rw [← entries_wordedAt, ← entries_wordedAt, h]

theorem SameWords.entries_nil (h : SameWords [] r r') : r.entries = r'.entries := by
  rw [← entries_wordedAt_nil, show wordedAt [] r = wordedAt [] r' from h, entries_wordedAt_nil]

theorem SameWords.items (h : SameWords path r r') : r.items = r'.items := by
  rw [← items_wordedAt, h, items_wordedAt]

abbrev under (es : List (String × Raw)) (other : String) : Raw := (es.lookup other).getD .vacant

theorem under_congr (h : wordedEntries name path es = wordedEntries name path es')
    (other : String) :
    if other = name then SameWords path (under es other) (under es' other)
    else under es other = under es' other := by
  have hlookup := congrArg (List.lookup other) h
  rw [lookup_wordedEntries, lookup_wordedEntries] at hlookup
  by_cases hother : other = name
  · rw [if_pos hother, if_pos hother] at hlookup
    rw [if_pos hother]
    unfold under SameWords
    generalize es.lookup other = o at hlookup
    generalize es'.lookup other = o' at hlookup
    cases o <;> cases o' <;> simp_all
  · rw [if_neg hother, if_neg hother] at hlookup
    rw [if_neg hother, under, hlookup, under]

theorem putEntry_congr (h : wordedEntries name path es = wordedEntries name path es')
    (other : String) (change : Raw → Raw)
    (hchange : ∀ v v', SameWords path v v' → SameWords path (change v) (change v')) :
    wordedEntries name path (putEntry other (change (under es other)) es) =
      wordedEntries name path (putEntry other (change (under es' other)) es') := by
  have hunder := under_congr h other
  rw [wordedEntries_putEntry, wordedEntries_putEntry, h]
  by_cases hother : other = name
  · rw [if_pos hother] at hunder
    rw [if_pos hother, if_pos hother, hchange _ _ hunder]
  · rw [if_neg hother] at hunder
    rw [hunder]

theorem SameWords.table (h : wordedEntries name path es = wordedEntries name path es') :
    SameWords (name :: path) (.table es) (.table es') :=
  congrArg Raw.table h

theorem SameWords.merge (h : SameWords path r r') (u : Raw) :
    SameWords path (Raw.merge r u) (Raw.merge r' u) := by
  induction path generalizing r r' u with
  | nil =>
    by_cases hu : ∃ es, u = .table es
    · obtain ⟨later, rfl⟩ := hu
      rw [Raw.merge, Raw.merge, h.entries_nil]
      rfl
    · rw [merge_of_leaf (not_exists.mp hu), merge_of_leaf (not_exists.mp hu)]
      rfl
  | cons name path ih =>
    by_cases hu : ∃ es, u = .table es
    · obtain ⟨later, rfl⟩ := hu
      rw [Raw.merge, Raw.merge]
      refine .table ?_
      have hentries := h.entries
      generalize r.entries = es at hentries
      generalize r'.entries = es' at hentries
      induction later generalizing es es' with
      | nil => simpa [mergeEntries] using hentries
      | cons e later ihlater =>
        rw [mergeEntries, mergeEntries]
        exact ihlater _ _ (putEntry_congr hentries e.1 (fun v => Raw.merge v e.2)
          fun v v' hv => ih hv e.2)
    · rw [merge_of_leaf (not_exists.mp hu), merge_of_leaf (not_exists.mp hu)]
      rfl

theorem SameWords.put (h : SameWords path r r') (u : Raw) (steps : List Step) :
    SameWords path (Raw.put u steps r) (Raw.put u steps r') := by
  induction steps generalizing path r r' with
  | nil => exact h.merge u
  | cons step steps ih =>
    cases step with
    | key other =>
      rw [Raw.put, Raw.put]
      cases path with
      | nil =>
        rw [h.entries_nil]
        rfl
      | cons name path =>
        exact .table (putEntry_congr h.entries other (Raw.put u steps) fun v v' hv => ih hv)
    | index i =>
      rw [Raw.put, Raw.put, h.items]
      rfl

theorem SameWords.assignAll (h : SameWords path r r') (layer : List (String × Raw)) :
    SameWords path (Raw.assignAll layer r) (Raw.assignAll layer r') := by
  induction layer generalizing r r' with
  | nil => exact h
  | cons e layer ih => exact ih (h.put e.2 _)

theorem sameWords_put {v w : Raw} (hv : ∀ es, v ≠ .table es) (hw : ∀ es, w ≠ .table es)
    (h : v.worded = w.worded) (path : List String) (r : Raw) :
    SameWords path (Raw.put v (path.map .key) r) (Raw.put w (path.map .key) r) := by
  induction path generalizing r with
  | nil =>
    rw [List.map_nil, Raw.put, Raw.put, merge_of_leaf hv, merge_of_leaf hw]
    exact h
  | cons name path ih =>
    rw [List.map_cons, Raw.put, Raw.put]
    refine .table ?_
    rw [wordedEntries_putEntry, wordedEntries_putEntry, if_pos rfl, if_pos rfl, ih]

theorem merge_nest (path : List String) (v r : Raw) :
    Raw.merge r (nest path v) = Raw.put v (path.map .key) r := by
  induction path generalizing r with
  | nil => rfl
  | cons name path ih =>
    rw [nest, Raw.merge, mergeEntries, mergeEntries, ih, List.map_cons, Raw.put]

end Raw

section Readers

variable {α : Type} {name key : String} {path : List String}

/-- A reader that takes the words at a path for the value there. -/
def ReadsWords (path : List String) (read : Raw → Option α) : Prop :=
  ∀ v, read (Raw.wordedAt path v) = read v

theorem readsWords_text? : ReadsWords [] Raw.form.text? := fun v => by cases v <;> rfl

/-- Records of the same fields, but for one that has its words at a path instead. -/
def AlikeFields (name : String) (path : List String) (r s : Record Raw) : Prop :=
  ∀ other, s.find other = r.find other ∨
    other = name ∧ s.find other = (r.find other).map (Raw.wordedAt path)

theorem withDefault?_of_alikeFields {r s : Record Raw} (h : AlikeFields name path r s)
    {other : String} {d : α} {read : Raw → Option α}
    (hread : other = name → ReadsWords path read) :
    s.withDefault? other d read = r.withDefault? other d read := by
  unfold Record.withDefault?
  rcases h other with hsame | ⟨hname, hworded⟩
  · rw [hsame]
  · rw [hworded]
    cases r.find other with
    | none => rfl
    | some v => exact hread hname v

theorem find_graph (names : List String) (g : String → Option Raw) (other : String) :
    Record.find ⟨names.map fun n => (n, g n)⟩ other = if other ∈ names then g other else none := by
  by_cases h : other ∈ names
  · rw [Record.find, List.lookup_graph g h, if_pos h]
    rfl
  · rw [Record.find, lookup_eq_none_of_not_mem (by simpa using h), if_neg h]
    rfl

theorem readsWords_record {names : List String} {build : Record Raw → Option α}
    (hbuild : ∀ r s, AlikeFields name path r s → build s = build r) :
    ReadsWords (name :: path) fun v => (Raw.form.record? names v).bind build := by
  intro v
  cases v with
  | table es =>
    refine hbuild _ _ fun other => ?_
    rw [find_graph, find_graph]
    change (if other ∈ names then (Raw.wordedEntries name path es).lookup other else none) = _ ∨
      _ ∧ (if other ∈ names then (Raw.wordedEntries name path es).lookup other else none) = _
    rw [Raw.lookup_wordedEntries]
    by_cases hmem : other ∈ names
    · rw [if_pos hmem, if_pos hmem]
      by_cases hname : other = name <;> simp [hname]
    · rw [if_neg hmem, if_neg hmem]
      exact .inl rfl
  | _ => rfl

theorem readsWords_remoteCache (h : "scan_batch_size" ≠ key) :
    ReadsWords [key] (RemoteCache.read? Raw.form) := by
  refine readsWords_record fun r s halike => ?_
  dsimp only
  rw [withDefault?_of_alikeFields halike fun _ => readsWords_text?,
    withDefault?_of_alikeFields halike fun _ => readsWords_text?,
    withDefault?_of_alikeFields halike fun heq => absurd heq h]

theorem readsWords_cache (hprovider : "provider" = name → path = [])
    (hredis : "redis" = name → ReadsWords path (RemoteCache.read? Raw.form))
    (hother : name ∉ ["default_ttl_seconds", "operation_timeout_ms", "memory"]) :
    ReadsWords (name :: path) (Cache.read? Raw.form) := by
  refine readsWords_record fun r s halike => ?_
  have hne {other : String}
      (hmem : other ∈ ["default_ttl_seconds", "operation_timeout_ms", "memory"]) :
      other ≠ name := fun heq => hother (heq ▸ hmem)
  dsimp only
  rw [withDefault?_of_alikeFields halike fun heq => hprovider heq ▸ readsWords_text?,
    withDefault?_of_alikeFields halike fun heq => absurd heq (hne (by decide)),
    withDefault?_of_alikeFields halike fun heq => absurd heq (hne (by decide)),
    withDefault?_of_alikeFields halike hredis,
    withDefault?_of_alikeFields halike fun heq => absurd heq (hne (by decide))]

theorem readsWords_password (h : "max_concurrent_hashes" ≠ key) :
    ReadsWords [key] (Password.read? Raw.form) := by
  refine readsWords_record fun r s halike => ?_
  dsimp only
  rw [withDefault?_of_alikeFields halike fun _ => readsWords_text?,
    withDefault?_of_alikeFields halike fun heq => absurd heq h]

theorem readsWords_signing (h : "token_ttl_minutes" ≠ key) :
    ReadsWords [key] (Signing.read? Raw.form) := by
  refine readsWords_record fun r s halike => ?_
  dsimp only
  iterate 4 rw [withDefault?_of_alikeFields halike fun _ => readsWords_text?]
  rw [withDefault?_of_alikeFields halike fun heq => absurd heq h]

theorem readsWords_session (h : "nonce_bytes" ≠ key) :
    ReadsWords [key] (Session.read? Raw.form) := by
  refine readsWords_record fun r s halike => ?_
  dsimp only
  rw [withDefault?_of_alikeFields halike fun _ => readsWords_text?,
    withDefault?_of_alikeFields halike fun heq => absurd heq h]

theorem readsWords_logging : ReadsWords [key] (Logging.read? Raw.form) := by
  refine readsWords_record fun r s halike => ?_
  dsimp only
  rw [withDefault?_of_alikeFields halike fun _ => readsWords_text?,
    withDefault?_of_alikeFields halike fun _ => readsWords_text?]

theorem readsWords_settings (hcache : "cache" = name → ReadsWords path (Cache.read? Raw.form))
    (hpassword : "password" = name → ReadsWords path (Password.read? Raw.form))
    (hsigning : "signing" = name → ReadsWords path (Signing.read? Raw.form))
    (hsession : "session" = name → ReadsWords path (Session.read? Raw.form))
    (hlogging : "logging" = name → ReadsWords path (Logging.read? Raw.form)) :
    ReadsWords (name :: path) (Settings.read? Raw.form) := by
  refine readsWords_record fun r s halike => ?_
  dsimp only
  rw [withDefault?_of_alikeFields halike hcache, withDefault?_of_alikeFields halike hpassword,
    withDefault?_of_alikeFields halike hsigning, withDefault?_of_alikeFields halike hsession,
    withDefault?_of_alikeFields halike hlogging]

theorem Field.readsWords {f : Field} (h : f.shape = .text) :
    ReadsWords f.path (Settings.read? Raw.form) := by
  have off {name other : String} {p : Prop} (hne : name ≠ other) (heq : name = other) : p :=
    absurd heq hne
  cases f with
  | provider =>
    exact readsWords_settings
      (fun _ => readsWords_cache (fun _ => rfl) (off (by decide)) (by decide))
      (off (by decide)) (off (by decide)) (off (by decide)) (off (by decide))
  | url | remoteKeyPrefix =>
    exact readsWords_settings
      (fun _ => readsWords_cache (off (by decide)) (fun _ => readsWords_remoteCache (by decide))
        (by decide))
      (off (by decide)) (off (by decide)) (off (by decide)) (off (by decide))
  | secretEnv =>
    exact readsWords_settings (off (by decide)) (fun _ => readsWords_password (by decide))
      (off (by decide)) (off (by decide)) (off (by decide))
  | keyDir | passphraseEnv | issuer | audience =>
    exact readsWords_settings (off (by decide)) (off (by decide))
      (fun _ => readsWords_signing (by decide)) (off (by decide)) (off (by decide))
  | keyPrefix =>
    exact readsWords_settings (off (by decide)) (off (by decide)) (off (by decide))
      (fun _ => readsWords_session (by decide)) (off (by decide))
  | level | format =>
    exact readsWords_settings (off (by decide)) (off (by decide)) (off (by decide))
      (off (by decide)) fun _ => readsWords_logging
  | _ => cases h

end Readers

end AuthCore.Config
