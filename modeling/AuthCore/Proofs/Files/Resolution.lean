import AuthCore.Files.Tree
import Mathlib.Data.List.Nodup

set_option autoImplicit false

namespace AuthCore.Files

theorem join_injective (dir : String) : Function.Injective (join dir) := by
  intro first second h
  unfold join at h
  split at h
  all_goals exact (String.append_right_inj _).mp h

theorem Tree.Found.isFile_iff {found : Tree.Found} :
    found.isFile = true ↔ ∃ content, found = .file content := by
  cases found <;> simp [Tree.Found.isFile]

namespace Tree

def IsName (name : String) : Prop := name ≠ "" ∧ name ≠ "." ∧ name ≠ ".."

/-- From the directory `here`, the parts lead to a file of this content over at most `links`
links. -/
inductive Leads (t : Tree) (content : Bytes) : (links : Nat) → (here rest : List String) → Prop
  | stay {links : Nat} {here rest : List String} {name : String} (hname : name = "" ∨ name = ".")
      (h : Leads t content links here rest) : Leads t content links here (name :: rest)
  | up {links : Nat} {here rest : List String} (h : Leads t content links here.dropLast rest) :
      Leads t content links here (".." :: rest)
  | enter {links : Nat} {here rest : List String} {name : String} (hname : IsName name)
      (hentry : t.lookup (here ++ [name]) = some .directory)
      (h : Leads t content links (here ++ [name]) rest) : Leads t content links here (name :: rest)
  | file {links : Nat} {here : List String} {name : String} (hname : IsName name)
      (hentry : t.lookup (here ++ [name]) = some (.file content)) :
      Leads t content links here [name]
  | link {links : Nat} {here rest : List String} {name target : String} (hname : IsName name)
      (hentry : t.lookup (here ++ [name]) = some (.link target))
      (h : Leads t content links (base here target) (parts target ++ rest)) :
      Leads t content (links + 1) here (name :: rest)

def LeadsTo (t : Tree) (start : List String) (path : String) (content : Bytes) : Prop :=
  path ≠ "" ∧ Leads t content linkLimit (base start path) (parts path)

variable {t : Tree} {content : Bytes} {links : Nat} {here rest : List String} {name target : String}
  {jump : (here rest : List String) → Found}

section Walk

theorem walk_stay (hname : name = "" ∨ name = ".") :
    t.walk jump here (name :: rest) = t.walk jump here rest := by
  rw [walk, if_pos hname]

theorem walk_up : t.walk jump here (".." :: rest) = t.walk jump here.dropLast rest := by
  rw [walk, if_neg (by decide), if_pos rfl]

theorem walk_entry (hname : IsName name) :
    t.walk jump here (name :: rest) =
      match t.lookup (here ++ [name]) with
      | none => .missing
      | some .directory => t.walk jump (here ++ [name]) rest
      | some (.file content) => if rest.isEmpty then .file content else .blocked
      | some (.link target) => jump (base here target) (parts target ++ rest) := by
  have hstay : ¬(name = "" ∨ name = ".") := not_or.mpr ⟨hname.1, hname.2.1⟩
  exact (if_neg hstay).trans (if_neg hname.2.2)

theorem leads_of_walk
    (hjump : ∀ here rest, jump here rest = .file content →
      ∃ fewer, links = fewer + 1 ∧ Leads t content fewer here rest)
    (h : t.walk jump here rest = .file content) : Leads t content links here rest := by
  induction rest generalizing here with
  | nil => cases h
  | cons name rest ih =>
    by_cases hstay : name = "" ∨ name = "."
    · exact .stay hstay (ih (walk_stay hstay ▸ h))
    by_cases hup : name = ".."
    · subst hup
      exact .up (ih (walk_up ▸ h))
    have hname : IsName name := ⟨fun h => hstay (.inl h), fun h => hstay (.inr h), hup⟩
    rw [walk_entry hname] at h
    cases hentry : t.lookup (here ++ [name]) with
    | none => simp [hentry] at h
    | some entry =>
      rw [hentry] at h
      cases entry with
      | directory => exact .enter hname hentry (ih h)
      | file found =>
        cases rest with
        | nil =>
          cases h
          exact .file hname hentry
        | cons => cases h
      | link target =>
        obtain ⟨fewer, rfl, hrest⟩ := hjump _ _ h
        exact .link hname hentry hrest

end Walk

theorem follow_stay (hname : name = "" ∨ name = ".") :
    t.follow links here (name :: rest) = t.follow links here rest := by
  cases links <;> exact walk_stay hname

theorem follow_up : t.follow links here (".." :: rest) = t.follow links here.dropLast rest := by
  cases links <;> exact walk_up

theorem follow_directory (hname : IsName name)
    (hentry : t.lookup (here ++ [name]) = some .directory) :
    t.follow links here (name :: rest) = t.follow links (here ++ [name]) rest := by
  cases links <;> simp only [follow, walk_entry hname, hentry]

theorem follow_file (hname : IsName name)
    (hentry : t.lookup (here ++ [name]) = some (.file content)) :
    t.follow links here [name] = .file content := by
  cases links <;> simp [follow, walk_entry hname, hentry]

theorem follow_link (hname : IsName name)
    (hentry : t.lookup (here ++ [name]) = some (.link target)) :
    t.follow (links + 1) here (name :: rest) =
      t.follow links (base here target) (parts target ++ rest) := by
  simp only [follow, walk_entry hname, hentry]

theorem follow_eq_file_iff : t.follow links here rest = .file content ↔
    Leads t content links here rest := by
  constructor
  · intro h
    induction links generalizing here rest with
    | zero => exact leads_of_walk (fun _ _ h => by cases h) h
    | succ links ih => exact leads_of_walk (fun _ _ h => ⟨links, rfl, ih h⟩) h
  · intro h
    induction h with
    | stay hname _ ih => rw [follow_stay hname, ih]
    | up _ ih => rw [follow_up, ih]
    | enter hname hentry _ ih => rw [follow_directory hname hentry, ih]
    | file hname hentry => exact follow_file hname hentry
    | link hname hentry _ ih => rw [follow_link hname hentry, ih]

theorem find_eq_file_iff {start : List String} {path : String} :
    t.find start path = .file content ↔ t.LeadsTo start path content := by
  unfold find LeadsTo
  by_cases hpath : path = ""
  · simp [hpath]
  · rw [if_neg (by simpa using hpath), follow_eq_file_iff]
    simp [hpath]

section Listing

variable {start way : List String} {path : String}

theorem eq_append_of_getLast? (hway : here.dropLast = way) (hname : here.getLast? = some name) :
    here = way ++ [name] := by
  obtain ⟨_, rfl⟩ := List.getLast?_eq_some_iff.mp hname
  rw [← hway, List.dropLast_concat]

theorem lookup_isSome_iff : (t.lookup (way ++ [name])).isSome = true ↔
    ∃ e ∈ t.entries, e.1 = way ++ [name] := by
  rw [lookup, if_neg (by simp), Option.isSome_iff_ne_none, ne_eq, List.lookup_eq_none_iff]
  simp only [Classical.not_forall, Bool.not_eq_true, bne_eq_false_iff_eq, exists_prop]
  exact exists_congr fun e => and_congr_right' eq_comm

theorem mem_names_iff : name ∈ t.names way ↔ (t.lookup (way ++ [name])).isSome = true := by
  simp only [lookup_isSome_iff, names, List.mem_filterMap, Option.ite_none_right_eq_some]
  constructor
  · rintro ⟨e, he, hway, hname⟩
    exact ⟨e, he, eq_append_of_getLast? hway hname⟩
  · rintro ⟨e, he, h⟩
    exact ⟨e, he, by simp [h]⟩

theorem nodup_names : (t.names way).Nodup := by
  have hnames : t.names way = (t.entries.map Prod.fst).filterMap fun entry =>
      if entry.dropLast = way then entry.getLast? else none := by
    rw [names, List.filterMap_map]
    rfl
  rw [hnames]
  refine List.Nodup.filterMap (fun first second name hfirst hsecond => ?_) t.distinct
  simp only [Option.mem_def, Option.ite_none_right_eq_some] at hfirst hsecond
  rw [eq_append_of_getLast? hfirst.1 hfirst.2, eq_append_of_getLast? hsecond.1 hsecond.2]

theorem map_fst_listing : (t.listing start path way).map Prod.fst = t.names way := by
  simp [listing, Function.comp_def]

theorem mem_listing_iff : (name, true) ∈ t.listing start path way ↔
    (t.lookup (way ++ [name])).isSome = true ∧
      ∃ content, t.LeadsTo start (join path name) content := by
  simp only [listing, List.mem_map, Prod.mk.injEq, mem_names_iff, Found.isFile_iff,
    find_eq_file_iff]
  constructor
  · rintro ⟨_, hentry, rfl, hfile⟩
    exact ⟨hentry, hfile⟩
  · rintro ⟨hentry, hfile⟩
    exact ⟨name, hentry, rfl, hfile⟩

end Listing

end Tree

end AuthCore.Files
