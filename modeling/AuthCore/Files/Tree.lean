import AuthCore.Files.Node
import AuthCore.Text.Split

/-!
A tree of directories, files and symbolic links, and the way a path takes through it. A path may
step up with two dots, and follows at most forty links.
-/

set_option autoImplicit false

namespace AuthCore.Files

inductive Entry where
  | file (content : Bytes)
  | directory
  | link (target : String)

/-- Entries by the names on their way from the root, each way of one entry. -/
structure Tree where
  entries : List (List String × Entry)
  distinct : (entries.map Prod.fst).Nodup

namespace Tree

def empty : Tree := ⟨[], .nil⟩

def lookup (t : Tree) (way : List String) : Option Entry :=
  if way.isEmpty then some .directory else t.entries.lookup way

/-- The parts of a path; the part after a final slash is empty. -/
def parts (path : String) : List String := (Text.split '/' path.toList).map String.ofList

def parents (way : List String) : List (List String) :=
  (List.range way.length).map fun i => way.take i

theorem nodup_parents (way : List String) : (parents way).Nodup := by
  refine List.pairwise_map.mpr (List.pairwise_lt_range.imp_of_mem ?_)
  intro i j hi hj hlt heq
  have hlength := congrArg List.length heq
  simp only [List.length_take] at hlength
  have := List.mem_range.mp hi
  have := List.mem_range.mp hj
  omega

theorem length_of_mem_parents {way p : List String} (h : p ∈ parents way) :
    p.length < way.length := by
  obtain ⟨i, hi, rfl⟩ := List.mem_map.mp h
  have := List.mem_range.mp hi
  simp only [List.length_take]
  omega

/-- The parents of a way that are still to be made. -/
def missing (t : Tree) (way : List String) : List (List String) :=
  (parents way).filter fun p => !p.isEmpty && (t.entries.lookup p).isNone

def others (t : Tree) (way : List String) : List (List String × Entry) :=
  t.entries.filter fun x => x.1 != way

theorem nodup_insert (t : Tree) (way : List String) (e : Entry) :
    ((t.others way ++ (t.missing way).map (fun p => (p, Entry.directory)) ++
      [(way, e)]).map Prod.fst).Nodup := by
  have hothers : ((t.others way).map Prod.fst).Nodup :=
    (List.filter_sublist.map Prod.fst).nodup t.distinct
  have hnew : ∀ p ∈ (t.others way).map Prod.fst, p ∉ t.missing way ∧ p ≠ way := by
    intro p hp
    obtain ⟨x, hx, rfl⟩ := List.mem_map.mp hp
    obtain ⟨hx, hne⟩ := List.mem_filter.mp hx
    refine ⟨fun hmissing => ?_, by simpa using hne⟩
    obtain ⟨-, hnone⟩ := List.mem_filter.mp hmissing
    have hnone := Option.isNone_iff_eq_none.mp (Bool.and_eq_true_iff.mp hnone).2
    simpa using List.lookup_eq_none_iff.mp hnone x hx
  have hway : way ∉ t.missing way := fun h =>
    Nat.lt_irrefl _ (length_of_mem_parents (List.mem_filter.mp h).1)
  have hmissing : (t.missing way).Nodup := (nodup_parents way).filter _
  simp only [List.map_append, List.map_map, List.map_cons, List.map_nil, Function.comp_def,
    List.map_id']
  refine List.nodup_append.mpr ⟨List.nodup_append.mpr ⟨hothers, hmissing, ?_⟩, by simp, ?_⟩
  · rintro p hp q hq rfl
    exact (hnew p hp).1 hq
  · rintro p hp q hq rfl
    obtain rfl := List.mem_singleton.mp hq
    rcases List.mem_append.mp hp with hp | hp
    · exact (hnew _ hp).2 rfl
    · exact hway hp

def insert (t : Tree) (way : List String) (e : Entry) : Tree :=
  ⟨t.others way ++ (t.missing way).map (fun p => (p, Entry.directory)) ++ [(way, e)],
    t.nodup_insert way e⟩

def erase (t : Tree) (way : List String) : Tree :=
  ⟨t.entries.filter fun x => !(way.isPrefixOf x.1),
    (List.filter_sublist.map Prod.fst).nodup t.distinct⟩

inductive Found where
  | missing
  | blocked
  | file (content : Bytes)
  | directory (way : List String)
deriving DecidableEq

def Found.isFile : Found → Bool
  | file _ => true
  | _ => false

/-- The directory from which the target of a link, or a path, is followed. -/
def base (here : List String) (path : String) : List String :=
  if path.startsWith "/" then [] else here

/-- Follows `rest` from the directory `here`, up to the first link, from which `jump` goes on. -/
def walk (t : Tree) (jump : (here rest : List String) → Found) : (here rest : List String) → Found
  | here, [] => .directory here
  | here, name :: rest =>
    if name = "" ∨ name = "." then walk t jump here rest
    else if name = ".." then walk t jump here.dropLast rest
    else
      match t.lookup (here ++ [name]) with
      | none => .missing
      | some .directory => walk t jump (here ++ [name]) rest
      | some (.file content) => if rest.isEmpty then .file content else .blocked
      | some (.link target) => jump (base here target) (parts target ++ rest)

/-- Follows `rest` over at most `links` links. -/
def follow (t : Tree) : (links : Nat) → (here rest : List String) → Found
  | 0 => t.walk fun _ _ => .blocked
  | links + 1 => t.walk (t.follow links)

def linkLimit : Nat := 40

def find (t : Tree) (start : List String) (path : String) : Found :=
  if path.isEmpty then .missing else t.follow linkLimit (base start path) (parts path)

def names (t : Tree) (way : List String) : List String :=
  t.entries.filterMap fun e => if e.1.dropLast = way then e.1.getLast? else none

def listing (t : Tree) (start : List String) (path : String) (way : List String) :
    List (String × Bool) :=
  (t.names way).map fun name => (name, (t.find start (join path name)).isFile)

def disk (t : Tree) (start : List String) : Disk := fun path =>
  match t.find start path with
  | .missing => .missing
  | .blocked => .blocked "no way through"
  | .file content => .file content
  | .directory way => .directory (t.listing start path way)

end Tree

end AuthCore.Files
