import AuthCore.Proofs.Files.Resolution
import AuthCore.Signing.Repository
import Mathlib.Data.Set.Card

set_option autoImplicit false

namespace AuthCore

namespace Files

variable {α : Type} [BEq α] [LawfulBEq α] {point : α} {name ending : List α}

theorem afterPoint?_append {stem : List α} (hstem : stem ≠ []) (hending : point ∉ ending) :
    afterPoint? point (stem ++ point :: ending) = some ending := by
  obtain ⟨first, last, hlast⟩ : ∃ c cs, stem.reverse = c :: cs :=
    List.exists_cons_of_ne_nil (by simpa using hstem)
  have hreversed : (stem ++ point :: ending).reverse =
      ending.reverse ++ point :: first :: last := by
    simp [hlast]
  have htail : (ending.reverse ++ point :: first :: last).takeWhile (· != point) =
      ending.reverse := by
    rw [List.takeWhile_append_of_pos (by
      rintro c hc
      rw [bne_iff_ne]
      rintro rfl
      exact hending (List.mem_reverse.mp hc))]
    simp
  simp [afterPoint?, hreversed, htail]

theorem afterPoint?_eq_some_iff : afterPoint? point name = some ending ↔
    ∃ stem, name = stem ++ point :: ending ∧ stem ≠ [] ∧ point ∉ ending := by
  constructor
  · intro h
    have hcut := List.takeWhile_append_dropWhile (p := (· != point)) (l := name.reverse)
    generalize htail : name.reverse.takeWhile (· != point) = tail at hcut
    generalize hrest : name.reverse.dropWhile (· != point) = rest at hcut
    have hdrop : name.reverse.drop tail.length = rest := by simp [← hcut]
    simp only [afterPoint?, htail, hdrop] at h
    split at h
    · rename_i c first last
      obtain rfl := Option.some.inj h
      have hpoint : c = point := by
        simpa [hrest] using
          List.head_dropWhile_not (· != point) (l := name.reverse) (by simp [hrest])
      refine ⟨(first :: last).reverse, ?_, by simp, ?_⟩
      · rw [← List.reverse_reverse name, ← hcut, hpoint]
        simp
      · intro hmem
        have hkept : (name.reverse.takeWhile (· != point)).all (· != point) = true :=
          List.all_takeWhile
        rw [htail, List.all_eq_true] at hkept
        simpa using hkept point (List.mem_reverse.mp hmem)
    · cases h
  · rintro ⟨stem, rfl, hstem, hending⟩
    exact afterPoint?_append hstem hending

end Files

namespace Signing

/-- A name with something before a last point and the ending of key files, in any case. -/
def KeyName (name : Bytes) : Prop :=
  ∃ stem p e m, name = stem ++ [0x2E, p, e, m] ∧ stem ≠ [] ∧
    (p = 0x70 ∨ p = 0x50) ∧ (e = 0x65 ∨ e = 0x45) ∧ (m = 0x6D ∨ m = 0x4D)

theorem lower_eq_iff {b c : UInt8} (hc : 0x61 ≤ c ∧ c ≤ 0x7A) :
    lower b = c ↔ b = c ∨ b = c - 0x20 := by
  unfold lower
  split <;> grind

theorem map_lower_eq_keyEnding_iff {ending : Bytes} :
    ending.map lower = keyEnding ↔ ∃ p e m, ending = [p, e, m] ∧
      (p = 0x70 ∨ p = 0x50) ∧ (e = 0x65 ∨ e = 0x45) ∧ (m = 0x6D ∨ m = 0x4D) := by
  constructor
  · intro h
    have hlength : ending.length = 3 := by simpa [keyEnding] using congrArg List.length h
    obtain ⟨p, e, m, rfl⟩ := List.length_eq_three.mp hlength
    simpa [keyEnding, lower_eq_iff] using h
  · rintro ⟨p, e, m, rfl, hp, he, hm⟩
    simpa [keyEnding, lower_eq_iff] using ⟨hp, he, hm⟩

theorem isKeyName_iff {name : Bytes} : isKeyName name = true ↔ KeyName name := by
  unfold isKeyName KeyName
  simp only [Option.any_eq_true, beq_iff_eq, Files.afterPoint?_eq_some_iff,
    map_lower_eq_keyEnding_iff]
  constructor
  · rintro ⟨_, ⟨stem, rfl, hstem, -⟩, p, e, m, rfl, hending⟩
    exact ⟨stem, p, e, m, rfl, hstem, hending⟩
  · rintro ⟨stem, p, e, m, rfl, hstem, hending⟩
    exact ⟨_, ⟨stem, rfl, hstem, by grind⟩, p, e, m, rfl, hending⟩

section Choice

variable {ν α : Type} {bytes : ν → Bytes} {dir : String} {entries others : List (ν × Bool)}

def keyEntries (bytes : ν → Bytes) (entries : List (ν × Bool)) : Set ν :=
  { name | (name, true) ∈ entries ∧ KeyName (bytes name) }

theorem keyEntries_eq : keyEntries bytes entries = { name | name ∈ keyNames bytes entries } := by
  ext name
  simp [keyEntries, keyNames, isKeyName_iff]

theorem nodup_keyNames (bytes : ν → Bytes) (h : (entries.map Prod.fst).Nodup) :
    (keyNames bytes entries).Nodup :=
  (List.filter_sublist.map Prod.fst).nodup h

/-- What a set of key files decides, where a key file lies at its `place`. -/
structure Decides (dir : String) (place : ν → α) (keys : Set ν) (answer : Except Failure α) :
    Prop where
  taken : ∀ a, answer = .ok a ↔ ∃ name, keys = {name} ∧ place name = a
  none : keys = ∅ → answer = .error (.noKeyFile dir)
  several : 1 < keys.ncard → answer = .error (.manyKeyFiles dir keys.ncard)
  credential : ∀ f, answer = .error f → f.kind = .credential

theorem only_decides {names : List ν} (h : names.Nodup) (dir : String) (place : ν → α) :
    Decides dir place { name | name ∈ names } ((only dir names).map place) := by
  have hcard : { name | name ∈ names }.ncard = names.length := by
    classical
    rw [← List.coe_toFinset, Set.ncard_coe_finset, List.toFinset_card_of_nodup h]
  match names with
  | [] =>
    have hempty : { name : ν | name ∈ [] } = ∅ := by simp
    rw [hempty] at hcard ⊢
    refine ⟨fun a => iff_of_false (by rintro ⟨⟩) ?_, fun _ => rfl, by simp, by rintro _ ⟨⟩; rfl⟩
    rintro ⟨name, hname, -⟩
    exact Set.singleton_ne_empty name hname.symm
  | [name] =>
    have hsingle : { n : ν | n ∈ [name] } = {name} := by ext; simp
    rw [hsingle]
    refine ⟨fun a => ?_, fun h => absurd h (Set.singleton_ne_empty name), by simp,
      by rintro _ ⟨⟩⟩
    simp [only, Except.map]
  | first :: second :: rest =>
    refine ⟨fun a => iff_of_false (by rintro ⟨⟩) ?_, fun h => ?_, fun _ => by rw [hcard]; rfl,
      by rintro _ ⟨⟩; rfl⟩
    · rintro ⟨name, hname, -⟩
      rw [hname, Set.ncard_singleton] at hcard
      simp at hcard
    · rw [h, Set.ncard_empty] at hcard
      simp at hcard

theorem Decides.eq {place : ν → α} {keys : Set ν} {answer answer' : Except Failure α}
    (hkeys : keys.Finite) (h : Decides dir place keys answer)
    (h' : Decides dir place keys answer') : answer = answer' := by
  rcases Nat.lt_trichotomy keys.ncard 1 with hlt | hone | hmany
  · have hempty : keys = ∅ := (Set.ncard_eq_zero hkeys).mp (by omega)
    rw [h.none hempty, h'.none hempty]
  · obtain ⟨name, hname⟩ := Set.ncard_eq_one.mp hone
    rw [(h.taken _).mpr ⟨name, hname, rfl⟩, (h'.taken _).mpr ⟨name, hname, rfl⟩]
  · rw [h.several hmany, h'.several hmany]

end Choice

/-- The key of a directory is its only entry that leads to a file and has the name of a key file,
and with none or several of them the directory is refused. Neither the order of the entries nor any
other entry counts. In a tree of files, an entry that is a link counts as what it leads to. -/
theorem key_file_taken_iff_unique {ν : Type} (bytes : ν → Bytes) (dir : String)
    (entries : List (ν × Bool)) (hnames : (entries.map Prod.fst).Nodup) :
    Decides dir id (keyEntries bytes entries) (only dir (keyNames bytes entries)) ∧
    (∀ others, (others.map Prod.fst).Nodup → keyEntries bytes others = keyEntries bytes entries →
      only dir (keyNames bytes others) = only dir (keyNames bytes entries)) ∧
    (∀ count, (Failure.manyKeyFiles dir count).message =
      s!"Expected exactly one .pem signing key in {dir}, found {Text.Decimal.write count}") ∧
    ∀ (t : Files.Tree) (start way : List String) (shown listing : List (String × Bool)),
      t.find start dir = .directory way → t.disk start dir = .directory shown →
      listing.Perm shown →
      Decides dir (Files.join dir)
        { name | (t.lookup (way ++ [name])).isSome = true ∧
          (∃ content, t.LeadsTo start (Files.join dir name) content) ∧
          KeyName (Text.Utf8.encode name) }
        (findKeyFile dir (.directory listing)) := by
  have hdecides : ∀ (listed : List (ν × Bool)), (listed.map Prod.fst).Nodup →
      Decides dir id (keyEntries bytes listed) (only dir (keyNames bytes listed)) := by
    intro listed hlisted
    have h := only_decides (nodup_keyNames bytes hlisted) dir id
    rwa [← keyEntries_eq, Except.map_id] at h
  refine ⟨hdecides entries hnames, fun others hothers hkeys => ?_, fun _ => rfl, ?_⟩
  · refine Decides.eq ?_ (hkeys ▸ hdecides others hothers) (hdecides entries hnames)
    rw [keyEntries_eq]
    exact List.finite_toSet _
  · intro t start way shown listing hway hshown hperm
    obtain rfl : t.listing start dir way = shown := by
      rw [Files.Tree.disk, hway] at hshown
      exact Files.Node.directory.inj hshown
    have hnodup : (listing.map Prod.fst).Nodup := by
      rw [(hperm.map Prod.fst).nodup_iff, Files.Tree.map_fst_listing]
      exact Files.Tree.nodup_names
    have h := only_decides (nodup_keyNames Text.Utf8.encode hnodup) dir (Files.join dir)
    rw [← keyEntries_eq] at h
    have hkeys : keyEntries Text.Utf8.encode listing = { name |
        (t.lookup (way ++ [name])).isSome = true ∧
          (∃ content, t.LeadsTo start (Files.join dir name) content) ∧
          KeyName (Text.Utf8.encode name) } := by
      ext name
      simp only [keyEntries, Set.mem_ofPred_eq, hperm.mem_iff, Files.Tree.mem_listing_iff,
        and_assoc]
    rwa [hkeys] at h

def mixedTree : Files.Tree :=
  Files.Tree.empty.insert ["store"] (.file [])
    |>.insert ["keys", "a.pem"] (.link "gone")
    |>.insert ["keys", "b.PEM"] (.link "../store")
    |>.insert ["keys", "c.pem"] .directory
    |>.insert ["keys", ".pem"] (.file [])
    |>.insert ["keys", "d.pem.bak"] (.file [])

/-- A name that is no text is taken like any other, and a link for the file it leads to. -/
theorem single_link_and_untextual_name_taken :
    keyEntries id [([0x2E, 0x70, 0x65, 0x6D], true), ([0xFF, 0x2E, 0x50, 0x65, 0x6D], true),
      ([0x61, 0x2E, 0x70, 0x65, 0x6D], false)] = {[0xFF, 0x2E, 0x50, 0x65, 0x6D]} ∧
    { name | (mixedTree.lookup (["keys"] ++ [name])).isSome = true ∧
      (∃ content, mixedTree.LeadsTo [] (Files.join "keys" name) content) ∧
      KeyName (Text.Utf8.encode name) } = {"b.PEM"} := by
  obtain ⟨hbytes, -, -, htree⟩ := key_file_taken_iff_unique (id : Bytes → Bytes) "keys"
    [([0x2E, 0x70, 0x65, 0x6D], true), ([0xFF, 0x2E, 0x50, 0x65, 0x6D], true),
      ([0x61, 0x2E, 0x70, 0x65, 0x6D], false)] (by decide)
  constructor
  · obtain ⟨name, hkeys, rfl⟩ := (hbytes.taken [0xFF, 0x2E, 0x50, 0x65, 0x6D]).mp (by rfl)
    exact hkeys
  · have hlinks := htree mixedTree [] ["keys"]
      [("a.pem", false), ("b.PEM", true), ("c.pem", false), (".pem", true), ("d.pem.bak", true)]
      [("d.pem.bak", true), (".pem", true), ("c.pem", false), ("b.PEM", true), ("a.pem", false)]
      (by decide +kernel) (by decide +kernel) (by decide)
    obtain ⟨name, hkeys, hname⟩ := (hlinks.taken (Files.join "keys" "b.PEM")).mp (by decide +kernel)
    rwa [Files.join_injective "keys" hname] at hkeys

end Signing

end AuthCore
