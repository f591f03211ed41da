set_option autoImplicit false

namespace AuthCore.Text

def insertEntry (key value : String) : List (String × String) → List (String × String)
  | [] => [(key, value)]
  | e :: es =>
    if key < e.1 then (key, value) :: e :: es
    else if key = e.1 then (key, value) :: es
    else e :: insertEntry key value es

abbrev Ordered (es : List (String × String)) : Prop := es.Pairwise fun a b => a.1 < b.1

theorem mem_insertEntry {key value : String} {es : List (String × String)} {x : String × String}
    (h : x ∈ insertEntry key value es) : x = (key, value) ∨ x ∈ es := by
  induction es with
  | nil => simpa [insertEntry] using h
  | cons e es ih =>
    unfold insertEntry at h
    split at h
    · simpa using h
    · split at h
      · simp at h ⊢
        rcases h with h | h
        · exact .inl h
        · exact .inr (.inr h)
      · simp at h ⊢
        rcases h with h | h
        · exact .inr (.inl h)
        · rcases ih h with h | h
          · exact .inl h
          · exact .inr (.inr h)

theorem lt_of_not_lt_of_ne {a b : String} (h : ¬ a < b) (hne : a ≠ b) : b < a :=
  Std.lt_of_le_of_ne (String.not_lt.mp h) (Ne.symm hne)

theorem Ordered.insertEntry {es : List (String × String)} (h : Ordered es) (key value : String) :
    Ordered (insertEntry key value es) := by
  induction es with
  | nil => simp [Text.insertEntry, Ordered]
  | cons e es ih =>
    have ⟨hhead, htail⟩ := List.pairwise_cons.mp h
    unfold Text.insertEntry
    split
    · rename_i hlt
      refine List.pairwise_cons.mpr ⟨?_, h⟩
      intro x hx
      rcases List.mem_cons.mp hx with rfl | hx
      · exact hlt
      · exact String.lt_trans hlt (hhead x hx)
    · rename_i hnlt
      split
      · rename_i heq
        refine List.pairwise_cons.mpr ⟨?_, htail⟩
        intro x hx
        simpa [heq] using hhead x hx
      · rename_i hne
        refine List.pairwise_cons.mpr ⟨?_, ih htail⟩
        intro x hx
        rcases mem_insertEntry hx with rfl | hx
        · exact lt_of_not_lt_of_ne hnlt hne
        · exact hhead x hx

structure OrderedMap where
  entries : List (String × String)
  ordered : Ordered entries
deriving DecidableEq

namespace OrderedMap

def empty : OrderedMap := ⟨[], .nil⟩

def insert (m : OrderedMap) (key value : String) : OrderedMap :=
  ⟨insertEntry key value m.entries, m.ordered.insertEntry key value⟩

/-- The map that `pairs` spells; of two equal keys the later counts. -/
def ofPairs (pairs : List (String × String)) : OrderedMap :=
  pairs.foldl (fun m p => m.insert p.1 p.2) empty

def isEmpty (m : OrderedMap) : Bool := m.entries.isEmpty

theorem insertEntry_last {key value : String} {es : List (String × String)}
    (h : ∀ e ∈ es, e.1 < key) : insertEntry key value es = es ++ [(key, value)] := by
  induction es with
  | nil => rfl
  | cons e es ih =>
    have hlt := h e (by simp)
    have hnlt : ¬ key < e.1 := fun hgt => String.lt_irrefl key (String.lt_trans hgt hlt)
    have hne : key ≠ e.1 := fun heq => String.lt_irrefl key (heq ▸ hlt)
    rw [insertEntry, if_neg hnlt, if_neg hne, ih fun x hx => h x (by simp [hx])]
    rfl

theorem entries_foldl (es : List (String × String)) (m : OrderedMap)
    (h : Ordered (m.entries ++ es)) :
    (es.foldl (fun m p => m.insert p.1 p.2) m).entries = m.entries ++ es := by
  induction es generalizing m with
  | nil => simp
  | cons e es ih =>
    have hlast : ∀ x ∈ m.entries, x.1 < e.1 := fun x hx =>
      (List.pairwise_append.mp h).2.2 x hx e (by simp)
    have hinsert : (m.insert e.1 e.2).entries = m.entries ++ [e] := insertEntry_last hlast
    rw [List.foldl_cons, ih, hinsert, List.append_assoc]
    · rfl
    · rw [hinsert, List.append_assoc]
      exact h

theorem ofPairs_entries (m : OrderedMap) : ofPairs m.entries = m := by
  have hentries := entries_foldl m.entries empty m.ordered
  obtain ⟨es, hordered⟩ := m
  unfold ofPairs
  generalize List.foldl (fun m p => m.insert p.1 p.2) empty es = built at hentries
  obtain ⟨entries, _⟩ := built
  cases hentries
  rfl

theorem eq_empty_of_isEmpty {m : OrderedMap} (h : m.isEmpty = true) : m = empty := by
  obtain ⟨entries, hordered⟩ := m
  cases List.isEmpty_iff.mp h
  rfl

end OrderedMap

end AuthCore.Text
