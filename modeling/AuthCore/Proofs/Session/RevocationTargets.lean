import AuthCore.Proofs.Cache.MemoryView
import AuthCore.Proofs.Session.Operations
import Mathlib.Data.Set.Card

set_option autoImplicit false

namespace AuthCore.Session

open Cache (Memory)

namespace Store

theorem texts_filterMap_sublist (s : Store) (found : List String) :
    ((found.filterMap s.readKey?).map Key.text).Sublist found := by
  induction found with
  | nil => exact .slnil
  | cons raw found ih =>
    cases hread : s.readKey? raw with
    | none =>
      rw [List.filterMap_cons_none hread]
      exact ih.cons raw
    | some k =>
      rw [List.filterMap_cons_some hread, List.map_cons, Key.text_of_read? hread]
      exact ih.cons_cons raw

theorem texts_targets_sublist (s : Store) (owner : Uuid) (keep : Option Key)
    (found : List String) : ((s.targets owner keep found).map Key.text).Sublist found := by
  refine List.Sublist.trans ?_ (s.texts_filterMap_sublist found)
  exact (List.filter_sublist.trans List.filter_sublist).map Key.text

def aims (s : Store) (m : Memory) (now : Time.Instant) (owner : Uuid)
    (keep : Option Key) : Set String :=
  { raw | s.Revokes owner keep raw ∧ (m.live raw now).isSome = true }

theorem scan_targets (s : Store) {m : Memory} (hopen : m.IsOpen) (now : Time.Instant)
    (owner : Uuid) {keep : Option Key} (hkeep : ∀ kept ∈ keep, kept.owner = owner) :
    ∃ found, Memory.answer (.scan (Key.ownerPattern s.keyPrefix owner)) now m = (.ok found, m) ∧
      ((s.targets owner keep found).map Key.text).Nodup ∧
      s.aims m now owner keep = { raw | raw ∈ (s.targets owner keep found).map Key.text } := by
  obtain ⟨found, hscan, hnodup, hfound⟩ :=
    Memory.answer_scan hopen (Key.ownerPattern s.keyPrefix owner) now
  refine ⟨found, hscan, hnodup.sublist (s.texts_targets_sublist owner keep found), ?_⟩
  ext raw
  simp only [aims, Set.mem_ofPred_eq, List.mem_map, mem_targets hkeep, hfound]
  constructor
  · rintro ⟨haim, hlive⟩
    obtain ⟨k, hread, rfl⟩ := haim.1
    exact ⟨⟨Key.isMatch_of_read? hread, hlive⟩, haim⟩
  · rintro ⟨⟨_, hlive⟩, haim⟩
    exact ⟨haim, hlive⟩

end Store

theorem ncard_mem {raws : List String} (h : raws.Nodup) :
    { raw | raw ∈ raws }.ncard = raws.length := by
  rw [← List.coe_toFinset, Set.ncard_coe_finset, List.toFinset_card_of_nodup h]

end AuthCore.Session
