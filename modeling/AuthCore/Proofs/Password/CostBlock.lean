import AuthCore.Password.Encoded
import AuthCore.Proofs.Text.DecimalDigits
import AuthCore.Proofs.Text.Spellings
import Mathlib.Data.List.Nodup
import Mathlib.Data.List.Perm.Basic

set_option autoImplicit false

namespace AuthCore

namespace Password

def CostName.letter : CostName → Char
  | .memory => 'm'
  | .time => 't'
  | .lanes => 'p'

def CostName.all : List CostName := [.memory, .time, .lanes]

def Cost.under (c : Cost) : CostName → UInt32
  | .memory => c.memory
  | .time => c.time
  | .lanes => c.lanes

/-- An item of a block: a name and the number that `c` has under it. -/
inductive Cost.Item (c : Cost) (name : CostName) : List Char → Prop where
  | named {value : List Char} (h : Text.Decimal.Numeral value (c.under name).toNat) :
    Item c name (name.letter :: '=' :: value)

inductive Cost.Block (c : Cost) : List Char → Prop where
  | items {x y z : CostName} {first second third : List Char} (names : [x, y, z].Perm CostName.all)
    (hfirst : c.Item x first) (hsecond : c.Item y second) (hthird : c.Item z third) :
    Block c (first ++ ',' :: (second ++ ',' :: third))

theorem CostName.ofChars?_eq_some_iff {cs : List Char} {name : CostName} :
    ofChars? cs = some name ↔ cs = [name.letter] := by
  constructor
  · intro h
    unfold ofChars? at h
    split at h <;> cases h <;> rfl
  · rintro rfl
    cases name <;> rfl

theorem CostName.letter_injective {x y : CostName} (h : x.letter = y.letter) : x = y := by
  have hx : ofChars? [x.letter] = some x := ofChars?_eq_some_iff.mpr rfl
  rw [h, ofChars?_eq_some_iff.mpr rfl] at hx
  exact (Option.some.inj hx).symm

theorem CostName.letter_not_separator (name : CostName) :
    name.letter ≠ '=' ∧ name.letter ≠ ',' := by
  cases name <;> decide

theorem costItem?_eq_some_iff {item : List Char} {name : CostName} {c : Cost} :
    costItem? item = some (name, c.under name) ↔ c.Item name item := by
  have hlimit : (c.under name).toNat < limit32 := (c.under name).toNat_lt
  constructor
  · intro h
    simp only [costItem?, Option.bind_eq_bind, Option.bind_eq_some_iff, Option.pure_def,
      Option.some.injEq, Prod.mk.injEq] at h
    obtain ⟨⟨front, value⟩, hcut, n, hn, found, hfound, rfl, hvalue⟩ := h
    obtain ⟨rfl, _⟩ := Text.splitOnce_eq_some_iff.mp hcut
    obtain rfl := CostName.ofChars?_eq_some_iff.mp hfound
    obtain ⟨hnumeral, hbound⟩ := Text.Decimal.readBelow?_eq_some_iff.mp hn
    refine .named ?_
    rwa [← hvalue, UInt32.toNat_ofNat_of_lt' hbound]
  · rintro ⟨hnumeral⟩
    rename_i value
    have hfree : '=' ∉ [name.letter] := by simp [Ne.symm name.letter_not_separator.1]
    have hcut : Text.splitOnce '=' (name.letter :: '=' :: value) = some ([name.letter], value) :=
      Text.splitOnce_append hfree value
    have hread := Text.Decimal.readBelow?_eq_some_iff.mpr ⟨hnumeral, hlimit⟩
    simp only [costItem?, hcut, hread, CostName.ofChars?_eq_some_iff.mpr rfl, Option.bind_eq_bind,
      Option.bind_some, Option.pure_def, UInt32.ofNat_toNat]

theorem Cost.Item.comma_not_mem {c : Cost} {name : CostName} {item : List Char}
    (h : c.Item name item) : ',' ∉ item := by
  obtain ⟨hnumeral⟩ := h
  have hvalue := hnumeral.not_mem (c := ',') (by decide) (by decide)
  simp [hvalue, Ne.symm name.letter_not_separator.2]

theorem Cost.Item.name_eq {c : Cost} {name known : CostName} {value : List Char}
    (h : c.Item name (known.letter :: '=' :: value)) : name = known := by
  generalize hitem : known.letter :: '=' :: value = item at h
  obtain ⟨_⟩ := h
  exact CostName.letter_injective (List.cons.inj hitem).1.symm

namespace CostSlots

variable {s s' : CostSlots}

theorem eq_of_slot (h : ∀ name n, s.slot name = some n ↔ s'.slot name = some n) : s = s' := by
  ext1
  funext name
  exact Option.ext (h name)

theorem fill?_eq_some_iff {name : CostName} {n : UInt32} : s.fill? name n = some s' ↔
    s.slot name = none ∧
      ∀ other m, s'.slot other = some m ↔ (other, m) = (name, n) ∨ s.slot other = some m := by
  unfold fill?
  cases hslot : s.slot name with
  | some old => simp
  | none =>
    have hfilled : ∀ other m, (if other = name then some n else s.slot other) = some m ↔
        (other, m) = (name, n) ∨ s.slot other = some m := by
      intro other m
      by_cases hother : other = name
      · subst hother
        simp [hslot, eq_comm]
      · simp [hother]
    simp only [Option.some.injEq, true_and, ← hfilled]
    constructor
    · rintro rfl other m
      rfl
    · exact fun h => (eq_of_slot h).symm

theorem take?_eq_some_iff {item : List Char} : s.take? item = some s' ↔
    ∃ name n, costItem? item = some (name, n) ∧ s.slot name = none ∧
      ∀ other m, s'.slot other = some m ↔ (other, m) = (name, n) ∨ s.slot other = some m := by
  simp only [take?, Option.bind_eq_bind, Option.bind_eq_some_iff, Prod.exists, fill?_eq_some_iff]

theorem slot_eq_none_iff {name other : CostName} {n : UInt32}
    (h : ∀ other m, s'.slot other = some m ↔ (other, m) = (name, n) ∨ s.slot other = some m) :
    s'.slot other = none ↔ other ≠ name ∧ s.slot other = none := by
  simp only [Option.eq_none_iff_forall_ne_some, ne_eq, h, not_or, forall_and, Prod.mk.injEq,
    not_and]
  exact and_congr_left fun _ => ⟨fun hne heq => hne n heq rfl, fun hne _ heq => absurd heq hne⟩

theorem exists_fill? {name : CostName} (h : s.slot name = none) (n : UInt32) :
    ∃ s', s.fill? name n = some s' := by
  rw [fill?, h]
  exact ⟨_, rfl⟩

/-- The loop gets through the items exactly when each of them reads and no name stands twice or has
its slot filled before. The slots then hold what was read besides what they held. -/
theorem foldlM_take?_eq_some_iff {items : List (List Char)} : items.foldlM take? s = some s' ↔
    ∃ found, List.Forall₂ (fun item f => costItem? item = some f) items found ∧
      (found.map Prod.fst).Nodup ∧ (∀ f ∈ found, s.slot f.1 = none) ∧
      ∀ name n, s'.slot name = some n ↔ (name, n) ∈ found ∨ s.slot name = some n := by
  induction items generalizing s with
  | nil =>
    simp only [List.foldlM_nil, Option.pure_def, Option.some.injEq, List.forall₂_nil_left_iff,
      exists_eq_left, List.map_nil, List.nodup_nil, List.not_mem_nil, false_or, true_and]
    constructor
    · rintro rfl
      simp
    · exact fun h => (eq_of_slot h.2).symm
  | cons item items ih =>
    simp only [List.foldlM_cons, Option.bind_eq_bind, Option.bind_eq_some_iff, ih]
    constructor
    · rintro ⟨middle, hfirst, found, hread, hnodup, hnew, hlast⟩
      obtain ⟨name, n, hitem, hempty, hmiddle⟩ := take?_eq_some_iff.mp hfirst
      -- The rest found its slots empty after this item was taken, so none of it has the same name.
      have hopen : ∀ f ∈ found, f.1 ≠ name ∧ s.slot f.1 = none :=
        fun f hf => (slot_eq_none_iff hmiddle).mp (hnew f hf)
      have hfresh : name ∉ found.map Prod.fst := by
        intro hmem
        obtain ⟨f, hf, hname⟩ := List.mem_map.mp hmem
        exact (hopen f hf).1 hname
      refine ⟨(name, n) :: found, .cons hitem hread, List.nodup_cons.mpr ⟨hfresh, hnodup⟩,
        List.forall_mem_cons.mpr ⟨hempty, fun f hf => (hopen f hf).2⟩, fun other m => ?_⟩
      rw [hlast, hmiddle, List.mem_cons, or_left_comm, or_assoc]
    · rintro ⟨found, hread, hnodup, hnew, hlast⟩
      obtain ⟨⟨name, n⟩, found, hitem, hrest, rfl⟩ := List.forall₂_cons_left_iff.mp hread
      obtain ⟨hfresh, hnodup⟩ := List.nodup_cons.mp hnodup
      obtain ⟨hempty, hnew⟩ := List.forall_mem_cons.mp hnew
      obtain ⟨middle, hfill⟩ := exists_fill? hempty n
      have hmiddle := (fill?_eq_some_iff.mp hfill).2
      have hfirst : s.take? item = some middle :=
        take?_eq_some_iff.mpr ⟨name, n, hitem, hempty, hmiddle⟩
      refine ⟨middle, hfirst, found, hrest, hnodup, fun f hf => ?_, fun other m => ?_⟩
      · refine (slot_eq_none_iff hmiddle).mpr ⟨?_, hnew f hf⟩
        exact fun hname => hfresh (List.mem_map.mpr ⟨f, hf, hname⟩)
      · rw [hlast, hmiddle, List.mem_cons, or_left_comm, or_assoc]

end CostSlots

theorem cost?_eq_some_iff_slots {block : List Char} {c : Cost} : cost? block = some c ↔
    ∃ s, (Text.split ',' block).foldlM CostSlots.take? .empty = some s ∧
      ∀ name, s.slot name = some (c.under name) := by
  simp only [cost?, Option.bind_eq_bind, Option.bind_eq_some_iff, Option.pure_def,
    Option.some.injEq]
  constructor
  · rintro ⟨s, hs, memory, hmemory, time, htime, lanes, hlanes, rfl⟩
    refine ⟨s, hs, fun name => ?_⟩
    cases name with
    | memory => exact hmemory
    | time => exact htime
    | lanes => exact hlanes
  · rintro ⟨s, hs, hslots⟩
    exact ⟨s, hs, _, hslots .memory, _, hslots .time, _, hslots .lanes, rfl⟩

theorem CostName.mem_all (name : CostName) : name ∈ all := by
  cases name <;> decide

theorem cost?_eq_some_iff_names {block : List Char} {c : Cost} : cost? block = some c ↔
    ∃ names, names.Perm CostName.all ∧
      List.Forall₂ (fun item name => c.Item name item) (Text.split ',' block) names := by
  have hall : CostName.all.Nodup := by decide
  simp only [cost?_eq_some_iff_slots, CostSlots.foldlM_take?_eq_some_iff, ← costItem?_eq_some_iff]
  constructor
  · rintro ⟨s, ⟨found, hread, hnodup, -, hs⟩, hslots⟩
    have hfound : ∀ name n, (name, n) ∈ found ↔ c.under name = n := by
      intro name n
      have hslot := hs name n
      simp only [hslots, Option.some.injEq, CostSlots.empty, reduceCtorEq, or_false] at hslot
      exact hslot.symm
    have hnames : (found.map Prod.fst).map (fun name => (name, c.under name)) = found := by
      rw [List.map_map]
      refine (List.map_congr_left fun f hf => ?_).trans (List.map_id found)
      exact Prod.ext rfl ((hfound f.1 f.2).mp hf)
    rw [← hnames, List.forall₂_map_right_iff] at hread
    refine ⟨found.map Prod.fst, (List.perm_ext_iff_of_nodup hnodup hall).mpr fun name => ?_, hread⟩
    have hname : name ∈ found.map Prod.fst := List.mem_map_of_mem ((hfound name _).mpr rfl)
    exact iff_of_true hname name.mem_all
  · rintro ⟨names, hnames, hread⟩
    refine ⟨⟨fun name => some (c.under name)⟩,
      ⟨names.map fun name => (name, c.under name), ?_, ?_, fun _ _ => rfl, fun name n => ?_⟩,
      fun _ => rfl⟩
    · rwa [List.forall₂_map_right_iff]
    · rw [List.map_map]
      exact (hnames.map id).nodup_iff.mpr hall
    · have hname : name ∈ names := hnames.mem_iff.mpr name.mem_all
      simp [CostSlots.empty, hname]

theorem cost?_eq_some_iff {block : List Char} {c : Cost} :
    cost? block = some c ↔ c.Block block := by
  rw [cost?_eq_some_iff_names]
  constructor
  · rintro ⟨names, hnames, hread⟩
    obtain ⟨x, y, z, rfl⟩ := List.length_eq_three.mp hnames.length_eq
    simp only [List.forall₂_cons_right_iff, List.forall₂_nil_right_iff] at hread
    obtain ⟨first, _, hfirst, ⟨second, _, hsecond, ⟨third, _, hthird, rfl, rfl⟩, rfl⟩, hpieces⟩ :=
      hread
    obtain ⟨tail, rfl, htail⟩ := Text.eq_append_of_split hpieces
    obtain ⟨last, rfl, hlast⟩ := Text.eq_append_of_split htail
    obtain rfl := Text.eq_of_split_singleton hlast
    exact .items hnames hfirst hsecond hthird
  · rintro ⟨hnames, hfirst, hsecond, hthird⟩
    refine ⟨_, hnames, ?_⟩
    rw [Text.split_append hfirst.comma_not_mem, Text.split_append hsecond.comma_not_mem,
      Text.split_of_not_mem hthird.comma_not_mem]
    exact .cons hfirst (.cons hsecond (.cons hthird .nil))

theorem Cost.block_chars (c : Cost) : c.Block c.chars := by
  have hitem (name : CostName) : c.Item name (name.letter :: '=' ::
      Text.Decimal.digits (c.under name).toNat) := .named (Text.Decimal.numeral_digits _)
  exact .items (.refl _) (hitem .memory) (hitem .time) (hitem .lanes)

theorem cost?_of_perm {block block' : List Char} {c : Cost}
    (h : (Text.split ',' block').Perm (Text.split ',' block)) (hcost : cost? block = some c) :
    cost? block' = some c := by
  obtain ⟨names, hnames, hread⟩ := cost?_eq_some_iff_names.mp hcost
  obtain ⟨names', hread', hperm⟩ := List.perm_comp_forall₂ h hread
  exact cost?_eq_some_iff_names.mpr ⟨names', hperm.trans hnames, hread'⟩

/-- What keeps an item from being read, whatever stands beside it. -/
inductive ItemFlaw : List Char → Prop where
  /-- No sign divides a name from a value; the empty item is one of these. -/
  | undivided {item : List Char} (h : '=' ∉ item) : ItemFlaw item
  | unknown {name value : List Char} (hfree : '=' ∉ name)
    (h : ∀ known : CostName, name ≠ [known.letter]) : ItemFlaw (name ++ '=' :: value)
  | unvalued {name : List Char} (hfree : '=' ∉ name) : ItemFlaw (name ++ ['='])
  | negative {name value : List Char} (hfree : '=' ∉ name) : ItemFlaw (name ++ '=' :: '-' :: value)
  | overflowing {name value : List Char} {n : Nat} (hfree : '=' ∉ name)
    (h : Text.Decimal.Numeral value n) (hlimit : limit32 ≤ n) : ItemFlaw (name ++ '=' :: value)

theorem Cost.Item.eq_of_divided {c : Cost} {known : CostName} {name value : List Char}
    (h : c.Item known (name ++ '=' :: value)) (hfree : '=' ∉ name) :
    name = [known.letter] ∧ Text.Decimal.Numeral value (c.under known).toNat := by
  generalize hitem : name ++ '=' :: value = item at h
  obtain ⟨hnumeral⟩ := h
  have hletter : '=' ∉ [known.letter] := by simp [Ne.symm known.letter_not_separator.1]
  obtain ⟨hname, rfl⟩ := (Text.append_separator_inj hfree hletter).mp hitem
  exact ⟨hname, hnumeral⟩

theorem ItemFlaw.not_item {item : List Char} (h : ItemFlaw item) (c : Cost) (name : CostName) :
    ¬ c.Item name item := by
  intro hitem
  cases h with
  | undivided hfree =>
    obtain ⟨_⟩ := hitem
    simp at hfree
  | unknown hfree hunknown => exact hunknown name (hitem.eq_of_divided hfree).1
  | unvalued hfree => exact (hitem.eq_of_divided hfree).2.ne_nil rfl
  | negative hfree =>
    exact (hitem.eq_of_divided hfree).2.not_mem (c := '-') (by decide) (by decide) (by simp)
  | overflowing hfree hnumeral hlimit =>
    have hbelow : (c.under name).toNat < limit32 := (c.under name).toNat_lt
    rw [(hitem.eq_of_divided hfree).2.unique hnumeral] at hbelow
    exact Nat.not_lt.mpr hlimit hbelow

/-- What keeps the items of a block from being read together. -/
inductive BlockFlaw (items : List (List Char)) : Prop where
  | item {item : List Char} (hmem : item ∈ items) (h : ItemFlaw item)
  | missing (name : CostName) (h : ∀ value, name.letter :: '=' :: value ∉ items)
  | repeated (name : CostName) {first second : List Char}
    (h : [name.letter :: '=' :: first, name.letter :: '=' :: second].Sublist items)

theorem BlockFlaw.cost?_eq_none {block : List Char} (h : BlockFlaw (Text.split ',' block)) :
    cost? block = none := by
  rw [Option.eq_none_iff_forall_ne_some]
  intro c hcost
  obtain ⟨names, hnames, hread⟩ := cost?_eq_some_iff_names.mp hcost
  cases h with
  | item hmem hflaw =>
    have hitems := ((List.forall₂_and_left _ _).mp
      (hread.imp fun item name h => And.intro (Exists.intro name h) h)).1
    obtain ⟨name, hitem⟩ := hitems _ hmem
    exact hflaw.not_item c name hitem
  | missing name hmissing =>
    have hfront := List.perm_cons_erase (hnames.mem_iff.mpr name.mem_all)
    obtain ⟨items, hread, hperm⟩ := List.perm_comp_forall₂ hfront.symm hread.flip
    obtain ⟨item, _, ⟨_⟩, -, rfl⟩ := List.forall₂_cons_left_iff.mp hread
    exact hmissing _ (hperm.mem_iff.mp List.mem_cons_self)
  | repeated name hsub =>
    obtain ⟨rest, hfront⟩ := hsub.exists_perm_append
    obtain ⟨names', hread, hperm⟩ := List.perm_comp_forall₂ hfront.symm hread
    have hnodup : names'.Nodup := (hperm.trans hnames).nodup_iff.mpr (by decide)
    obtain ⟨x, _, hx, hrest, rfl⟩ := List.forall₂_cons_left_iff.mp hread
    obtain ⟨y, _, hy, -, rfl⟩ := List.forall₂_cons_left_iff.mp hrest
    rw [hx.name_eq, hy.name_eq] at hnodup
    simp at hnodup

/-- What a hash says of its costs: the block gives them exactly if it is one of their blocks, in
whatever order its items stand, and nothing if an item cannot be read, is missing or stands
twice. -/
theorem cost_block_grammar :
    (∀ (e : Encoded) (c : Cost), e.cost? = some c ↔ c.Block e.params) ∧
    (∀ e e' : Encoded, (Text.split ',' e.params).Perm (Text.split ',' e'.params) →
      e.cost? = e'.cost?) ∧
    ∀ e : Encoded, BlockFlaw (Text.split ',' e.params) → e.cost? = none := by
  refine ⟨fun _ _ => cost?_eq_some_iff, fun e e' h => ?_, fun _ h => h.cost?_eq_none⟩
  exact Option.ext fun c => ⟨cost?_of_perm h.symm, cost?_of_perm h⟩

theorem cost_block_grammar_shuffled :
    Encoded.cost? ⟨algorithm, version, "p=4,m=+262144,t=003".toList, [], []⟩ =
      some Params.current.cost ∧
    Encoded.cost? ⟨algorithm, version, "m=1,m=2,p=1".toList, [], []⟩ = none := by
  obtain ⟨-, horder, hflaw⟩ := cost_block_grammar
  constructor
  · have hsame := horder ⟨algorithm, version, "p=4,m=+262144,t=003".toList, [], []⟩
      ⟨algorithm, version, "m=+262144,t=003,p=4".toList, [], []⟩ (by decide +kernel)
    rw [hsame]
    decide +kernel
  · have htwice : [['m', '=', '1'], ['m', '=', '2']].Sublist
        (Text.split ',' "m=1,m=2,p=1".toList) := by decide +kernel
    exact hflaw _ (.repeated .memory htwice)

end Password

end AuthCore
