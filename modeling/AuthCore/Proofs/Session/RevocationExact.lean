import AuthCore.Proofs.Session.RevocationTargets

set_option autoImplicit false

namespace AuthCore.Cache

inductive Fate where
  | done
  /-- It fails and the entry stays. -/
  | refused (f : Failure)
  /-- It fails although the entry is gone. -/
  | lost (f : Failure)

/-- A cache in memory where the deletions, counted from zero, have the given fates. -/
def Memory.faulty (fate : Nat → Fate) : Backend (Memory × Nat) :=
  ⟨fun r now (m, n) =>
    match r with
    | .delete key =>
      match fate n with
      | .done => ((answer (.delete key) now m).1, (answer (.delete key) now m).2, n + 1)
      | .refused f => (.error f, m, n + 1)
      | .lost f => (.error f, (answer (.delete key) now m).2, n + 1)
    | r => ((answer r now m).1, (answer r now m).2, n)⟩

end AuthCore.Cache

namespace AuthCore.Session

open Cache (Memory Fate)

def eraseAll (m : Memory) (ks : List Key) : Memory := ks.foldl (fun m k => m.erase k.text) m

theorem find_eraseAll (m : Memory) (ks : List Key) (raw : String) :
    (eraseAll m ks).find raw = if raw ∈ ks.map Key.text then none else m.find raw := by
  induction ks generalizing m with
  | nil => rfl
  | cons k ks ih =>
    rw [eraseAll, List.foldl_cons, ← eraseAll, ih, Memory.find_erase]
    by_cases hmem : raw ∈ ks.map Key.text
    · simp [hmem]
    · by_cases hkey : k.text = raw
      · simp [hkey]
      · simp [hmem, hkey, Ne.symm hkey]

theorem isOpen_erase (m : Memory) (key : String) : (m.erase key).IsOpen ↔ m.IsOpen :=
  Memory.isOpen_write m _

/-- How a sweep over keys ends that has deleted `gone` of them while `pending` are left. -/
inductive SweepEnds (fate : Nat → Fate) (cancel : Cancellation) (report : Report) (m : Memory)
    (n : Nat) (gone : List Key) : List Key → Except Failure Report × Memory × Nat → Prop where
  | complete : SweepEnds fate cancel report m n gone []
      (.ok { report with deleted := report.deleted + gone.length }, eraseAll m gone,
        n + gone.length)
  | calledOff {k : Key} {rest : List Key}
      (h : cancel.reached (report.deleted + gone.length) = true) :
      SweepEnds fate cancel report m n gone (k :: rest)
        (.ok { report with deleted := report.deleted + gone.length, cancelled := true },
          eraseAll m gone, n + gone.length)
  | refused {k : Key} {rest : List Key} {f : Failure}
      (h : cancel.reached (report.deleted + gone.length) = false)
      (hfate : fate (n + gone.length) = .refused f) :
      SweepEnds fate cancel report m n gone (k :: rest)
        (.error f, eraseAll m gone, n + gone.length + 1)
  | lost {k : Key} {rest : List Key} {f : Failure}
      (h : cancel.reached (report.deleted + gone.length) = false)
      (hfate : fate (n + gone.length) = .lost f) :
      SweepEnds fate cancel report m n gone (k :: rest)
        (.error f, eraseAll m (gone ++ [k]), n + gone.length + 1)

theorem SweepEnds.cons {fate : Nat → Fate} {cancel : Cancellation} {report : Report} {m : Memory}
    {n : Nat} {k : Key} {gone pending : List Key} {outcome : Except Failure Report × Memory × Nat}
    (h : SweepEnds fate cancel { report with deleted := report.deleted + 1 } (m.erase k.text)
      (n + 1) gone pending outcome) :
    SweepEnds fate cancel report m n (k :: gone) pending outcome := by
  have hreport : report.deleted + 1 + gone.length = report.deleted + (k :: gone).length := by
    simp only [List.length_cons]
    omega
  have hcount : n + 1 + gone.length = n + (k :: gone).length := by
    simp only [List.length_cons]
    omega
  cases h with
  | complete =>
    simp only [hreport, hcount]
    exact .complete
  | calledOff hreached =>
    simp only [hreport, hcount] at hreached ⊢
    exact .calledOff hreached
  | refused hreached hfate =>
    simp only [hreport, hcount] at hreached hfate ⊢
    exact .refused hreached hfate
  | lost hreached hfate =>
    simp only [hreport, hcount] at hreached hfate ⊢
    exact .lost hreached hfate

theorem run_deleteAll {m : Memory} (hopen : m.IsOpen) (fate : Nat → Fate) (cancel : Cancellation)
    (now : Time.Instant) (ks : List Key) (report : Report) (n : Nat) :
    ∃ gone pending, ks = gone ++ pending ∧
      (∀ j < gone.length, fate (n + j) = .done ∧ cancel.reached (report.deleted + j) = false) ∧
      SweepEnds fate cancel report m n gone pending
        ((Store.deleteAll cancel report ks).run (Memory.faulty fate) now (m, n)) := by
  induction ks generalizing m report n with
  | nil => exact ⟨[], [], rfl, by simp, .complete⟩
  | cons k ks ih =>
    rw [Store.deleteAll]
    by_cases hreached : cancel.reached report.deleted = true
    · rw [if_pos hreached]
      exact ⟨[], k :: ks, rfl, by simp, .calledOff hreached⟩
    · rw [if_neg hreached]
      have hgoesOn : cancel.reached (report.deleted + ([] : List Key).length) = false :=
        Bool.eq_false_iff.mpr hreached
      have hdelete := Memory.answer_delete hopen k.text now
      cases hfate : fate n with
      | done =>
        have hanswer : (Memory.faulty fate).answer (.delete k.text) now (m, n) =
            (.ok (), m.erase k.text, n + 1) := by
          simp only [Memory.faulty, hfate, hdelete]
        rw [Cache.Plan.run_andThen_ok hanswer]
        obtain ⟨gone, pending, rfl, hgone, hends⟩ := ih ((isOpen_erase m k.text).mpr hopen)
          { report with deleted := report.deleted + 1 } (n + 1)
        refine ⟨k :: gone, pending, rfl, ?_, hends.cons⟩
        intro j hj
        cases j with
        | zero => exact ⟨hfate, hgoesOn⟩
        | succ j =>
          have hnext := hgone j (by simpa using hj)
          rw [show n + (j + 1) = n + 1 + j by omega,
            show report.deleted + (j + 1) = report.deleted + 1 + j by omega]
          exact hnext
      | refused f =>
        have hanswer : (Memory.faulty fate).answer (.delete k.text) now (m, n) =
            (.error f, m, n + 1) := by
          simp only [Memory.faulty, hfate]
        rw [Cache.Plan.run_andThen_error hanswer]
        exact ⟨[], k :: ks, rfl, by simp, .refused hgoesOn hfate⟩
      | lost f =>
        have hanswer : (Memory.faulty fate).answer (.delete k.text) now (m, n) =
            (.error f, m.erase k.text, n + 1) := by
          simp only [Memory.faulty, hfate, hdelete]
        rw [Cache.Plan.run_andThen_error hanswer]
        exact ⟨[], k :: ks, rfl, by simp, .lost hgoesOn hfate⟩

theorem Cancellation.reached_mono {cancel : Cancellation} {i j : Nat} (h : i ≤ j)
    (hreached : cancel.reached i = true) : cancel.reached j = true := by
  cases cancel with
  | never => cases hreached
  | beforeScan => rfl
  | afterDeletes count =>
    simp only [reached, decide_eq_true_eq] at hreached ⊢
    omega

def removed (m after : Memory) : Set String :=
  { raw | (m.find raw).isSome = true ∧ after.find raw = none }

theorem isSome_find_of_live {m : Memory} {raw : String} {now : Time.Instant}
    (h : (m.live raw now).isSome = true) : (m.find raw).isSome = true := by
  obtain ⟨e, he⟩ := Option.isSome_iff_exists.mp h
  rw [(Memory.live_eq_some_iff.mp he).1]
  rfl

theorem removed_eraseAll {m : Memory} {ks : List Key}
    (h : ∀ k ∈ ks, (m.find k.text).isSome = true) :
    removed m (eraseAll m ks) = { raw | raw ∈ ks.map Key.text } := by
  ext raw
  simp only [removed, Set.mem_ofPred_eq, find_eraseAll]
  constructor
  · rintro ⟨hsome, hnone⟩
    by_contra hmem
    rw [if_neg hmem] at hnone
    rw [hnone] at hsome
    cases hsome
  · intro hmem
    obtain ⟨k, hk, rfl⟩ := List.mem_map.mp hmem
    exact ⟨h k hk, if_pos hmem⟩

/-- Nothing but what is aimed at is gone, and all else is as it was. -/
structure Spares (aims : Set String) (m after : Memory) : Prop where
  aimed : removed m after ⊆ aims
  others : ∀ raw, raw ∉ removed m after → after.find raw = m.find raw

theorem spares_self (aims : Set String) (m : Memory) : Spares aims m m := by
  refine ⟨?_, fun _ _ => rfl⟩
  rintro raw ⟨hsome, hnone⟩
  rw [hnone] at hsome
  cases hsome

structure Report.Tells (report : Report) (cancel : Cancellation) (aims : Set String)
    (m after : Memory) : Prop where
  matched : report.matched = aims.ncard
  deleted : report.deleted = (removed m after).ncard
  complete : report.cancelled = false → removed m after = aims
  cancelled : report.cancelled = true ↔ ∃ count, cancel = .afterDeletes count ∧ count < aims.ncard
  partly : report.cancelled = true → cancel = .afterDeletes report.deleted

/-- The deletion at which a revocation failed, and what was gone by then. -/
def FailsAt (fate : Nat → Fate) (cancel : Cancellation) (aims : Set String) (m after : Memory)
    (f : Failure) : Prop :=
  ∃ j < aims.ncard, cancel.reached j = false ∧ (∀ i < j, fate i = .done) ∧
    ((fate j = .refused f ∧ (removed m after).ncard = j) ∨
      (fate j = .lost f ∧ (removed m after).ncard = j + 1))

theorem find_eraseAll_of_not_removed (m : Memory) (ks : List Key) {raw : String}
    (h : raw ∉ removed m (eraseAll m ks)) : (eraseAll m ks).find raw = m.find raw := by
  rw [find_eraseAll]
  by_cases hmem : raw ∈ ks.map Key.text
  · rw [if_pos hmem]
    cases hfind : m.find raw with
    | none => rfl
    | some e =>
      have hsome : (m.find raw).isSome = true := by
        rw [hfind]
        rfl
      have hnone : (eraseAll m ks).find raw = none := by
        rw [find_eraseAll, if_pos hmem]
      exact absurd ⟨hsome, hnone⟩ h
  · rw [if_neg hmem]

structure Sweep (m : Memory) (gone pending : List Key) : Prop where
  live : ∀ k ∈ gone ++ pending, (m.find k.text).isSome = true
  distinct : ((gone ++ pending).map Key.text).Nodup

namespace Sweep

variable {fate : Nat → Fate} {cancel : Cancellation} {m after : Memory} {gone pending : List Key}
  {n : Nat}

def aims (gone pending : List Key) : Set String := { raw | raw ∈ (gone ++ pending).map Key.text }

theorem ncard_aims (h : Sweep m gone pending) :
    (aims gone pending).ncard = gone.length + pending.length := by
  rw [aims, ncard_mem h.distinct, List.length_map, List.length_append]

theorem removed_eq (h : Sweep m gone pending) {ks : List Key} (hks : ks.Sublist (gone ++ pending)) :
    removed m (eraseAll m ks) = { raw | raw ∈ ks.map Key.text } :=
  removed_eraseAll fun k hk => h.live k (hks.subset hk)

theorem ncard_removed (h : Sweep m gone pending) {ks : List Key}
    (hks : ks.Sublist (gone ++ pending)) : (removed m (eraseAll m ks)).ncard = ks.length := by
  rw [h.removed_eq hks, ncard_mem (h.distinct.sublist (hks.map Key.text)), List.length_map]

theorem spares_eraseAll (h : Sweep m gone pending) {ks : List Key}
    (hks : ks.Sublist (gone ++ pending)) : Spares (aims gone pending) m (eraseAll m ks) := by
  refine ⟨?_, fun raw hraw => find_eraseAll_of_not_removed m ks hraw⟩
  rw [h.removed_eq hks]
  exact fun raw hraw => (hks.map Key.text).subset hraw

theorem sublist_gone (gone pending : List Key) : gone.Sublist (gone ++ pending) :=
  List.sublist_append_left gone pending

theorem sublist_next (gone : List Key) (k : Key) (rest : List Key) :
    (gone ++ [k]).Sublist (gone ++ k :: rest) :=
  (List.Sublist.refl gone).append (List.singleton_sublist.mpr (by simp))

theorem spares (h : Sweep m gone pending) {answer : Except Failure Report} {report : Report}
    (hends : SweepEnds fate cancel report m 0 gone pending (answer, after, n)) :
    Spares (aims gone pending) m after := by
  cases hends with
  | complete => exact h.spares_eraseAll (sublist_gone ..)
  | calledOff => exact h.spares_eraseAll (sublist_gone ..)
  | refused => exact h.spares_eraseAll (sublist_gone ..)
  | lost => exact h.spares_eraseAll (sublist_next ..)

theorem eq_afterDeletes (hcancel : cancel ≠ .beforeScan)
    (hgone : ∀ j < gone.length, cancel.reached j = false)
    (hreached : cancel.reached gone.length = true) : cancel = .afterDeletes gone.length := by
  cases cancel with
  | never => cases hreached
  | beforeScan => exact absurd rfl hcancel
  | afterDeletes count =>
    have hle : count ≤ gone.length := of_decide_eq_true hreached
    by_cases hlt : count < gone.length
    · have hnot := of_decide_eq_false (hgone count hlt)
      exact absurd (Nat.le_refl count) hnot
    · rw [show count = gone.length by omega]

theorem tells (h : Sweep m gone pending) (hcancel : cancel ≠ .beforeScan)
    (hgone : ∀ j < gone.length, cancel.reached j = false) {report : Report}
    (hends : SweepEnds fate cancel ⟨(gone ++ pending).length, 0, false⟩ m 0 gone pending
      (.ok report, after, n)) : report.Tells cancel (aims gone pending) m after := by
  have hcount := h.ncard_aims
  cases hends with
  | complete =>
    have hall : removed m (eraseAll m gone) = aims gone [] := by
      rw [h.removed_eq (sublist_gone ..), aims, List.append_nil]
    refine ⟨?_, ?_, fun _ => hall, ?_, (fun htrue => nomatch htrue)⟩
    · rw [hcount, List.length_append]
    · rw [h.ncard_removed (sublist_gone ..), Nat.zero_add]
    · refine ⟨(fun htrue => nomatch htrue), ?_⟩
      rintro ⟨count, rfl, hlt⟩
      have hnot := of_decide_eq_false (hgone count (by simpa [hcount] using hlt))
      exact absurd (Nat.le_refl count) hnot
  | @calledOff k rest hreached =>
    rw [Nat.zero_add] at hreached
    have heq := eq_afterDeletes hcancel hgone hreached
    refine ⟨?_, ?_, (fun hfalse => nomatch hfalse), ?_, fun _ => ?_⟩
    · rw [hcount, List.length_append]
    · rw [h.ncard_removed (sublist_gone ..), Nat.zero_add]
    · refine iff_of_true rfl ⟨gone.length, heq, ?_⟩
      rw [hcount, List.length_cons]
      omega
    · rw [heq, Nat.zero_add]

theorem failsAt (h : Sweep m gone pending) (hgone : ∀ j < gone.length, fate j = .done)
    {report : Report} (hreport : report.deleted = 0) {f : Failure}
    (hends : SweepEnds fate cancel report m 0 gone pending (.error f, after, n)) :
    FailsAt fate cancel (aims gone pending) m after f := by
  have hcount := h.ncard_aims
  cases hends with
  | @refused k rest _ hreached hfate =>
    rw [hreport, Nat.zero_add] at hreached
    rw [Nat.zero_add] at hfate
    refine ⟨gone.length, ?_, hreached, hgone, .inl ⟨hfate, h.ncard_removed (sublist_gone ..)⟩⟩
    rw [hcount, List.length_cons]
    omega
  | @lost k rest _ hreached hfate =>
    rw [hreport, Nat.zero_add] at hreached
    rw [Nat.zero_add] at hfate
    refine ⟨gone.length, ?_, hreached, hgone, .inr ⟨hfate, ?_⟩⟩
    · rw [hcount, List.length_cons]
      omega
    · rw [h.ncard_removed (sublist_next ..), List.length_append]
      rfl

theorem reports_iff (h : Sweep m gone pending)
    (hgone : ∀ j < gone.length, fate j = .done ∧ cancel.reached j = false) {report : Report}
    (hreport : report.deleted = 0) {answer : Except Failure Report}
    (hends : SweepEnds fate cancel report m 0 gone pending (answer, after, n)) :
    (∃ final, answer = .ok final) ↔
      ∀ j < (aims gone pending).ncard, cancel.reached j = false → fate j = .done := by
  have hcount := h.ncard_aims
  constructor
  · rintro ⟨final, rfl⟩ j hj hnot
    by_cases hlt : j < gone.length
    · exact (hgone j hlt).1
    · cases hends with
      | complete =>
        rw [hcount, List.length_nil] at hj
        omega
      | calledOff hreached =>
        rw [hreport, Nat.zero_add] at hreached
        have hlater := Cancellation.reached_mono (show gone.length ≤ j by omega) hreached
        rw [hlater] at hnot
        cases hnot
  · intro hdone
    cases hanswer : answer with
    | ok final => exact ⟨final, rfl⟩
    | error f =>
      subst hanswer
      obtain ⟨j, hj, hnot, _, hfate⟩ := h.failsAt (fun j hj => (hgone j hj).1) hreport hends
      rw [hdone j hj hnot] at hfate
      rcases hfate with ⟨hfate, _⟩ | ⟨hfate, _⟩
      · cases hfate
      · cases hfate

end Sweep

section Revocation

variable (s : Store) (m : Memory) (now : Time.Instant) (owner : Uuid) (keep : Option Key)
  (cancel : Cancellation) (fate : Nat → Fate)

def revocation : Except Failure Report × Memory × Nat :=
  ((Operation.revoke owner keep cancel).plan s).run (Memory.faulty fate) now (m, 0)

variable {s m now owner keep cancel fate}

theorem revocation_foreign (h : ∃ kept ∈ keep, kept.owner ≠ owner) :
    revocation s m now owner keep cancel fate = (.error .keptKeyForeign, m, 0) := by
  have hnot : ¬ ∀ kept ∈ keep, kept.owner = owner := by
    obtain ⟨kept, hkept, hne⟩ := h
    exact fun hall => hne (hall kept hkept)
  rw [revocation, Operation.plan_revoke, if_neg hnot]
  rfl

theorem revocation_beforeScan (hkeep : ∀ kept ∈ keep, kept.owner = owner) :
    revocation s m now owner keep .beforeScan fate = (.ok ⟨0, 0, true⟩, m, 0) := by
  rw [revocation, Operation.plan_revoke, if_pos hkeep]
  rfl

theorem revocation_closed (hkeep : ∀ kept ∈ keep, kept.owner = owner)
    (hcancel : cancel ≠ .beforeScan) (hopen : ¬ m.IsOpen) :
    ∃ f, revocation s m now owner keep cancel fate = (.error f, m, 0) := by
  obtain ⟨f, hanswer⟩ := Memory.answer_of_not_isOpen hopen
    (r := .scan (Key.ownerPattern s.keyPrefix owner)) (by simp) now
  have hscan : (Memory.faulty fate).answer (.scan (Key.ownerPattern s.keyPrefix owner)) now (m, 0) =
      (.error f, m, 0) := by
    simp only [Memory.faulty, hanswer]
  refine ⟨f, ?_⟩
  rw [revocation, Operation.plan_revoke, if_pos hkeep, Store.revoke_eq s owner keep hcancel,
    Cache.Plan.run_andThen_error hscan]

theorem revocation_sweep (hkeep : ∀ kept ∈ keep, kept.owner = owner)
    (hcancel : cancel ≠ .beforeScan) (hopen : m.IsOpen) :
    ∃ gone pending, Sweep m gone pending ∧
      s.aims m now owner keep = Sweep.aims gone pending ∧
      (∀ j < gone.length, fate j = .done ∧ cancel.reached j = false) ∧
      SweepEnds fate cancel ⟨(gone ++ pending).length, 0, false⟩ m 0 gone pending
        (revocation s m now owner keep cancel fate) := by
  obtain ⟨found, hanswer, hnodup, haims⟩ := s.scan_targets hopen now owner hkeep
  have hscan : (Memory.faulty fate).answer (.scan (Key.ownerPattern s.keyPrefix owner)) now (m, 0) =
      (.ok found, m, 0) := by
    simp only [Memory.faulty, hanswer]
  obtain ⟨gone, pending, hsplit, hgone, hends⟩ := run_deleteAll hopen fate cancel now
    (s.targets owner keep found) ⟨(s.targets owner keep found).length, 0, false⟩ 0
  rw [hsplit] at hnodup haims
  refine ⟨gone, pending, ⟨fun k hk => ?_, hnodup⟩, haims, fun j hj => ?_, ?_⟩
  · have haim : k.text ∈ s.aims m now owner keep := by
      rw [haims]
      exact List.mem_map_of_mem hk
    exact isSome_find_of_live haim.2
  · have h := hgone j hj
    simp only [Nat.zero_add] at h
    exact h
  · rw [revocation, Operation.plan_revoke, if_pos hkeep, Store.revoke_eq s owner keep hcancel,
      Cache.Plan.run_andThen_ok hscan, ← hsplit]
    exact hends

/-- A key to keep that belongs to somebody else is refused. Called off before its scan, a revocation
does nothing. In every other case it removes nothing but live keys that it aims at; a report
counts them, and says that it was called off if and only if the caller did so while keys were left.
There is a report unless the cache is closed or a deletion fails first. -/
theorem revocation_exact (s : Store) (m : Memory) (now : Time.Instant) (owner : Uuid)
    (keep : Option Key) (cancel : Cancellation) (fate : Nat → Fate) :
    let outcome := revocation s m now owner keep cancel fate
    let after := outcome.2.1
    let aims := s.aims m now owner keep
    ((∃ kept ∈ keep, kept.owner ≠ owner) →
      outcome.1 = .error .keptKeyForeign ∧ Failure.keptKeyForeign.kind = .validation ∧ after = m) ∧
    ((∀ kept ∈ keep, kept.owner = owner) → cancel = .beforeScan →
      outcome.1 = .ok ⟨0, 0, true⟩ ∧ after = m) ∧
    ((∀ kept ∈ keep, kept.owner = owner) → cancel ≠ .beforeScan →
      Spares aims m after ∧
      (∀ report, outcome.1 = .ok report → report.Tells cancel aims m after) ∧
      (∀ f, outcome.1 = .error f → (¬ m.IsOpen ∧ after = m) ∨ FailsAt fate cancel aims m after f) ∧
      ((∃ report, outcome.1 = .ok report) ↔
        m.IsOpen ∧ ∀ j < aims.ncard, cancel.reached j = false → fate j = .done)) := by
  intro outcome after aims
  refine ⟨fun hforeign => ?_, fun hkeep hcancel => ?_, fun hkeep hcancel => ?_⟩
  · have houtcome : outcome = _ := revocation_foreign hforeign
    exact ⟨congrArg Prod.fst houtcome, rfl, congrArg (fun o => o.2.1) houtcome⟩
  · subst hcancel
    have houtcome : outcome = _ := revocation_beforeScan hkeep
    exact ⟨congrArg Prod.fst houtcome, congrArg (fun o => o.2.1) houtcome⟩
  · by_cases hopen : m.IsOpen
    · obtain ⟨gone, pending, hsweep, haims, hgone, hends⟩ :=
        revocation_sweep hkeep hcancel hopen
      change aims = Sweep.aims gone pending at haims
      change SweepEnds fate cancel _ m 0 gone pending (outcome.1, after, outcome.2.2) at hends
      rw [haims]
      refine ⟨hsweep.spares hends, ?_, ?_, ?_⟩
      · intro report hreport
        rw [hreport] at hends
        exact hsweep.tells hcancel (fun j hj => (hgone j hj).2) hends
      · intro f hf
        rw [hf] at hends
        exact .inr (hsweep.failsAt (fun j hj => (hgone j hj).1) rfl hends)
      · rw [hsweep.reports_iff hgone rfl hends]
        exact (and_iff_right hopen).symm
    · obtain ⟨f, houtcome⟩ : ∃ f, outcome = (.error f, m, 0) :=
        revocation_closed hkeep hcancel hopen
      have hanswer : outcome.1 = .error f := congrArg Prod.fst houtcome
      have hafter : after = m := congrArg (fun o => o.2.1) houtcome
      rw [hafter, hanswer]
      refine ⟨spares_self aims m, ?_, fun _ _ => .inl ⟨hopen, rfl⟩, ?_⟩
      · intro report hreport
        cases hreport
      · refine iff_of_false ?_ fun h => hopen h.1
        rintro ⟨report, hreport⟩
        cases hreport

end Revocation

end AuthCore.Session
