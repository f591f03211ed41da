import AuthCore.Proofs.Session.Interleaving
import AuthCore.Proofs.Session.RevocationTargets

set_option autoImplicit false

namespace AuthCore.Session

open Cache (Asked Memory Plan)

variable {s : Store} {a b c d : System} {log : List Event}

def deleted (k : Key) : Asked := ⟨.delete k.text, .ok ()⟩

/-- How far a sweep has come: it has deleted some keys, or the cache has failed at the next. -/
theorem follows_deleteAll {cancel : Cancellation} {ks : List Key} {report : Report}
    {asked : List Asked} {p : Plan (Except Failure Report)}
    (h : Plan.Follows (Store.deleteAll cancel report ks) asked p) :
    (∃ f, p = .done (.error f)) ∨ ∃ gone pending, ks = gone ++ pending ∧
      asked = gone.map deleted ∧
      p = Store.deleteAll cancel { report with deleted := report.deleted + gone.length }
        pending := by
  induction ks generalizing report asked with
  | nil =>
    obtain ⟨rfl, rfl⟩ := Plan.follows_done h
    exact .inr ⟨[], [], rfl, rfl, rfl⟩
  | cons k ks ih =>
    by_cases hreached : cancel.reached report.deleted = true
    · have hstop : Store.deleteAll cancel report (k :: ks) =
          .done (.ok { report with cancelled := true }) := by
        rw [Store.deleteAll, if_pos hreached]
      rw [hstop] at h
      obtain ⟨rfl, rfl⟩ := Plan.follows_done h
      exact .inr ⟨[], k :: ks, rfl, rfl, hstop.symm⟩
    · have hgoesOn : Store.deleteAll cancel report (k :: ks) =
          .andThen (.delete k.text) fun _ =>
            Store.deleteAll cancel { report with deleted := report.deleted + 1 } ks := by
        rw [Store.deleteAll, if_neg hreached]
      rw [hgoesOn] at h
      rcases Plan.follows_ask h with ⟨rfl, rfl⟩ | ⟨answer, rest, rfl, hfollows⟩
      · exact .inr ⟨[], k :: ks, rfl, rfl, hgoesOn.symm⟩
      · cases answer with
        | error f => exact .inl ⟨f, (Plan.follows_done hfollows).2⟩
        | ok _ =>
          rcases ih hfollows with hfailed | ⟨gone, pending, rfl, rfl, rfl⟩
          · exact .inl hfailed
          · refine .inr ⟨k :: gone, pending, rfl, rfl, ?_⟩
            rw [List.length_cons, show report.deleted + (gone.length + 1) =
              report.deleted + 1 + gone.length by omega]

theorem deleteAll_eq_done {cancel : Cancellation} {ks : List Key} {report final : Report}
    (h : Store.deleteAll cancel report ks = .done (.ok final)) :
    final.matched = report.matched ∧ (final.cancelled = false → ks = []) := by
  cases ks with
  | nil =>
    cases h
    exact ⟨rfl, fun _ => rfl⟩
  | cons k ks =>
    rw [Store.deleteAll] at h
    split at h
    · cases h
      exact ⟨rfl, fun hfalse => nomatch hfalse⟩
    · cases h

theorem follows_revocation {owner : Uuid} {keep : Option Key} {cancel : Cancellation}
    {asked : List Asked} {report : Report}
    (h : Plan.Follows ((Operation.revoke owner keep cancel).plan s) asked (.done (.ok report))) :
    (∀ kept ∈ keep, kept.owner = owner) ∧
      ((cancel = .beforeScan ∧ asked = [] ∧ report = ⟨0, 0, true⟩) ∨
        ∃ found gone, asked =
            ⟨.scan (Key.ownerPattern s.keyPrefix owner), .ok found⟩ :: gone.map deleted ∧
          report.matched = (s.targets owner keep found).length ∧
          (report.cancelled = false → gone = s.targets owner keep found)) := by
  rw [Operation.plan_revoke] at h
  by_cases hkeep : ∀ kept ∈ keep, kept.owner = owner
  · rw [if_pos hkeep] at h
    refine ⟨hkeep, ?_⟩
    by_cases hcancel : cancel = .beforeScan
    · rw [Store.revoke, if_pos hcancel] at h
      obtain ⟨rfl, heq⟩ := Plan.follows_done h
      cases heq
      exact .inl ⟨hcancel, rfl, rfl⟩
    · rw [Store.revoke_eq s owner keep hcancel] at h
      rcases Plan.follows_ask h with ⟨_, heq⟩ | ⟨answer, rest, rfl, hfollows⟩
      · cases heq
      · cases answer with
        | error f => cases (Plan.follows_done hfollows).2
        | ok found =>
          rcases follows_deleteAll hfollows with ⟨f, hfailed⟩ | ⟨gone, pending, hsplit, rfl, hend⟩
          · cases hfailed
          · obtain ⟨hmatched, hall⟩ := deleteAll_eq_done hend.symm
            refine .inr ⟨found, gone, rfl, hmatched, fun hfalse => ?_⟩
            rw [hsplit, hall hfalse, List.append_nil]
  · rw [if_neg hkeep] at h
    cases (Plan.follows_done h).2

/-- What is live after a sweep over all that was live before it was put in the meantime. -/
theorem Runs.written_of_survives (h : Runs s a log b)
    (hclose : ∀ e ∈ log, e.asked.request ≠ .close) {ks : List Key}
    (hdeleted : ∀ k ∈ ks, ∃ e ∈ log, e.asked = deleted k) {raw : String} {entry : Cache.Entry}
    (hfound : a.cache.live raw a.now = some entry → ∃ k ∈ ks, k.text = raw)
    (hlive : b.cache.live raw b.now = some entry) :
    ∃ e ∈ log, e.before.written? e.now e.asked.request = some entry ∧ entry.key = raw := by
  have hfind := (Memory.live_eq_some_iff.mp hlive).1
  rcases h.find_cases hclose hfind with hsame | hwritten
  · -- An entry from before the sweep has been deleted, so the entry of now is a later one.
    obtain ⟨k, hk, rfl⟩ := hfound (h.live_of_find hlive hsame)
    obtain ⟨e, he, hasked⟩ := hdeleted k hk
    obtain ⟨xs, ys, rfl⟩ := List.append_of_mem he
    obtain ⟨_, mid, _, hstep, hys⟩ := h.split
    obtain ⟨_, _, hafter, _, hanswer⟩ := hstep.event
    rw [hasked, hafter] at hanswer
    have hnone := find_of_deleted hanswer
    rcases hys.find_cases (fun e he => hclose e (by simp [he])) hfind with
      hagain | ⟨e', he', hwritten⟩
    · cases hnone.symm.trans hagain
    · exact ⟨e', by simp [he'], hwritten⟩
  · exact hwritten

theorem targets_of_scan {m m' : Memory} {now : Time.Instant} {owner : Uuid} {keep : Option Key}
    (hkeep : ∀ kept ∈ keep, kept.owner = owner) {found : List String}
    (h : Memory.answer (.scan (Key.ownerPattern s.keyPrefix owner)) now m = (.ok found, m')) :
    (s.aims m now owner keep).ncard = (s.targets owner keep found).length ∧
      ∀ raw, raw ∈ s.aims m now owner keep ↔ ∃ k ∈ s.targets owner keep found, k.text = raw := by
  by_cases hopen : m.IsOpen
  · obtain ⟨found', hanswer, hnodup, haims⟩ := s.scan_targets hopen now owner hkeep
    obtain ⟨hfound, _⟩ := Prod.mk.inj (h.symm.trans hanswer)
    cases hfound
    rw [haims]
    refine ⟨by rw [ncard_mem hnodup, List.length_map], fun raw => ?_⟩
    rw [Set.mem_ofPred_eq, List.mem_map]
  · obtain ⟨f, herror⟩ := Memory.answer_of_not_isOpen hopen
      (r := .scan (Key.ownerPattern s.keyPrefix owner)) (by simp) now
    rw [herror] at h
    cases h

theorem last_of_call {i : Nat} {scan : Event} (hcall : scan.call = i) (late : List Event) :
    ∃ between last rest, scan :: late = between ++ last :: rest ∧ last.call = i ∧
      ∀ e ∈ rest, e.call ≠ i :=
  exists_last ⟨scan, List.mem_cons_self, hcall⟩

theorem Recorded.op_eq (h : Recorded s log b) {e : Event} (he : e ∈ log) {op : Operation}
    {rest : Plan (Except Failure op.Answer)} (hcall : b.calls[e.call]? = some ⟨op, rest⟩) :
    e.op = op := by
  obtain ⟨_, hcalled⟩ := h.called e he
  rw [hcall] at hcalled
  exact (congrArg Call.op (Option.some.inj hcalled)).symm

/-- However operations interleave: a revocation deletes nothing but keys that it aims at; it counts
those of them that were live at its scan; and if it reports without having been called off, each of
them that lives right after its last request was written by a sign-in or a renewal after the
scan. -/
theorem concurrent_revocation (hstart : a.calls = []) (h : Runs s a log b) (owner : Uuid)
    (keep : Option Key) (cancel : Cancellation) :
    (∀ e ∈ log, e.op = .revoke owner keep cancel → ∀ raw, e.asked.request = .delete raw →
      s.Revokes owner keep raw) ∧
    ∀ i report, b.calls[i]? = some ⟨.revoke owner keep cancel, .done (.ok report)⟩ →
      (cancel = .beforeScan ∧ report = ⟨0, 0, true⟩ ∧ ∀ e ∈ log, e.call ≠ i) ∨
      ∃ early scan late, log = early ++ scan :: late ∧ (∀ e ∈ early, e.call ≠ i) ∧ scan.call = i ∧
        scan.asked.request = .scan (Key.ownerPattern s.keyPrefix owner) ∧
        report.matched = (s.aims scan.before scan.now owner keep).ncard ∧
        (report.cancelled = false → ∃ between last rest, scan :: late = between ++ last :: rest ∧
          last.call = i ∧ (∀ e ∈ rest, e.call ≠ i) ∧
          ∀ raw entry, s.Revokes owner keep raw → last.after.live raw last.now = some entry →
            ∃ e ∈ between, e.op.Writes ∧
              e.before.written? e.now e.asked.request = some entry ∧ entry.key = raw) := by
  have hrecorded := h.recorded hstart
  refine ⟨?_, ?_⟩
  · intro e he hop raw hrequest
    have hmay := hrecorded.mayIssue e he
    rw [hop, hrequest] at hmay
    obtain ⟨_, hscan | ⟨_, hdelete, haim⟩⟩ := hmay
    · cases hscan
    · cases hdelete
      exact haim
  · intro i report hcall
    obtain ⟨hkeep, ⟨hcancel, hnone, hreport⟩ | ⟨found, gone, hhistory, hmatched, hall⟩⟩ :=
      follows_revocation (hrecorded.follows i _ _ hcall)
    · exact .inl ⟨hcancel, hreport, fun e he => call_ne_of_history hnone he⟩
    obtain ⟨early, scan, late, rfl, hearly, hscanCall, hscan, hlate⟩ := history_cons hhistory
    obtain ⟨c, _, _, hstep, hafterScan⟩ := h.split
    obtain ⟨hbefore, hnow, _, _, hanswer⟩ := hstep.event
    rw [hscan] at hanswer
    obtain ⟨hcount, htargets⟩ := targets_of_scan hkeep hanswer
    rw [hbefore, hnow] at htargets
    refine .inr ⟨early, scan, late, rfl, hearly, hscanCall, by rw [hscan],
      hmatched.trans hcount.symm, fun hfalse => ?_⟩
    obtain ⟨between, last, rest, hsplit, hlast, hrest⟩ := last_of_call hscanCall late
    refine ⟨between, last, rest, hsplit, hlast, hrest, fun raw entry haim hlive => ?_⟩
    have hwhole : scan :: late = (between ++ [last]) ++ rest := by
      rw [hsplit, List.append_cons]
    have hmem : ∀ e ∈ between ++ [last], e ∈ early ++ scan :: late := fun e he =>
      List.mem_append_right _ (hwhole ▸ List.mem_append_left _ he)
    have hrun : Runs s c (between ++ last :: rest) b := by
      rw [← hsplit]
      exact (Runs.refl.snoc hstep).trans hafterScan
    obtain ⟨_, mid, hbetween, hlastStep, _⟩ := hrun.split
    obtain ⟨_, _, hafter, hthen, _⟩ := hlastStep.event
    rw [hafter, hthen] at hlive
    -- All targets were deleted after the scan, the last one by the last request.
    have hdeleted : ∀ k ∈ gone, ∃ e ∈ between ++ [last], e.asked = deleted k := by
      intro k hk
      obtain ⟨e, he, hecall, hasked⟩ := mem_history (hlate ▸ List.mem_map_of_mem hk)
      refine ⟨e, ?_, hasked⟩
      rcases List.mem_append.mp (hwhole ▸ List.mem_cons_of_mem _ he) with hbefore | hafter
      · exact hbefore
      · exact absurd hecall (hrest e hafter)
    have hfound : c.cache.live raw c.now = some entry → ∃ k ∈ gone, k.text = raw := by
      intro hthere
      rw [hall hfalse]
      exact (htargets raw).mp ⟨haim, Option.isSome_of_eq_some hthere⟩
    obtain ⟨e, he, hwritten, hkey⟩ := (hbetween.snoc hlastStep).written_of_survives
      (fun e he => ne_close_of_mayIssue (hrecorded.mayIssue e (hmem e he))) hdeleted hfound hlive
    have hwrites := writes_of_puts (hrecorded.mayIssue e (hmem e he))
      (Memory.puts_of_written hwritten)
    rcases List.mem_append.mp he with he | he
    · exact ⟨e, he, hwrites, hwritten, hkey⟩
    · obtain rfl := List.mem_singleton.mp he
      rw [hrecorded.op_eq (hmem e (by simp)) (hlast ▸ hcall)] at hwrites
      exact absurd hwrites id

def cleared : System :=
  ⟨(Memory.answer (.setDefault zerosKey.text visit.encode) ⟨0, 0⟩ visited.cache).2.erase
      visitKey.text, ⟨0, 0⟩,
    [⟨.revoke visitor none .never, .done (.ok ⟨1, 1, false⟩)⟩,
      ⟨.store (repeating 0) visit, .done (.ok zerosKey)⟩]⟩

/-- The owner signs in again between the scan of a revocation and its only delete. -/
def clearing : List Event :=
  let signedIn := (Memory.answer (.setDefault zerosKey.text visit.encode) ⟨0, 0⟩ visited.cache).2
  [⟨0, .revoke visitor none .never, ⟨0, 0⟩,
      ⟨.scan (Key.ownerPattern "S" visitor), .ok [visitKey.text]⟩, visited.cache, visited.cache⟩,
    ⟨1, .store (repeating 0) visit, ⟨0, 0⟩, ⟨.setDefault zerosKey.text visit.encode, .ok ()⟩,
      visited.cache, signedIn⟩,
    ⟨0, .revoke visitor none .never, ⟨0, 0⟩, ⟨.delete visitKey.text, .ok ()⟩, signedIn,
      cleared.cache⟩]

theorem scan_visited : Memory.answer (.scan (Key.ownerPattern "S" visitor)) ⟨0, 0⟩ visited.cache =
    (.ok [visitKey.text], visited.cache) := by
  have hkeys : (((Cache.Entries.empty 1).put ⟨visitKey.text, visit.encode, 60000000000⟩).keys
      (Key.ownerPattern "S" visitor) ⟨0, 0⟩) = [visitKey.text] := by decide +kernel
  exact congrArg (fun ks => (Except.ok ks, visited.cache)) hkeys

theorem runs_clearing : Runs ⟨"S", 16⟩ visited clearing cleared := by
  have hplan : (Operation.revoke visitor none .never).plan ⟨"S", 16⟩ =
      .andThen (.scan (Key.ownerPattern "S" visitor)) fun found =>
        Store.deleteAll .never ⟨(Store.targets ⟨"S", 16⟩ visitor none found).length, 0, false⟩
          (Store.targets ⟨"S", 16⟩ visitor none found) := by
    rw [Operation.plan_revoke, if_pos (by simp), Store.revoke_eq _ _ _ (by simp)]
  have htargets : Store.targets ⟨"S", 16⟩ visitor none [visitKey.text] = [visitKey] := by
    decide +kernel
  have hbegun := (Runs.refl (s := ⟨"S", 16⟩) (a := visited)).snoc
    (.begin visited (.revoke visitor none .never))
  rw [hplan] at hbegun
  have hscanned := hbegun.ask (i := 0) rfl scan_visited
  change Runs _ _ _ ⟨visited.cache, ⟨0, 0⟩, [⟨.revoke visitor none .never, Store.deleteAll .never
    ⟨(Store.targets ⟨"S", 16⟩ visitor none [visitKey.text]).length, 0, false⟩
    (Store.targets ⟨"S", 16⟩ visitor none [visitKey.text])⟩]⟩ at hscanned
  rw [htargets] at hscanned
  have hsignedIn := (hscanned.snoc (.begin _ (.store (repeating 0) visit))).ask (i := 1)
    (r := .setDefault zerosKey.text visit.encode) rfl rfl
  exact hsignedIn.ask (i := 0) (r := .delete visitKey.text) rfl rfl

theorem eq_last_of_clearing {xs : List Event} {e : Event} (h : clearing = xs ++ [e]) :
    e.call = 0 ∧ e.after = cleared.cache ∧ e.now = cleared.now := by
  have hlast := congrArg List.getLast? h
  rw [List.getLast?_concat] at hlast
  obtain rfl := Option.some.inj hlast
  exact ⟨rfl, rfl, rfl⟩

/-- A session that begins while its owner is being signed out stays, and it is a later sign-in. -/
theorem concurrent_revocation_signIn :
    (∀ e ∈ clearing, e.op = .revoke visitor none .never → ∀ raw, e.asked.request = .delete raw →
      Store.Revokes ⟨"S", 16⟩ visitor none raw) ∧
    (∃ scan ∈ clearing, (1 : Nat) =
      (Store.aims ⟨"S", 16⟩ scan.before scan.now visitor none).ncard) ∧
    Store.Revokes ⟨"S", 16⟩ visitor none zerosKey.text ∧
    ∃ entry, cleared.cache.live zerosKey.text cleared.now = some entry ∧
      ∃ e ∈ clearing, e.op.Writes ∧ e.before.written? e.now e.asked.request = some entry := by
  obtain ⟨hdeletes, hreports⟩ := concurrent_revocation rfl runs_clearing visitor none .never
  have haim : Store.Revokes ⟨"S", 16⟩ visitor none zerosKey.text :=
    ⟨⟨zerosKey, by decide +kernel, rfl⟩, by simp⟩
  obtain ⟨entry, hlive⟩ := Option.isSome_iff_exists.mp
    (show (cleared.cache.live zerosKey.text cleared.now).isSome = true by decide +kernel)
  rcases hreports 0 ⟨1, 1, false⟩ rfl with ⟨hcancel, _⟩ | ⟨early, scan, late, hlog, _, _, _,
    hmatched, hwritten⟩
  · cases hcancel
  refine ⟨hdeletes, ⟨scan, hlog ▸ List.mem_append_right _ List.mem_cons_self, hmatched⟩, haim,
    entry, hlive, ?_⟩
  obtain ⟨between, last, rest, hsplit, _, hrest, hall⟩ := hwritten rfl
  rw [hsplit] at hlog
  rcases List.eq_nil_or_concat rest with rfl | ⟨rest, final, rfl⟩
  · obtain ⟨_, hafter, hnow⟩ := eq_last_of_clearing (hlog.trans (List.append_assoc ..).symm)
    obtain ⟨e, he, hwrites, hput, _⟩ := hall zerosKey.text entry haim (by rw [hafter, hnow, hlive])
    exact ⟨e, hlog ▸ List.mem_append_right _ (List.mem_append_left _ he), hwrites, hput⟩
  · have hend : clearing = (early ++ (between ++ last :: rest)) ++ [final] := by
      simpa using hlog
    obtain ⟨hcall, _⟩ := eq_last_of_clearing hend
    exact absurd hcall (hrest final (by simp))

end AuthCore.Session
