import AuthCore.Proofs.Session.Interleaving

set_option autoImplicit false

namespace AuthCore.Session

open Cache (Asked Memory Plan)

variable {s : Store} {a b c d : System} {log early late : List Event}

/-- A renewal found `raw` live before `late` and puts it back within, with a lifetime, into a cache
that keeps it. -/
structure Event.Revives (early : List Event) (raw : String) (e : Event) : Prop where
  renewal : ∃ key t, e.op = .renew key t ∧ key.text = raw
  checked : ∃ check ∈ early, check.call = e.call ∧ check.asked = ⟨.has raw, .ok true⟩ ∧
    (check.before.live raw check.now).isSome = true
  puts : ∃ entry, e.before.written? e.now e.asked.request = some entry ∧ entry.key = raw ∧
    e.before.Keeps ∧ e.now.toNanos < entry.deadline

theorem follows_renew {key : Key} {t : Ticket} {asked : List Asked} {r : Cache.Request}
    {next : Except Failure r.Answer → Plan (Except Failure Unit)} {raw : String}
    (h : Plan.Follows (Store.renew key t) asked (.ask r next)) (hputs : r.Puts raw) :
    ⟨.has key.text, .ok true⟩ ∈ asked := by
  unfold Store.renew at h
  split at h
  · rcases Plan.follows_ask h with ⟨_, heq⟩ | ⟨answer, rest, rfl, hfollows⟩
    · cases heq
      cases hputs
    · cases answer with
      | error f => cases (Plan.follows_done hfollows).2
      | ok there =>
        cases there with
        | false => cases (Plan.follows_done hfollows).2
        | true => exact List.mem_cons_self
  · cases (Plan.follows_done h).2

theorem live_of_has {m m' : Memory} {raw : String} {now : Time.Instant}
    (h : Memory.answer (.has raw) now m = (.ok true, m')) :
    m' = m ∧ (m.live raw now).isSome = true := by
  by_cases hopen : m.IsOpen
  · rw [Memory.answer_has hopen] at h
    obtain ⟨hanswer, hafter⟩ := Prod.mk.inj h
    exact ⟨hafter.symm, Except.ok.inj hanswer⟩
  · obtain ⟨f, herror⟩ := Memory.answer_of_not_isOpen hopen (r := .has raw) (by simp) now
    rw [herror] at h
    cases h

theorem Step.dead_of_none (h : Step s a none b) {raw : String}
    (hdead : a.cache.live raw a.now = none) : b.cache.live raw b.now = none := by
  have hnow := h.now_le
  rw [h.cache_eq]
  cases hlive : a.cache.live raw b.now with
  | none => rfl
  | some entry =>
    obtain ⟨hfind, hdeadline⟩ := Memory.live_eq_some_iff.mp hlive
    have halive := Memory.live_eq_some_iff.mpr ⟨hfind, show a.now.toNanos < entry.deadline by omega⟩
    cases hdead.symm.trans halive

theorem Runs.dead (h : Runs s a log b) {raw : String} (hdead : a.cache.live raw a.now = none)
    (hlog : ∀ e ∈ log, ¬ e.LeavesLive raw) : b.cache.live raw b.now = none := by
  induction h with
  | refl => exact hdead
  | @snoc b c log event _ hstep ih =>
    cases event with
    | none => exact hstep.dead_of_none (ih fun e he => hlog e (by simp [he]))
    | some e =>
      obtain ⟨_, _, hafter, hnow, _⟩ := hstep.event
      have hnot := hlog e (by simp)
      rw [Event.LeavesLive, hafter, hnow] at hnot
      simpa using hnot

theorem Step.puts_of_leavesLive {e : Event} (h : Step s a (some e) b)
    (hclose : e.asked.request ≠ .close) {raw : String}
    (hdead : a.cache.live raw a.now = none) (hlive : e.LeavesLive raw) :
    ∃ entry, e.before.written? e.now e.asked.request = some entry ∧ entry.key = raw ∧
      e.before.Keeps ∧ e.now.toNanos < entry.deadline := by
  obtain ⟨hbefore, hnow, _, _, hanswer⟩ := h.event
  obtain ⟨entry, hentry⟩ := Option.isSome_iff_exists.mp hlive
  obtain ⟨hfind, hdeadline⟩ := Memory.live_eq_some_iff.mp hentry
  have hcases := Memory.find_answer_cases e.before hclose e.now raw
  rw [hanswer] at hcases
  rcases hcases with hsame | ⟨_, hnone⟩ | ⟨put, hput, hkey, hkeeps, hsome⟩
  · have halive : a.cache.live raw a.now = some entry := by
      rw [← hbefore, ← hnow]
      exact Memory.live_eq_some_iff.mpr ⟨hsame ▸ hfind, hdeadline⟩
    cases hdead.symm.trans halive
  · cases hnone.symm.trans hfind
  · obtain rfl : put = entry := Option.some.inj (hsome.symm.trans hfind)
    exact ⟨put, hput, hkey, hkeeps, hdeadline⟩

theorem Step.leavesLive_of_puts {e : Event} (h : Step s a (some e) b) {raw : String}
    (hputs : ∃ entry, e.before.written? e.now e.asked.request = some entry ∧ entry.key = raw ∧
      e.before.Keeps ∧ e.now.toNanos < entry.deadline) : e.LeavesLive raw := by
  obtain ⟨entry, hwritten, hkey, hkeeps, hdeadline⟩ := hputs
  obtain ⟨_, _, _, _, hanswer⟩ := h.event
  have hfind := Memory.find_answer_written hwritten hkeeps raw
  rw [if_pos hkey, hanswer] at hfind
  rw [Event.LeavesLive, Memory.live_eq_some_iff.mpr ⟨hfind, hdeadline⟩]
  rfl

theorem Recorded.checked {e : Event} (h : Recorded s log a) (hstep : Step s a (some e) b)
    {key : Key} {t : Ticket} (hop : e.op = .renew key t) {raw : String}
    (hputs : e.asked.request.Puts raw) :
    ∃ check ∈ log, check.call = e.call ∧ check.asked = ⟨.has key.text, .ok true⟩ := by
  cases hstep with
  | @ask i op r next hcall =>
    cases hop
    exact mem_history (follows_renew (h.follows i _ _ hcall) hputs)

theorem renewal_of_puts {op : Operation} {r : Cache.Request} (h : op.MayIssue s r) {raw : String}
    (hputs : r.Puts raw) (hstore : ∀ random t, op ≠ .store random t) :
    ∃ key t, op = .renew key t ∧ key.text = raw := by
  have hwrites := writes_of_puts h hputs
  cases op with
  | store random t => exact absurd rfl (hstore random t)
  | renew key t =>
    obtain ⟨_, rfl | ⟨_, rfl⟩ | rfl⟩ := h
    · cases hputs
    · exact ⟨key, t, rfl, hputs⟩
    · exact ⟨key, t, rfl, hputs⟩
  | _ => cases hwrites

/-- A confirmed deletion leaves its key dead. A dead key that no sign-in writes again is live later
if and only if a renewal that had found it alive before writes it afterwards. -/
theorem revived_iff_renewal_straddles (hstart : a.calls = []) (hearly : Runs s a early b)
    (hlate : Runs s b late c) {raw : String} (hdead : b.cache.live raw b.now = none)
    (hstore : ∀ e ∈ late, e.asked.request.Puts raw → ∀ random t, e.op ≠ .store random t) :
    (∀ e ∈ early, e.asked = ⟨.delete raw, .ok ()⟩ → ¬ e.LeavesLive raw) ∧
      ((∃ e ∈ late, e.LeavesLive raw) ↔ ∃ e ∈ late, e.Revives early raw) ∧
      ((c.cache.live raw c.now).isSome = true → ∃ e ∈ late, e.LeavesLive raw) := by
  have hrecorded := (hearly.trans hlate).recorded hstart
  refine ⟨?_, ⟨?_, ?_⟩, ?_⟩
  · intro e he hasked hlive
    obtain ⟨xs, ys, rfl⟩ := List.append_of_mem he
    obtain ⟨_, _, _, hstep, _⟩ := hearly.split
    obtain ⟨_, _, _, _, hanswer⟩ := hstep.event
    rw [hasked] at hanswer
    obtain ⟨entry, hentry⟩ := Option.isSome_iff_exists.mp hlive
    cases (find_of_deleted hanswer).symm.trans (Memory.live_eq_some_iff.mp hentry).1
  · intro hrevived
    -- Before the first event that leaves the key live it is dead, so the check is not in `late`.
    obtain ⟨xs, e, ys, rfl, hlive, hfirst⟩ := exists_first hrevived
    obtain ⟨mid, mid', hxs, hstep, _⟩ := hlate.split
    have hmay := hrecorded.mayIssue e (by simp)
    have hputs := hstep.puts_of_leavesLive (ne_close_of_mayIssue hmay) (hxs.dead hdead hfirst) hlive
    obtain ⟨entry, hwritten, hkey, hkept⟩ := hputs
    have hputsRaw : e.asked.request.Puts raw := hkey ▸ Memory.puts_of_written hwritten
    obtain ⟨key, t, hop, hraw⟩ := renewal_of_puts hmay hputsRaw (hstore e (by simp) hputsRaw)
    have hbefore := (hearly.trans hxs).recorded hstart
    obtain ⟨check, hcheck, hcall, hasked⟩ := hbefore.checked hstep hop hputsRaw
    rw [hraw] at hasked
    have hfound : check.LeavesLive raw ∧ (check.before.live raw check.now).isSome = true := by
      obtain ⟨us, vs, hsplit⟩ := List.append_of_mem hcheck
      obtain ⟨_, _, _, hcheckStep, _⟩ := (hsplit ▸ hearly.trans hxs).split
      obtain ⟨_, _, _, _, hanswer⟩ := hcheckStep.event
      rw [hasked] at hanswer
      obtain ⟨hafter, hlive⟩ := live_of_has hanswer
      exact ⟨by rw [Event.LeavesLive, hafter]; exact hlive, hlive⟩
    refine ⟨e, by simp, ⟨key, t, hop, hraw⟩, ⟨check, ?_, hcall, hasked, hfound.2⟩,
      entry, hwritten, hkey, hkept⟩
    rcases List.mem_append.mp hcheck with hcheck | hcheck
    · exact hcheck
    · exact absurd hfound.1 (hfirst check hcheck)
  · rintro ⟨e, he, hrevives⟩
    obtain ⟨xs, ys, rfl⟩ := List.append_of_mem he
    obtain ⟨_, _, _, hstep, _⟩ := hlate.split
    exact ⟨e, he, hstep.leavesLive_of_puts hrevives.puts⟩
  · intro hlive
    by_cases hleaves : ∃ e ∈ late, e.LeavesLive raw
    · exact hleaves
    · have hstays := hlate.dead hdead fun e he hlives => hleaves ⟨e, he, hlives⟩
      rw [hstays] at hlive
      cases hlive

def interrupted : System :=
  ⟨visited.cache.erase visitKey.text, ⟨0, 0⟩,
    [⟨.renew visitKey visit, Store.write visitKey visit⟩, ⟨.remove visitKey, .done (.ok ())⟩]⟩

def untilRemoval : List Event :=
  [⟨0, .renew visitKey visit, ⟨0, 0⟩, ⟨.has visitKey.text, .ok true⟩, visited.cache, visited.cache⟩,
    ⟨1, .remove visitKey, ⟨0, 0⟩, ⟨.delete visitKey.text, .ok ()⟩, visited.cache,
      interrupted.cache⟩]

theorem runs_untilRemoval : Runs ⟨"S", 16⟩ visited untilRemoval interrupted :=
  (((Runs.refl.snoc (.begin visited (.renew visitKey visit))).snoc
    (.ask (i := 0) (r := .has visitKey.text) rfl)).snoc
    (.begin _ (.remove visitKey))).snoc (.ask (i := 1) (r := .delete visitKey.text) rfl)

def resumed : System :=
  ⟨(Memory.answer (.setDefault visitKey.text visit.encode) ⟨0, 0⟩ interrupted.cache).2, ⟨0, 0⟩,
    [⟨.renew visitKey visit, .done (.ok ())⟩, ⟨.remove visitKey, .done (.ok ())⟩]⟩

def renewalWrite : Event :=
  ⟨0, .renew visitKey visit, ⟨0, 0⟩, ⟨.setDefault visitKey.text visit.encode, .ok ()⟩,
    interrupted.cache, resumed.cache⟩

theorem runs_renewalWrite : Runs ⟨"S", 16⟩ interrupted [renewalWrite] resumed :=
  Runs.refl.snoc (.ask (i := 0) (r := .setDefault visitKey.text visit.encode) rfl)

theorem renewal_revives_removed_key :
    (∃ e ∈ untilRemoval, e.asked = ⟨.delete visitKey.text, .ok ()⟩) ∧
      interrupted.cache.live visitKey.text interrupted.now = none ∧
      (∃ e ∈ [renewalWrite], e.Revives untilRemoval visitKey.text) ∧
      (resumed.cache.live visitKey.text resumed.now).isSome = true := by
  have hdead : interrupted.cache.live visitKey.text interrupted.now = none := by decide +kernel
  have hlive : (resumed.cache.live visitKey.text resumed.now).isSome = true := by decide +kernel
  have hrevived := revived_iff_renewal_straddles rfl runs_untilRemoval runs_renewalWrite hdead
    (by simp [renewalWrite])
  exact ⟨⟨_, List.mem_of_getElem? (i := 1) rfl, rfl⟩, hdead, hrevived.2.1.mp (hrevived.2.2 hlive),
    hlive⟩

end AuthCore.Session
