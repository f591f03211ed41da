import AuthCore.Proofs.Cache.MemoryView
import AuthCore.Proofs.Session.Operations
import AuthCore.Proofs.Time.Timeline

/-!
Many operations at once on one cache. One step is one request of one operation, one look at the
clock, the beginning of an operation, or the passing of time; between them the steps come in any
order. A log keeps every request with the cache before and after it.
-/

set_option autoImplicit false

namespace AuthCore.Session

open Cache (Asked Memory Plan)

structure Call where
  op : Operation
  rest : Plan (Except Failure op.Answer)

structure System where
  cache : Memory
  now : Time.Instant
  calls : List Call

structure Event where
  call : Nat
  op : Operation
  now : Time.Instant
  asked : Asked
  before : Memory
  after : Memory

def Event.LeavesLive (raw : String) (e : Event) : Prop := (e.after.live raw e.now).isSome = true

inductive Step (s : Store) : System → Option Event → System → Prop where
  | begin (a : System) (op : Operation) :
    Step s a none { a with calls := a.calls ++ [⟨op, op.plan s⟩] }
  | wait (a : System) (nanos : Nat) : Step s a none { a with now := a.now.addNanos nanos }
  | look {a : System} {i : Nat} {op : Operation}
    {next : Time.Instant → Plan (Except Failure op.Answer)}
    (h : a.calls[i]? = some ⟨op, .clock next⟩) :
    Step s a none { a with calls := a.calls.set i ⟨op, next a.now⟩ }
  | ask {a : System} {i : Nat} {op : Operation} {r : Cache.Request}
    {next : Except Failure r.Answer → Plan (Except Failure op.Answer)}
    (h : a.calls[i]? = some ⟨op, .ask r next⟩) :
    Step s a (some ⟨i, op, a.now, ⟨r, (Memory.answer r a.now a.cache).1⟩, a.cache,
        (Memory.answer r a.now a.cache).2⟩)
      ⟨(Memory.answer r a.now a.cache).2, a.now,
        a.calls.set i ⟨op, next (Memory.answer r a.now a.cache).1⟩⟩

inductive Runs (s : Store) (a : System) : List Event → System → Prop where
  | refl : Runs s a [] a
  | snoc {b c : System} {log : List Event} {event : Option Event} (h : Runs s a log b)
    (hstep : Step s b event c) : Runs s a (log ++ event.toList) c

variable {s : Store} {a b c : System} {log : List Event}

theorem Runs.trans {log' : List Event} (h : Runs s a log b) (h' : Runs s b log' c) :
    Runs s a (log ++ log') c := by
  induction h' with
  | refl => rw [List.append_nil]; exact h
  | snoc _ hstep ih =>
    rw [← List.append_assoc]
    exact ih.snoc hstep

theorem Runs.ask (h : Runs s a log b) {i : Nat} {op : Operation} {r : Cache.Request}
    {next : Except Failure r.Answer → Plan (Except Failure op.Answer)}
    (hcall : b.calls[i]? = some ⟨op, .ask r next⟩) {answer : Except Failure r.Answer} {m : Memory}
    (hanswer : Memory.answer r b.now b.cache = (answer, m)) :
    Runs s a (log ++ [⟨i, op, b.now, ⟨r, answer⟩, b.cache, m⟩])
      ⟨m, b.now, b.calls.set i ⟨op, next answer⟩⟩ := by
  have hstep := h.snoc (.ask hcall)
  rw [hanswer] at hstep
  exact hstep

theorem Runs.split {xs ys : List Event} {e : Event} (h : Runs s a (xs ++ e :: ys) b) :
    ∃ c d, Runs s a xs c ∧ Step s c (some e) d ∧ Runs s d ys b := by
  generalize hlog : xs ++ e :: ys = log at h
  induction h generalizing ys with
  | refl => simp at hlog
  | @snoc b b' log event h hstep ih =>
    cases event with
    | none =>
      rw [Option.toList_none, List.append_nil] at hlog
      obtain ⟨c, d, hxs, hc, hys⟩ := ih hlog
      exact ⟨c, d, hxs, hc, by simpa using hys.snoc hstep⟩
    | some e' =>
      rcases List.eq_nil_or_concat ys with rfl | ⟨ys, last, rfl⟩
      · obtain ⟨rfl, heq⟩ := List.append_inj' hlog rfl
        cases heq
        exact ⟨b, b', h, hstep, .refl⟩
      · rw [List.concat_eq_append, ← List.cons_append, ← List.append_assoc] at hlog
        obtain ⟨hinit, heq⟩ := List.append_inj' hlog rfl
        cases heq
        obtain ⟨c, d, hxs, hc, hys⟩ := ih hinit
        rw [List.concat_eq_append]
        exact ⟨c, d, hxs, hc, hys.snoc hstep⟩

def history (i : Nat) (log : List Event) : List Asked :=
  (log.filter fun e => e.call == i).map Event.asked

theorem history_append (i : Nat) (log log' : List Event) :
    history i (log ++ log') = history i log ++ history i log' := by
  rw [history, List.filter_append, List.map_append]
  rfl

theorem mem_history {i : Nat} {log : List Event} {x : Asked} (h : x ∈ history i log) :
    ∃ e ∈ log, e.call = i ∧ e.asked = x := by
  obtain ⟨e, he, rfl⟩ := List.mem_map.mp h
  obtain ⟨hmem, hcall⟩ := List.mem_filter.mp he
  exact ⟨e, hmem, by simpa using hcall, rfl⟩

theorem history_eq_nil {i : Nat} {log : List Event} (h : ∀ e ∈ log, e.call ≠ i) :
    history i log = [] := by
  have hnone : log.filter (fun e => e.call == i) = [] := by
    rw [List.filter_eq_nil_iff]
    intro e he
    simpa using h e he
  rw [history, hnone, List.map_nil]

theorem call_ne_of_history {i : Nat} {log : List Event} (h : history i log = []) {e : Event}
    (he : e ∈ log) : e.call ≠ i := by
  rw [history, List.map_eq_nil_iff, List.filter_eq_nil_iff] at h
  simpa using h e he

theorem exists_first {log : List Event} {P : Event → Prop} (h : ∃ e ∈ log, P e) :
    ∃ xs e ys, log = xs ++ e :: ys ∧ P e ∧ ∀ x ∈ xs, ¬ P x := by
  induction log with
  | nil =>
    obtain ⟨e, he, _⟩ := h
    cases he
  | cons e log ih =>
    by_cases he : P e
    · exact ⟨[], e, log, rfl, he, by simp⟩
    · obtain ⟨e', hmem, he'⟩ := h
      have hrest : ∃ e ∈ log, P e := by
        rcases List.mem_cons.mp hmem with rfl | hmem
        · exact absurd he' he
        · exact ⟨e', hmem, he'⟩
      obtain ⟨xs, first, ys, rfl, hfirst, hxs⟩ := ih hrest
      refine ⟨e :: xs, first, ys, rfl, hfirst, ?_⟩
      intro x hx
      rcases List.mem_cons.mp hx with rfl | hx
      · exact he
      · exact hxs x hx

theorem exists_last {log : List Event} {P : Event → Prop} (h : ∃ e ∈ log, P e) :
    ∃ xs e ys, log = xs ++ e :: ys ∧ P e ∧ ∀ y ∈ ys, ¬ P y := by
  have hreverse : ∃ e ∈ log.reverse, P e := by simpa using h
  obtain ⟨xs, e, ys, hsplit, he, hxs⟩ := exists_first hreverse
  refine ⟨ys.reverse, e, xs.reverse, ?_, he, fun y hy => hxs y (List.mem_reverse.mp hy)⟩
  rw [← List.reverse_reverse log, hsplit]
  simp

theorem history_cons {i : Nat} {log : List Event} {x : Asked} {xs : List Asked}
    (h : history i log = x :: xs) : ∃ early e late, log = early ++ e :: late ∧
      (∀ e ∈ early, e.call ≠ i) ∧ e.call = i ∧ e.asked = x ∧ history i late = xs := by
  have hmem : x ∈ history i log := by
    rw [h]
    exact List.mem_cons_self
  have hmade : ∃ e ∈ log, e.call = i := by
    obtain ⟨e, he, hcall, _⟩ := mem_history hmem
    exact ⟨e, he, hcall⟩
  obtain ⟨early, e, late, rfl, hcall, hearly⟩ := exists_first hmade
  refine ⟨early, e, late, rfl, hearly, hcall, ?_⟩
  rw [history_append, history_eq_nil hearly, List.nil_append, history,
    List.filter_cons_of_pos (by simpa using hcall), List.map_cons] at h
  exact List.cons.inj h

/-- The log tells how far every call has come, and its requests are such as their operations
make. -/
structure Recorded (s : Store) (log : List Event) (b : System) : Prop where
  called : ∀ e ∈ log, ∃ rest, b.calls[e.call]? = some ⟨e.op, rest⟩
  follows : ∀ (i : Nat) (op : Operation) (rest : Plan (Except Failure op.Answer)),
    b.calls[i]? = some ⟨op, rest⟩ → Plan.Follows (op.plan s) (history i log) rest
  mayIssue : ∀ e ∈ log, e.op.MayIssue s e.asked.request

theorem calls_set {calls : List Call} {i : Nat} {op : Operation}
    {rest rest' : Plan (Except Failure op.Answer)} (h : calls[i]? = some ⟨op, rest⟩) {j : Nat}
    {op' : Operation} (hj : ∃ rest, calls[j]? = some ⟨op', rest⟩) :
    ∃ rest, (calls.set i ⟨op, rest'⟩)[j]? = some ⟨op', rest⟩ := by
  obtain ⟨restj, hj⟩ := hj
  rw [List.getElem?_set]
  by_cases hij : i = j
  · subst hij
    obtain ⟨rfl, -⟩ : op = op' ∧ _ := Call.mk.injEq .. ▸ Option.some.inj (h.symm.trans hj)
    have hlt := (List.getElem?_eq_some_iff.mp h).1
    exact ⟨rest', by simp [hlt]⟩
  · exact ⟨restj, by rw [if_neg hij, hj]⟩

theorem Recorded.start (h : a.calls = []) : Recorded s [] a := by
  refine ⟨by simp, fun i op rest hcall => ?_, by simp⟩
  rw [h] at hcall
  cases hcall

theorem Recorded.begin (h : Recorded s log b) (op : Operation) :
    Recorded s log { b with calls := b.calls ++ [⟨op, op.plan s⟩] } := by
  refine ⟨fun e he => ?_, fun i op' rest hcall => ?_, h.mayIssue⟩
  · obtain ⟨rest, hcall⟩ := h.called e he
    have hlt := (List.getElem?_eq_some_iff.mp hcall).1
    exact ⟨rest, by rw [List.getElem?_append_left hlt, hcall]⟩
  · by_cases hlt : i < b.calls.length
    · rw [List.getElem?_append_left hlt] at hcall
      exact h.follows i op' rest hcall
    · have hi : i = b.calls.length := by
        have := (List.getElem?_eq_some_iff.mp hcall).1
        simp only [List.length_append, List.length_cons, List.length_nil] at this
        omega
      subst hi
      -- The new call has made no request, since its place was free.
      have hnil : history b.calls.length log = [] := by
        refine history_eq_nil fun e he heq => ?_
        obtain ⟨_, hcalled⟩ := h.called e he
        have := (List.getElem?_eq_some_iff.mp hcalled).1
        omega
      rw [List.getElem?_concat_length] at hcall
      cases hcall
      rw [hnil]
      exact .start

theorem Recorded.set {i : Nat} {op : Operation} {rest rest' : Plan (Except Failure op.Answer)}
    (h : Recorded s log b) (hcall : b.calls[i]? = some ⟨op, rest⟩) {cache : Memory}
    {now : Time.Instant} {new : List Event} (hnew : ∀ e ∈ new, e.call = i ∧ e.op = op ∧
      e.op.MayIssue s e.asked.request)
    (hrest : Plan.Follows (op.plan s) (history i log ++ history i new) rest') :
    Recorded s (log ++ new) ⟨cache, now, b.calls.set i ⟨op, rest'⟩⟩ := by
  refine ⟨fun e he => ?_, fun j op' restj hj => ?_, fun e he => ?_⟩
  · refine calls_set hcall ?_
    rcases List.mem_append.mp he with he | he
    · exact h.called e he
    · obtain ⟨rfl, rfl, _⟩ := hnew e he
      exact ⟨rest, hcall⟩
  · dsimp only at hj
    rw [List.getElem?_set] at hj
    rw [history_append]
    by_cases hij : i = j
    · subst hij
      have hlt := (List.getElem?_eq_some_iff.mp hcall).1
      simp only [↓reduceIte, hlt] at hj
      cases hj
      exact hrest
    · rw [if_neg hij] at hj
      have hnil : history j new = [] :=
        history_eq_nil fun e he heq => hij ((hnew e he).1.symm.trans heq)
      rw [hnil, List.append_nil]
      exact h.follows j op' restj hj
  · rcases List.mem_append.mp he with he | he
    · exact h.mayIssue e he
    · exact (hnew e he).2.2

theorem Recorded.step {event : Option Event} (h : Recorded s log b) (hstep : Step s b event c) :
    Recorded s (log ++ event.toList) c := by
  cases hstep with
  | begin op =>
    rw [Option.toList_none, List.append_nil]
    exact h.begin op
  | wait nanos =>
    rw [Option.toList_none, List.append_nil]
    exact ⟨h.called, h.follows, h.mayIssue⟩
  | @look i op next hcall =>
    have hnil : history i [] = [] := rfl
    refine h.set hcall (by simp) ?_
    rw [Option.toList_none, hnil, List.append_nil]
    exact .clock b.now (h.follows i op _ hcall)
  | @ask i op r next hcall =>
    have hfollows := h.follows i op _ hcall
    have hissues := hfollows.issues (op.issues_plan s)
    refine h.set hcall ?_ ?_
    · intro e he
      rw [Option.toList_some, List.mem_singleton] at he
      subst he
      exact ⟨rfl, rfl, hissues.1⟩
    · simpa [history] using Plan.Follows.ask _ hfollows

theorem Runs.recorded (h : Runs s a log b) (hstart : a.calls = []) : Recorded s log b := by
  induction h with
  | refl => exact .start hstart
  | snoc _ hstep ih => exact ih.step hstep

theorem ne_close_of_mayIssue {op : Operation} {r : Cache.Request} (h : op.MayIssue s r) :
    r ≠ .close := by
  rintro rfl
  cases op with
  | store random t =>
    obtain ⟨_, _, ⟨_, hputs⟩ | hputs⟩ := h <;> cases hputs
  | renew key t =>
    obtain ⟨_, hhas | ⟨_, hputs⟩ | hputs⟩ := h
    · cases hhas
    · cases hputs
    · cases hputs
  | retrieve key => cases h
  | remove key => cases h
  | keysFor owner => cases h
  | revoke owner keep cancel =>
    obtain ⟨_, hscan | ⟨_, hdelete, _⟩⟩ := h
    · cases hscan
    · cases hdelete

theorem writes_of_puts {op : Operation} {r : Cache.Request} (h : op.MayIssue s r) {raw : String}
    (hputs : r.Puts raw) : op.Writes := by
  cases op with
  | store random t => exact trivial
  | renew key t => exact trivial
  | retrieve key => cases h; cases hputs
  | remove key => cases h; cases hputs
  | keysFor owner => cases h; cases hputs
  | revoke owner keep cancel =>
    obtain ⟨_, rfl | ⟨_, rfl, _⟩⟩ := h
    · cases hputs
    · cases hputs

theorem Step.now_le {event : Option Event} (h : Step s a event b) :
    a.now.toNanos ≤ b.now.toNanos := by
  cases h with
  | wait nanos =>
    rw [Time.Instant.toNanos_addNanos]
    omega
  | _ => exact Int.le_refl _

theorem Runs.now_le (h : Runs s a log b) : a.now.toNanos ≤ b.now.toNanos := by
  induction h with
  | refl => exact Int.le_refl _
  | snoc _ hstep ih => exact Int.le_trans ih hstep.now_le

theorem Step.cache_eq (h : Step s a none b) : b.cache = a.cache := by
  cases h <;> rfl

theorem Step.event {e : Event} (h : Step s a (some e) b) :
    e.before = a.cache ∧ e.now = a.now ∧ e.after = b.cache ∧ e.now = b.now ∧
      Memory.answer e.asked.request e.now e.before = (e.asked.answer, e.after) := by
  cases h
  exact ⟨rfl, rfl, rfl, rfl, rfl⟩

theorem Runs.find_cases (h : Runs s a log b) (hclose : ∀ e ∈ log, e.asked.request ≠ .close)
    {raw : String} {entry : Cache.Entry} (hfind : b.cache.find raw = some entry) :
    a.cache.find raw = some entry ∨
      ∃ e ∈ log, e.before.written? e.now e.asked.request = some entry ∧ entry.key = raw := by
  induction h with
  | refl => exact .inl hfind
  | @snoc b c log event _ hstep ih =>
    have hold : b.cache.find raw = some entry → a.cache.find raw = some entry ∨
        ∃ e ∈ log ++ event.toList, e.before.written? e.now e.asked.request = some entry ∧
          entry.key = raw := by
      intro hbefore
      rcases ih (fun e he => hclose e (List.mem_append_left _ he)) hbefore with
        hsame | ⟨e, he, hput⟩
      · exact .inl hsame
      · exact .inr ⟨e, List.mem_append_left _ he, hput⟩
    cases event with
    | none => exact hold (by rw [← hstep.cache_eq, hfind])
    | some e =>
      obtain ⟨hbefore, _, hafter, _, hanswer⟩ := hstep.event
      have hcases := Memory.find_answer_cases e.before (hclose e (by simp)) e.now raw
      rw [hanswer, hafter] at hcases
      rcases hcases with hsame | ⟨_, hnone⟩ | ⟨put, hput, hkey, _, hsome⟩
      · exact hold (by rw [← hbefore, ← hsame, hfind])
      · cases hnone.symm.trans hfind
      · obtain rfl : put = entry := Option.some.inj (hsome.symm.trans hfind)
        exact .inr ⟨e, by simp, hput, hkey⟩

theorem Runs.live_of_find (h : Runs s a log b) {raw : String} {entry : Cache.Entry}
    (hlive : b.cache.live raw b.now = some entry) (hfind : a.cache.find raw = some entry) :
    a.cache.live raw a.now = some entry := by
  have hnow := h.now_le
  have hdeadline := (Memory.live_eq_some_iff.mp hlive).2
  exact Memory.live_eq_some_iff.mpr ⟨hfind, by omega⟩

theorem find_of_deleted {m m' : Memory} {raw : String} {now : Time.Instant}
    (h : Memory.answer (.delete raw) now m = (.ok (), m')) : m'.find raw = none := by
  have herase : m' = m.erase raw := by
    have hsnd : (Memory.answer (.delete raw) now m).2 = m' := by rw [h]
    exact hsnd.symm
  rw [herase, Memory.find_erase, if_pos rfl]

def visitKey : Key := ⟨Key.compose "S" visitor "n", visitor⟩

def visited : System :=
  ⟨(Memory.answer (.setDefault visitKey.text visit.encode) ⟨0, 0⟩ (.new 1 60)).2, ⟨0, 0⟩, []⟩

end AuthCore.Session
