import AuthCore.Proofs.Loading.LazyCredentials

/-!
Many callers at once of a repository that has no key yet. One of them loads and the others wait for
their turn in the order of their calls. A key that is loaded is everyone's; a failure is only that
of the caller who loaded, and each caller who waited then loads for itself.
-/

set_option autoImplicit false

namespace AuthCore.Signing

open Once (failures)

namespace Repository

/-- The first half of a use that loads: it counts. -/
def begin (r : Repository) : Repository :=
  { r with cell := { r.cell with attempts := r.cell.attempts + 1 } }

def finish (r : Repository) (disk : Files.Disk) : Except Failure KeyMaterial × Repository :=
  let outcome := loadMaterial disk r.keyDir r.passphrase
  (outcome, { r with cell := { r.cell with value := outcome.toOption } })

end Repository

structure Shared where
  repository : Repository
  /-- The caller whose load is under way. -/
  loader : Option Nat
  /-- The callers that have neither an answer nor a load, in the order of their calls. -/
  waiting : List Nat
  calls : Nat

namespace Shared

inductive Event where
  | called (caller : Nat)
  | began (caller : Nat)
  | answered (caller : Nat) (answer : Except Failure KeyMaterial)

def Event.answer? : Event → Option (Except Failure KeyMaterial)
  | answered _ answer => some answer
  | _ => none

def answers (log : List Event) : List (Except Failure KeyMaterial) := log.filterMap Event.answer?

inductive Step : Shared → Event → Shared → Prop where
  | call (a : Shared) : Step a (.called a.calls)
      { a with waiting := a.waiting ++ [a.calls], calls := a.calls + 1 }
  | begin {a : Shared} {i : Nat} {rest : List Nat} (hidle : a.loader = none)
      (hempty : a.repository.cell.value = none) (hwaiting : a.waiting = i :: rest) :
      Step a (.began i)
        { a with repository := a.repository.begin, loader := some i, waiting := rest }
  | finish {a : Shared} {i : Nat} (hloader : a.loader = some i) (disk : Files.Disk) :
      Step a (.answered i (a.repository.finish disk).1)
        { a with repository := (a.repository.finish disk).2, loader := none }
  | share {a : Shared} {m : KeyMaterial} {i : Nat} {front back : List Nat}
      (hkept : a.repository.cell.value = some m) (hwaiting : a.waiting = front ++ i :: back) :
      Step a (.answered i (.ok m)) { a with waiting := front ++ back }

inductive Runs (a : Shared) : List Event → Shared → Prop where
  | refl : Runs a [] a
  | snoc {b c : Shared} {log : List Event} {event : Event} (h : Runs a log b)
    (hstep : Step b event c) : Runs a (log ++ [event]) c

def fresh (keyDir : String) (passphrase : Option String) : Shared :=
  ⟨.new keyDir passphrase, none, [], 0⟩

variable {keyDir : String} {passphrase : Option String} {a b c : Shared} {event : Event}
  {log : List Event} {i : Nat}

theorem Runs.cons (hstep : Step a event b) (h : Runs b log c) : Runs a (event :: log) c := by
  induction h with
  | refl => exact .snoc .refl hstep
  | snoc _ hlast ih => exact ih.snoc hlast

/-- A load is under way only while nothing is kept. -/
structure Valid (keyDir : String) (passphrase : Option String) (a : Shared) : Prop where
  keyDir_eq : a.repository.keyDir = keyDir
  passphrase_eq : a.repository.passphrase = passphrase
  unloaded : ∀ i, a.loader = some i → a.repository.cell.value = none

theorem valid_fresh : (fresh keyDir passphrase).Valid keyDir passphrase := ⟨rfl, rfl, nofun⟩

theorem Step.valid (h : Step a event b) (ha : a.Valid keyDir passphrase) :
    b.Valid keyDir passphrase := by
  obtain ⟨hdir, hpassphrase, hunloaded⟩ := ha
  cases h with
  | call => exact ⟨hdir, hpassphrase, hunloaded⟩
  | begin hidle hempty => exact ⟨hdir, hpassphrase, fun _ _ => hempty⟩
  | finish hloader disk => exact ⟨hdir, hpassphrase, nofun⟩
  | share hkept => exact ⟨hdir, hpassphrase, hunloaded⟩

theorem Runs.valid (h : Runs a log b) (ha : a.Valid keyDir passphrase) :
    b.Valid keyDir passphrase := by
  induction h with
  | refl => exact ha
  | snoc _ hstep ih => exact hstep.valid ih

theorem answers_concat : answers (log ++ [event]) = answers log ++ event.answer?.toList := by
  rw [answers, List.filterMap_append]
  cases event <;> rfl

section Counting

/-- The loads that have not failed: the one under way and the one that is kept. -/
def unfailed (a : Shared) : Nat := a.loader.isSome.toNat + a.repository.isLoaded.toNat

theorem Step.attempts (h : Step a event b) (ha : a.Valid keyDir passphrase) :
    b.repository.loadAttempts + a.unfailed =
      a.repository.loadAttempts + failures event.answer?.toList + b.unfailed := by
  cases h with
  | call => rfl
  | begin hidle hempty =>
    simp [unfailed, Repository.loadAttempts, Repository.begin, Repository.isLoaded, Once.isLoaded,
      hidle, hempty, failures, Event.answer?]
  | finish hloader disk =>
    have hempty := ha.unloaded _ hloader
    simp only [unfailed, Repository.loadAttempts, Repository.finish, Repository.isLoaded,
      Once.isLoaded, hloader, hempty, failures, Event.answer?]
    cases loadMaterial disk a.repository.keyDir a.repository.passphrase <;>
      simp [Except.isOk, Except.toBool, Except.toOption]
  | share => simp [unfailed, Event.answer?, failures, Except.isOk, Except.toBool]

theorem failures_append (first second : List (Except Failure KeyMaterial)) :
    failures (first ++ second) = failures first + failures second :=
  List.countP_append

theorem Runs.attempts (h : Runs a log b) (ha : a.Valid keyDir passphrase) :
    b.repository.loadAttempts + a.unfailed =
      a.repository.loadAttempts + failures (answers log) + b.unfailed := by
  induction h with
  | refl => rfl
  | snoc hrun hstep ih =>
    have hlast := hstep.attempts (hrun.valid ha)
    rw [answers_concat, failures_append]
    omega

end Counting

section Order

/-- The answers are those of callers who come one after another, each to a disk of its own. -/
theorem Runs.sequential (h : Runs (fresh keyDir passphrase) log b) : ∃ disks : List Files.Disk,
    answers log =
        (Once.empty.getAll (disks.map fun disk => loadMaterial disk keyDir passphrase)).1 ∧
      b.repository.cell.value = (Once.empty.getAll
        (disks.map fun disk => loadMaterial disk keyDir passphrase)).2.value := by
  generalize hstart : fresh keyDir passphrase = a at h
  induction h with
  | refl => subst hstart; exact ⟨[], rfl, rfl⟩
  | @snoc b c log event hrun hstep ih =>
    have hb : b.Valid keyDir passphrase := hrun.valid (hstart ▸ valid_fresh)
    obtain ⟨disks, hanswers, hvalue⟩ := ih
    rw [answers_concat, hanswers]
    cases hstep with
    | call => exact ⟨disks, List.append_nil _, hvalue⟩
    | begin => exact ⟨disks, List.append_nil _, hvalue⟩
    | finish hloader disk =>
      refine ⟨disks ++ [disk], ?_⟩
      rw [List.map_append, List.map_singleton, Once.getAll_concat, Once.get_fst, Once.value_get,
        ← hvalue, hb.unloaded _ hloader, ← hb.keyDir_eq, ← hb.passphrase_eq]
      exact ⟨rfl, rfl⟩
    | share hkept =>
      -- Whatever the disk is, the kept key is the answer.
      refine ⟨disks ++ [fun _ => .missing], ?_⟩
      rw [List.map_append, List.map_singleton, Once.getAll_concat, Once.get_fst, Once.value_get,
        ← hvalue, hkept]
      exact ⟨rfl, rfl⟩

theorem Runs.began_of_loader (h : Runs (fresh keyDir passphrase) log b) (hi : b.loader = some i) :
    ∃ earlier since, log = earlier ++ .began i :: since ∧ ∀ j, .began j ∉ since := by
  generalize hstart : fresh keyDir passphrase = a at h
  induction h with
  | refl => subst hstart; cases hi
  | @snoc b c log event hrun hstep ih =>
    have hlater {event : Event} (hb : b.loader = some i) (hevent : ∀ j, .began j ≠ event) :
        ∃ earlier since, log ++ [event] = earlier ++ .began i :: since ∧ ∀ j, .began j ∉ since := by
      obtain ⟨earlier, since, rfl, hsince⟩ := ih hb
      exact ⟨earlier, since ++ [event], by simp, fun j hj =>
        (List.mem_append.mp hj).elim (hsince j) fun hj => hevent j (List.mem_singleton.mp hj)⟩
    cases hstep with
    | call => exact hlater hi nofun
    | begin =>
      obtain rfl := Option.some.inj hi
      exact ⟨log, [], rfl, nofun⟩
    | finish => cases hi
    | share => exact hlater hi nofun

theorem Runs.split {xs ys : List Event} (h : Runs a (xs ++ event :: ys) b) :
    ∃ c d, Runs a xs c ∧ Step c event d ∧ Runs d ys b := by
  generalize hlog : xs ++ event :: ys = log at h
  induction h generalizing ys with
  | refl => simp at hlog
  | @snoc b b' log last h hstep ih =>
    rcases List.eq_nil_or_concat ys with rfl | ⟨ys, final, rfl⟩
    · obtain ⟨rfl, heq⟩ := List.append_inj' hlog rfl
      cases heq
      exact ⟨b, b', h, hstep, .refl⟩
    · rw [List.concat_eq_append, ← List.cons_append, ← List.append_assoc] at hlog
      obtain ⟨hinit, heq⟩ := List.append_inj' hlog rfl
      cases heq
      obtain ⟨c, d, hxs, hc, hys⟩ := ih hinit
      rw [List.concat_eq_append]
      exact ⟨c, d, hxs, hc, hys.snoc hstep⟩

/-- Who is answered with a failure has loaded in vain: the last load before is the caller's own. -/
theorem Runs.own_failure {before after : List Event} {f : Failure}
    (h : Runs (fresh keyDir passphrase) (before ++ .answered i (.error f) :: after) b) :
    (∃ disk, loadMaterial disk keyDir passphrase = .error f) ∧
      ∃ earlier since, before = earlier ++ .began i :: since ∧ ∀ j, .began j ∉ since := by
  obtain ⟨c, d, hrun, hstep, -⟩ := h.split
  have hc : c.Valid keyDir passphrase := hrun.valid valid_fresh
  generalize hevent : Event.answered i (.error f) = event at hstep
  cases hstep with
  | call => cases hevent
  | begin => cases hevent
  | finish hloader disk =>
    obtain ⟨rfl, hanswer⟩ := Event.answered.inj hevent
    refine ⟨⟨disk, ?_⟩, hrun.began_of_loader hloader⟩
    rw [← hc.keyDir_eq, ← hc.passphrase_eq]
    exact hanswer.symm
  | share => cases hevent

end Order

section Waiting

def pending (a : Shared) : Nat := a.loader.toList.length + a.waiting.length

theorem Step.waiting (h : Step a event b) (hi : i ∈ a.waiting) :
    i ∈ b.waiting ∨ event = .began i ∨ b.repository.isLoaded = true := by
  cases h with
  | call => exact .inl (List.mem_append_left _ hi)
  | begin hidle hempty hwaiting =>
    rw [hwaiting] at hi
    rcases List.mem_cons.mp hi with rfl | hi
    · exact .inr (.inl rfl)
    · exact .inl hi
  | finish => exact .inl hi
  | share hkept hwaiting => exact .inr (.inr (by simp [Repository.isLoaded, Once.isLoaded, hkept]))

theorem Step.isLoaded (h : Step a event b) (ha : a.Valid keyDir passphrase)
    (hloaded : a.repository.isLoaded = true) : b.repository.isLoaded = true := by
  cases h with
  | finish hloader =>
    rw [Repository.isLoaded, Once.isLoaded, ha.unloaded _ hloader] at hloaded
    cases hloaded
  | _ => exact hloaded

theorem Step.answered (h : Step a event b) : b.pending + event.answer?.toList.length =
    a.pending + (match event with | .called _ => 1 | _ => 0) := by
  cases h with
  | call => simp [pending, Event.answer?]; omega
  | begin hidle hempty hwaiting => simp [pending, Event.answer?, hidle, hwaiting]; omega
  | finish hloader => simp [pending, Event.answer?, hloader]; omega
  | share hkept hwaiting => simp [pending, Event.answer?, hwaiting]; omega

theorem Step.failed (h : Step a event b) (ha : a.Valid keyDir passphrase)
    (hb : b.repository.isLoaded = false) :
    a.repository.isLoaded = false ∧
      failures event.answer?.toList = event.answer?.toList.length := by
  have hbefore : a.repository.isLoaded = false := by
    rw [Bool.eq_false_iff]
    intro hloaded
    rw [h.isLoaded ha hloaded] at hb
    cases hb
  refine ⟨hbefore, ?_⟩
  cases h with
  | call => rfl
  | begin => rfl
  | finish hloader disk =>
    simp only [Repository.finish, Repository.isLoaded, Once.isLoaded] at hb
    simp only [Repository.finish, Event.answer?, failures]
    cases hload : loadMaterial disk a.repository.keyDir a.repository.passphrase with
    | ok m => rw [hload] at hb; cases hb
    | error f => rfl
  | share hkept =>
    rw [Repository.isLoaded, Once.isLoaded, hkept] at hbefore
    cases hbefore

theorem Runs.failed (h : Runs a log b) (ha : a.Valid keyDir passphrase)
    (hb : b.repository.isLoaded = false) : failures (answers log) = (answers log).length := by
  induction h with
  | refl => rfl
  | snoc hrun hstep ih =>
    obtain ⟨hbefore, hlast⟩ := hstep.failed (hrun.valid ha) hb
    rw [answers_concat, failures_append, List.length_append, ih hbefore, hlast]

theorem Runs.waiting (h : Runs a log b) (ha : a.Valid keyDir passphrase) (hi : i ∈ a.waiting)
    (hb : b.repository.isLoaded = false) : i ∈ b.waiting ∨ .began i ∈ log := by
  induction h with
  | refl => exact .inl hi
  | snoc hrun hstep ih =>
    rcases ih (hstep.failed (hrun.valid ha) hb).1 with hwaits | hbegan
    · rcases hstep.waiting hwaits with hwaits | rfl | hloaded
      · exact .inl hwaits
      · exact .inr (by simp)
      · rw [hloaded] at hb
        cases hb
    · exact .inr (List.mem_append_left _ hbegan)

theorem Runs.pending (h : Runs a log b) (hcalls : ∀ j, .called j ∉ log) :
    b.pending + (answers log).length = a.pending := by
  induction h with
  | refl => rfl
  | @snoc b c log event hrun hstep ih =>
    have hlast := hstep.answered
    have hstart := ih fun j hj => hcalls j (List.mem_append_left _ hj)
    have hevent : ∀ j, .called j ≠ event := fun j heq => hcalls j (by simp [heq])
    rw [answers_concat, List.length_append]
    cases event with
    | called j => exact absurd rfl (hevent j)
    | began => simp only at hlast; omega
    | answered => simp only at hlast; omega

/-- Those who wait for a load load again, one after another, if they are all to be refused. -/
theorem Runs.retries (h : Runs a log b) (ha : a.Valid keyDir passphrase) (hi : a.loader = some i)
    (hcalls : ∀ j, .called j ∉ log) (hidle : b.loader = none) (hwaiting : b.waiting = [])
    (hb : b.repository.isLoaded = false) :
    b.repository.loadAttempts = a.repository.loadAttempts + a.waiting.length ∧
      ∀ j ∈ a.waiting, .began j ∈ log := by
  constructor
  · have hstart : a.repository.isLoaded = false := by
      rw [Repository.isLoaded, Once.isLoaded, ha.unloaded i hi]
      rfl
    have hattempts := h.attempts ha
    have hpending := h.pending hcalls
    rw [h.failed ha hb] at hattempts
    simp only [unfailed, Shared.pending, hi, hidle, hwaiting, hstart, hb, Option.isSome_some,
      Option.isSome_none, Option.toList_some, Option.toList_none, List.length_singleton,
      List.length_nil, Bool.toNat_true, Bool.toNat_false] at hattempts hpending
    omega
  · intro j hj
    rcases h.waiting ha hj hb with hwaits | hbegan
    · rw [hwaiting] at hwaits
      cases hwaits
    · exact hbegan

theorem step_refused {disk : Files.Disk} {f : Failure}
    (hload : loadMaterial disk keyDir passphrase = .error f) (ha : a.Valid keyDir passphrase)
    (hi : a.loader = some i) : Step a (.answered i (.error f)) { a with loader := none } := by
  have hfinish : a.repository.finish disk = (.error f, a.repository) := by
    have hempty := ha.unloaded i hi
    obtain ⟨⟨dir, phrase, value, attempts⟩, loader, waiting, calls⟩ := a
    obtain ⟨rfl, rfl, -⟩ := ha
    obtain rfl : value = none := hempty
    simp only [Repository.finish, hload]
    rfl
  have hstep := Step.finish hi disk
  rwa [hfinish] at hstep

theorem exists_refused {disk : Files.Disk} {f : Failure}
    (hload : loadMaterial disk keyDir passphrase = .error f) (ha : a.Valid keyDir passphrase)
    (hidle : a.loader = none) (hempty : a.repository.isLoaded = false) :
    ∃ log b, Runs a log b ∧ (∀ j, .called j ∉ log) ∧ b.loader = none ∧ b.waiting = [] ∧
      b.repository.isLoaded = false := by
  generalize hwaiting : a.waiting = waiting
  induction waiting generalizing a with
  | nil => exact ⟨[], a, .refl, nofun, hidle, hwaiting, hempty⟩
  | cons i rest ih =>
    have hvalue : a.repository.cell.value = none := by
      simpa [Repository.isLoaded, Once.isLoaded] using hempty
    have hbegin := Step.begin hidle hvalue hwaiting
    have hfail := step_refused hload (hbegin.valid ha) rfl
    obtain ⟨log, b, hrun, hcalls, hend⟩ := ih (hfail.valid (hbegin.valid ha)) rfl hempty rfl
    exact ⟨_, b, .cons hbegin (.cons hfail hrun), by simpa using hcalls, hend⟩

end Waiting

/-- However callers come and go, the answers are as if they had come one by one. Each failure is of
a load that its caller began, and every load that failed is someone's answer. Callers who wait while
a load fails are not answered by it: with no call after theirs, as many more loads are made as there
were callers waiting, each by one of them, until they are all refused; and so they are where no load
succeeds. -/
theorem waiting_callers_load_for_themselves (keyDir : String) (passphrase : Option String)
    {log : List Event} {a : Shared} (h : Runs (fresh keyDir passphrase) log a) :
    (∃ disks : List Files.Disk, answers log =
      (Once.empty.getAll (disks.map fun disk => loadMaterial disk keyDir passphrase)).1) ∧
    a.repository.loadAttempts = failures (answers log) + a.unfailed ∧
    (∀ before i f after, log = before ++ .answered i (.error f) :: after →
      (∃ disk, loadMaterial disk keyDir passphrase = .error f) ∧
        ∃ earlier since, before = earlier ++ .began i :: since ∧ ∀ j, .began j ∉ since) ∧
    ∀ i, a.loader = some i →
      (∀ later b, Runs a later b → (∀ j, .called j ∉ later) → b.loader = none → b.waiting = [] →
        b.repository.isLoaded = false →
        b.repository.loadAttempts = a.repository.loadAttempts + a.waiting.length ∧
          ∀ j ∈ a.waiting, .began j ∈ later) ∧
      ∀ disk f, loadMaterial disk keyDir passphrase = .error f →
        ∃ later b, Runs a (.answered i (.error f) :: later) b ∧ (∀ j, .called j ∉ later) ∧
          b.loader = none ∧ b.waiting = [] ∧ b.repository.isLoaded = false := by
  have ha : a.Valid keyDir passphrase := h.valid valid_fresh
  obtain ⟨disks, hanswers, -⟩ := h.sequential
  refine ⟨⟨disks, hanswers⟩, ?_, ?_, fun i hi => ⟨?_, ?_⟩⟩
  · simpa [unfailed, fresh, Repository.new, Repository.loadAttempts, Repository.isLoaded,
      Once.isLoaded, Once.empty] using h.attempts valid_fresh
  · rintro before i f after rfl
    exact h.own_failure
  · intro later b hrun hcalls hidle hwaiting hempty
    exact hrun.retries ha hi hcalls hidle hwaiting hempty
  · intro disk f hload
    have hfail := step_refused hload ha hi
    have hempty : a.repository.isLoaded = false := by
      rw [Repository.isLoaded, Once.isLoaded, ha.unloaded i hi]
      rfl
    obtain ⟨later, b, hrun, hend⟩ := exists_refused hload (hfail.valid ha) rfl hempty
    exact ⟨later, b, .cons hfail hrun, hend⟩

/-- Two callers wait while the first one loads from a directory that is not there. -/
theorem two_waiting_callers_load_twice_more : ∃ log a later b,
    Runs (fresh "JWK" none) log a ∧ a.loader = some 0 ∧ a.waiting = [1, 2] ∧
      a.repository.loadAttempts = 1 ∧
      Runs a (.answered 0 (.error (.keyDirectoryMissing "JWK")) :: later) b ∧
      (∀ j, .called j ∉ later) ∧ b.repository.loadAttempts = 3 ∧ .began 1 ∈ later ∧
      .began 2 ∈ later := by
  have hstart : Runs (fresh "JWK" none) [.called 0, .began 0, .called 1, .called 2]
      ⟨(Repository.new "JWK" none).begin, some 0, [1, 2], 3⟩ :=
    .cons (.call _) (.cons (.begin rfl rfl rfl) (.cons (.call _) (.cons (.call _) .refl)))
  obtain ⟨-, -, -, hwaiting⟩ := waiting_callers_load_for_themselves "JWK" none hstart
  obtain ⟨hretries, hrefused⟩ := hwaiting 0 rfl
  obtain ⟨later, b, hrun, hcalls, hidle, hdone, hempty⟩ :=
    hrefused (fun _ => .missing) (.keyDirectoryMissing "JWK") rfl
  obtain ⟨hattempts, hbegan⟩ := hretries _ b hrun (by simpa using hcalls) hidle hdone hempty
  exact ⟨_, _, later, b, hstart, rfl, rfl, rfl, hrun, hcalls, hattempts,
    by simpa using hbegan 1 (by simp), by simpa using hbegan 2 (by simp)⟩

end Shared

end AuthCore.Signing
