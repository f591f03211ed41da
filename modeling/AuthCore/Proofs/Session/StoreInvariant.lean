import AuthCore.Cache.Manager
import AuthCore.Proofs.Cache.MemoryView
import AuthCore.Proofs.Session.Operations

set_option autoImplicit false

namespace AuthCore.Session

open Cache (Memory Plan Request)

/-- A cache at some moment, with the keys that have been given out. -/
structure Scene where
  cache : Memory
  now : Time.Instant
  keys : List Key

def Operation.issued : (op : Operation) → Except Failure op.Answer → List Key
  | store .., .ok key => [key]
  | _, _ => []

namespace Scene

/-- A key one can have: it was given out, or it was read from a text. -/
def Holds (s : Store) (c : Scene) (k : Key) : Prop :=
  k ∈ c.keys ∨ ∃ raw, s.readKey? raw = some k

def after (s : Store) (c : Scene) (op : Operation) : Scene :=
  let (answer, cache) := (op.plan s).run Memory.backend c.now c.cache
  ⟨cache, c.now, op.issued answer ++ c.keys⟩

end Scene

/-- The keys of an operation are such as one can have, its tickets such as there are. -/
def Operation.Allowed (s : Store) (c : Scene) : Operation → Prop
  | store _ t => t.Representable
  | renew key t => c.Holds s key ∧ t.Representable
  | retrieve key | remove key => c.Holds s key
  | keysFor _ => True
  | revoke _ keep _ => ∀ kept ∈ keep, c.Holds s kept

/-- The scenes that operations lead to from an empty cache, in any order and at any pace. -/
inductive Reachable (settings : Config.Settings) : Scene → Prop where
  | start (now : Time.Instant) : Reachable settings ⟨.ofSettings settings.cache, now, []⟩
  | wait {c : Scene} (nanos : Nat) (h : Reachable settings c) :
    Reachable settings { c with now := c.now.addNanos nanos }
  | perform {c : Scene} {op : Operation} (h : Reachable settings c)
    (hop : op.Allowed (.ofSettings settings.session) c) :
    Reachable settings (c.after (.ofSettings settings.session) op)

/-- What lies under `raw` is a ticket of the owner that `raw` names. -/
def Fits (s : Store) (raw : String) (value : Bytes) : Prop :=
  ∃ k t, s.readKey? raw = some k ∧ Ticket.decode value = .ok t ∧ t.owner = k.owner

def PutsFitting (s : Store) : Request → Prop
  | .set raw value _ | .setDefault raw value => Fits s raw value
  | .close => False
  | _ => True

structure Fitting (s : Store) (m : Memory) : Prop where
  isOpen : m.IsOpen
  entries : ∀ raw e, m.find raw = some e → Fits s raw e.value

theorem fitting_answer {s : Store} {now : Time.Instant} (r : Request) (m : Memory)
    (hr : PutsFitting s r) (h : Fitting s m) : Fitting s (Memory.backend.answer r now m).2 := by
  have hclose : r ≠ .close := by
    rintro rfl
    exact hr
  refine ⟨(Memory.isOpen_answer m hclose now).mpr h.isOpen, ?_⟩
  intro raw e hfind
  rcases Memory.find_answer_cases m hclose now raw with
    hsame | ⟨_, hnone⟩ | ⟨put, hput, hkey, _, hsome⟩
  · exact h.entries raw e (hsame ▸ hfind)
  · cases hnone.symm.trans hfind
  · obtain rfl : put = e := Option.some.inj (hsome.symm.trans hfind)
    cases r with
    | set =>
      cases hput
      exact hkey ▸ hr
    | setDefault =>
      cases hput
      exact hkey ▸ hr
    | _ => cases hput

theorem putsFitting_of_putsTicket {s : Store} {key : Key} {t : Ticket} {r : Request}
    (hread : s.readKey? key.text = some key) (ht : t.Representable) (howner : t.owner = key.owner)
    (h : PutsTicket key t r) : PutsFitting s r := by
  have hfits : Fits s key.text t.encode :=
    ⟨key, t.settle, hread, Ticket.decode_encode ht, howner⟩
  rcases h with ⟨_, rfl⟩ | rfl
  · exact hfits
  · exact hfits

/-- A scene in which everything fits and every key that was given out reads as itself. -/
structure Sound (s : Store) (c : Scene) : Prop where
  fitting : Fitting s c.cache
  keys : ∀ k ∈ c.keys, s.readKey? k.text = some k

theorem Sound.readKey?_of_holds {s : Store} {c : Scene} (h : Sound s c) {k : Key}
    (hk : c.Holds s k) : s.readKey? k.text = some k := by
  rcases hk with hk | ⟨raw, hread⟩
  · exact h.keys k hk
  · exact Key.read?_text_of_read? hread

theorem putsFitting_of_mayIssue {s : Store} (hfree : '_' ∉ s.keyPrefix.toList) {c : Scene}
    (h : Sound s c) {op : Operation} (hop : op.Allowed s c) {r : Request}
    (hr : op.MayIssue s r) : PutsFitting s r := by
  cases op with
  | store random t =>
    obtain ⟨key, hkey, hputs⟩ := hr
    obtain ⟨howner, hread⟩ := Key.read?_generate hfree (random.length_draw _) hkey
    exact putsFitting_of_putsTicket hread hop howner.symm hputs
  | renew key t =>
    obtain ⟨howner, rfl | hputs⟩ := hr
    · exact trivial
    · exact putsFitting_of_putsTicket (h.readKey?_of_holds hop.1) hop.2 howner.symm hputs
  | retrieve key => exact hr ▸ trivial
  | remove key => exact hr ▸ trivial
  | keysFor owner => exact hr ▸ trivial
  | revoke owner keep cancel =>
    obtain ⟨_, rfl | ⟨raw, rfl, _⟩⟩ := hr
    · exact trivial
    · exact trivial

theorem generate_of_store {s : Store} {random : Nat → Bytes} {t : Ticket} {now : Time.Instant}
    {m : Memory} {key : Key} (h : ((s.store random t).run Memory.backend now m).1 = .ok key) :
    Key.generate random s.keyPrefix t.owner s.nonceBytes = .ok key := by
  unfold Store.store at h
  split at h
  · cases h
  · rename_i generated hgenerate
    rw [Plan.run_bind] at h
    cases hanswer : ((Store.write generated t).run Memory.backend now m).1 with
    | ok _ =>
      rw [hanswer] at h
      cases h
      exact hgenerate
    | error f =>
      rw [hanswer] at h
      cases h

theorem readKey?_of_issued {s : Store} (hfree : '_' ∉ s.keyPrefix.toList) {op : Operation}
    {now : Time.Instant} {m : Memory} {k : Key}
    (h : k ∈ op.issued ((op.plan s).run Memory.backend now m).1) : s.readKey? k.text = some k := by
  cases op with
  | store random t =>
    cases hanswer : ((s.store random.draw t).run Memory.backend now m).1 with
    | ok key =>
      have hmem : k ∈ (Operation.store random t).issued (.ok key) := hanswer ▸ h
      obtain rfl := List.mem_singleton.mp hmem
      exact (Key.read?_generate hfree (random.length_draw _) (generate_of_store hanswer)).2
    | error f =>
      have hmem : k ∈ (Operation.store random t).issued (.error f) := hanswer ▸ h
      cases hmem
  | _ => cases h

theorem sound_after {s : Store} (hfree : '_' ∉ s.keyPrefix.toList) {c : Scene} (h : Sound s c)
    {op : Operation} (hop : op.Allowed s c) : Sound s (c.after s op) := by
  have hissues := (op.issues_plan s).mono fun r hr => putsFitting_of_mayIssue hfree h hop hr
  refine ⟨Plan.run_keeps fitting_answer hissues h.fitting, ?_⟩
  intro k hk
  rcases List.mem_append.mp hk with hk | hk
  · exact readKey?_of_issued hfree hk
  · exact h.keys k hk

theorem sound_of_reachable {settings : Config.Settings} (hvalid : settings.validate = .ok ())
    {c : Scene} (h : Reachable settings c) : Sound (.ofSettings settings.session) c := by
  have hfree := ((Config.Settings.validate_eq_ok_iff settings).mp hvalid).2.2.1
  induction h with
  | start now =>
    refine ⟨⟨rfl, ?_⟩, by simp⟩
    intro raw e hfind
    cases hfind
  | wait nanos _ ih => exact ⟨ih.fitting, ih.keys⟩
  | perform _ hop ih => exact sound_after hfree ih hop

theorem owner_iff_isMatch {s : Store} {raw : String} {k : Key} (h : s.readKey? raw = some k)
    (owner : Uuid) :
    Cache.Glob.isMatch (Key.ownerPattern s.keyPrefix owner) raw = true ↔ owner = k.owner := by
  constructor
  · exact Key.owner_eq_of_isMatch h
  · rintro rfl
    exact Key.isMatch_of_read? h

theorem retrieve_of_sound {s : Store} {c : Scene} (h : Sound s c) {k : Key} (hk : c.Holds s k) :
    ∃ found, (Store.retrieve k).run Memory.backend c.now c.cache = (.ok found, c.cache) ∧
      ∀ t ∈ found, t.owner = k.owner := by
  have hget : Memory.backend.answer (.get k.text) c.now c.cache = _ :=
    Memory.answer_get h.fitting.isOpen k.text c.now
  rw [Store.retrieve, Plan.run_andThen_ok hget]
  cases hlive : c.cache.live k.text c.now with
  | none =>
    refine ⟨none, rfl, ?_⟩
    simp
  | some e =>
    obtain ⟨hfind, _⟩ := Memory.live_eq_some_iff.mp hlive
    obtain ⟨k', t, hread, hdecode, howner⟩ := h.fitting.entries k.text e hfind
    obtain rfl : k = k' := Option.some.inj ((h.readKey?_of_holds hk).symm.trans hread)
    refine ⟨some t, ?_, ?_⟩
    · simp only [Option.map_some, Plan.run, hdecode]
      rfl
    · rintro t' ⟨⟩
      exact howner

theorem keysFor_of_sound {s : Store} {c : Scene} (h : Sound s c) (owner : Uuid) :
    ∃ ks, (s.keysFor owner).run Memory.backend c.now c.cache = (.ok ks, c.cache) ∧
      ∀ raw, (∃ k ∈ ks, k.text = raw) ↔ ∃ e t, c.cache.live raw c.now = some e ∧
        Ticket.decode e.value = .ok t ∧ t.owner = owner := by
  obtain ⟨found, hscan, _, hfound⟩ :=
    Memory.answer_scan h.fitting.isOpen (Key.ownerPattern s.keyPrefix owner) c.now
  refine ⟨s.ownKeys owner found, ?_, fun raw => ?_⟩
  · rw [Store.keysFor, Plan.run_andThen_ok hscan]
    rfl
  · simp only [Store.mem_ownKeys, hfound]
    constructor
    · rintro ⟨k, ⟨⟨_, hlive⟩, hread, rfl⟩, rfl⟩
      obtain ⟨e, he⟩ := Option.isSome_iff_exists.mp hlive
      obtain ⟨hfind, _⟩ := Memory.live_eq_some_iff.mp he
      obtain ⟨k', t, hread', hdecode, howner⟩ := h.fitting.entries k.text e hfind
      obtain rfl : k = k' := Option.some.inj (hread.symm.trans hread')
      exact ⟨e, t, he, hdecode, howner⟩
    · rintro ⟨e, t, he, hdecode, rfl⟩
      obtain ⟨hfind, _⟩ := Memory.live_eq_some_iff.mp he
      obtain ⟨k, t', hread, hdecode', howner⟩ := h.fitting.entries raw e hfind
      obtain rfl : t = t' := Except.ok.inj (hdecode.symm.trans hdecode')
      obtain rfl := Key.text_of_read? hread
      refine ⟨k, ⟨⟨?_, ?_⟩, hread, howner.symm⟩, rfl⟩
      · exact (owner_iff_isMatch hread _).mpr howner
      · rw [he]
        rfl

/-- Under accepted settings, whatever is done with sessions: every live entry lies under a key that
reads as itself and holds a ticket of the owner of this key, and the pattern of that owner alone
finds it. So no key that one can have leads to a ticket that does not decode or that belongs to
somebody else, and the keys of an owner are all those under which a ticket of theirs lives. -/
theorem session_store_invariant {settings : Config.Settings} (hvalid : settings.validate = .ok ())
    {c : Scene} (h : Reachable settings c) :
    let s := Store.ofSettings settings.session
    (∀ raw e, c.cache.live raw c.now = some e →
      ∃ k t, s.readKey? raw = some k ∧ k.text = raw ∧ Ticket.decode e.value = .ok t ∧
        t.owner = k.owner ∧ ∀ owner,
          Cache.Glob.isMatch (Key.ownerPattern s.keyPrefix owner) raw = true ↔ owner = k.owner) ∧
    (∀ k, c.Holds s k →
      ∃ found, (Store.retrieve k).run Memory.backend c.now c.cache = (.ok found, c.cache) ∧
        ∀ t ∈ found, t.owner = k.owner) ∧
    ∀ owner, ∃ ks, (s.keysFor owner).run Memory.backend c.now c.cache = (.ok ks, c.cache) ∧
      ∀ raw, (∃ k ∈ ks, k.text = raw) ↔ ∃ e t, c.cache.live raw c.now = some e ∧
        Ticket.decode e.value = .ok t ∧ t.owner = owner := by
  intro s
  have hsound : Sound s c := sound_of_reachable hvalid h
  refine ⟨fun raw e hlive => ?_, fun k => retrieve_of_sound hsound, keysFor_of_sound hsound⟩
  obtain ⟨hfind, _⟩ := Memory.live_eq_some_iff.mp hlive
  obtain ⟨k, t, hread, hdecode, howner⟩ := hsound.fitting.entries raw e hfind
  exact ⟨k, t, hread, Key.text_of_read? hread, hdecode, howner, owner_iff_isMatch hread⟩

def signedIn : Scene :=
  Scene.after (.ofSettings {}) ⟨.ofSettings {}, ⟨0, 0⟩, []⟩
    (.store ⟨fun n => List.replicate n 0, fun _ => List.length_replicate⟩ visit)

theorem reachable_signedIn : Reachable {} signedIn := by
  refine .perform (.start ⟨0, 0⟩) ⟨?_, ?_⟩
  · rintro i ⟨⟩
    exact ⟨by decide, by decide⟩
  · rintro i ⟨⟩

theorem session_store_invariant_signedIn :
    (∃ k ∈ signedIn.keys, (signedIn.cache.live k.text signedIn.now).isSome = true) ∧
      ∀ raw e, signedIn.cache.live raw signedIn.now = some e →
        ∃ k t, (Store.ofSettings {}).readKey? raw = some k ∧ k.text = raw ∧
          Ticket.decode e.value = .ok t ∧ t.owner = k.owner ∧ ∀ owner,
            Cache.Glob.isMatch (Key.ownerPattern (Store.ofSettings {}).keyPrefix owner) raw = true ↔
              owner = k.owner :=
  ⟨by decide +kernel, (session_store_invariant rfl reachable_signedIn).1⟩

end AuthCore.Session
