import AuthCore.Config.Rules
import AuthCore.Proofs.Cache.Programs
import AuthCore.Proofs.Session.KeyGrammar
import AuthCore.Proofs.Session.TicketCodec
import AuthCore.Session.Store

set_option autoImplicit false

namespace AuthCore.Session

open Cache (Plan Request)

structure Randomness where
  draw : Nat → Bytes
  length_draw : ∀ n, (draw n).length = n

inductive Operation where
  | store (random : Randomness) (t : Ticket)
  | renew (key : Key) (t : Ticket)
  | retrieve (key : Key)
  | remove (key : Key)
  | keysFor (owner : Uuid)
  /-- Signs an owner out everywhere, or everywhere but under one key. -/
  | revoke (owner : Uuid) (keep : Option Key) (cancel : Cancellation)

namespace Operation

@[reducible] def Answer : Operation → Type
  | store .. => Key
  | renew .. | remove _ => Unit
  | retrieve _ => Option Ticket
  | keysFor _ => List Key
  | revoke .. => Report

def plan (s : Store) : (op : Operation) → Plan (Except Failure op.Answer)
  | store random t => s.store random.draw t
  | renew key t => Store.renew key t
  | retrieve key => Store.retrieve key
  | remove key => Store.remove key
  | keysFor owner => s.keysFor owner
  | revoke owner none cancel => s.revokeAll owner cancel
  | revoke owner (some keep) cancel => s.revokeExcept owner keep cancel

def Writes : Operation → Prop
  | store .. | renew .. => True
  | _ => False

end Operation

namespace Store

/-- The keys that a revocation aims at: those of the owner under the prefix, but for the kept
one. -/
def Revokes (s : Store) (owner : Uuid) (keep : Option Key) (raw : String) : Prop :=
  (∃ k, s.readKey? raw = some k ∧ k.owner = owner) ∧ ∀ kept ∈ keep, raw ≠ kept.text

def targets (s : Store) (owner : Uuid) (keep : Option Key) (found : List String) : List Key :=
  (s.ownKeys owner found).filter fun k => some k != keep

theorem mem_ownKeys {s : Store} {owner : Uuid} {found : List String} {k : Key} :
    k ∈ s.ownKeys owner found ↔
      k.text ∈ found ∧ s.readKey? k.text = some k ∧ k.owner = owner := by
  simp only [ownKeys, List.mem_filter, List.mem_filterMap, beq_iff_eq]
  constructor
  · rintro ⟨⟨raw, hraw, hread⟩, howner⟩
    obtain rfl := Key.text_of_read? hread
    exact ⟨hraw, hread, howner⟩
  · rintro ⟨hmem, hread, howner⟩
    exact ⟨⟨k.text, hmem, hread⟩, howner⟩

theorem mem_targets {s : Store} {owner : Uuid} {keep : Option Key} {found : List String}
    (hkeep : ∀ kept ∈ keep, kept.owner = owner) {raw : String} :
    (∃ k ∈ s.targets owner keep found, k.text = raw) ↔
      raw ∈ found ∧ s.Revokes owner keep raw := by
  simp only [targets, List.mem_filter, mem_ownKeys, bne_iff_ne]
  constructor
  · rintro ⟨k, ⟨⟨hmem, hread, howner⟩, hne⟩, rfl⟩
    refine ⟨hmem, ⟨k, hread, howner⟩, ?_⟩
    rintro kept hkept htext
    have heq : k = kept := by
      obtain ⟨text, owner'⟩ := k
      obtain ⟨keptText, keptOwner⟩ := kept
      have := hkeep _ hkept
      simp_all
    exact hne (heq ▸ hkept.symm)
  · rintro ⟨hmem, ⟨k, hread, howner⟩, hne⟩
    obtain rfl := Key.text_of_read? hread
    exact ⟨k, ⟨⟨hmem, hread, howner⟩, fun heq => hne k heq.symm rfl⟩, rfl⟩

end Store

def PutsTicket (key : Key) (t : Ticket) (r : Request) : Prop :=
  (∃ lifetime, r = .set key.text t.encode lifetime) ∨ r = .setDefault key.text t.encode

def Operation.MayIssue (s : Store) : Operation → Request → Prop
  | store random t, r =>
    ∃ key, Key.generate random.draw s.keyPrefix t.owner s.nonceBytes = .ok key ∧ PutsTicket key t r
  | renew key t, r => key.owner = t.owner ∧ (r = .has key.text ∨ PutsTicket key t r)
  | retrieve key, r => r = .get key.text
  | remove key, r => r = .delete key.text
  | keysFor owner, r => r = .scan (Key.ownerPattern s.keyPrefix owner)
  | revoke owner keep _, r => (∀ kept ∈ keep, kept.owner = owner) ∧
    (r = .scan (Key.ownerPattern s.keyPrefix owner) ∨
      ∃ raw, r = .delete raw ∧ s.Revokes owner keep raw)

namespace Store

theorem issues_write {P : Request → Prop} (key : Key) (t : Ticket)
    (h : ∀ r, PutsTicket key t r → P r) : (write key t).Issues P := by
  unfold write
  split
  · exact fun now => ⟨h _ (.inl ⟨_, rfl⟩), fun _ => trivial⟩
  · exact ⟨h _ (.inr rfl), fun _ => trivial⟩

theorem issues_deleteAll {P : Request → Prop} (cancel : Cancellation) {ks : List Key}
    (h : ∀ k ∈ ks, P (.delete k.text)) (report : Report) :
    (deleteAll cancel report ks).Issues P := by
  induction ks generalizing report with
  | nil => exact trivial
  | cons k ks ih =>
    unfold deleteAll
    split
    · exact trivial
    · refine Plan.issues_andThen (h k (by simp)) fun _ => ?_
      exact ih (fun k' hk' => h k' (by simp [hk'])) _

theorem issues_store (s : Store) (random : Randomness) (t : Ticket) :
    (s.store random.draw t).Issues ((Operation.store random t).MayIssue s) := by
  unfold store
  split
  · exact trivial
  · rename_i key hkey
    refine Plan.issues_bind (issues_write key t fun r hr => ⟨key, hkey, hr⟩) fun _ => ?_
    exact trivial

theorem issues_renew (s : Store) (key : Key) (t : Ticket) :
    (renew key t).Issues ((Operation.renew key t).MayIssue s) := by
  unfold renew
  split
  · rename_i howner
    refine Plan.issues_andThen ⟨howner, .inl rfl⟩ fun there => ?_
    split
    · exact issues_write key t fun r hr => ⟨howner, .inr hr⟩
    · exact trivial
  · exact trivial

theorem revoke_eq (s : Store) (owner : Uuid) (keep : Option Key) {cancel : Cancellation}
    (h : cancel ≠ .beforeScan) : s.revoke owner keep cancel =
      .andThen (.scan (Key.ownerPattern s.keyPrefix owner)) fun found =>
        deleteAll cancel ⟨(s.targets owner keep found).length, 0, false⟩
          (s.targets owner keep found) := by
  rw [revoke, if_neg h]
  refine congrArg (Plan.ask _) (funext fun answer => ?_)
  cases answer <;> rfl

theorem issues_revoke (s : Store) {owner : Uuid} {keep : Option Key} (cancel : Cancellation)
    (hkeep : ∀ kept ∈ keep, kept.owner = owner) :
    (s.revoke owner keep cancel).Issues ((Operation.revoke owner keep cancel).MayIssue s) := by
  by_cases h : cancel = .beforeScan
  · rw [revoke, if_pos h]
    exact trivial
  · rw [revoke_eq s owner keep h]
    refine Plan.issues_andThen ⟨hkeep, .inl rfl⟩ fun found => issues_deleteAll cancel ?_ _
    intro k hk
    exact ⟨hkeep, .inr ⟨k.text, rfl, ((mem_targets hkeep).mp ⟨k, hk, rfl⟩).2⟩⟩

end Store

namespace Operation

theorem plan_revoke (s : Store) (owner : Uuid) (keep : Option Key) (cancel : Cancellation) :
    (revoke owner keep cancel).plan s =
      if ∀ kept ∈ keep, kept.owner = owner then s.revoke owner keep cancel
      else .done (.error .keptKeyForeign) := by
  cases keep with
  | none => simp [plan, Store.revokeAll]
  | some keep => simp [plan, Store.revokeExcept]

/-- All that an operation does to the cache is by these requests. -/
theorem issues_plan (s : Store) (op : Operation) : (op.plan s).Issues (op.MayIssue s) := by
  cases op with
  | store random t => exact s.issues_store random t
  | renew key t => exact s.issues_renew key t
  | retrieve key =>
    refine Plan.issues_andThen rfl fun found => ?_
    cases found <;> exact trivial
  | remove key => exact ⟨rfl, fun _ => trivial⟩
  | keysFor owner => exact Plan.issues_andThen rfl fun _ => trivial
  | revoke owner keep cancel =>
    rw [plan_revoke]
    split
    · rename_i hkeep
      exact s.issues_revoke cancel hkeep
    · exact trivial

end Operation

def visitor : Uuid := ⟨List.replicate 16 0, rfl⟩

def visit : Ticket := .new "password" { owner := visitor } ⟨0, 0⟩

/-- A generator that draws one byte over and over. -/
def repeating (b : UInt8) : Randomness :=
  ⟨fun n => List.replicate n b, fun _ => List.length_replicate⟩

def zerosKey : Key :=
  ⟨Key.compose "S" visitor (Text.Base64.encodeUrl ((repeating 0).draw 16)), visitor⟩

end AuthCore.Session
