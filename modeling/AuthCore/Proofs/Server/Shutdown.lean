import AuthCore.Proofs.Cache.Closing
import AuthCore.Proofs.Session.Operations
import AuthCore.Server.Context

set_option autoImplicit false

namespace AuthCore

namespace Session

open Cache (Plan Request)

variable {σ : Type} {b : Cache.Backend σ} {x : σ} {f : Failure}

/-- The operations that come to ask the cache. The others are refused, or called off, before. -/
def Operation.Asks (s : Store) : Operation → Prop
  | store .. => Key.leastNonce ≤ s.nonceBytes
  | renew key t => key.owner = t.owner
  | retrieve _ | remove _ | keysFor _ => True
  | revoke owner keep cancel => (∀ kept ∈ keep, kept.owner = owner) ∧ cancel ≠ .beforeScan

theorem Store.run_write_refused
    (hrefused : ∀ r now, r ≠ Request.close → b.answer r now x = (.error f, x))
    (key : Key) (t : Ticket) (now : Time.Instant) :
    (Store.write key t).run b now x = (.error f, x) := by
  unfold Store.write
  split
  · exact hrefused (.set _ _ _) now nofun
  · exact hrefused (.setDefault _ _) now nofun

theorem Operation.run_refused
    (hrefused : ∀ r now, r ≠ Request.close → b.answer r now x = (.error f, x))
    {s : Store} {op : Operation} (hop : op.Asks s) (now : Time.Instant) :
    (op.plan s).run b now x = (.error f, x) := by
  cases op with
  | store random t =>
    have hlong : ¬ s.nonceBytes < Key.leastNonce := Nat.not_lt_of_le hop
    simp only [plan, Store.store, Key.generate, if_neg hlong, Plan.run_bind,
      Store.run_write_refused hrefused]
    rfl
  | renew key t =>
    rw [plan, Store.renew, if_pos (show key.owner = t.owner from hop)]
    exact Plan.run_andThen_error (hrefused (.has _) now (by simp)) _
  | retrieve key => exact Plan.run_andThen_error (hrefused (.get _) now (by simp)) _
  | remove key => exact hrefused (.delete _) now (by simp)
  | keysFor owner => exact Plan.run_andThen_error (hrefused (.scan _) now (by simp)) _
  | revoke owner keep cancel =>
    obtain ⟨hkeep, hcancel⟩ := hop
    rw [plan_revoke, if_pos hkeep, Store.revoke_eq s owner keep hcancel]
    exact Plan.run_andThen_error (hrefused (.scan _) now (by simp)) _

end Session

namespace Server

open Cache (ClosesOnce Manager Memory Remote Request)

variable {σ : Type}

def shutdowns (server : Remote.Server σ) : List Time.Instant → Manager × σ → Noted (Manager × σ)
  | [], s => pure s
  | now :: moments, s => do
    let s ← closeCache server now s
    shutdowns server moments s

theorem closeCache_outcome {server : Remote.Server σ} {now : Time.Instant} {s after : Manager × σ}
    {isFirst : Bool} (h : Manager.answer server .close now s = (.ok isFirst, after)) :
    (closeCache server now s).outcome = .ok after := by
  simp only [closeCache, h]

theorem shutdowns_outcome (server : Remote.Server σ) (moments : List Time.Instant)
    {s : Manager × σ} (hs : s.1.IsOpen ∨ s.1.IsClosed) :
    ∃ after, (shutdowns server moments s).outcome = .ok after := by
  induction moments generalizing s with
  | nil => exact ⟨s, rfl⟩
  | cons now moments ih =>
    obtain ⟨isFirst, after, hanswer, hclosed⟩ := (Manager.closable server).close_transcript hs now
    rw [shutdowns, Noted.outcome_bind, closeCache_outcome hanswer]
    exact ih (.inr hclosed)

/-- On each kind of cache, with whatever was asked of it and by whomever: the first close succeeds,
and everything after it is refused; from then on the operations on sessions that come to ask the
cache fail with a failure of it, and shutting down succeeds as often as it is tried. -/
theorem close_is_final (server : Remote.Server σ) (start : Time.Instant)
    (requests : List (Nat × Request)) (t : σ) :
    (∀ capacity ttl, ClosesOnce
      (Time.transcript Memory.answer start requests (Memory.new capacity ttl)).1) ∧
    (∀ c attempt client, Remote.connect c attempt = .ok client →
      ClosesOnce (Time.transcript (Remote.answer server) start requests (client, t)).1) ∧
    ∀ c attempt manager, Manager.new c attempt = .ok manager →
      let run := Time.transcript (Manager.answer server) start requests (manager, t)
      ClosesOnce run.1 ∧
      ((∃ request ∈ requests, request.2 = .close) →
        ∃ f : Failure, f.kind = .cache ∧ f.retryable = true ∧
          ∀ (s : Session.Store) (op : Session.Operation) now, op.Asks s →
            (op.plan s).run (Manager.backend server) now run.2 = (.error f, run.2)) ∧
      ∀ moments, ∃ after, (shutdowns server moments run.2).outcome = .ok after := by
  refine ⟨fun capacity ttl => Memory.closable.closesOnce
      (show (Memory.new capacity ttl).IsOpen from rfl) start requests,
    fun c attempt client h =>
      (Remote.closable server).closesOnce (s := (client, t)) (Remote.isOpen_of_connect h) start
        requests,
    fun c attempt manager h => ?_⟩
  intro run
  have hclosable := Manager.closable server
  have hopen : (manager, t).1.IsOpen := Manager.isOpen_of_new h
  refine ⟨hclosable.closesOnce hopen start requests, fun hclose => ?_, fun moments => ?_⟩
  · have hclosed := hclosable.isClosed_transcript hopen start hclose
    exact ⟨run.2.1.refusal, hclosable.kind_eq run.2, hclosable.retryable run.2,
      fun s op now hop => Session.Operation.run_refused
        (fun r now hr => hclosable.refused now hr hclosed) hop now⟩
  · exact shutdowns_outcome server moments
      (hclosable.isOpen_or_isClosed_transcript hopen start requests)

def silent : Remote.Server Unit := fun _ _ t => (.silence, t)

/-- A session of a closed cache in memory cannot be retrieved. -/
theorem retrieve_after_close :
    ∃ f : Failure, f.kind = .cache ∧ ∃ after,
      ((Session.Operation.retrieve ⟨"S", Session.visitor⟩).plan ⟨"S", 16⟩).run
        (Manager.backend silent) ⟨1, 0⟩
        (Time.transcript (Manager.answer silent) ⟨0, 0⟩ [(0, .close)]
          (.memory (.ofSettings {}), ())).2 = (.error f, after) := by
  obtain ⟨-, -, hmanager⟩ := close_is_final silent ⟨0, 0⟩ [(0, .close)] ()
  obtain ⟨-, hclosed, -⟩ := hmanager {} .connected (.memory (.ofSettings {})) rfl
  obtain ⟨f, hkind, -, hrefused⟩ := hclosed ⟨_, List.mem_singleton_self _, rfl⟩
  exact ⟨f, hkind, _, hrefused ⟨"S", 16⟩ (.retrieve ⟨"S", Session.visitor⟩) ⟨1, 0⟩ trivial⟩

/-- A store of short nonces refuses a ticket as invalid although the cache is closed. -/
theorem short_nonce_not_cache_failure :
    (((Session.Operation.store ⟨fun n => List.replicate n 0, by simp⟩ Session.visit).plan
        ⟨"S", 8⟩).run (Manager.backend silent) ⟨1, 0⟩
      (Time.transcript (Manager.answer silent) ⟨0, 0⟩ [(0, .close)]
        (.memory (.ofSettings {}), ())).2).1 = .error (.nonceTooShort 16 8) ∧
    (Failure.nonceTooShort 16 8).kind ≠ .cache :=
  ⟨rfl, by decide⟩

end Server

end AuthCore
