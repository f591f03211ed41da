import AuthCore.Proofs.Cache.ExpiringMap
import AuthCore.Proofs.Session.Operations
import AuthCore.Proofs.Session.TicketRoundTrip

/-!
The store of tickets over a cache in memory is a map of tickets that expire: what is stored under a
key, renewed, retrieved and removed is what the map has there. A ticket is kept as its stored form
names it, and a leap second shifts an end that is reckoned from a later time of day.
-/

set_option autoImplicit false

namespace AuthCore.Session

open Cache (ExpiringMap Lease Memory)

inductive TicketCall where
  | store (random : Randomness) (t : Ticket)
  | renew (key : Key) (t : Ticket)
  | retrieve (key : Key)
  | remove (key : Key)

namespace TicketCall

@[reducible] def operation : TicketCall → Operation
  | store random t => .store random t
  | renew key t => .renew key t
  | retrieve key => .retrieve key
  | remove key => .remove key

def Representable : TicketCall → Prop
  | store _ t | renew _ t => t.Representable
  | retrieve _ | remove _ => True

abbrev Reply (call : TicketCall) := Except Failure call.operation.Answer

/-- The call can change what lies under this text. -/
def Concerns (s : Store) (raw : String) : TicketCall → Prop
  | store random t => ∃ key,
    Key.generate random.draw s.keyPrefix t.owner s.nonceBytes = .ok key ∧ key.text = raw
  | renew key _ | remove key => key.text = raw
  | retrieve _ => False

end TicketCall

def Store.serve (s : Store) : Time.Machine TicketCall.Reply Memory :=
  fun call now m => (call.operation.plan s).run Memory.backend now m

/-- When a ticket that is written at `now` expires, in nanoseconds since 1970-01-01T00:00:00Z. -/
def Ticket.deadline (defaultTtlSeconds : Nat) (t : Ticket) (now : Time.Instant) : Int :=
  match t.properties.expiresAt with
  | some e =>
    if e.seenFrom now < now.toNanos then now.toNanos + shortestLifetime else e.seenFrom now
  | none => now.toNanos + (defaultTtlSeconds * Time.nanosPerSecond : Nat)

theorem Ticket.deadline_of_end {t : Ticket} {e : Time.Instant}
    (h : t.properties.expiresAt = some e) (defaultTtlSeconds : Nat) (now : Time.Instant) :
    t.deadline defaultTtlSeconds now =
      if e.seenFrom now < now.toNanos then now.toNanos + shortestLifetime else e.seenFrom now := by
  rw [deadline, h]

abbrev Ledger := ExpiringMap String Ticket

namespace Ledger

def write (l : Ledger) (defaultTtlSeconds : Nat) (key : Key) (t : Ticket) (now : Time.Instant) :
    Ledger :=
  l.put key.text ⟨t.settle, t.deadline defaultTtlSeconds now⟩

/-- Whether a ticket can be renewed under a key, or why not. -/
def renewal (l : Ledger) (key : Key) (t : Ticket) (now : Time.Instant) : Except Failure Unit :=
  if key.owner = t.owner then
    if (l.get now key.text).isSome then .ok () else .error .ticketMissing
  else .error .ownerMismatch

/-- What the calls answer if tickets are kept in a ledger, and what they do to it. -/
def spec (s : Store) (defaultTtlSeconds : Nat) : Time.Spec TicketCall.Reply Ledger where
  Allows
    | .store random t, _, _, answer =>
      answer = Key.generate random.draw s.keyPrefix t.owner s.nonceBytes
    | .renew key t, now, l, answer => answer = l.renewal key t now
    | .retrieve key, now, l, answer => answer = .ok (l.get now key.text)
    | .remove _, _, _, answer => answer = .ok ()
  next
    | .store random t, now, l =>
      match Key.generate random.draw s.keyPrefix t.owner s.nonceBytes with
      | .ok key => l.write defaultTtlSeconds key t now
      | .error _ => l
    | .renew key t, now, l =>
      match l.renewal key t now with
      | .ok _ => l.write defaultTtlSeconds key t now
      | .error _ => l
    | .retrieve _, _, l => l
    | .remove key, _, l => l.erase key.text

theorem renewal_eq_ok_iff {l : Ledger} {key : Key} {t : Ticket} {now : Time.Instant} :
    l.renewal key t now = .ok () ↔ key.owner = t.owner ∧ (l.get now key.text).isSome = true := by
  unfold renewal
  split
  · split <;> simp_all
  · simp_all

theorem kind_of_renewal {l : Ledger} {key : Key} {t : Ticket} {now : Time.Instant} {f : Failure}
    (h : l.renewal key t now = .error f) : f.kind = .validation := by
  unfold renewal at h
  split at h
  · split at h
    · cases h
    · cases h
      rfl
  · cases h
    rfl

theorem write_of_ne (l : Ledger) (defaultTtlSeconds : Nat) {key : Key} (t : Ticket)
    (now : Time.Instant) {raw : String} (h : key.text ≠ raw) :
    l.write defaultTtlSeconds key t now raw = l raw :=
  if_neg h

theorem next_of_not_concerns {s : Store} {call : TicketCall} {raw : String}
    (h : ¬ call.Concerns s raw) (defaultTtlSeconds : Nat) (now : Time.Instant) (l : Ledger) :
    (spec s defaultTtlSeconds).next call now l raw = l raw := by
  cases call with
  | store random t =>
    simp only [spec]
    cases hkey : Key.generate random.draw s.keyPrefix t.owner s.nonceBytes with
    | ok key => exact l.write_of_ne defaultTtlSeconds t now fun htext => h ⟨key, hkey, htext⟩
    | error f => rfl
  | renew key t =>
    simp only [spec]
    cases l.renewal key t now with
    | ok done => exact l.write_of_ne defaultTtlSeconds t now h
    | error f => rfl
  | retrieve key => rfl
  | remove key => exact if_neg h

end Ledger

theorem toNanos_add_lifetimeUntil {e now : Time.Instant} (hnow : now.nanos < Time.nanosPerSecond) :
    now.toNanos + lifetimeUntil e now =
      if e.seenFrom now < now.toNanos then now.toNanos + shortestLifetime else e.seenFrom now := by
  have hsince := Time.Instant.toNanos_add_since (t := e) hnow
  simp only [lifetimeUntil]
  by_cases hpast : e.since now < 0
  · rw [if_pos hpast, if_pos (by omega)]
  · rw [if_neg hpast, if_neg (by omega)]
    omega

variable {m : Memory} {defaultTtlSeconds : Nat} {l : Ledger} {now : Time.Instant}

structure Represents (defaultTtlSeconds : Nat) (m : Memory) (l : Ledger) : Prop where
  mirrors : m.Mirrors defaultTtlSeconds (l.map Ticket.encode)
  civil : ∀ (key : String) (lease : Lease Ticket), l key = some lease → lease.value.Civil

theorem represents_new {capacity : Nat} (h : capacity ≠ 0) (defaultTtlSeconds : Nat) :
    Represents defaultTtlSeconds (.new capacity defaultTtlSeconds) .empty :=
  ⟨Memory.mirrors_new h defaultTtlSeconds, fun _ _ hnone => by cases hnone⟩

namespace Represents

theorem run_write (h : Represents defaultTtlSeconds m l) (hnow : now.nanos < Time.nanosPerSecond)
    (key : Key) {t : Ticket} (ht : t.Representable) :
    ((Store.write key t).run Memory.backend now m).1 = .ok () ∧
      Represents defaultTtlSeconds ((Store.write key t).run Memory.backend now m).2
        (l.write defaultTtlSeconds key t now) := by
  have hcivil : ∀ k lease, l.write defaultTtlSeconds key t now k = some lease →
      lease.value.Civil := by
    intro k lease hlease
    rcases ExpiringMap.eq_or_of_put hlease with rfl | hold
    · exact Ticket.civil_settle ht
    · exact h.civil k lease hold
  have hmirrors : ((Store.write key t).run Memory.backend now m).1 = .ok () ∧
      ((Store.write key t).run Memory.backend now m).2.Mirrors defaultTtlSeconds
        ((l.write defaultTtlSeconds key t now).map Ticket.encode) := by
    rw [Ledger.write, ExpiringMap.map_put, Lease.map, Ticket.encode_settle ht]
    unfold Store.write Ticket.deadline
    cases t.properties.expiresAt with
    | some e =>
      simp only [← toNanos_add_lifetimeUntil hnow]
      exact h.mirrors.answer (r := .set key.text t.encode _) (by simp) now
    | none => exact h.mirrors.answer (r := .setDefault key.text t.encode) (by simp) now
  exact ⟨hmirrors.1, hmirrors.2, hcivil⟩

theorem answer_has (h : Represents defaultTtlSeconds m l) (raw : String) (now : Time.Instant) :
    Memory.backend.answer (.has raw) now m = (.ok (l.get now raw).isSome, m) := by
  refine (Memory.answer_has h.mirrors.keeps.isOpen raw now).trans ?_
  rw [← Option.isSome_map, h.mirrors.get, ExpiringMap.get_map, Option.isSome_map]

theorem answer_get (h : Represents defaultTtlSeconds m l) (raw : String) (now : Time.Instant) :
    Memory.backend.answer (.get raw) now m = (.ok ((l.get now raw).map Ticket.encode), m) := by
  refine (Memory.answer_get h.mirrors.keeps.isOpen raw now).trans ?_
  rw [h.mirrors.get, ExpiringMap.get_map]

theorem civil_of_get (h : Represents defaultTtlSeconds m l) {raw : String} {t : Ticket}
    (hget : l.get now raw = some t) : t.Civil := by
  obtain ⟨lease, hlive, rfl⟩ := Option.map_eq_some_iff.mp hget
  exact h.civil raw lease (Option.filter_eq_some_iff.mp hlive).1

theorem serve (h : Represents defaultTtlSeconds m l) (hnow : now.nanos < Time.nanosPerSecond)
    (s : Store) {call : TicketCall} (hcall : call.Representable) :
    (Ledger.spec s defaultTtlSeconds).Allows call now l (s.serve call now m).1 ∧
      Represents defaultTtlSeconds (s.serve call now m).2
        ((Ledger.spec s defaultTtlSeconds).next call now l) := by
  cases call with
  | store random t =>
    have hplan : (Operation.store random t).plan s = s.store random.draw t := rfl
    simp only [Ledger.spec, Store.serve, hplan, Store.store]
    cases Key.generate random.draw s.keyPrefix t.owner s.nonceBytes with
    | error f => exact ⟨rfl, h⟩
    | ok key =>
      obtain ⟨hanswer, hafter⟩ := h.run_write hnow key hcall
      simp only [Cache.Plan.run_bind, hanswer]
      exact ⟨rfl, hafter⟩
  | renew key t =>
    have hplan : (Operation.renew key t).plan s = Store.renew key t := rfl
    simp only [Ledger.spec, Ledger.renewal, Store.serve, hplan, Store.renew]
    by_cases howner : key.owner = t.owner
    · rw [if_pos howner, if_pos howner, Cache.Plan.run_andThen_ok (h.answer_has key.text now)]
      cases hlive : (l.get now key.text).isSome with
      | true => exact h.run_write hnow key hcall
      | false => exact ⟨rfl, h⟩
    · rw [if_neg howner, if_neg howner]
      exact ⟨rfl, h⟩
  | retrieve key =>
    have hplan : (Operation.retrieve key).plan s = Store.retrieve key := rfl
    simp only [Ledger.spec, Store.serve, hplan, Store.retrieve]
    rw [Cache.Plan.run_andThen_ok (h.answer_get key.text now)]
    cases hget : l.get now key.text with
    | none => exact ⟨rfl, h⟩
    | some t =>
      -- Nothing is lost on the way out of the cache: what was settled stays as it is.
      have hdecode := Ticket.decode_encode_civil (h.civil_of_get hget)
      simp only [Option.map_some, hdecode]
      exact ⟨rfl, h⟩
  | remove key =>
    obtain ⟨hanswer, hafter⟩ := h.mirrors.answer (r := .delete key.text) (by simp) now
    refine ⟨hanswer, ?_, fun k lease hlease => h.civil k lease (ExpiringMap.of_erase hlease)⟩
    rw [Ledger.spec, ExpiringMap.map_erase]
    exact hafter

end Represents

theorem Store.explains_serve (s : Store) {capacity : Nat} (hcapacity : capacity ≠ 0)
    (defaultTtlSeconds : Nat) (start : Time.Instant) {calls : List (Nat × TicketCall)}
    (hcalls : ∀ call ∈ calls, call.2.Representable) :
    (Ledger.spec s defaultTtlSeconds).Explains .empty
        (Time.transcript s.serve start calls (.new capacity defaultTtlSeconds)).1 ∧
      Represents defaultTtlSeconds
        (Time.transcript s.serve start calls (.new capacity defaultTtlSeconds)).2
        ((Ledger.spec s defaultTtlSeconds).last .empty
          (Time.transcript s.serve start calls (.new capacity defaultTtlSeconds)).1) :=
  (Ledger.spec s defaultTtlSeconds).explains_transcript s.serve
    (fun _ m l => Represents defaultTtlSeconds m l) (fun _ h => h)
    (fun hcall hnow h => h.serve hnow s hcall) start hcalls (represents_new hcapacity _)

/-- Whatever is stored, renewed, retrieved and removed in a cache that starts empty, the answers are
those of a ledger, and in the end the cache keeps what is in the ledger. Keys can be made if nonces
are long enough, and otherwise nothing is stored. A ticket is renewed under a key of its owner that
has one, and otherwise refused without a trace; no call changes what lies under another key than its
own. A ticket lies there as it is, but for a leap second inside a minute; it lies there until its
end, for the shortest lifetime if it has ended, or for the lifetime of the cache if it has no end.
An end in a leap second comes one second early for those who reckon from a later time of day. -/
theorem ticket_store_refines_ledger (s : Store) {capacity : Nat} (hcapacity : capacity ≠ 0)
    (defaultTtlSeconds : Nat) (start : Time.Instant) {calls : List (Nat × TicketCall)}
    (hcalls : ∀ call ∈ calls, call.2.Representable) :
    let run := Time.transcript s.serve start calls (.new capacity defaultTtlSeconds)
    (Ledger.spec s defaultTtlSeconds).Explains .empty run.1 ∧
    run.2.Mirrors defaultTtlSeconds
      (((Ledger.spec s defaultTtlSeconds).last .empty run.1).map Ticket.encode) ∧
    (∀ (random : Randomness) (t : Ticket),
      (Key.leastNonce ≤ s.nonceBytes → ∃ key,
        Key.generate random.draw s.keyPrefix t.owner s.nonceBytes = .ok key ∧
          key.owner = t.owner) ∧
      (s.nonceBytes < Key.leastNonce → ∀ (now : Time.Instant) (l : Ledger),
        Key.generate random.draw s.keyPrefix t.owner s.nonceBytes =
          .error (.nonceTooShort Key.leastNonce s.nonceBytes) ∧
        (Ledger.spec s defaultTtlSeconds).next (.store random t) now l = l)) ∧
    (∀ (l : Ledger) (key : Key) (t : Ticket) (now : Time.Instant),
      (l.renewal key t now = .ok () ↔ key.owner = t.owner ∧ (l.get now key.text).isSome = true) ∧
      ∀ f, l.renewal key t now = .error f → f.kind = .validation ∧
        (Ledger.spec s defaultTtlSeconds).next (.renew key t) now l = l) ∧
    (∀ (call : TicketCall) (raw : String), ¬ call.Concerns s raw →
      ∀ (now : Time.Instant) (l : Ledger),
        (Ledger.spec s defaultTtlSeconds).next call now l raw = l raw) ∧
    (∀ t : Ticket, t.Representable → (t.settle = t ↔ t.Civil)) ∧
    ∀ (t : Ticket) (now : Time.Instant),
      (t.properties.expiresAt = none → t.deadline defaultTtlSeconds now =
        now.toNanos + (defaultTtlSeconds * Time.nanosPerSecond : Nat)) ∧
      ∀ e, t.properties.expiresAt = some e →
        (t.deadline defaultTtlSeconds now = if e.seenFrom now < now.toNanos then
          now.toNanos + shortestLifetime else e.seenFrom now) ∧
        (e.nanos < Time.nanosPerSecond ∨ now.secondOfDay ≤ e.secondOfDay →
          e.seenFrom now = e.toNanos) ∧
        (Time.nanosPerSecond ≤ e.nanos → e.secondOfDay < now.secondOfDay →
          e.seenFrom now = e.toNanos - Time.nanosPerSecond) := by
  obtain ⟨hexplains, hfinal⟩ := s.explains_serve hcapacity defaultTtlSeconds start hcalls
  refine ⟨hexplains, hfinal.mirrors, fun random t => ⟨fun hnonce => ?_, fun hnonce now l => ?_⟩,
    fun l key t now => ⟨Ledger.renewal_eq_ok_iff, fun f hf => ⟨Ledger.kind_of_renewal hf, ?_⟩⟩,
    fun call raw hraw now l => Ledger.next_of_not_concerns hraw defaultTtlSeconds now l,
    fun t => Ticket.settle_eq_iff, fun t now => ⟨fun hnone => ?_, fun e he =>
      ⟨Ticket.deadline_of_end he defaultTtlSeconds now, Time.Instant.seenFrom_of_plain,
        Time.Instant.seenFrom_of_leap⟩⟩⟩
  · rw [Key.generate, if_neg (Nat.not_lt.mpr hnonce)]
    exact ⟨_, rfl, rfl⟩
  · have hkey : Key.generate random.draw s.keyPrefix t.owner s.nonceBytes =
        .error (.nonceTooShort Key.leastNonce s.nonceBytes) := if_pos hnonce
    simp only [Ledger.spec, hkey, and_self]
  · simp only [Ledger.spec, hf]
  · rw [Ticket.deadline, hnone]

def shortVisit : Ticket := { visit with properties := { expiresAt := some ⟨30, 0⟩ } }

def shortCalls : List (Nat × TicketCall) :=
  [(0, .store (repeating 0) shortVisit), (29999999999, .retrieve zerosKey), (1, .retrieve zerosKey),
    (0, .renew zerosKey shortVisit)]

theorem ticket_store_refines_ledger_shortCalls :
    (Time.transcript (Store.serve ⟨"S", 16⟩) ⟨0, 0⟩ shortCalls (.new 1 60)).1 =
      [⟨⟨0, 0⟩, .store (repeating 0) shortVisit, .ok zerosKey⟩,
        ⟨⟨29, 999999999⟩, .retrieve zerosKey, .ok (some shortVisit)⟩,
        ⟨⟨30, 0⟩, .retrieve zerosKey, .ok none⟩,
        ⟨⟨30, 0⟩, .renew zerosKey shortVisit, .error .ticketMissing⟩] := by
  have hshort : shortVisit.Representable := by decide
  have hcalls : ∀ call ∈ shortCalls, call.2.Representable := by
    simp [shortCalls, TicketCall.Representable, hshort]
  obtain ⟨⟨_, hearly, _⟩, _⟩ :=
    ticket_store_refines_ledger ⟨"S", 16⟩ (show 1 ≠ 0 by decide) 60 ⟨0, 0⟩ hcalls
  have hfound : _ = Except.ok (some shortVisit) := hearly
  exact congrArg (β := List (Time.Answered TicketCall.Reply)) (fun a =>
    [⟨⟨0, 0⟩, .store (repeating 0) shortVisit, .ok zerosKey⟩,
      ⟨⟨29, 999999999⟩, .retrieve zerosKey, a⟩,
      ⟨⟨30, 0⟩, .retrieve zerosKey, .ok none⟩,
      ⟨⟨30, 0⟩, .renew zerosKey shortVisit, .error .ticketMissing⟩]) hfound

/-- A visit until the middle of a leap second before noon. -/
def leapVisit : Ticket := { visit with properties := { expiresAt := some ⟨129599, 1500000000⟩ } }

/-- A visit from the middle of a leap second inside a minute. -/
def innerLeapVisit : Ticket := { visit with properties := { issuedAt := some ⟨58, 1500000000⟩ } }

theorem serve_innerLeapVisit :
    (Time.transcript (Store.serve ⟨"S", 16⟩) ⟨60, 0⟩
      [(0, .store (repeating 0) innerLeapVisit), (0, .retrieve zerosKey)] (.new 1 60)).1 =
      [⟨⟨60, 0⟩, .store (repeating 0) innerLeapVisit, .ok zerosKey⟩,
        ⟨⟨60, 0⟩, .retrieve zerosKey, .ok (some innerLeapVisit.settle)⟩] := by
  have hvisit : innerLeapVisit.Representable := by decide
  have hcalls : ∀ call ∈ [(0, TicketCall.store (repeating 0) innerLeapVisit),
      (0, .retrieve zerosKey)], call.2.Representable := by
    simp [TicketCall.Representable, hvisit]
  obtain ⟨⟨_, hread, _⟩, _⟩ :=
    Store.explains_serve ⟨"S", 16⟩ (show 1 ≠ 0 by decide) 60 ⟨60, 0⟩ hcalls
  have hfound : _ = Except.ok (some innerLeapVisit.settle) := hread
  exact congrArg (β := List (Time.Answered TicketCall.Reply)) (fun a =>
    [⟨⟨60, 0⟩, .store (repeating 0) innerLeapVisit, .ok zerosKey⟩,
      ⟨⟨60, 0⟩, .retrieve zerosKey, a⟩]) hfound

/-- A ticket with an end in a leap second, stored the evening before, is gone before its end. A
ticket with a moment in a leap second inside a minute does not come back as it is. Under a short
nonce no ticket is stored. -/
theorem leap_second_end_comes_early :
    (leapVisit.Representable ∧ innerLeapVisit.Representable) ∧
    ((Time.transcript (Store.serve ⟨"S", 16⟩) ⟨64800, 0⟩
        [(0, .store (repeating 0) leapVisit), (64799600000000, .retrieve zerosKey)] (.new 1 60)).1 =
        [⟨⟨64800, 0⟩, .store (repeating 0) leapVisit, .ok zerosKey⟩,
          ⟨⟨129599, 600000000⟩, .retrieve zerosKey, .ok none⟩] ∧
      (⟨129599, 600000000⟩ : Time.Instant).toNanos <
        (⟨129599, 1500000000⟩ : Time.Instant).toNanos) ∧
    ((Time.transcript (Store.serve ⟨"S", 16⟩) ⟨60, 0⟩
        [(0, .store (repeating 0) innerLeapVisit), (0, .retrieve zerosKey)] (.new 1 60)).1 =
        [⟨⟨60, 0⟩, .store (repeating 0) innerLeapVisit, .ok zerosKey⟩,
          ⟨⟨60, 0⟩, .retrieve zerosKey, .ok (some innerLeapVisit.settle)⟩] ∧
      innerLeapVisit.settle ≠ innerLeapVisit) ∧
    (Time.transcript (Store.serve ⟨"S", 8⟩) ⟨0, 0⟩ [(0, .store (repeating 0) visit)]
        (.new 1 60)).1 =
      [⟨⟨0, 0⟩, .store (repeating 0) visit, .error (.nonceTooShort 16 8)⟩] :=
  ⟨by decide, ⟨rfl, by decide⟩, ⟨serve_innerLeapVisit, by decide⟩, rfl⟩

end AuthCore.Session
