import AuthCore.Cache.Request
import AuthCore.Config.Settings
import AuthCore.Session.Key
import AuthCore.Session.Ticket

/-!
Sessions over a cache: each ticket lies under a key of its own and expires with it. The operations
are programs of atomic cache requests, so what happens between two requests is up to whoever runs
them.
-/

set_option autoImplicit false

namespace AuthCore.Session

open Cache (Plan Request)

structure Store where
  keyPrefix : String
  nonceBytes : Nat

/-- The lifetime of tickets that have expired already, in nanoseconds. -/
def shortestLifetime : Nat := 1000000

def lifetimeUntil (deadline now : Time.Instant) : Nat :=
  let left := deadline.since now
  if left < 0 then shortestLifetime else left.toNat

namespace Store

def ofSettings (c : Config.Session) : Store := ⟨c.keyPrefix, c.nonceBytes⟩

def write (key : Key) (t : Ticket) : Plan (Except Failure Unit) :=
  match t.properties.expiresAt with
  | some deadline =>
    .clock fun now => .ask (.set key.text t.encode (lifetimeUntil deadline now)) .done
  | none => .ask (.setDefault key.text t.encode) .done

def store (s : Store) (random : Nat → Bytes) (t : Ticket) : Plan (Except Failure Key) :=
  match Key.generate random s.keyPrefix t.owner s.nonceBytes with
  | .error f => .done (.error f)
  | .ok key => (write key t).bind fun answer => .done (answer.map fun _ => key)

/-- Writes a ticket again under its key. Only an entry that is there is renewed. -/
def renew (key : Key) (t : Ticket) : Plan (Except Failure Unit) :=
  if key.owner = t.owner then
    .andThen (.has key.text) fun there =>
      if there then write key t else .done (.error .ticketMissing)
  else .done (.error .ownerMismatch)

def retrieve (key : Key) : Plan (Except Failure (Option Ticket)) :=
  .andThen (.get key.text) fun
    | some bytes => .done ((Ticket.decode bytes).map some)
    | none => .done (.ok none)

def remove (key : Key) : Plan (Except Failure Unit) := .ask (.delete key.text) .done

def readKey? (s : Store) (raw : String) : Option Key := Key.read? s.keyPrefix raw

def ownKeys (s : Store) (owner : Uuid) (found : List String) : List Key :=
  (found.filterMap s.readKey?).filter fun k => k.owner == owner

def keysFor (s : Store) (owner : Uuid) : Plan (Except Failure (List Key)) :=
  .andThen (.scan (Key.ownerPattern s.keyPrefix owner)) fun found =>
    .done (.ok (s.ownKeys owner found))

end Store

structure Report where
  /-- Keys that were to be deleted. -/
  matched : Nat
  deleted : Nat
  cancelled : Bool
deriving DecidableEq

def Report.isComplete (r : Report) : Bool := !r.cancelled && r.deleted == r.matched

inductive Cancellation where
  | never
  | beforeScan
  /-- After this many deletions. -/
  | afterDeletes (count : Nat)
deriving DecidableEq

def Cancellation.reached (c : Cancellation) (deleted : Nat) : Bool :=
  match c with
  | never => false
  | beforeScan => true
  | afterDeletes count => decide (count ≤ deleted)

namespace Store

/-- Deletes the keys one by one until the revocation is called off or the cache fails. -/
def deleteAll (cancel : Cancellation) (report : Report) : List Key → Plan (Except Failure Report)
  | [] => .done (.ok report)
  | k :: ks =>
    if cancel.reached report.deleted then .done (.ok { report with cancelled := true })
    else
      .andThen (.delete k.text) fun _ =>
        deleteAll cancel { report with deleted := report.deleted + 1 } ks

def revoke (s : Store) (owner : Uuid) (keep : Option Key) (cancel : Cancellation) :
    Plan (Except Failure Report) :=
  if cancel = .beforeScan then .done (.ok ⟨0, 0, true⟩)
  else
    (s.keysFor owner).bind fun
      | .error f => .done (.error f)
      | .ok found =>
        let targets := found.filter fun k => some k != keep
        deleteAll cancel ⟨targets.length, 0, false⟩ targets

def revokeAll (s : Store) (owner : Uuid) (cancel : Cancellation) : Plan (Except Failure Report) :=
  s.revoke owner none cancel

/-- Signs an owner out everywhere but under one key of theirs. -/
def revokeExcept (s : Store) (owner : Uuid) (keep : Key) (cancel : Cancellation) :
    Plan (Except Failure Report) :=
  if keep.owner = owner then s.revoke owner (some keep) cancel
  else .done (.error .keptKeyForeign)

end Store

end AuthCore.Session
