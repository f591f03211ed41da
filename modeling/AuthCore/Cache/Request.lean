import AuthCore.Failure
import AuthCore.Text.Utf8
import AuthCore.Time.Instant

/-!
What a cache can be asked, and programs that ask. Each request is one atomic step; a program says
what it asks next in view of the answers so far.
-/

set_option autoImplicit false

namespace AuthCore.Cache

inductive Request where
  | get (key : String)
  /-- Puts a value for a lifetime in nanoseconds. -/
  | set (key : String) (value : Bytes) (lifetime : Nat)
  /-- Puts a value for the lifetime that the cache gives by itself. -/
  | setDefault (key : String) (value : Bytes)
  | delete (key : String)
  | has (key : String)
  | scan (pattern : String)
  | health
  | close

@[reducible] def Request.Answer : Request → Type
  | .get _ => Option Bytes
  | .set .. | .setDefault .. | .delete _ => Unit
  | .has _ | .health | .close => Bool
  | .scan _ => List String

structure Backend (σ : Type) where
  answer : (r : Request) → Time.Instant → σ → Except Failure r.Answer × σ

inductive Plan (α : Type) where
  | done (a : α)
  | clock (next : Time.Instant → Plan α)
  | ask (r : Request) (next : Except Failure r.Answer → Plan α)

namespace Plan

variable {α β σ : Type}

def bind (f : α → Plan β) : Plan α → Plan β
  | done a => f a
  | clock next => clock fun now => bind f (next now)
  | ask r next => ask r fun answer => bind f (next answer)

/-- Goes on with the answer, or ends with the failure. -/
def andThen (r : Request) (next : r.Answer → Plan (Except Failure α)) : Plan (Except Failure α) :=
  ask r fun
    | .ok a => next a
    | .error f => done (.error f)

def run (b : Backend σ) (now : Time.Instant) : Plan α → σ → α × σ
  | done a, s => (a, s)
  | clock next, s => run b now (next now) s
  | ask r next, s =>
    let (answer, s) := b.answer r now s
    run b now (next answer) s

end Plan

end AuthCore.Cache
