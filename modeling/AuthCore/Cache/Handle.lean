import AuthCore.Failure
import AuthCore.Text.Quoted

set_option autoImplicit false

namespace AuthCore.Cache

inductive Slot (α : Type) where
  | held (client : α)
  | released
  | poisoned

structure Handle (α : Type) where
  name : String
  slot : Slot α

namespace Handle

variable {α : Type}

def new (name : String) (client : α) : Handle α := ⟨name, .held client⟩

def acquire (h : Handle α) : Except Failure α :=
  match h.slot with
  | .held client => .ok client
  | .released => .error (.clientClosed h.name)
  | .poisoned => .error (.lockPoisoned h.name)

/-- Gives the client up; false if that has happened before. -/
def release (h : Handle α) : Except Failure Bool × Handle α :=
  match h.slot with
  | .held _ => (.ok true, { h with slot := .released })
  | .released => (.ok false, h)
  | .poisoned => (.error (.lockPoisoned h.name), h)

/-- A borrower breaks down while the client is copied. Where there is none, nothing is copied. -/
def poison (h : Handle α) : Handle α :=
  match h.acquire with
  | .ok _ => { h with slot := .poisoned }
  | .error _ => h

def isHeld (h : Handle α) : Bool :=
  match h.slot with
  | .held _ => true
  | _ => false

def update (h : Handle α) (client : α) : Handle α :=
  match h.slot with
  | .held _ => { h with slot := .held client }
  | _ => h

def describe (h : Handle α) : String :=
  Text.describe "ClientHandle"
    [("name", Text.quote h.name), ("released", if h.isHeld then "false" else "true")] true

end Handle

end AuthCore.Cache
