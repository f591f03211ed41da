import AuthCore.Failure

set_option autoImplicit false

namespace AuthCore

structure Once (α : Type) where
  value : Option α
  /-- Loads so far, failed ones included. -/
  attempts : Nat

namespace Once

variable {α : Type}

def empty : Once α := ⟨none, 0⟩

def filled (a : α) : Once α := ⟨some a, 0⟩

def isLoaded (o : Once α) : Bool := o.value.isSome

def get (o : Once α) (load : Except Failure α) : Except Failure α × Once α :=
  match o.value with
  | some a => (.ok a, o)
  | none =>
    match load with
    | .ok a => (.ok a, ⟨some a, o.attempts + 1⟩)
    | .error f => (.error f, ⟨none, o.attempts + 1⟩)

theorem get_loaded {o : Once α} {a : α} (h : o.value = some a) (load : Except Failure α) :
    o.get load = (.ok a, o) := by
  simp [get, h]

theorem get_ok {o : Once α} {load : Except Failure α} {a : α} {after : Once α}
    (h : o.get load = (.ok a, after)) : after.value = some a := by
  unfold get at h
  split at h
  · rename_i heq
    obtain ⟨rfl, rfl⟩ : _ = a ∧ o = after := by simpa using h
    exact heq
  · split at h
    · obtain ⟨rfl, rfl⟩ : _ = a ∧ _ = after := by simpa using h
      rfl
    · simp at h

def getAll (o : Once α) : List (Except Failure α) → List (Except Failure α) × Once α
  | [] => ([], o)
  | load :: loads =>
    let (answer, o) := o.get load
    let (answers, o) := getAll o loads
    (answer :: answers, o)

end Once

end AuthCore
