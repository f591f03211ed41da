import AuthCore.Once

set_option autoImplicit false

namespace AuthCore.Once

variable {α β : Type} {o : Once α}

def failures (answers : List (Except Failure β)) : Nat := answers.countP fun a => !a.isOk

theorem failures_cons (answer : Except Failure β) (answers : List (Except Failure β)) :
    failures (answer :: answers) = failures [answer] + failures answers := by
  simp only [failures, List.countP_cons, List.countP_nil]
  omega

theorem get_unloaded (h : o.value = none) (load : Except Failure α) :
    o.get load = (load, ⟨load.toOption, o.attempts + 1⟩) := by
  cases load <;> simp [get, h, Except.toOption]

theorem value_get (o : Once α) (load : Except Failure α) :
    (o.get load).2.value = o.value.or load.toOption := by
  cases h : o.value with
  | some a => rw [get_loaded h, h, Option.some_or]
  | none => rw [get_unloaded h, Option.none_or]

theorem get_fst (o : Once α) (load : Except Failure α) :
    (o.get load).1 = (o.value.map Except.ok).getD load := by
  cases h : o.value with
  | some a => rw [get_loaded h]; rfl
  | none => rw [get_unloaded h]; rfl

theorem attempts_get (o : Once α) (load : Except Failure α) :
    (o.get load).2.attempts + o.isLoaded.toNat =
      o.attempts + failures [(o.get load).1] + (o.get load).2.isLoaded.toNat := by
  cases h : o.value with
  | some a => rw [get_loaded h]; simp [failures, Except.isOk, Except.toBool]
  | none =>
    rw [get_unloaded h]
    cases load <;> simp [failures, isLoaded, h, Except.isOk, Except.toBool, Except.toOption]

theorem getAll_cons (o : Once α) (load : Except Failure α) (loads : List (Except Failure α)) :
    o.getAll (load :: loads) = ((o.get load).1 :: ((o.get load).2.getAll loads).1,
      ((o.get load).2.getAll loads).2) := rfl

theorem getAll_concat (o : Once α) (loads : List (Except Failure α)) (load : Except Failure α) :
    o.getAll (loads ++ [load]) = ((o.getAll loads).1 ++ [((o.getAll loads).2.get load).1],
      ((o.getAll loads).2.get load).2) := by
  induction loads generalizing o with
  | nil => rfl
  | cons first loads ih => simp only [List.cons_append, getAll_cons, ih]

theorem value_getAll (o : Once α) (loads : List (Except Failure α)) :
    (o.getAll loads).2.value = o.value.or (loads.findSome? Except.toOption) := by
  induction loads generalizing o with
  | nil => simp [getAll]
  | cons load loads ih =>
    rw [getAll_cons, ih, value_get, Option.or_assoc, List.findSome?_cons]
    cases load.toOption <;> simp

theorem attempts_getAll (o : Once α) (loads : List (Except Failure α)) :
    (o.getAll loads).2.attempts + o.isLoaded.toNat =
      o.attempts + failures (o.getAll loads).1 + (o.getAll loads).2.isLoaded.toNat := by
  induction loads generalizing o with
  | nil => simp [getAll, failures]
  | cons load loads ih =>
    have hstep := attempts_get o load
    have hrest := ih (o.get load).2
    rw [getAll_cons, failures_cons]
    dsimp only
    omega

theorem attempts_getAll_empty (loads : List (Except Failure α)) :
    (empty.getAll loads).2.attempts =
      failures (empty.getAll loads).1 + (empty.getAll loads).2.isLoaded.toNat := by
  have h := attempts_getAll empty loads
  rwa [show empty.attempts = 0 from rfl, Nat.zero_add] at h

/-- Every answer that is no failure is what the cell holds in the end. -/
theorem value_of_mem_answers {loads : List (Except Failure α)} {a : α}
    (h : .ok a ∈ (o.getAll loads).1) : (o.getAll loads).2.value = some a := by
  induction loads generalizing o with
  | nil => cases h
  | cons load loads ih =>
    rw [getAll_cons] at h ⊢
    rcases List.mem_cons.mp h with h | h
    · rw [value_getAll, get_ok (Prod.ext h.symm rfl : o.get load = (.ok a, _)), Option.some_or]
    · exact ih h

end AuthCore.Once
