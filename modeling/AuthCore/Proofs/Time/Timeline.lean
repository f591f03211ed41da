import AuthCore.Time.Instant

set_option autoImplicit false

namespace AuthCore.Time

theorem Instant.toNanos_addNanos (t : Instant) (n : Nat) :
    (t.addNanos n).toNanos = t.toNanos + n := by
  simp only [addNanos, toNanos, nanosPerSecond]
  omega

theorem Instant.nanos_addNanos_lt (t : Instant) (n : Nat) :
    (t.addNanos n).nanos < nanosPerSecond :=
  Nat.mod_lt _ (by decide)

variable {ι σ τ : Type} {α : ι → Type}

/-- What a system answers at a moment, and the state it is in afterwards. -/
abbrev Machine (α : ι → Type) (σ : Type) := (i : ι) → Instant → σ → α i × σ

structure Answered (α : ι → Type) where
  now : Instant
  input : ι
  answer : α input

/-- The answers to inputs that each come some nanoseconds after the one before. -/
def transcript (machine : Machine α σ) :
    Instant → List (Nat × ι) → σ → List (Answered α) × σ
  | _, [], s => ([], s)
  | now, (pause, i) :: rest, s =>
    let now := now.addNanos pause
    let (answer, s) := machine i now s
    let (answers, s) := transcript machine now rest s
    (⟨now, i, answer⟩ :: answers, s)

def finish (start : Instant) (inputs : List (Nat × ι)) : Instant :=
  inputs.foldl (fun now input => now.addNanos input.1) start

/-- Which answers there can be in a state, and what an input makes of the state. -/
structure Spec (α : ι → Type) (τ : Type) where
  Allows : (i : ι) → Instant → τ → α i → Prop
  next : ι → Instant → τ → τ

namespace Spec

/-- The answers are such as there can be, one after another. -/
def Explains (spec : Spec α τ) : τ → List (Answered α) → Prop
  | _, [] => True
  | t, ⟨now, i, answer⟩ :: rest =>
    spec.Allows i now t answer ∧ spec.Explains (spec.next i now t) rest

def last (spec : Spec α τ) (t : τ) (answers : List (Answered α)) : τ :=
  answers.foldl (fun t a => spec.next a.input a.now t) t

theorem explains_transcript (spec : Spec α τ) (machine : Machine α σ)
    (R : Instant → σ → τ → Prop) {P : ι → Prop}
    (hpause : ∀ {now s t} (n : Nat), R now s t → R (now.addNanos n) s t)
    (hstep : ∀ {i now s t}, P i → now.nanos < nanosPerSecond → R now s t →
      spec.Allows i now t (machine i now s).1 ∧ R now (machine i now s).2 (spec.next i now t))
    (start : Instant) {inputs : List (Nat × ι)} (hinputs : ∀ input ∈ inputs, P input.2) {s : σ}
    {t : τ} (h : R start s t) :
    spec.Explains t (transcript machine start inputs s).1 ∧
      R (finish start inputs) (transcript machine start inputs s).2
        (spec.last t (transcript machine start inputs s).1) := by
  induction inputs generalizing start s t with
  | nil => exact ⟨trivial, h⟩
  | cons input rest ih =>
    obtain ⟨pause, i⟩ := input
    obtain ⟨hi, hrest⟩ := List.forall_mem_cons.mp hinputs
    obtain ⟨hallows, hnext⟩ := hstep hi (start.nanos_addNanos_lt pause) (hpause pause h)
    obtain ⟨hexplains, hlast⟩ := ih (start.addNanos pause) hrest hnext
    exact ⟨⟨hallows, hexplains⟩, hlast⟩

end Spec

end AuthCore.Time
