import AuthCore.Cache.Manager
import AuthCore.Proofs.Cache.MemoryView
import AuthCore.Proofs.Signing.KeyMode
import AuthCore.Proofs.Time.Timeline

set_option autoImplicit false

namespace AuthCore.Cache

variable {σ : Type}

abbrev Answered := Time.Answered fun r : Request => Except Failure r.Answer

/-- What a cache answers once it is closed. -/
def Refusal (f : Failure) : (r : Request) → Except Failure r.Answer → Prop
  | .close, answer => answer = .ok false
  | _, answer => answer = .error f

theorem refusal_of_ne {f : Failure} {r : Request} (hr : r ≠ .close) :
    Refusal f r (.error f) := by
  cases r with
  | close => exact absurd rfl hr
  | _ => rfl

/-- The first close of a run succeeds, and every answer after it is a refusal with a failure of the
cache, which may pass when tried again. -/
def ClosesOnce (answers : List Answered) : Prop :=
  ∀ before now answer after, answers = before ++ ⟨now, .close, answer⟩ :: after →
    (∀ a ∈ before, a.input ≠ .close) → answer = .ok true ∧
      ∃ f : Failure, f.kind = .cache ∧ f.retryable = true ∧ ∀ a ∈ after, Refusal f a.input a.answer

/-- A cache with states in which it is open and states in which it is closed for good, where it
refuses requests with `refusal`. -/
structure Closable (answer : Time.Machine (fun r : Request => Except Failure r.Answer) σ)
    (IsOpen IsClosed : σ → Prop) (refusal : σ → Failure) : Prop where
  first : ∀ {s} now, IsOpen s →
    (answer .close now s).1 = .ok true ∧ IsClosed (answer .close now s).2
  others : ∀ {r s} now, r ≠ .close → IsOpen s → IsOpen (answer r now s).2
  again : ∀ {s} now, IsClosed s → answer .close now s = (.ok false, s)
  refused : ∀ {r s} now, r ≠ .close → IsClosed s → answer r now s = (.error (refusal s), s)
  kind_eq : ∀ s, (refusal s).kind = .cache

namespace Closable

variable {answer : Time.Machine (fun r : Request => Except Failure r.Answer) σ}
  {IsOpen IsClosed : σ → Prop} {refusal : σ → Failure}

theorem transcript_closed (h : Closable answer IsOpen IsClosed refusal) {s : σ} (hs : IsClosed s)
    (start : Time.Instant) (requests : List (Nat × Request)) :
    (∀ a ∈ (Time.transcript answer start requests s).1, Refusal (refusal s) a.input a.answer) ∧
      (Time.transcript answer start requests s).2 = s := by
  induction requests generalizing start with
  | nil => exact ⟨fun a ha => (by cases ha), rfl⟩
  | cons request rest ih =>
    obtain ⟨pause, r⟩ := request
    obtain ⟨hrest, hlast⟩ := ih (start.addNanos pause)
    by_cases hr : r = .close
    · subst hr
      have hstep := h.again (start.addNanos pause) hs
      simp only [Time.transcript, hstep]
      exact ⟨List.forall_mem_cons.mpr ⟨rfl, hrest⟩, hlast⟩
    · have hstep := h.refused (start.addNanos pause) hr hs
      simp only [Time.transcript, hstep]
      exact ⟨List.forall_mem_cons.mpr ⟨refusal_of_ne hr, hrest⟩, hlast⟩

theorem retryable (h : Closable answer IsOpen IsClosed refusal) (s : σ) :
    (refusal s).retryable = true := by
  rw [Failure.retryable, h.kind_eq]
  rfl

theorem closesOnce (h : Closable answer IsOpen IsClosed refusal) {s : σ} (hs : IsOpen s)
    (start : Time.Instant) (requests : List (Nat × Request)) :
    ClosesOnce (Time.transcript answer start requests s).1 := by
  induction requests generalizing start s with
  | nil =>
    intro before now closing after hsplit
    simp [Time.transcript] at hsplit
  | cons request rest ih =>
    obtain ⟨pause, r⟩ := request
    intro before now closing after hsplit hbefore
    simp only [Time.transcript] at hsplit
    cases before with
    | nil =>
      obtain ⟨hhead, htail⟩ := List.cons.inj hsplit
      obtain ⟨hnow, hinput, hanswer⟩ := Time.Answered.mk.inj hhead
      subst hinput
      obtain ⟨htrue, hclosed⟩ := h.first (start.addNanos pause) hs
      refine ⟨(eq_of_heq hanswer).symm.trans htrue,
        refusal (answer .close (start.addNanos pause) s).2, h.kind_eq _, h.retryable _, ?_⟩
      rw [← htail]
      exact (h.transcript_closed hclosed _ rest).1
    | cons b before =>
      obtain ⟨hhead, htail⟩ := List.cons.inj hsplit
      have hr : r ≠ .close := by
        have hb := hbefore b List.mem_cons_self
        rwa [← hhead] at hb
      exact ih (h.others _ hr hs) _ before now closing after htail
        fun a ha => hbefore a (List.mem_cons_of_mem b ha)

theorem isClosed_transcript (h : Closable answer IsOpen IsClosed refusal) {s : σ} (hs : IsOpen s)
    (start : Time.Instant) {requests : List (Nat × Request)}
    (hclose : ∃ request ∈ requests, request.2 = .close) :
    IsClosed (Time.transcript answer start requests s).2 := by
  induction requests generalizing start s with
  | nil => simp at hclose
  | cons request rest ih =>
    obtain ⟨pause, r⟩ := request
    by_cases hr : r = .close
    · subst hr
      have hclosed := (h.first (start.addNanos pause) hs).2
      simp only [Time.transcript, (h.transcript_closed hclosed _ rest).2]
      exact hclosed
    · refine ih (h.others _ hr hs) _ ?_
      obtain ⟨request, hmem, hrequest⟩ := hclose
      rcases List.mem_cons.mp hmem with rfl | hmem
      · exact absurd hrequest hr
      · exact ⟨request, hmem, hrequest⟩

theorem isOpen_or_isClosed_transcript (h : Closable answer IsOpen IsClosed refusal) {s : σ}
    (hs : IsOpen s) (start : Time.Instant) (requests : List (Nat × Request)) :
    IsOpen (Time.transcript answer start requests s).2 ∨
      IsClosed (Time.transcript answer start requests s).2 := by
  induction requests generalizing start s with
  | nil => exact .inl hs
  | cons request rest ih =>
    obtain ⟨pause, r⟩ := request
    by_cases hr : r = .close
    · exact .inr (h.isClosed_transcript hs start ⟨(pause, r), List.mem_cons_self, hr⟩)
    · exact ih (h.others _ hr hs) _

theorem close_transcript (h : Closable answer IsOpen IsClosed refusal) {s : σ}
    (hs : IsOpen s ∨ IsClosed s) (now : Time.Instant) :
    ∃ isFirst s', answer .close now s = (.ok isFirst, s') ∧ IsClosed s' := by
  rcases hs with hs | hs
  · obtain ⟨htrue, hclosed⟩ := h.first now hs
    exact ⟨true, _, Prod.ext htrue rfl, hclosed⟩
  · exact ⟨false, s, h.again now hs, hs⟩

end Closable

theorem Handle.release_held {α : Type} {handle : Handle α} (h : handle.isHeld = true) :
    handle.release = (.ok true, { handle with slot := .released }) := by
  obtain ⟨name, slot⟩ := handle
  cases slot with
  | held client => rfl
  | released => cases h
  | poisoned => cases h

def Memory.IsClosed (m : Memory) : Prop := m.handle.slot = .released

theorem Memory.closable :
    Closable Memory.answer Memory.IsOpen Memory.IsClosed fun m => .clientClosed m.handle.name where
  first now hs := by
    rw [answer, Handle.release_held hs]
    exact ⟨rfl, rfl⟩
  others now hr hs := (isOpen_answer _ hr now).mpr hs
  again {m} now hs := by
    obtain ⟨⟨name, slot⟩, ttl⟩ := m
    obtain rfl : slot = .released := hs
    rfl
  refused {r m} now hr hs := by
    obtain ⟨⟨name, slot⟩, ttl⟩ := m
    obtain rfl : slot = .released := hs
    cases r with
    | close => exact absurd rfl hr
    | _ => rfl
  kind_eq _ := rfl

namespace Remote

def IsOpen (c : Remote) : Prop := c.handle.isHeld = true

def IsClosed (c : Remote) : Prop := c.handle.slot = .released

theorem isOpen_of_connect {c : Config.Cache} {attempt : Attempt} {client : Remote}
    (h : Remote.connect c attempt = .ok client) : client.IsOpen := by
  unfold Remote.connect at h
  split at h
  · split at h <;> cases h
    rfl
  · cases h

theorem closable (server : Server σ) :
    Closable (answer server) (fun s => s.1.IsOpen) (fun s => s.1.IsClosed)
      fun s => .clientClosed s.1.handle.name where
  first {s} now hs := by
    rw [answer, Handle.release_held hs]
    exact ⟨rfl, rfl⟩
  others {r s} now hr hs := by
    cases r with
    | close => exact absurd rfl hr
    | _ =>
      simp only [answer]
      split
      · exact hs
      · exact hs
  again {s} now hs := by
    obtain ⟨⟨⟨name, slot⟩, keyPrefix, timeoutMs, ttl, batch⟩, t⟩ := s
    obtain rfl : slot = .released := hs
    rfl
  refused {r s} now hr hs := by
    obtain ⟨⟨⟨name, slot⟩, keyPrefix, timeoutMs, ttl, batch⟩, t⟩ := s
    obtain rfl : slot = .released := hs
    cases r with
    | close => exact absurd rfl hr
    | _ => rfl
  kind_eq _ := rfl

end Remote

namespace Manager

def IsOpen : Manager → Prop
  | memory m => m.IsOpen
  | remote c => c.IsOpen

def IsClosed : Manager → Prop
  | memory m => m.IsClosed
  | remote c => c.IsClosed

def refusal : Manager → Failure
  | memory m => .clientClosed m.handle.name
  | remote c => .clientClosed c.handle.name

theorem closable (server : Remote.Server σ) :
    Closable (answer server) (fun s => s.1.IsOpen) (fun s => s.1.IsClosed)
      fun s => s.1.refusal where
  first {s} now hs := by
    obtain ⟨m | c, t⟩ := s
    · exact Memory.closable.first now hs
    · exact (Remote.closable server).first (s := (c, t)) now hs
  others {r s} now hr hs := by
    obtain ⟨m | c, t⟩ := s
    · exact Memory.closable.others now hr hs
    · exact (Remote.closable server).others (s := (c, t)) now hr hs
  again {s} now hs := by
    obtain ⟨m | c, t⟩ := s
    · simp only [answer, Memory.closable.again now hs]
    · simp only [answer, (Remote.closable server).again (s := (c, t)) now hs]
  refused {r s} now hr hs := by
    obtain ⟨m | c, t⟩ := s
    · simp only [answer, Memory.closable.refused now hr hs]
      rfl
    · simp only [answer, (Remote.closable server).refused (s := (c, t)) now hr hs]
      rfl
  kind_eq s := by
    obtain ⟨m | c, t⟩ := s <;> rfl

theorem isOpen_of_new {c : Config.Cache} {attempt : Attempt} {manager : Manager}
    (h : Manager.new c attempt = .ok manager) : manager.IsOpen := by
  obtain ⟨provider, -, h⟩ := bind_eq_ok_iff.mp h
  cases provider with
  | memory =>
    cases h
    rfl
  | remote =>
    obtain ⟨client, hclient, h⟩ := bind_eq_ok_iff.mp h
    cases h
    exact Remote.isOpen_of_connect hclient

end Manager

end AuthCore.Cache
