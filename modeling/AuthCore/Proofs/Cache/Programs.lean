import AuthCore.Cache.Request

set_option autoImplicit false

namespace AuthCore.Cache

structure Asked where
  request : Request
  answer : Except Failure request.Answer

namespace Plan

variable {α β σ : Type}

/-- Whatever the answers are, the program asks for nothing but `P`. -/
def Issues (P : Request → Prop) : Plan α → Prop
  | done _ => True
  | clock next => ∀ now, Issues P (next now)
  | ask r next => P r ∧ ∀ answer, Issues P (next answer)

theorem issues_bind {P : Request → Prop} {f : α → Plan β} {p : Plan α} (hp : p.Issues P)
    (hf : ∀ a, (f a).Issues P) : (p.bind f).Issues P := by
  induction p with
  | done a => exact hf a
  | clock next ih => exact fun now => ih now (hp now)
  | ask r next ih => exact ⟨hp.1, fun answer => ih answer (hp.2 answer)⟩

theorem issues_andThen {P : Request → Prop} {r : Request}
    {next : r.Answer → Plan (Except Failure α)} (hr : P r) (hnext : ∀ a, (next a).Issues P) :
    (andThen r next).Issues P := by
  refine ⟨hr, fun answer => ?_⟩
  cases answer with
  | ok a => exact hnext a
  | error f => exact trivial

theorem Issues.mono {P Q : Request → Prop} {p : Plan α} (hp : p.Issues P)
    (h : ∀ r, P r → Q r) : p.Issues Q := by
  induction p with
  | done a => exact trivial
  | clock next ih => exact fun now => ih now (hp now)
  | ask r next ih => exact ⟨h r hp.1, fun answer => ih answer (hp.2 answer)⟩

theorem run_bind (b : Backend σ) (now : Time.Instant) (f : α → Plan β) (p : Plan α) (s : σ) :
    run b now (p.bind f) s = run b now (f (run b now p s).1) (run b now p s).2 := by
  induction p generalizing s with
  | done a => rfl
  | clock next ih => exact ih now s
  | ask r next ih => exact ih _ _

theorem run_andThen_ok {b : Backend σ} {now : Time.Instant} {r : Request} {s s' : σ}
    {a : r.Answer} (h : b.answer r now s = (.ok a, s'))
    (next : r.Answer → Plan (Except Failure α)) :
    run b now (andThen r next) s = run b now (next a) s' := by
  simp only [andThen, run, h]

theorem run_andThen_error {b : Backend σ} {now : Time.Instant} {r : Request} {s s' : σ}
    {f : Failure} (h : b.answer r now s = (.error f, s'))
    (next : r.Answer → Plan (Except Failure α)) :
    run b now (andThen r next) s = (.error f, s') := by
  simp only [andThen, run, h]

theorem run_keeps {b : Backend σ} {now : Time.Instant} {I : σ → Prop} {P : Request → Prop}
    (hstep : ∀ r s, P r → I s → I (b.answer r now s).2) {p : Plan α} (hp : p.Issues P) {s : σ}
    (hs : I s) : I (run b now p s).2 := by
  induction p generalizing s with
  | done a => exact hs
  | clock next ih => exact ih now (hp now) hs
  | ask r next ih => exact ih _ (hp.2 _) (hstep r s hp.1 hs)

/-- `Follows p asked q`: with the requests of `asked` answered, `p` goes on as `q`. -/
inductive Follows (p : Plan α) : List Asked → Plan α → Prop
  | start : Follows p [] p
  | clock {asked : List Asked} {next : Time.Instant → Plan α} (now : Time.Instant)
      (h : Follows p asked (.clock next)) : Follows p asked (next now)
  | ask {asked : List Asked} {r : Request} {next : Except Failure r.Answer → Plan α}
      (answer : Except Failure r.Answer) (h : Follows p asked (.ask r next)) :
      Follows p (asked ++ [⟨r, answer⟩]) (next answer)

theorem Follows.issues {P : Request → Prop} {p q : Plan α} {asked : List Asked}
    (h : Follows p asked q) (hp : p.Issues P) : q.Issues P := by
  induction h with
  | start => exact hp
  | clock now _ ih => exact ih now
  | ask answer _ ih => exact ih.2 answer

theorem follows_done {a : α} {q : Plan α} {asked : List Asked} (h : Follows (.done a) asked q) :
    asked = [] ∧ q = .done a := by
  induction h with
  | start => exact ⟨rfl, rfl⟩
  | clock now _ ih => cases ih.2
  | ask answer _ ih => cases ih.2

theorem follows_ask {r : Request} {next : Except Failure r.Answer → Plan α} {q : Plan α}
    {asked : List Asked} (h : Follows (.ask r next) asked q) :
    (asked = [] ∧ q = .ask r next) ∨
      ∃ answer rest, asked = ⟨r, answer⟩ :: rest ∧ Follows (next answer) rest q := by
  induction h with
  | start => exact .inl ⟨rfl, rfl⟩
  | clock now _ ih =>
    rcases ih with ⟨_, heq⟩ | ⟨answer, rest, hrest, hfollows⟩
    · cases heq
    · exact .inr ⟨answer, rest, hrest, .clock now hfollows⟩
  | ask answer _ ih =>
    rcases ih with ⟨rfl, heq⟩ | ⟨first, rest, hrest, hfollows⟩
    · cases heq
      exact .inr ⟨answer, [], rfl, .start⟩
    · refine .inr ⟨first, rest ++ [_], ?_, .ask answer hfollows⟩
      rw [hrest, List.cons_append]

end Plan

end AuthCore.Cache
