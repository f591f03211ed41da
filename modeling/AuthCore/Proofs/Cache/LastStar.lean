import AuthCore.Cache.Glob

/-!
The search for a match keeps one star only and still decides what the tokens stand for. Behind a
star, whatever an earlier star could have found, the last one finds too: between the two no star
stands, so the earlier one would only bring the search to a later place of the same key.
-/

set_option autoImplicit false

namespace AuthCore.Cache.Glob

theorem matches_any_nil {ts : List Token} : Matches (.any :: ts) [] ↔ Matches ts [] := by
  constructor
  · intro h
    cases h
    assumption
  · exact .anyNone

theorem matches_any_cons {ts : List Token} {c : Char} {cs : List Char} :
    Matches (.any :: ts) (c :: cs) ↔ Matches ts (c :: cs) ∨ Matches (.any :: ts) cs := by
  constructor
  · intro h
    cases h with
    | anyNone h => exact .inl h
    | anyMore h => exact .inr h
  · rintro (h | h)
    · exact .anyNone h
    · exact .anyMore h

theorem matches_any_iff {ts : List Token} {key : List Char} :
    Matches (.any :: ts) key ↔ ∃ skipped rest, key = skipped ++ rest ∧ Matches ts rest := by
  constructor
  · intro h
    induction key with
    | nil => exact ⟨[], [], rfl, matches_any_nil.mp h⟩
    | cons c cs ih =>
      rcases matches_any_cons.mp h with h | h
      · exact ⟨[], c :: cs, rfl, h⟩
      · obtain ⟨skipped, rest, rfl, hrest⟩ := ih h
        exact ⟨c :: skipped, rest, rfl, hrest⟩
  · rintro ⟨skipped, rest, rfl, hrest⟩
    induction skipped with
    | nil => exact .anyNone hrest
    | cons c skipped ih => exact .anyMore ih

theorem matches_cons_iff {t : Token} (ht : t ≠ .any) {ts : List Token} {key : List Char} :
    Matches (t :: ts) key ↔ ∃ c cs, key = c :: cs ∧ t.takes c = true ∧ Matches ts cs := by
  constructor
  · intro h
    cases h with
    | anyNone | anyMore => exact absurd rfl ht
    | one h => exact ⟨_, _, rfl, rfl, h⟩
    | literal h => exact ⟨_, _, rfl, beq_self_eq_true _, h⟩
  · rintro ⟨c, cs, rfl, htakes, h⟩
    cases t with
    | any => exact absurd rfl ht
    | one => exact .one h
    | literal d =>
      rw [show d = c from beq_iff_eq.mp htakes]
      exact .literal h

theorem matches_cons_cons {t : Token} (ht : t ≠ .any) {ts : List Token} {c : Char} {cs : List Char}
    (htakes : t.takes c = true) : Matches (t :: ts) (c :: cs) ↔ Matches ts cs := by
  rw [matches_cons_iff ht]
  constructor
  · rintro ⟨_, _, heq, _, h⟩
    cases heq
    exact h
  · intro h
    exact ⟨c, cs, rfl, htakes, h⟩

theorem matches_nil_iff {ts : List Token} : Matches ts [] ↔ ts.all (· == .any) = true := by
  induction ts with
  | nil => simp [Matches.nil]
  | cons t ts ih =>
    by_cases ht : t = .any
    · rw [ht, matches_any_nil, ih]
      simp
    · rw [matches_cons_iff ht]
      simp [ht]

theorem exists_rest_of_matches {passed ts : List Token} (hfree : Token.any ∉ passed)
    {key : List Char} (h : Matches (passed ++ ts) key) :
    ∃ front rest, key = front ++ rest ∧ front.length = passed.length ∧ Matches ts rest := by
  induction passed generalizing key with
  | nil => exact ⟨[], key, rfl, rfl, h⟩
  | cons t passed ih =>
    rw [List.mem_cons, not_or] at hfree
    obtain ⟨c, cs, rfl, _, hcs⟩ := (matches_cons_iff (Ne.symm hfree.1)).mp h
    obtain ⟨front, rest, rfl, hlength, hrest⟩ := ih hfree.2 hcs
    exact ⟨c :: front, rest, rfl, congrArg (· + 1) hlength, hrest⟩

namespace Position

inductive Goes (p : Position) : Step → Prop where
  | ended (hkey : p.key = []) : Goes p (.answer (p.tokens.all (· == .any)))
  | passed {ts : List Token} (htokens : p.tokens = .any :: ts) :
    Goes p (.move (behindStar ⟨ts, p.key⟩))
  | taken {t : Token} {ts : List Token} {c : Char} {cs : List Char} (hstar : t ≠ .any)
    (htokens : p.tokens = t :: ts) (hkey : p.key = c :: cs) (htakes : t.takes c = true) :
    Goes p (.move ⟨⟨ts, cs⟩, p.star⟩)
  | retried {ts : List Token} {c : Char} {cs : List Char} (hmiss : ¬ Matches p.tokens p.key)
    (hstar : p.star = some ⟨ts, c :: cs⟩) : Goes p (.move (behindStar ⟨ts, cs⟩))
  | failed (hmiss : ¬ Matches p.tokens p.key)
    (hstar : ∀ ts c cs, p.star ≠ some ⟨ts, c :: cs⟩) : Goes p (.answer false)

theorem goes_retry {p : Position} (hmiss : ¬ Matches p.tokens p.key) : p.Goes p.retry := by
  unfold retry
  split
  · exact .retried hmiss ‹_›
  · rename_i hnone
    exact .failed hmiss hnone

theorem goes_step (p : Position) : p.Goes p.step := by
  unfold step
  split
  · exact .ended ‹_›
  · rename_i ts c cs htokens hkey
    rw [← hkey]
    exact .passed htokens
  · rename_i t ts c cs hstar htokens hkey
    split
    · exact .taken hstar htokens hkey ‹_›
    · rename_i htakes
      apply goes_retry
      rw [htokens, hkey, matches_cons_iff hstar]
      rintro ⟨_, _, heq, htakes', _⟩
      cases heq
      exact htakes htakes'
  · rename_i htokens hkey
    apply goes_retry
    rw [htokens, hkey]
    exact nofun

def Later (p : Position) : Prop :=
  ∃ ts c cs, p.star = some ⟨ts, c :: cs⟩ ∧ Matches (.any :: ts) cs

def Accepts (p : Position) : Prop := Matches p.tokens p.key ∨ p.Later

/-- No star has been passed since the last one: as many characters are gone as tokens. -/
def Traced (p : Position) : Prop :=
  ∀ a, p.star = some a → ∃ passed taken, Token.any ∉ passed ∧ passed.length = taken.length ∧
    a.tokens = passed ++ p.tokens ∧ a.key = taken ++ p.key

theorem traced_start (ts : List Token) (key : List Char) : (start ts key).Traced := nofun

theorem traced_behindStar (a : Attempt) : (behindStar a).Traced := by
  rintro _ ⟨⟩
  exact ⟨[], [], List.not_mem_nil, rfl, rfl, rfl⟩

theorem later_iff {p : Position} {ts : List Token} {c : Char} {cs : List Char}
    (hstar : p.star = some ⟨ts, c :: cs⟩) : p.Later ↔ Matches (.any :: ts) cs := by
  constructor
  · rintro ⟨_, _, _, hstar', h⟩
    rw [hstar] at hstar'
    cases hstar'
    exact h
  · intro h
    exact ⟨ts, c, cs, hstar, h⟩

theorem accepts_behindStar {ts : List Token} {cs : List Char} :
    (behindStar ⟨ts, cs⟩).Accepts ↔ Matches (.any :: ts) cs := by
  cases cs with
  | nil => simp [Accepts, Later, behindStar, matches_any_nil]
  | cons c cs => rw [Accepts, later_iff rfl, behindStar, matches_any_cons]

/-- A later attempt of the last star comes to the tokens that are left at a later place only. -/
theorem Traced.exists_rest {p : Position} (hp : p.Traced) (h : p.Later) :
    ∃ skipped rest, skipped ≠ [] ∧ p.key = skipped ++ rest ∧ Matches p.tokens rest := by
  obtain ⟨ts, c, cs, hstar, hmatch⟩ := h
  obtain ⟨passed, taken, hfree, hlength, htokens, hkey⟩ := hp _ hstar
  dsimp only at htokens hkey
  obtain ⟨skipped, tail, rfl, htail⟩ := matches_any_iff.mp hmatch
  rw [htokens] at htail
  obtain ⟨front, rest, rfl, hfront, hrest⟩ := exists_rest_of_matches hfree htail
  have hcut : (c :: skipped ++ front) ++ rest = taken ++ p.key := by simpa using hkey
  rcases List.append_eq_append_iff.mp hcut with ⟨more, htaken, _⟩ | ⟨more, hmore, hkey⟩
  · have hlong := congrArg List.length htaken
    simp only [List.length_append, List.length_cons] at hlong
    omega
  · refine ⟨more, rest, ?_, hkey, hrest⟩
    rintro rfl
    have hlong := congrArg List.length hmore
    simp only [List.length_append, List.length_cons, List.length_nil] at hlong
    omega

theorem Goes.accepts_of_move {p q : Position} (hp : p.Traced) (h : p.Goes (.move q)) :
    q.Traced ∧ (q.Accepts ↔ p.Accepts) := by
  cases h with
  | passed htokens =>
    refine ⟨traced_behindStar _, ?_⟩
    rw [accepts_behindStar, Accepts, htokens]
    refine ⟨.inl, ?_⟩
    rintro (h | hlater)
    · exact h
    · obtain ⟨skipped, rest, _, hkey, hrest⟩ := hp.exists_rest hlater
      rw [htokens] at hrest
      obtain ⟨more, tail, rfl, htail⟩ := matches_any_iff.mp hrest
      exact matches_any_iff.mpr ⟨skipped ++ more, tail, by simpa using hkey, htail⟩
  | taken hstar htokens hkey htakes =>
    constructor
    · intro a ha
      obtain ⟨passed, taken, hfree, hlength, hats, hacs⟩ := hp a ha
      rw [htokens] at hats
      rw [hkey] at hacs
      refine ⟨passed ++ [_], taken ++ [_], ?_, ?_, by simpa using hats, by simpa using hacs⟩
      · simpa [hfree] using Ne.symm hstar
      · simpa using hlength
    · rw [Accepts, Accepts, htokens, hkey, matches_cons_cons hstar htakes]
      rfl
  | retried hmiss hstar =>
    refine ⟨traced_behindStar _, ?_⟩
    rw [accepts_behindStar, Accepts, later_iff hstar]
    simp [hmiss]

theorem Goes.accepts_of_answer {p : Position} (hp : p.Traced) {found : Bool}
    (h : p.Goes (.answer found)) : found = true ↔ p.Accepts := by
  cases h with
  | ended hkey =>
    have hlater : ¬ p.Later := by
      intro h
      obtain ⟨skipped, rest, hne, hcut, _⟩ := hp.exists_rest h
      rw [hkey] at hcut
      exact hne (List.append_eq_nil_iff.mp hcut.symm).1
    rw [Accepts, hkey, matches_nil_iff]
    simp [hlater]
  | failed hmiss hstar =>
    have hlater : ¬ p.Later := fun ⟨ts, c, cs, h, _⟩ => hstar ts c cs h
    simp [Accepts, hmiss, hlater]

theorem run_eq_true_iff {p : Position} (hp : p.Traced) : p.run = true ↔ p.Accepts := by
  fun_induction run p with
  | case1 p found h => exact Goes.accepts_of_answer hp (h ▸ p.goes_step)
  | case2 p q h ih =>
    obtain ⟨hq, haccepts⟩ := Goes.accepts_of_move hp (h ▸ p.goes_step)
    rw [ih hq, haccepts]

/-- The answer that the steps from a position come to, with their number. -/
inductive Ends : Position → Nat → Bool → Prop where
  | answer {p : Position} {found : Bool} (h : p.step = .answer found) : Ends p 1 found
  | move {p q : Position} {count : Nat} {found : Bool} (h : p.step = .move q)
    (hq : Ends q count found) : Ends p (count + 1) found

theorem ends_run (p : Position) : ∃ count ≤ p.rank + 1, p.Ends count p.run := by
  fun_induction run p with
  | case1 p found h => exact ⟨1, by omega, .answer h⟩
  | case2 p q h ih =>
    obtain ⟨count, hcount, hends⟩ := ih
    have hless := rank_step_lt h
    exact ⟨count + 1, by omega, .move h hends⟩

end Position

theorem matchesTokens_iff (ts : List Token) (key : List Char) :
    matchesTokens ts key = true ↔ Matches ts key := by
  rw [matchesTokens, Position.run_eq_true_iff (Position.traced_start ts key)]
  simp [Position.Accepts, Position.Later, Position.start]

theorem matchesTokens_ends (ts : List Token) (key : List Char) :
    ∃ count ≤ (ts.length + 1) * (key.length + 1),
      (Position.start ts key).Ends count (matchesTokens ts key) := by
  obtain ⟨count, hcount, hends⟩ := (Position.start ts key).ends_run
  have hrank : (Position.start ts key).rank = (ts.length + 1) * key.length + ts.length := by
    simp [Position.rank, Position.width, Position.reach, Position.start]
  refine ⟨count, ?_, hends⟩
  rw [Nat.mul_add_one]
  omega

end AuthCore.Cache.Glob
