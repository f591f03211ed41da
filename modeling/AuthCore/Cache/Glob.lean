/-!
Patterns for keys: a star stands for any text, a question mark for any one character, and a
backslash takes away the meaning of the character after it. Brackets stand for themselves.
-/

set_option autoImplicit false

namespace AuthCore.Cache.Glob

inductive Token where
  | any
  | one
  | literal (c : Char)
deriving DecidableEq

/-- The tokens of a pattern. A backslash at the end stands for itself. -/
def tokens : List Char → List Token
  | [] => []
  | ['\\'] => [.literal '\\']
  | '\\' :: c :: cs => .literal c :: tokens cs
  | '*' :: cs => .any :: tokens cs
  | '?' :: cs => .one :: tokens cs
  | c :: cs => .literal c :: tokens cs

inductive Matches : List Token → List Char → Prop where
  | nil : Matches [] []
  | anyNone {ts : List Token} {cs : List Char} : Matches ts cs → Matches (.any :: ts) cs
  | anyMore {ts : List Token} {c : Char} {cs : List Char} :
      Matches (.any :: ts) cs → Matches (.any :: ts) (c :: cs)
  | one {ts : List Token} {c : Char} {cs : List Char} :
      Matches ts cs → Matches (.one :: ts) (c :: cs)
  | literal {ts : List Token} {c : Char} {cs : List Char} :
      Matches ts cs → Matches (.literal c :: ts) (c :: cs)

/-- Whether a token stands for one character. A star stands for none at once: it is passed. -/
def Token.takes : Token → Char → Bool
  | .any, _ => false
  | .one, _ => true
  | .literal d, c => d == c

/-- Tokens that are tried at the front of a key. -/
structure Attempt where
  tokens : List Token
  key : List Char

/-- Where a search stands: what is left of its attempt and, behind a star, that attempt as it
began. Of several stars only the last is kept. -/
structure Position extends Attempt where
  star : Option Attempt

inductive Step where
  | answer (found : Bool)
  | move (next : Position)

namespace Position

def start (ts : List Token) (key : List Char) : Position := ⟨⟨ts, key⟩, none⟩

def behindStar (a : Attempt) : Position := ⟨a, some a⟩

/-- The last star takes in one more character. -/
def retry (p : Position) : Step :=
  match p.star with
  | some ⟨ts, _ :: cs⟩ => .move (behindStar ⟨ts, cs⟩)
  | _ => .answer false

def step (p : Position) : Step :=
  match p.tokens, p.key with
  | ts, [] => .answer (ts.all (· == .any))
  | .any :: ts, c :: cs => .move (behindStar ⟨ts, c :: cs⟩)
  | t :: ts, c :: cs => if t.takes c then .move ⟨⟨ts, cs⟩, p.star⟩ else p.retry
  | [], _ :: _ => p.retry

def width (p : Position) : Nat := max p.tokens.length (p.star.elim 0 fun a => a.tokens.length)

def reach (p : Position) : Nat := max p.key.length (p.star.elim 0 fun a => a.key.length)

/-- A bound on the moves to come. The last star may begin once more at each place that is left to
it, and each time as many tokens are tried as stand behind it. -/
def rank (p : Position) : Nat := (p.width + 1) * p.reach + p.tokens.length

theorem rank_behindStar (ts : List Token) (cs : List Char) :
    (behindStar ⟨ts, cs⟩).rank = (ts.length + 1) * cs.length + ts.length := by
  simp [rank, width, reach, behindStar]

theorem rank_retry_lt {p q : Position} (h : p.retry = .move q) : q.rank < p.rank := by
  unfold retry at h
  split at h
  · rename_i ts c cs hstar
    cases h
    have hwidth : ts.length ≤ p.width := by
      rw [width, hstar]
      exact Nat.le_max_right ..
    have hreach : cs.length + 1 ≤ p.reach := by
      rw [reach, hstar]
      exact Nat.le_max_right ..
    have hless : (ts.length + 1) * (cs.length + 1) ≤ (p.width + 1) * p.reach :=
      Nat.mul_le_mul (by omega) hreach
    rw [Nat.mul_add_one] at hless
    rw [rank_behindStar, rank]
    omega
  · cases h

theorem rank_step_lt {p q : Position} (h : p.step = .move q) : q.rank < p.rank := by
  unfold step at h
  split at h
  · cases h
  · rename_i ts c cs htokens hkey
    cases h
    have hwidth : ts.length + 1 ≤ p.width := by
      rw [width, htokens]
      exact Nat.le_max_left ..
    have hreach : cs.length + 1 ≤ p.reach := by
      rw [reach, hkey]
      exact Nat.le_max_left ..
    have hless : (ts.length + 1) * (cs.length + 1) ≤ (p.width + 1) * p.reach :=
      Nat.mul_le_mul (by omega) hreach
    rw [rank_behindStar, rank, htokens, List.length_cons, List.length_cons]
    omega
  · rename_i t ts c cs _ htokens hkey
    split at h
    · cases h
      have hwidth : width ⟨⟨ts, cs⟩, p.star⟩ ≤ p.width := by
        simp only [width, htokens, List.length_cons]
        omega
      have hreach : reach ⟨⟨ts, cs⟩, p.star⟩ ≤ p.reach := by
        simp only [reach, hkey, List.length_cons]
        omega
      have hless := Nat.mul_le_mul (Nat.add_le_add_right hwidth 1) hreach
      simp only [rank, htokens, List.length_cons]
      omega
    · exact rank_retry_lt h
  · exact rank_retry_lt h

/-- Moves until there is an answer. -/
def run (p : Position) : Bool :=
  match _h : p.step with
  | .answer found => found
  | .move q => q.run
termination_by p.rank
decreasing_by exact rank_step_lt _h

end Position

def matchesTokens (ts : List Token) (key : List Char) : Bool := (Position.start ts key).run

def isMatch (pattern key : String) : Bool := matchesTokens (tokens pattern.toList) key.toList

def isSpecial (c : Char) : Bool := c == '*' || c == '?' || c == '[' || c == ']' || c == '\\'

def escapeChars : List Char → List Char
  | [] => []
  | c :: cs => if isSpecial c then '\\' :: c :: escapeChars cs else c :: escapeChars cs

def escape (text : String) : String := String.ofList (escapeChars text.toList)

/-- The pattern of the keys under a namespace that `pattern` stands for without it. -/
def namespaced (space pattern : String) : String := escape space ++ pattern

end AuthCore.Cache.Glob
