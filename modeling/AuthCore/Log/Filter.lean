import AuthCore.Text.Blank
import AuthCore.Text.Decimal
import AuthCore.Text.Split

/-!
Which log lines are shown. A filter is a list of directives with commas between them. A directive
gives a verbosity to all targets, or to those that begin with its own target. Of the directives that
apply to a line the one with the longest target counts, and of equal targets the last.
-/

set_option autoImplicit false

namespace AuthCore.Log

inductive Level where
  | error
  | warn
  | info
  | debug
  | trace
deriving DecidableEq

namespace Level

def rank : Level → Nat
  | error => 1
  | warn => 2
  | info => 3
  | debug => 4
  | trace => 5

def label : Level → String
  | error => "ERROR"
  | warn => "WARN"
  | info => "INFO"
  | debug => "DEBUG"
  | trace => "TRACE"

end Level

/-- Nothing is shown at zero, errors alone at one, everything at five. -/
abbrev Verbosity := Nat

def verbosityNames : List (String × Verbosity) :=
  [("off", 0), ("error", 1), ("warn", 2), ("info", 3), ("debug", 4), ("trace", 5)]

def verbosity? (cs : List Char) : Option Verbosity :=
  match Text.Decimal.readBelow? limit64 cs with
  | some n => if n ≤ 5 then some n else none
  | none =>
    if cs.isEmpty then some 1 else verbosityNames.lookup (String.ofList (cs.map Char.toLower))

structure Directive where
  target : List Char
  verbosity : Verbosity
  /-- A directive about spans shows no line outside them. -/
  inSpan : Bool := false
deriving DecidableEq

inductive Refusal where
  | malformed
  | badVerbosity

def Refusal.message : Refusal → String
  | malformed => "invalid filter directive"
  | badVerbosity =>
    "error parsing level filter: expected one of \"off\", \"error\", \"warn\", \"info\", " ++
      "\"debug\", \"trace\", or a number 0-5"

def startsTarget (c : Char) : Bool :=
  c.isAlphanum || c == '-' || c == ':' || c == '_' || decide (0x80 ≤ c.toNat)

namespace Directive

/-- The verbosity after a target. A target without one shows everything. -/
def withVerbosity (target : List Char) (inSpan : Bool) : List Char → Except Refusal Directive
  | [] => .ok ⟨target, 5, inSpan⟩
  | ['='] => .ok ⟨target, 5, inSpan⟩
  | '=' :: cs =>
    match verbosity? cs with
    | some v => .ok ⟨target, v, inSpan⟩
    | none => .error .badVerbosity
  | _ => .error .malformed

def read (text : List Char) : Except Refusal Directive :=
  let cs := (Text.dropBlanks (Text.dropBlanks text).reverse).reverse
  let target := cs.takeWhile fun c => c != '=' && c != '['
  if (cs.head?.any fun c => startsTarget c || c == '[') then
    match cs.drop target.length with
    | [] =>
      match verbosity? target with
      | some v => .ok ⟨[], v, false⟩
      | none => .ok ⟨target, 5, false⟩
    | '[' :: span =>
      match Text.splitOnce ']' span with
      | some (_, rest) => withVerbosity target true rest
      | none => .error .malformed
    | rest => withVerbosity target false rest
  else .error .malformed

def applies (d : Directive) (target : List Char) : Bool := !d.inSpan && d.target.isPrefixOf target

end Directive

abbrev Filter := List Directive

namespace Filter

def pieces (text : String) : List (List Char) :=
  (Text.split ',' text.toList).filter fun piece => !piece.isEmpty

def ofText? (text : String) : Option Filter :=
  (pieces text).mapM fun piece => (Directive.read piece).toOption

/-- The well-formed directives of a text; where there is none, errors alone are shown. -/
def ofText (text : String) : Filter :=
  match (pieces text).filterMap fun piece => (Directive.read piece).toOption with
  | [] => [⟨[], 1, false⟩]
  | ds => ds

def complaints (text : String) : List String :=
  (pieces text).filterMap fun piece =>
    match Directive.read piece with
    | .ok _ => none
    | .error r => some ("ignoring `" ++ String.ofList piece ++ "`: " ++ r.message)

/-- The later directive, unless the earlier one has a longer target. -/
def moreSpecific (best : Option Directive) (d : Directive) : Option Directive :=
  match best with
  | some b => if b.target.length ≤ d.target.length then some d else some b
  | none => some d

def decisive (f : Filter) (target : String) : Option Directive :=
  (f.filter fun d => d.applies target.toList).foldl moreSpecific none

def shows (f : Filter) (level : Level) (target : String) : Bool :=
  match f.decisive target with
  | some d => decide (level.rank ≤ d.verbosity)
  | none => false

end Filter

end AuthCore.Log
