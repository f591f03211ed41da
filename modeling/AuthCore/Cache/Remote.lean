import AuthCore.Cache.Glob
import AuthCore.Cache.Handle
import AuthCore.Cache.Request
import AuthCore.Text.Decimal

/-!
A cache on a key-value server. Every key carries the client's namespace on the server and none
outside. Each command has a deadline; what a reply may be depends on the command.
-/

set_option autoImplicit false

namespace AuthCore.Cache

namespace Remote

inductive Reply where
  | bulk (bs : Bytes)
  | status (s : String)
  | int (i : Int)
  | error (message : String)
  | nil
  | list (items : List Reply)

inductive Outcome where
  | reply (r : Reply)
  | silence
  | lost

abbrev Command := List Bytes

abbrev Server (σ : Type) := Time.Instant → Command → σ → Outcome × σ

def arg (s : String) : Bytes := Text.Utf8.encode s

def number (n : Nat) : Bytes := arg (Text.Decimal.write n)

namespace Reply

/-- Text in a bulk string or a status, or a number as text. -/
def text? : Reply → Option String
  | bulk bs => Text.Utf8.decode? bs
  | status s => some s
  | int i => some ((if i < 0 then "-" else "") ++ Text.Decimal.write i.natAbs)
  | _ => none

def value? : Reply → Option (Option Bytes)
  | bulk bs => some (some bs)
  | nil => some none
  | _ => none

def accepted? : Reply → Option Unit
  | error _ => none
  | _ => some ()

def count? : Reply → Option Int
  | int i => some i
  | bulk bs => (Text.Utf8.decode? bs).bind fun s => Text.Decimal.readInt64? s.toList
  | status s => Text.Decimal.readInt64? s.toList
  | _ => none

def truth? : Reply → Option Bool
  | int i => some (i != 0)
  | nil => some false
  | status s => if s = "OK" then some true else none
  | _ => none

/-- Where a scan goes on: a number of 64 bits. A number below zero stands for its residue. -/
def cursor? : Reply → Option Nat
  | int i => some (i % limit64).toNat
  | bulk bs => (Text.Utf8.decode? bs).bind fun s => Text.Decimal.readBelow? limit64 s.toList
  | status s => Text.Decimal.readBelow? limit64 s.toList
  | _ => none

/-- A text alone stands for a list of one, and nil for none. -/
def keys? : Reply → Option (List String)
  | list items => items.mapM text?
  | bulk bs => (Text.Utf8.decode? bs).map ([·])
  | nil => some []
  | _ => none

/-- One page of a scan: where the next begins, zero after the last, and keys. -/
def page? : Reply → Option (Nat × List String)
  | list [cursor, keys] => do
    return (← cursor.cursor?, ← keys.keys?)
  | _ => none

end Reply

/-- Lifetimes are sent in milliseconds, within 64 bits and never zero. -/
def milliseconds (lifetime : Nat) : Nat :=
  max 1 (min (lifetime / 1000000) (limit64 - 1))

def insertKey (key : String) : List String → List String
  | [] => [key]
  | k :: ks =>
    if key < k then key :: k :: ks else if key = k then k :: ks else k :: insertKey key ks

def sortKeys (keys : List String) : List String := keys.foldr insertKey []

end Remote

open Remote

structure Remote where
  handle : Handle Unit
  keyPrefix : String
  timeoutMs : Nat
  defaultTtlSeconds : Nat
  batch : Nat

namespace Remote

def prefixed (c : Remote) (key : String) : String := c.keyPrefix ++ key

/-- The key without the namespace; a key outside it is kept. -/
def unprefixed (c : Remote) (key : String) : String :=
  if c.keyPrefix.toList.isPrefixOf key.toList then
    String.ofList (key.toList.drop c.keyPrefix.toList.length)
  else key

variable {σ α : Type}

def exchange (c : Remote) (server : Server σ) (now : Time.Instant) (name : String)
    (command : Command) (read : Reply → Option α) (s : σ) : Except Failure α × σ :=
  let (outcome, s) := server now command s
  match outcome with
  | .silence => (.error (.commandTimedOut name c.timeoutMs), s)
  | .lost => (.error (.commandFailed name "connection lost"), s)
  | .reply r =>
    match read r with
    | some a => (.ok a, s)
    | none => (.error (.commandFailed name "unexpected reply"), s)

def scanCommand (c : Remote) (cursor : Nat) (pattern : String) : Command :=
  [arg "SCAN", number cursor, arg "MATCH", arg pattern, arg "COUNT", number c.batch]

def turn (c : Remote) (server : Server σ) (now : Time.Instant) (pattern : String) :
    Nat × List String × σ → (Nat × List String × σ) ⊕ (Except Failure (List String) × σ)
  | (cursor, found, s) =>
    match c.exchange server now "SCAN" (c.scanCommand cursor pattern) Reply.page? s with
    | (.error f, s) => .inr (.error f, s)
    | (.ok (next, keys), s) =>
      if next = 0 then .inr (.ok (found ++ keys), s) else .inl (next, found ++ keys, s)

/-- Goes from page to page until one says that there is no next. Nothing is said of a scan that
never comes to such a page. -/
def scanFrom (c : Remote) (server : Server σ) (now : Time.Instant) (pattern : String)
    (cursor : Nat) (found : List String) (s : σ) : Except Failure (List String) × σ :=
  have : Nonempty (Except Failure (List String) × σ) := ⟨.ok [], s⟩
  repeatM (m := Id) (c.turn server now pattern) (cursor, found, s)

def setCommand (c : Remote) (key : String) (value : Bytes) (lifetime : Nat) : Command :=
  [arg "SET", arg (c.prefixed key), value, arg "PX", number (milliseconds lifetime)]

def perform (c : Remote) (server : Server σ) (r : Request) (now : Time.Instant) (s : σ) :
    Except Failure r.Answer × σ :=
  match r with
  | .get key =>
    c.exchange server now "GET" [arg "GET", arg (c.prefixed key)] Reply.value? s
  | .set key value lifetime =>
    c.exchange server now "SET" (c.setCommand key value lifetime) Reply.accepted? s
  | .setDefault key value =>
    c.exchange server now "SET"
      (c.setCommand key value (c.defaultTtlSeconds * Time.nanosPerSecond)) Reply.accepted? s
  | .delete key =>
    c.exchange server now "DEL" [arg "DEL", arg (c.prefixed key)]
      (fun r => r.count?.map fun _ => ()) s
  | .has key =>
    c.exchange server now "EXISTS" [arg "EXISTS", arg (c.prefixed key)] Reply.truth? s
  | .scan pattern =>
    let (answer, s) := c.scanFrom server now (Glob.namespaced c.keyPrefix pattern) 0 [] s
    (answer.map fun keys => sortKeys (keys.map c.unprefixed), s)
  | .health =>
    c.exchange server now "PING" [arg "PING"] (fun r => r.text?.map fun t => t == "PONG") s
  | .close => (.ok false, s)

def answer (server : Server σ) (r : Request) (now : Time.Instant) (s : Remote × σ) :
    Except Failure r.Answer × Remote × σ :=
  let (c, t) := s
  match r with
  | .close =>
    let (answer, handle) := c.handle.release
    (answer, { c with handle := handle }, t)
  | r =>
    match c.handle.acquire with
    | .error f => (.error f, c, t)
    | .ok _ =>
      let (answer, t) := c.perform server r now t
      (answer, c, t)

def backend (server : Server σ) : Backend (Remote × σ) := ⟨answer server⟩

end Remote

end AuthCore.Cache
