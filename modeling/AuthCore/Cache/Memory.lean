import AuthCore.Cache.Glob
import AuthCore.Cache.Handle
import AuthCore.Cache.Request

set_option autoImplicit false

namespace AuthCore.Cache

structure Entry where
  key : String
  value : Bytes
  /-- Nanoseconds since 1970-01-01T00:00:00Z. -/
  deadline : Int

def Entry.isLive (e : Entry) (now : Time.Instant) : Bool := decide (now.toNanos < e.deadline)

def replaceIn (e : Entry) : List Entry → List Entry
  | [] => [e]
  | x :: xs => if x.key = e.key then e :: xs else x :: replaceIn e xs

theorem mem_keys_replaceIn {e : Entry} {xs : List Entry} {key : String}
    (h : key ∈ (replaceIn e xs).map Entry.key) : key = e.key ∨ key ∈ xs.map Entry.key := by
  induction xs with
  | nil => simpa [replaceIn] using h
  | cons x xs ih =>
    unfold replaceIn at h
    split at h
    · exact (List.mem_cons.mp h).imp_right (List.mem_cons_of_mem x.key)
    · rw [List.map_cons, List.mem_cons] at h ⊢
      rcases h with h | h
      · exact .inr (.inl h)
      · exact (ih h).imp_right .inr

theorem nodup_keys_replaceIn (e : Entry) {xs : List Entry} (h : (xs.map Entry.key).Nodup) :
    ((replaceIn e xs).map Entry.key).Nodup := by
  induction xs with
  | nil => simp [replaceIn]
  | cons x xs ih =>
    obtain ⟨hnew, hrest⟩ := List.nodup_cons.mp h
    unfold replaceIn
    split
    · rename_i hkey
      exact List.nodup_cons.mpr ⟨hkey ▸ hnew, hrest⟩
    · rename_i hkey
      refine List.nodup_cons.mpr ⟨fun hmem => ?_, ih hrest⟩
      rcases mem_keys_replaceIn hmem with heq | hmem
      · exact hkey heq
      · exact hnew hmem

structure Entries where
  /-- The greatest number of entries; with none, nothing is kept. -/
  capacity : Nat
  all : List Entry
  distinct : (all.map Entry.key).Nodup

namespace Entries

def empty (capacity : Nat) : Entries := ⟨capacity, [], .nil⟩

def find (es : Entries) (key : String) : Option Entry := es.all.find? fun e => e.key == key

def live (es : Entries) (key : String) (now : Time.Instant) : Option Entry :=
  (es.find key).filter fun e => e.isLive now

def put (es : Entries) (e : Entry) : Entries :=
  if es.capacity = 0 then es
  else ⟨es.capacity, replaceIn e es.all, nodup_keys_replaceIn e es.distinct⟩

def erase (es : Entries) (key : String) : Entries :=
  ⟨es.capacity, es.all.filter fun e => e.key != key,
    es.distinct.sublist (List.filter_sublist.map Entry.key)⟩

def keys (es : Entries) (pattern : String) (now : Time.Instant) : List String :=
  (es.all.filter fun e => e.isLive now && Glob.isMatch pattern e.key).map Entry.key

end Entries

structure Memory where
  handle : Handle Entries
  defaultTtlSeconds : Nat

namespace Memory

def new (capacity defaultTtlSeconds : Nat) : Memory :=
  ⟨.new "memory cache" (.empty capacity), defaultTtlSeconds⟩

def withEntries (m : Memory) (es : Entries) : Memory := { m with handle := m.handle.update es }

def read {α : Type} (m : Memory) (f : Entries → α) : Except Failure α × Memory :=
  (m.handle.acquire.map f, m)

def write (m : Memory) (f : Entries → Entries) : Except Failure Unit × Memory :=
  match m.handle.acquire with
  | .ok es => (.ok (), m.withEntries (f es))
  | .error e => (.error e, m)

def put (m : Memory) (now : Time.Instant) (key : String) (value : Bytes) (lifetime : Nat) :
    Except Failure Unit × Memory :=
  m.write fun es => es.put ⟨key, value, now.toNanos + lifetime⟩

def answer (r : Request) (now : Time.Instant) (m : Memory) : Except Failure r.Answer × Memory :=
  match r with
  | .get key => m.read fun es => (es.live key now).map Entry.value
  | .set key value lifetime => m.put now key value lifetime
  | .setDefault key value => m.put now key value (m.defaultTtlSeconds * Time.nanosPerSecond)
  | .delete key => m.write fun es => es.erase key
  | .has key => m.read fun es => (es.live key now).isSome
  | .scan pattern => m.read fun es => es.keys pattern now
  | .health => m.read fun _ => true
  | .close =>
    let (answer, handle) := m.handle.release
    (answer, { m with handle := handle })

def backend : Backend Memory := ⟨answer⟩

end Memory

end AuthCore.Cache
