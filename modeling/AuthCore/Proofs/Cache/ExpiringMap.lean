import AuthCore.Proofs.Cache.MemoryView
import AuthCore.Proofs.Time.Timeline

set_option autoImplicit false

namespace AuthCore.Cache

/-- A value that holds until its deadline, in nanoseconds since 1970-01-01T00:00:00Z. -/
structure Lease (ν : Type) where
  value : ν
  deadline : Int

namespace Lease

variable {ν μ : Type}

def isLive (l : Lease ν) (now : Time.Instant) : Bool := decide (now.toNanos < l.deadline)

def map (f : ν → μ) (l : Lease ν) : Lease μ := ⟨f l.value, l.deadline⟩

end Lease

/-- What was put under each key and not taken away, expired or not. -/
def ExpiringMap (κ ν : Type) := κ → Option (Lease ν)

namespace ExpiringMap

variable {κ ν μ : Type}

def empty : ExpiringMap κ ν := fun _ => none

def live (m : ExpiringMap κ ν) (now : Time.Instant) (key : κ) : Option (Lease ν) :=
  (m key).filter fun l => l.isLive now

def get (m : ExpiringMap κ ν) (now : Time.Instant) (key : κ) : Option ν :=
  (m.live now key).map Lease.value

def map (f : ν → μ) (m : ExpiringMap κ ν) : ExpiringMap κ μ := fun key => (m key).map (Lease.map f)

theorem get_map (f : ν → μ) (m : ExpiringMap κ ν) (now : Time.Instant) (key : κ) :
    (m.map f).get now key = (m.get now key).map f := by
  unfold get live map
  cases m key with
  | none => rfl
  | some l =>
    have hsame : (l.map f).isLive now = l.isLive now := rfl
    rw [Option.map_some, Option.filter_some, Option.filter_some, hsame]
    split <;> rfl

def Agree (now : Time.Instant) (m m' : ExpiringMap κ ν) : Prop :=
  ∀ key, m.live now key = m'.live now key

theorem live_of_le {κ' : Type} {m : ExpiringMap κ ν} {m' : ExpiringMap κ' ν}
    {now later : Time.Instant} {key : κ} {key' : κ'} (hlater : now.toNanos ≤ later.toNanos)
    (h : m.live now key = m'.live now key') :
    m.live later key = m'.live later key' := by
  have hstill (o : Option (Lease ν)) : (o.filter fun l => l.isLive now).filter
      (fun l => l.isLive later) = o.filter fun l => l.isLive later := by
    rw [Option.filter_filter]
    congr 1
    funext l
    refine Bool.eq_iff_iff.mpr ?_
    simp only [Lease.isLive, Bool.and_eq_true, decide_eq_true_eq]
    omega
  unfold live at h ⊢
  rw [← hstill, h, hstill]

variable [DecidableEq κ]

def put (m : ExpiringMap κ ν) (key : κ) (l : Lease ν) : ExpiringMap κ ν :=
  fun k => if key = k then some l else m k

def erase (m : ExpiringMap κ ν) (key : κ) : ExpiringMap κ ν :=
  fun k => if key = k then none else m k

theorem live_put (m : ExpiringMap κ ν) (now : Time.Instant) (key : κ) (l : Lease ν) (k : κ) :
    (m.put key l).live now k =
      if key = k then (some l).filter fun l => l.isLive now else m.live now k := by
  unfold live put
  split <;> rfl

theorem live_erase (m : ExpiringMap κ ν) (now : Time.Instant) (key k : κ) :
    (m.erase key).live now k = if key = k then none else m.live now k := by
  unfold live erase
  split <;> rfl

theorem eq_or_of_put {m : ExpiringMap κ ν} {key k : κ} {l found : Lease ν}
    (h : m.put key l k = some found) : found = l ∨ m k = some found := by
  unfold put at h
  split at h
  · exact .inl (Option.some.inj h).symm
  · exact .inr h

theorem of_erase {m : ExpiringMap κ ν} {key k : κ} {found : Lease ν}
    (h : m.erase key k = some found) : m k = some found := by
  unfold erase at h
  split at h
  · cases h
  · exact h

theorem map_put (f : ν → μ) (m : ExpiringMap κ ν) (key : κ) (l : Lease ν) :
    (m.put key l).map f = (m.map f).put key (l.map f) := by
  funext k
  unfold map put
  split <;> rfl

theorem map_erase (f : ν → μ) (m : ExpiringMap κ ν) (key : κ) :
    (m.erase key).map f = (m.map f).erase key := by
  funext k
  unfold map erase
  split <;> rfl

end ExpiringMap

/-- What a map answers to a request, where the keys of a scan may come in any order, and what the
request makes of it. -/
def mapSpec (defaultTtlSeconds : Nat) :
    Time.Spec (fun r : Request => Except Failure r.Answer) (ExpiringMap String Bytes) where
  Allows
    | .get key, now, m, answer => answer = .ok (m.get now key)
    | .set .., _, _, answer | .setDefault .., _, _, answer | .delete _, _, _, answer =>
      answer = .ok ()
    | .has key, now, m, answer => answer = .ok (m.get now key).isSome
    | .scan pattern, now, m, answer => ∃ keys : List String, answer = .ok keys ∧ keys.Nodup ∧
      ∀ key, key ∈ keys ↔ Glob.isMatch pattern key = true ∧ (m.get now key).isSome = true
    | .health, _, _, answer => answer = .ok true
    | .close, _, _, _ => False
  next
    | .set key value lifetime, now, m => m.put key ⟨value, now.toNanos + lifetime⟩
    | .setDefault key value, now, m =>
      m.put key ⟨value, now.toNanos + (defaultTtlSeconds * Time.nanosPerSecond : Nat)⟩
    | .delete key, _, m => m.erase key
    | _, _, m => m

def Entry.lease (e : Entry) : Lease Bytes := ⟨e.value, e.deadline⟩

namespace Memory

/-- The cache keeps under each key what the map has there. -/
structure Mirrors (m : Memory) (defaultTtlSeconds : Nat) (map : ExpiringMap String Bytes) :
    Prop where
  keeps : m.Keeps
  ttl : m.defaultTtlSeconds = defaultTtlSeconds
  lease : ∀ key, (m.find key).map Entry.lease = map key

variable {m : Memory} {defaultTtlSeconds : Nat} {map : ExpiringMap String Bytes}

theorem mirrors_new {capacity : Nat} (h : capacity ≠ 0) (defaultTtlSeconds : Nat) :
    (Memory.new capacity defaultTtlSeconds).Mirrors defaultTtlSeconds .empty :=
  ⟨⟨_, rfl, h⟩, rfl, fun _ => rfl⟩

theorem Keeps.isOpen (h : m.Keeps) : m.IsOpen := by
  obtain ⟨es, hes, _⟩ := h
  exact isOpen_iff.mpr ⟨es, hes⟩

theorem keeps_write {f : Entries → Entries} (hf : ∀ es, (f es).capacity = es.capacity)
    (h : m.Keeps) : (m.write f).2.Keeps := by
  obtain ⟨es, hes, hafter⟩ := write_of_isOpen h.isOpen f
  obtain ⟨es', hes', hcapacity⟩ := h
  obtain rfl : es' = es := Except.ok.inj (hes'.symm.trans hes)
  exact ⟨_, hafter, by rwa [hf]⟩

theorem defaultTtlSeconds_write (m : Memory) (f : Entries → Entries) :
    (m.write f).2.defaultTtlSeconds = m.defaultTtlSeconds := by
  unfold write
  split <;> rfl

theorem Entries.capacity_put (es : Entries) (e : Entry) : (es.put e).capacity = es.capacity := by
  unfold Entries.put
  split <;> rfl

namespace Mirrors

theorem live (h : m.Mirrors defaultTtlSeconds map) (key : String) (now : Time.Instant) :
    (m.live key now).map Entry.lease = map.live now key := by
  rw [ExpiringMap.live, ← h.lease, Memory.live]
  cases hfind : m.find key with
  | none => rfl
  | some e =>
    have hsame : e.lease.isLive now = e.isLive now := rfl
    rw [Option.map_some, Option.filter_some, Option.filter_some, hsame]
    split <;> rfl

theorem get (h : m.Mirrors defaultTtlSeconds map) (key : String) (now : Time.Instant) :
    (m.live key now).map Entry.value = map.get now key := by
  rw [ExpiringMap.get, ← h.live, Option.map_map]
  rfl

theorem put (h : m.Mirrors defaultTtlSeconds map) {r : Request} {now : Time.Instant} {e : Entry}
    (hwritten : m.written? now r = some e) :
    (answer r now m).2.Mirrors defaultTtlSeconds (map.put e.key e.lease) := by
  refine ⟨?_, ?_, fun key => ?_⟩
  · rw [answer_written hwritten]
    exact keeps_write (fun es => Entries.capacity_put es e) h.keeps
  · rw [answer_written hwritten, defaultTtlSeconds_write, h.ttl]
  · rw [find_answer_written hwritten h.keeps, ExpiringMap.put, ← h.lease]
    split <;> rfl

theorem erase (h : m.Mirrors defaultTtlSeconds map) (key : String) :
    (m.erase key).Mirrors defaultTtlSeconds (map.erase key) := by
  refine ⟨keeps_write (fun _ => rfl) h.keeps, ?_, fun k => ?_⟩
  · rw [Memory.erase, defaultTtlSeconds_write, h.ttl]
  · rw [find_erase, ExpiringMap.erase, ← h.lease]
    split <;> rfl

theorem answer_ok (h : m.Mirrors defaultTtlSeconds map) {r : Request} {now : Time.Instant}
    {e : Entry} (hwritten : m.written? now r = some e) :
    (mapSpec defaultTtlSeconds).Allows r now map (answer r now m).1 := by
  obtain ⟨es, hes⟩ := isOpen_iff.mp h.keeps.isOpen
  cases r <;> cases hwritten <;> simp [mapSpec, answer, Memory.put, write, hes]

theorem answer (h : m.Mirrors defaultTtlSeconds map) {r : Request} (hr : r ≠ .close)
    (now : Time.Instant) :
    (mapSpec defaultTtlSeconds).Allows r now map (answer r now m).1 ∧ (answer r now m).2.Mirrors
      defaultTtlSeconds ((mapSpec defaultTtlSeconds).next r now map) := by
  have hopen := h.keeps.isOpen
  cases r with
  | get key =>
    rw [answer_get hopen, h.get]
    exact ⟨rfl, h⟩
  | set key value lifetime => exact ⟨h.answer_ok rfl, h.put (e := ⟨key, value, _⟩) rfl⟩
  | setDefault key value =>
    obtain rfl := h.ttl
    exact ⟨h.answer_ok rfl, h.put (e := ⟨key, value, _⟩) rfl⟩
  | delete key =>
    rw [answer_delete hopen]
    exact ⟨rfl, h.erase key⟩
  | has key =>
    rw [answer_has hopen, ← Option.isSome_map, h.get]
    exact ⟨rfl, h⟩
  | scan pattern =>
    obtain ⟨keys, hanswer, hnodup, hkeys⟩ := answer_scan hopen pattern now
    rw [hanswer]
    refine ⟨⟨keys, rfl, hnodup, fun key => ?_⟩, h⟩
    rw [hkeys, ← h.get, Option.isSome_map]
  | health =>
    obtain ⟨es, hes⟩ := isOpen_iff.mp hopen
    exact ⟨by simp [mapSpec, Memory.answer, read, hes, Except.map], h⟩
  | close => exact absurd rfl hr

end Mirrors

theorem explains_transcript {capacity : Nat} (hcapacity : capacity ≠ 0) (defaultTtlSeconds : Nat)
    (start : Time.Instant) {requests : List (Nat × Request)}
    (hrequests : ∀ request ∈ requests, request.2 ≠ .close) :
    let run := Time.transcript Memory.answer start requests (.new capacity defaultTtlSeconds)
    (mapSpec defaultTtlSeconds).Explains .empty run.1 ∧
      run.2.Mirrors defaultTtlSeconds ((mapSpec defaultTtlSeconds).last .empty run.1) :=
  (mapSpec defaultTtlSeconds).explains_transcript Memory.answer
    (fun _ m map => m.Mirrors defaultTtlSeconds map) (fun _ h => h)
    (fun hr _ h => h.answer hr _) start hrequests (mirrors_new hcapacity defaultTtlSeconds)

end Memory

end AuthCore.Cache
