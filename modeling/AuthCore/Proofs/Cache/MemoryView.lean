import AuthCore.Cache.Memory

set_option autoImplicit false

namespace AuthCore.Cache

def Request.Puts (raw : String) : Request → Prop
  | .set key .. | .setDefault key _ => key = raw
  | _ => False

namespace Entries

theorem find_eq_some_iff {es : Entries} {key : String} {e : Entry} :
    es.find key = some e ↔ e ∈ es.all ∧ e.key = key := by
  obtain ⟨capacity, all, distinct⟩ := es
  simp only [find]
  induction all with
  | nil => simp
  | cons x xs ih =>
    obtain ⟨hnew, hrest⟩ := List.nodup_cons.mp distinct
    by_cases hx : x.key = key
    · rw [List.find?_cons_of_pos (by simpa using hx), Option.some.injEq]
      constructor
      · rintro rfl
        exact ⟨List.mem_cons_self, hx⟩
      · rintro ⟨hmem, he⟩
        rcases List.mem_cons.mp hmem with rfl | hmem
        · rfl
        · exact absurd (List.mem_map.mpr ⟨e, hmem, he.trans hx.symm⟩) hnew
    · rw [List.find?_cons_of_neg (by simpa using hx), ih hrest, List.mem_cons]
      constructor
      · rintro ⟨hmem, he⟩
        exact ⟨.inr hmem, he⟩
      · rintro ⟨rfl | hmem, he⟩
        · exact absurd he hx
        · exact ⟨hmem, he⟩

theorem find?_replaceIn (e : Entry) (xs : List Entry) (key : String) :
    (replaceIn e xs).find? (fun x => x.key == key) =
      if e.key = key then some e else xs.find? fun x => x.key == key := by
  induction xs with
  | nil => by_cases h : e.key = key <;> simp [replaceIn, h]
  | cons x xs ih =>
    unfold replaceIn
    by_cases hsame : x.key = e.key
    · rw [if_pos hsame]
      by_cases h : e.key = key
      · simp [h]
      · simp [h, hsame]
    · rw [if_neg hsame, List.find?_cons, ih]
      by_cases hx : x.key = key
      · have hne : e.key ≠ key := fun h => hsame (hx.trans h.symm)
        simp [hx, hne]
      · simp [beq_eq_false_iff_ne.mpr hx]

theorem find_put {es : Entries} (h : es.capacity ≠ 0) (e : Entry) (key : String) :
    (es.put e).find key = if e.key = key then some e else es.find key := by
  rw [put, if_neg h]
  exact find?_replaceIn e es.all key

theorem find_erase (es : Entries) (erased key : String) :
    (es.erase erased).find key = if erased = key then none else es.find key := by
  simp only [find, erase, List.find?_filter]
  by_cases h : erased = key
  · rw [if_pos h, List.find?_eq_none]
    simp [h]
  · rw [if_neg h]
    congr 1
    funext e
    by_cases he : e.key = key
    · simp [he, Ne.symm h]
    · simp [he]

theorem mem_keys {es : Entries} {pattern key : String} {now : Time.Instant} :
    key ∈ es.keys pattern now ↔
      Glob.isMatch pattern key = true ∧ (es.live key now).isSome = true := by
  simp only [keys, live, List.mem_map, List.mem_filter, Bool.and_eq_true]
  constructor
  · rintro ⟨e, ⟨hmem, hlive, hmatch⟩, rfl⟩
    have hfind : es.find e.key = some e := find_eq_some_iff.mpr ⟨hmem, rfl⟩
    exact ⟨hmatch, by simp [hfind, hlive]⟩
  · rintro ⟨hmatch, hlive⟩
    obtain ⟨e, he⟩ := Option.isSome_iff_exists.mp hlive
    obtain ⟨hfind, halive⟩ := Option.filter_eq_some_iff.mp he
    obtain ⟨hmem, rfl⟩ := find_eq_some_iff.mp hfind
    exact ⟨e, ⟨hmem, halive, hmatch⟩, rfl⟩

theorem nodup_keys (es : Entries) (pattern : String) (now : Time.Instant) :
    (es.keys pattern now).Nodup :=
  es.distinct.sublist (List.filter_sublist.map Entry.key)

end Entries

namespace Memory

def IsOpen (m : Memory) : Prop := m.handle.isHeld = true

/-- Whether a cache keeps what is put into it. -/
def Keeps (m : Memory) : Prop := ∃ es, m.handle.acquire = .ok es ∧ es.capacity ≠ 0

def find (m : Memory) (key : String) : Option Entry :=
  match m.handle.acquire with
  | .ok es => es.find key
  | .error _ => none

def live (m : Memory) (key : String) (now : Time.Instant) : Option Entry :=
  (m.find key).filter fun e => e.isLive now

theorem live_eq_some_iff {m : Memory} {key : String} {now : Time.Instant} {e : Entry} :
    m.live key now = some e ↔ m.find key = some e ∧ now.toNanos < e.deadline := by
  simp [live, Option.filter_eq_some_iff, Entry.isLive]

theorem isOpen_iff {m : Memory} : m.IsOpen ↔ ∃ es, m.handle.acquire = .ok es := by
  unfold IsOpen Handle.isHeld Handle.acquire
  cases m.handle.slot with
  | held es => exact iff_of_true rfl ⟨es, rfl⟩
  | released => exact iff_of_false nofun nofun
  | poisoned => exact iff_of_false nofun nofun

theorem acquire_withEntries {m : Memory} (h : m.IsOpen) (es : Entries) :
    (m.withEntries es).handle.acquire = .ok es := by
  unfold IsOpen Handle.isHeld at h
  unfold withEntries Handle.update Handle.acquire
  cases hslot : m.handle.slot with
  | held old => rfl
  | released => simp [hslot] at h
  | poisoned => simp [hslot] at h

theorem find_of_acquire {m : Memory} {es : Entries} (h : m.handle.acquire = .ok es)
    (key : String) : m.find key = es.find key := by
  rw [find, h]

theorem live_of_acquire {m : Memory} {es : Entries} (h : m.handle.acquire = .ok es)
    (key : String) (now : Time.Instant) : m.live key now = es.live key now := by
  rw [live, find_of_acquire h, Entries.live]

theorem acquire_of_not_isOpen {m : Memory} (h : ¬ m.IsOpen) :
    ∃ f, m.handle.acquire = .error f := by
  cases hacquire : m.handle.acquire with
  | ok es => exact absurd (isOpen_iff.mpr ⟨es, hacquire⟩) h
  | error f => exact ⟨f, rfl⟩

theorem find_of_not_isOpen {m : Memory} (h : ¬ m.IsOpen) (key : String) : m.find key = none := by
  obtain ⟨f, hfault⟩ := acquire_of_not_isOpen h
  rw [find, hfault]

section

variable {α : Type} {m : Memory} {es : Entries} {fault : Failure}

theorem read_of_acquire (h : m.handle.acquire = .ok es) (f : Entries → α) :
    m.read f = (.ok (f es), m) := by
  rw [read, h]
  rfl

theorem read_of_fault (h : m.handle.acquire = .error fault) (f : Entries → α) :
    m.read f = (.error fault, m) := by
  rw [read, h]
  rfl

theorem write_of_acquire (h : m.handle.acquire = .ok es) (f : Entries → Entries) :
    m.write f = (.ok (), m.withEntries (f es)) := by
  rw [write, h]

theorem write_of_fault (h : m.handle.acquire = .error fault) (f : Entries → Entries) :
    m.write f = (.error fault, m) := by
  rw [write, h]

end

theorem answer_of_not_isOpen {m : Memory} (h : ¬ m.IsOpen) {r : Request} (hr : r ≠ .close)
    (now : Time.Instant) : ∃ f, answer r now m = (.error f, m) := by
  obtain ⟨f, hfault⟩ := acquire_of_not_isOpen h
  refine ⟨f, ?_⟩
  cases r with
  | close => exact absurd rfl hr
  | get | has | scan | health => exact read_of_fault hfault _
  | set | setDefault | delete => exact write_of_fault hfault _

theorem answer_get {m : Memory} (h : m.IsOpen) (key : String) (now : Time.Instant) :
    answer (.get key) now m = (.ok ((m.live key now).map Entry.value), m) := by
  obtain ⟨es, hes⟩ := isOpen_iff.mp h
  rw [live_of_acquire hes]
  exact read_of_acquire hes _

theorem answer_has {m : Memory} (h : m.IsOpen) (key : String) (now : Time.Instant) :
    answer (.has key) now m = (.ok (m.live key now).isSome, m) := by
  obtain ⟨es, hes⟩ := isOpen_iff.mp h
  rw [live_of_acquire hes]
  exact read_of_acquire hes _

theorem answer_scan {m : Memory} (h : m.IsOpen) (pattern : String) (now : Time.Instant) :
    ∃ ks : List String, answer (.scan pattern) now m = (.ok ks, m) ∧ ks.Nodup ∧
      ∀ key, key ∈ ks ↔ Glob.isMatch pattern key = true ∧ (m.live key now).isSome = true := by
  obtain ⟨es, hes⟩ := isOpen_iff.mp h
  refine ⟨es.keys pattern now, read_of_acquire hes _, es.nodup_keys pattern now, fun key => ?_⟩
  rw [live_of_acquire hes]
  exact Entries.mem_keys

def erase (m : Memory) (key : String) : Memory := (m.write fun es => es.erase key).2

theorem answer_delete {m : Memory} (h : m.IsOpen) (key : String) (now : Time.Instant) :
    answer (.delete key) now m = (.ok (), m.erase key) := by
  obtain ⟨es, hes⟩ := isOpen_iff.mp h
  rw [erase, write_of_acquire hes]
  exact write_of_acquire hes _

theorem write_of_isOpen {m : Memory} (h : m.IsOpen) (f : Entries → Entries) :
    ∃ es, m.handle.acquire = .ok es ∧ (m.write f).2.handle.acquire = .ok (f es) := by
  obtain ⟨es, hes⟩ := isOpen_iff.mp h
  refine ⟨es, hes, ?_⟩
  rw [write_of_acquire hes]
  exact acquire_withEntries h (f es)

theorem write_of_not_isOpen {m : Memory} (h : ¬ m.IsOpen) (f : Entries → Entries) :
    (m.write f).2 = m := by
  obtain ⟨fault, hfault⟩ := acquire_of_not_isOpen h
  rw [write_of_fault hfault]

theorem isOpen_write (m : Memory) (f : Entries → Entries) : (m.write f).2.IsOpen ↔ m.IsOpen := by
  by_cases h : m.IsOpen
  · obtain ⟨es, _, hafter⟩ := write_of_isOpen h f
    exact iff_of_true (isOpen_iff.mpr ⟨_, hafter⟩) h
  · rw [write_of_not_isOpen h]

theorem find_erase (m : Memory) (erased key : String) :
    (m.erase erased).find key = if erased = key then none else m.find key := by
  by_cases h : m.IsOpen
  · obtain ⟨es, hes, hafter⟩ := write_of_isOpen h fun es => es.erase erased
    rw [erase, find_of_acquire hafter, find_of_acquire hes, Entries.find_erase]
  · rw [erase, write_of_not_isOpen h, find_of_not_isOpen h, ite_self]

def written? (m : Memory) (now : Time.Instant) : Request → Option Entry
  | .set key value lifetime => some ⟨key, value, now.toNanos + lifetime⟩
  | .setDefault key value =>
    some ⟨key, value, now.toNanos + (m.defaultTtlSeconds * Time.nanosPerSecond : Nat)⟩
  | _ => none

theorem puts_of_written {m : Memory} {now : Time.Instant} {r : Request} {e : Entry}
    (h : m.written? now r = some e) : r.Puts e.key := by
  cases r with
  | set => cases h; rfl
  | setDefault => cases h; rfl
  | _ => cases h

theorem answer_written {m : Memory} {now : Time.Instant} {r : Request} {e : Entry}
    (h : m.written? now r = some e) : (answer r now m).2 = (m.write fun es => es.put e).2 := by
  cases r <;> cases h <;> rfl

theorem find_answer_written {m : Memory} {now : Time.Instant} {r : Request} {e : Entry}
    (h : m.written? now r = some e) (hkeeps : m.Keeps) (key : String) :
    (answer r now m).2.find key = if e.key = key then some e else m.find key := by
  obtain ⟨es, hes, hcapacity⟩ := hkeeps
  obtain ⟨es', hes', hafter⟩ := write_of_isOpen (isOpen_iff.mpr ⟨es, hes⟩) fun es => es.put e
  obtain rfl : es = es' := Except.ok.inj (hes.symm.trans hes')
  rw [answer_written h, find_of_acquire hafter, find_of_acquire hes, Entries.find_put hcapacity]

theorem find_answer_unkept {m : Memory} {now : Time.Instant} {r : Request} {e : Entry}
    (h : m.written? now r = some e) (hkeeps : ¬ m.Keeps) (key : String) :
    (answer r now m).2.find key = m.find key := by
  rw [answer_written h]
  by_cases hopen : m.IsOpen
  · obtain ⟨es, hes, hafter⟩ := write_of_isOpen hopen fun es => es.put e
    have hcapacity : es.capacity = 0 :=
      Decidable.byContradiction fun hne => hkeeps ⟨es, hes, hne⟩
    rw [find_of_acquire hafter, find_of_acquire hes, Entries.put, if_pos hcapacity]
  · rw [write_of_not_isOpen hopen]

/-- What a request leaves under a key: what was there, nothing if it deletes the key, or what it
puts there. -/
theorem find_answer_cases (m : Memory) {r : Request} (hr : r ≠ .close) (now : Time.Instant)
    (key : String) : (answer r now m).2.find key = m.find key ∨
      (r = .delete key ∧ (answer r now m).2.find key = none) ∨
      ∃ e, m.written? now r = some e ∧ e.key = key ∧ m.Keeps ∧
        (answer r now m).2.find key = some e := by
  cases hwritten : m.written? now r with
  | some e =>
    by_cases hkeeps : m.Keeps
    · rw [find_answer_written hwritten hkeeps]
      by_cases hkey : e.key = key
      · exact .inr (.inr ⟨e, rfl, hkey, hkeeps, if_pos hkey⟩)
      · exact .inl (if_neg hkey)
    · exact .inl (find_answer_unkept hwritten hkeeps key)
  | none =>
    cases r with
    | delete erased =>
      have herase : (answer (.delete erased) now m).2 = m.erase erased := rfl
      rw [herase, find_erase]
      by_cases hkey : erased = key
      · exact .inr (.inl ⟨by rw [hkey], if_pos hkey⟩)
      · exact .inl (if_neg hkey)
    | close => exact absurd rfl hr
    | set => cases hwritten
    | setDefault => cases hwritten
    | _ => exact .inl rfl

theorem isOpen_answer (m : Memory) {r : Request} (hr : r ≠ .close) (now : Time.Instant) :
    (answer r now m).2.IsOpen ↔ m.IsOpen := by
  cases r with
  | set => exact isOpen_write m _
  | setDefault => exact isOpen_write m _
  | delete => exact isOpen_write m _
  | close => exact absurd rfl hr
  | _ => exact Iff.rfl

end Memory

end AuthCore.Cache
