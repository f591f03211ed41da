import AuthCore.Cache.Manager
import AuthCore.Proofs.Cache.ExpiringMap
import AuthCore.Proofs.Cache.RemoteScan

set_option autoImplicit false

namespace AuthCore.Cache

/-- Every bracket stands behind a backslash. -/
def Glob.bracketsEscaped : List Char → Bool
  | '\\' :: _ :: cs => bracketsEscaped cs
  | c :: cs => c != '[' && c != ']' && bracketsEscaped cs
  | [] => true

theorem Glob.bracketsEscaped_escapeChars_append (l p : List Char) :
    bracketsEscaped (escapeChars l ++ p) = bracketsEscaped p := by
  induction l with
  | nil => rfl
  | cons c l ih =>
    by_cases hc : isSpecial c = true
    · rw [escapeChars, if_pos hc, List.cons_append, List.cons_append, bracketsEscaped, ih]
    · rw [escapeChars, if_neg hc, List.cons_append]
      simp only [isSpecial, Bool.or_eq_true, beq_iff_eq, not_or] at hc
      obtain ⟨⟨⟨_, hopen⟩, hclose⟩, hslash⟩ := hc
      rw [bracketsEscaped, ih]
      · simp [hopen, hclose]
      · rintro d ds rfl
        exact absurd rfl hslash

open Remote (Server Pages arg number pageLimit)

/-- A lifetime that a server can be told: a number of milliseconds, not zero and of 63 bits. -/
def PortableLifetime (lifetime : Nat) : Prop :=
  ∃ ms, lifetime = ms * 1000000 ∧ 1 ≤ ms ∧ ms < limit63

/-- Requests that every cache answers alike. -/
def Request.Portable (defaultTtlSeconds : Nat) : Request → Prop
  | .set _ _ lifetime => PortableLifetime lifetime
  | .setDefault .. => PortableLifetime (defaultTtlSeconds * Time.nanosPerSecond)
  | .scan pattern => Glob.bracketsEscaped pattern.toList = true
  | .health | .close => False
  | _ => True

/-- A server that keeps keys for milliseconds, as far as its replies tell. A command changes no live
entry but the one that it writes or deletes. A scan ends before it has used every cursor there is,
and its pages hold the live keys that match and no others, in any order and any number of times. -/
structure KeyServer (σ : Type) where
  serve : Server σ
  content : σ → ExpiringMap Bytes Bytes
  get : ∀ (now : Time.Instant) (key : Bytes) (s : σ), ∃ s',
    serve now [arg "GET", key] s = (.reply (((content s).get now key).elim .nil .bulk), s') ∧
    (content s').Agree now (content s)
  set : ∀ (now : Time.Instant) (key value : Bytes) (ms : Nat) (s : σ), 1 ≤ ms → ms < limit63 →
    ∃ s', serve now [arg "SET", key, value, arg "PX", number ms] s = (.reply (.status "OK"), s') ∧
    (content s').Agree now
      ((content s).put key ⟨value, now.toNanos + (ms * 1000000 : Nat)⟩)
  delete : ∀ (now : Time.Instant) (key : Bytes) (s : σ), ∃ n s',
    serve now [arg "DEL", key] s = (.reply (.int n), s') ∧
    (content s').Agree now ((content s).erase key)
  has : ∀ (now : Time.Instant) (key : Bytes) (s : σ), ∃ s',
    serve now [arg "EXISTS", key] s =
      (.reply (.int (if ((content s).get now key).isSome then 1 else 0)), s') ∧
    (content s').Agree now (content s)
  scan : ∀ (now : Time.Instant) (pattern : String) (count : Nat) (s : σ),
    Glob.bracketsEscaped pattern.toList = true → 1 ≤ count → ∃ pages s',
    Pages serve now (arg pattern) (number count) 0 s pages s' ∧ pages.length ≤ pageLimit ∧
    (∀ key, key ∈ pages.flatten ↔ ∃ text, key = arg text ∧ Glob.isMatch pattern text = true ∧
      ((content s).get now key).isSome = true) ∧
    (content s').Agree now (content s)

namespace Remote

variable {σ : Type} {server : KeyServer σ} {c : Remote} {now : Time.Instant}
  {map : ExpiringMap String Bytes} {foreign : ExpiringMap Bytes Bytes} {s s' : σ}

/-- A key that is outside the namespace. -/
def Foreign (c : Remote) (key : Bytes) : Prop := ¬ arg c.keyPrefix <+: key

instance (c : Remote) (key : Bytes) : Decidable (c.Foreign key) := inferInstanceAs (Decidable (¬ _))

theorem prefixed_not_foreign (c : Remote) (key : String) : ¬ c.Foreign (arg (c.prefixed key)) := by
  rw [Foreign, Decidable.not_not, prefixed, arg_append]
  exact List.prefix_append _ _

theorem prefixed_injective {c : Remote} {key k : String}
    (h : arg (c.prefixed key) = arg (c.prefixed k)) : key = k := by
  have htexts := congrArg String.toList (arg_injective h)
  simp only [prefixed, String.toList_append] at htexts
  exact String.toList_inj.mp (List.append_cancel_left htexts)

structure Shares (server : KeyServer σ) (c : Remote) (foreign : ExpiringMap Bytes Bytes)
    (now : Time.Instant) (s : σ) (map : ExpiringMap String Bytes) : Prop where
  own : ∀ key, (server.content s).live now (arg (c.prefixed key)) = map.live now key
  others : ∀ key, c.Foreign key → (server.content s).live now key = foreign.live now key

namespace Shares

theorem get (h : Shares server c foreign now s map) (key : String) :
    (server.content s).get now (arg (c.prefixed key)) = map.get now key := by
  rw [ExpiringMap.get, ExpiringMap.get, h.own]

theorem later (h : Shares server c foreign now s map) {after : Time.Instant}
    (hafter : now.toNanos ≤ after.toNanos) : Shares server c foreign after s map :=
  ⟨fun key => ExpiringMap.live_of_le hafter (h.own key),
    fun key hkey => ExpiringMap.live_of_le hafter (h.others key hkey)⟩

theorem keep (h : Shares server c foreign now s map)
    (hsame : (server.content s').Agree now (server.content s)) :
    Shares server c foreign now s' map :=
  ⟨fun key => (hsame _).trans (h.own key), fun key hkey => (hsame _).trans (h.others key hkey)⟩

theorem put (h : Shares server c foreign now s map) {key : String} {l : Lease Bytes}
    (hput : (server.content s').Agree now
      ((server.content s).put (arg (c.prefixed key)) l)) :
    Shares server c foreign now s' (map.put key l) := by
  refine ⟨fun k => ?_, fun k hk => ?_⟩
  · rw [hput, ExpiringMap.live_put, ExpiringMap.live_put, h.own]
    by_cases hkey : key = k
    · rw [if_pos hkey, if_pos (by rw [hkey])]
    · rw [if_neg hkey, if_neg fun heq => hkey (prefixed_injective heq)]
  · have hne : arg (c.prefixed key) ≠ k := fun heq => c.prefixed_not_foreign key (heq ▸ hk)
    rw [hput, ExpiringMap.live_put, if_neg hne, h.others k hk]

theorem erase (h : Shares server c foreign now s map) {key : String}
    (herase : (server.content s').Agree now
      ((server.content s).erase (arg (c.prefixed key)))) :
    Shares server c foreign now s' (map.erase key) := by
  refine ⟨fun k => ?_, fun k hk => ?_⟩
  · rw [herase, ExpiringMap.live_erase, ExpiringMap.live_erase, h.own]
    by_cases hkey : key = k
    · rw [if_pos hkey, if_pos (by rw [hkey])]
    · rw [if_neg hkey, if_neg fun heq => hkey (prefixed_injective heq)]
  · have hne : arg (c.prefixed key) ≠ k := fun heq => c.prefixed_not_foreign key (heq ▸ hk)
    rw [herase, ExpiringMap.live_erase, if_neg hne, h.others k hk]

theorem scan (h : Shares server c foreign now s map) (hbatch : 1 ≤ c.batch) {pattern : String}
    (hpattern : Glob.bracketsEscaped pattern.toList = true) :
    ∃ (keys : List String) (s' : σ), c.perform server.serve (.scan pattern) now s = (.ok keys, s') ∧
      keys.Nodup ∧ (∀ key, key ∈ keys ↔
        Glob.isMatch pattern key = true ∧ (map.get now key).isSome = true) ∧
      (server.content s').Agree now (server.content s) := by
  have hfull : Glob.bracketsEscaped (Glob.namespaced c.keyPrefix pattern).toList = true := by
    rw [Glob.namespaced, String.toList_append, Glob.toList_escape,
      Glob.bracketsEscaped_escapeChars_append, hpattern]
  obtain ⟨pages, s', hpages, -, hkeys, hsame⟩ := server.scan now _ c.batch s hfull hbatch
  obtain ⟨texts, htexts⟩ := exists_texts fun key hkey => by
    obtain ⟨text, htext, _⟩ := (hkeys key).mp hkey
    exact ⟨text, htext⟩
  have hscan := scanFrom_of_pages hpages htexts []
  refine ⟨sortKeys (texts.map c.unprefixed), s', ?_, nodup_sortKeys _, fun key => ?_, hsame⟩
  · simp only [perform, hscan, List.nil_append, Except.map]
  · -- The server matches whole keys. The namespace is literal in the pattern, so what is left of a
    -- key behind it is what the pattern itself stands for.
    have htext (text : String) : text ∈ texts ↔ ∃ k, text = c.prefixed k ∧
        Glob.isMatch pattern k = true ∧ (map.get now k).isSome = true := by
      have hpage : text ∈ texts ↔ arg text ∈ pages.flatten := by
        rw [htexts, List.mem_map]
        constructor
        · intro hmem
          exact ⟨text, hmem, rfl⟩
        · rintro ⟨t, hmem, heq⟩
          rwa [← arg_injective heq]
      rw [hpage, hkeys]
      constructor
      · rintro ⟨t, heq, hmatch, hlive⟩
        obtain rfl := arg_injective heq
        obtain ⟨k, rfl, hk⟩ := Glob.isMatch_namespaced_iff.mp hmatch
        exact ⟨k, rfl, hk, by rwa [← h.get]⟩
      · rintro ⟨k, rfl, hk, hlive⟩
        exact ⟨c.prefixed k, rfl, Glob.isMatch_namespaced_iff.mpr ⟨k, rfl, hk⟩, by rwa [h.get]⟩
    rw [mem_sortKeys, List.mem_map]
    constructor
    · rintro ⟨text, hmem, rfl⟩
      obtain ⟨k, rfl, hk⟩ := (htext text).mp hmem
      rwa [prefixed, unprefixed_append]
    · intro hk
      exact ⟨c.prefixed key, (htext _).mpr ⟨key, rfl, hk⟩, c.unprefixed_append key⟩

theorem answer_of_perform (hopen : c.handle.acquire = .ok ()) {server : Server σ} {r : Request}
    (hr : r ≠ .close) {a : Except Failure r.Answer}
    (h : c.perform server r now s = (a, s')) : answer server r now (c, s) = (a, c, s') := by
  cases r with
  | close => exact absurd rfl hr
  | _ => simp only [answer, hopen, h]

theorem perform_set (h : Shares server c foreign now s map) {lifetime : Nat}
    (hlifetime : PortableLifetime lifetime) (key : String) (value : Bytes) :
    ∃ s', c.perform server.serve (.set key value lifetime) now s = (.ok (), s') ∧
      Shares server c foreign now s' (map.put key ⟨value, now.toNanos + lifetime⟩) := by
  obtain ⟨ms, rfl, hleast, hbound⟩ := hlifetime
  obtain ⟨s', hserve, hput⟩ :=
    server.set now (arg (c.prefixed key)) value ms s hleast hbound
  have hms : milliseconds (ms * 1000000) = ms :=
    milliseconds_eq hleast (Nat.lt_trans hbound (by decide))
  refine ⟨s', ?_, h.put hput⟩
  rw [perform, setCommand, hms]
  exact exchange_reply hserve (by rfl) "SET"

theorem answer (h : Shares server c foreign now s map) (hopen : c.handle.acquire = .ok ())
    (hbatch : 1 ≤ c.batch) {r : Request} (hr : r.Portable c.defaultTtlSeconds) :
    ∃ a s', Remote.answer server.serve r now (c, s) = (a, c, s') ∧
      (mapSpec c.defaultTtlSeconds).Allows r now map a ∧
      Shares server c foreign now s' ((mapSpec c.defaultTtlSeconds).next r now map) := by
  cases r with
  | get key =>
    obtain ⟨s', hserve, hsame⟩ := server.get now (arg (c.prefixed key)) s
    have hread : (((server.content s).get now (arg (c.prefixed key))).elim Reply.nil
        Reply.bulk).value? = some (map.get now key) := by
      rw [h.get]
      cases map.get now key <;> rfl
    exact ⟨_, s', answer_of_perform hopen (by simp) (exchange_reply hserve hread "GET"), rfl,
      h.keep hsame⟩
  | set key value lifetime =>
    obtain ⟨s', hperform, hafter⟩ := h.perform_set hr key value
    exact ⟨_, s', answer_of_perform hopen (by simp) hperform, rfl, hafter⟩
  | setDefault key value =>
    obtain ⟨s', hperform, hafter⟩ := h.perform_set hr key value
    exact ⟨_, s', answer_of_perform hopen (by simp) hperform, rfl, hafter⟩
  | delete key =>
    obtain ⟨n, s', hserve, herase⟩ := server.delete now (arg (c.prefixed key)) s
    refine ⟨.ok (), s', answer_of_perform hopen (by simp) ?_, rfl, h.erase herase⟩
    exact exchange_reply hserve (by rfl) "DEL"
  | has key =>
    obtain ⟨s', hserve, hsame⟩ := server.has now (arg (c.prefixed key)) s
    have hread : (Reply.int (if ((server.content s).get now (arg (c.prefixed key))).isSome then 1
        else 0)).truth? = some (map.get now key).isSome := by
      rw [h.get]
      cases map.get now key <;> rfl
    exact ⟨_, s', answer_of_perform hopen (by simp) (exchange_reply hserve hread "EXISTS"), rfl,
      h.keep hsame⟩
  | scan pattern =>
    obtain ⟨keys, s', hperform, hnodup, hkeys, hsame⟩ := h.scan hbatch hr
    exact ⟨_, s', answer_of_perform hopen (by simp) hperform, ⟨keys, rfl, hnodup, hkeys⟩,
      h.keep hsame⟩
  | health => exact hr.elim
  | close => exact hr.elim

end Shares

theorem explains_transcript (hopen : c.handle.acquire = .ok ()) (hbatch : 1 ≤ c.batch)
    (start : Time.Instant)
    (hforeign : ∀ key, ¬ c.Foreign key → (server.content s).live start key = none)
    {requests : List (Nat × Request)}
    (hrequests : ∀ request ∈ requests, request.2.Portable c.defaultTtlSeconds) :
    let run := Time.transcript (answer server.serve) start requests (c, s)
    (mapSpec c.defaultTtlSeconds).Explains .empty run.1 ∧
      Shares server c (server.content s) (Time.finish start requests) run.2.2
        ((mapSpec c.defaultTtlSeconds).last .empty run.1) := by
  have hstart : Shares server c (server.content s) start s .empty :=
    ⟨fun key => hforeign _ (c.prefixed_not_foreign key), fun _ _ => rfl⟩
  have hrun := (mapSpec c.defaultTtlSeconds).explains_transcript (answer server.serve)
    (fun now t map => t.1 = c ∧ Shares server c (server.content s) now t.2 map) ?_ ?_ start
    hrequests (s := (c, s)) ⟨rfl, hstart⟩
  · exact ⟨hrun.1, hrun.2.2⟩
  · intro now t map n ⟨hsame, h⟩
    refine ⟨hsame, h.later ?_⟩
    rw [Time.Instant.toNanos_addNanos]
    omega
  · rintro r now ⟨_, t⟩ map hr _ ⟨rfl, h⟩
    obtain ⟨a, s', hanswer, hallows, hafter⟩ := h.answer hopen hbatch hr
    rw [hanswer]
    exact ⟨hallows, rfl, hafter⟩

end Remote

theorem Request.Portable.ne_close {defaultTtlSeconds : Nat} {r : Request}
    (h : r.Portable defaultTtlSeconds) : r ≠ .close := by
  rintro rfl
  exact h

theorem Remote.connect_eq_ok {settings : Config.Cache} {attempt : Attempt} {c : Remote}
    (h : Remote.connect settings attempt = .ok c) : c.handle.acquire = .ok () ∧ 1 ≤ c.batch ∧
      c.defaultTtlSeconds = settings.defaultTtlSeconds := by
  unfold connect at h
  split at h
  · split at h
    · cases h
      exact ⟨rfl, Nat.le_max_left 1 _, rfl⟩
    · cases h
    · cases h
  · cases h

/-- A cache in memory and a cache on a server, of the same settings, answer every run of requests as
one expiring map that is empty at first, so what others keep on the server never shows. And it stays
there as it is until it expires. -/
theorem caches_interchangeable {σ : Type} {settings : Config.Cache}
    (hcapacity : settings.memory.maxCapacity ≠ 0) {attempt : Attempt} {c : Remote}
    (hconnect : Remote.connect settings attempt = .ok c) (server : KeyServer σ) (s : σ)
    (start : Time.Instant)
    (hforeign : ∀ key, ¬ c.Foreign key → (server.content s).live start key = none)
    {requests : List (Nat × Request)}
    (hrequests : ∀ request ∈ requests, request.2.Portable settings.defaultTtlSeconds) :
    let memory := Time.transcript Memory.answer start requests (.ofSettings settings)
    let remote := Time.transcript (Remote.answer server.serve) start requests (c, s)
    (mapSpec settings.defaultTtlSeconds).Explains .empty memory.1 ∧
    (mapSpec settings.defaultTtlSeconds).Explains .empty remote.1 ∧
    ∀ key, c.Foreign key → (server.content remote.2.2).live (Time.finish start requests) key =
      (server.content s).live (Time.finish start requests) key := by
  obtain ⟨hopen, hbatch, httl⟩ := Remote.connect_eq_ok hconnect
  have hmemory := Memory.explains_transcript hcapacity settings.defaultTtlSeconds start
    fun request hrequest => (hrequests request hrequest).ne_close
  have hportable : ∀ request ∈ requests, request.2.Portable c.defaultTtlSeconds := by
    rw [httl]
    exact hrequests
  have hremote := Remote.explains_transcript hopen hbatch start hforeign hportable
  rw [httl] at hremote
  exact ⟨hmemory.1, hremote.1, hremote.2.others⟩

abbrev Shelf := List (Bytes × Lease Bytes)

namespace Shelf

def content (s : Shelf) : ExpiringMap Bytes Bytes := fun key => s.lookup key

def found (s : Shelf) (now : Time.Instant) (pattern : Bytes) : List Bytes :=
  (s.map Prod.fst).filter fun key => (s.content.get now key).isSome &&
    match Text.Utf8.decode? pattern, Text.Utf8.decode? key with
    | some p, some text => arg text == key && Glob.isMatch p text
    | _, _ => false

def serve : Server Shelf := fun now command s =>
  match command with
  | [name, key] =>
    let there := s.content.get now key
    if name = arg "GET" then (.reply (there.elim .nil .bulk), s)
    else if name = arg "EXISTS" then (.reply (.int (if there.isSome then 1 else 0)), s)
    else (.reply (.int (if there.isSome then 1 else 0)), s.filter fun e => e.1 != key)
  | [_, key, value, _, px] =>
    match (Remote.Reply.bulk px).cursor? with
    | some ms =>
      (.reply (.status "OK"), (key, ⟨value, now.toNanos + (ms * 1000000 : Nat)⟩) :: s)
    | none => (.reply (.error "ERR value is not an integer or out of range"), s)
  | [_, _, _, pattern, _, _] => (.reply (Remote.pageReply 0 (s.found now pattern)), s)
  | _ => (.reply (.error "ERR unknown command"), s)

theorem content_cons (s : Shelf) (key : Bytes) (l : Lease Bytes) :
    content ((key, l) :: s) = s.content.put key l := by
  funext k
  unfold content ExpiringMap.put
  by_cases hkey : key = k
  · simp [hkey]
  · simp [hkey, List.lookup_cons, beq_eq_false_iff_ne.mpr (Ne.symm hkey)]

theorem content_filter (s : Shelf) (key : Bytes) :
    content (s.filter fun e => e.1 != key) = s.content.erase key := by
  funext k
  induction s with
  | nil => simp [content, ExpiringMap.erase]
  | cons e s ih =>
    obtain ⟨x, l⟩ := e
    by_cases hx : x = key
    · rw [List.filter_cons_of_neg (by simp [hx]), ih, content_cons, hx]
      simp only [ExpiringMap.erase, ExpiringMap.put]
      split <;> rfl
    · rw [List.filter_cons_of_pos (by simp [hx]), content_cons, content_cons]
      simp only [ExpiringMap.erase, ExpiringMap.put] at ih ⊢
      rw [ih]
      grind

theorem mem_found {s : Shelf} {now : Time.Instant} {pattern : String} {key : Bytes} :
    key ∈ s.found now (arg pattern) ↔ ∃ text, key = arg text ∧
      Glob.isMatch pattern text = true ∧ (s.content.get now key).isSome = true := by
  have hlisted (hlive : (s.content.get now key).isSome = true) : key ∈ s.map Prod.fst := by
    obtain ⟨_, hget⟩ := Option.isSome_iff_exists.mp hlive
    obtain ⟨l, hfind, _⟩ := Option.map_eq_some_iff.mp hget
    obtain ⟨hlookup, _⟩ := Option.filter_eq_some_iff.mp hfind
    obtain ⟨e, hmem, hkey⟩ := List.lookup_isSome_iff.mp (Option.isSome_of_eq_some hlookup)
    exact List.mem_map.mpr ⟨e, hmem, (beq_iff_eq.mp hkey).symm⟩
  rw [found, List.mem_filter, Remote.decode?_arg]
  simp only [Bool.and_eq_true]
  constructor
  · rintro ⟨_, hlive, hmatch⟩
    split at hmatch
    · rename_i p text hp htext
      cases hp
      simp only [Bool.and_eq_true, beq_iff_eq] at hmatch
      exact ⟨text, hmatch.1.symm, hmatch.2, hlive⟩
    · cases hmatch
  · rintro ⟨text, rfl, hmatch, hlive⟩
    rw [Remote.decode?_arg]
    exact ⟨hlisted hlive, hlive, by simp [hmatch]⟩

def server : KeyServer Shelf where
  serve := serve
  content := content
  get now key s := ⟨s, rfl, fun _ => rfl⟩
  set now key value ms s _ hbound := by
    have hms := Remote.cursor?_number (Nat.lt_trans hbound (show limit63 < limit64 by decide))
    refine ⟨(key, ⟨value, now.toNanos + (ms * 1000000 : Nat)⟩) :: s, ?_, fun k => ?_⟩
    · simp only [serve, hms]
    · rw [content_cons]
  delete now key s := ⟨_, _, rfl, fun k => by rw [content_filter]⟩
  has now key s := ⟨s, rfl, fun _ => rfl⟩
  scan now pattern count s _ _ :=
    ⟨[s.found now (arg pattern)], s, .last rfl, Nat.le_of_lt (show 1 < limit64 by decide),
      fun key => by rw [List.flatten_singleton, mem_found], fun _ => rfl⟩

end Shelf

def sharedSettings : Config.Cache := { redis := { keyPrefix := "w*:" } }

def sharedRemote : Remote := ⟨.new "redis" (), "w*:", 2000, 1209600, 250⟩

/-- The entry of another client, under a key that the namespace would match as a pattern. -/
def neighbour : Shelf := [(arg "ww:k", ⟨[1], 1000000000⟩)]

def sharedRequests : List (Nat × Request) :=
  [(0, .set "k" [2] 5000000), (0, .setDefault "w*:[k]" [3]), (1000000, .scan "*"),
    (4000000, .get "k"), (0, .scan "w\\*:\\[?\\]"), (0, .delete "k"), (0, .has "w*:[k]")]

theorem caches_interchangeable_neighbour :
    let memory := Time.transcript Memory.answer ⟨0, 0⟩ sharedRequests (.ofSettings sharedSettings)
    let remote := Time.transcript (Remote.answer Shelf.serve) ⟨0, 0⟩ sharedRequests
      (sharedRemote, neighbour)
    (mapSpec 1209600).Explains .empty memory.1 ∧ (mapSpec 1209600).Explains .empty remote.1 ∧
      (Shelf.content remote.2.2).live ⟨0, 5000000⟩ (arg "ww:k") = some ⟨[1], 1000000000⟩ := by
  have hforeign : ∀ key, ¬ sharedRemote.Foreign key →
      (Shelf.server.content neighbour).live ⟨0, 0⟩ key = none := by
    intro key hkey
    have hne : arg "ww:k" ≠ key := by
      rintro rfl
      exact hkey (by decide)
    have hcontent : Shelf.server.content neighbour key = none := by
      have hput : Shelf.content neighbour = _ := Shelf.content_cons [] (arg "ww:k") _
      exact (congrFun hput key).trans (if_neg hne)
    rw [ExpiringMap.live, hcontent]
    rfl
  have hrequests : ∀ request ∈ sharedRequests,
      request.2.Portable sharedSettings.defaultTtlSeconds := by
    simp only [sharedRequests, List.forall_mem_cons]
    exact ⟨⟨5, rfl, by decide, by decide⟩, ⟨1209600000, rfl, by decide, by decide⟩, rfl,
      trivial, rfl, trivial, trivial, by simp⟩
  have hconnect : Remote.connect sharedSettings .connected = .ok sharedRemote := rfl
  have hcapacity : sharedSettings.memory.maxCapacity ≠ 0 := by decide
  obtain ⟨hmemory, hremote, hothers⟩ := caches_interchangeable hcapacity hconnect Shelf.server
    neighbour ⟨0, 0⟩ hforeign hrequests
  have houtside : sharedRemote.Foreign (arg "ww:k") := by decide
  exact ⟨hmemory, hremote, (hothers (arg "ww:k") houtside).trans rfl⟩

end AuthCore.Cache
