import AuthCore.Proofs.Config.SettingsTree
import Mathlib.Data.List.Basic

set_option autoImplicit false

namespace AuthCore.Config

/-- What a field holds: a text, or a number below a bound. -/
inductive Shape where
  | text
  | number (bound : Nat)

namespace Shape

@[reducible] def Value : Shape → Type
  | text => String
  | number _ => Nat

def read? : (shape : Shape) → Raw → Option shape.Value
  | text => Raw.text?
  | number bound => Raw.natBelow? bound

end Shape

inductive Field where
  | provider
  | defaultTtlSeconds
  | operationTimeoutMs
  | url
  | remoteKeyPrefix
  | scanBatchSize
  | maxCapacity
  | secretEnv
  | maxConcurrentHashes
  | keyDir
  | passphraseEnv
  | issuer
  | audience
  | tokenTtlMinutes
  | keyPrefix
  | nonceBytes
  | level
  | format
deriving DecidableEq

namespace Field

def path : Field → List String
  | provider => ["cache", "provider"]
  | defaultTtlSeconds => ["cache", "default_ttl_seconds"]
  | operationTimeoutMs => ["cache", "operation_timeout_ms"]
  | url => ["cache", "redis", "url"]
  | remoteKeyPrefix => ["cache", "redis", "key_prefix"]
  | scanBatchSize => ["cache", "redis", "scan_batch_size"]
  | maxCapacity => ["cache", "memory", "max_capacity"]
  | secretEnv => ["password", "secret_env"]
  | maxConcurrentHashes => ["password", "max_concurrent_hashes"]
  | keyDir => ["signing", "key_dir"]
  | passphraseEnv => ["signing", "passphrase_env"]
  | issuer => ["signing", "issuer"]
  | audience => ["signing", "audience"]
  | tokenTtlMinutes => ["signing", "token_ttl_minutes"]
  | keyPrefix => ["session", "key_prefix"]
  | nonceBytes => ["session", "nonce_bytes"]
  | level => ["logging", "level"]
  | format => ["logging", "format"]

def name (f : Field) : String := ".".intercalate f.path

def shape : Field → Shape
  | provider | url | remoteKeyPrefix | secretEnv | keyDir | passphraseEnv | issuer | audience
  | keyPrefix | level | format => .text
  | scanBatchSize => .number limit32
  | defaultTtlSeconds | operationTimeoutMs | maxCapacity | maxConcurrentHashes | tokenTtlMinutes
  | nonceBytes => .number limit64

def get : (f : Field) → Settings → f.shape.Value
  | provider, s => s.cache.provider
  | defaultTtlSeconds, s => s.cache.defaultTtlSeconds
  | operationTimeoutMs, s => s.cache.operationTimeoutMs
  | url, s => s.cache.redis.url
  | remoteKeyPrefix, s => s.cache.redis.keyPrefix
  | scanBatchSize, s => s.cache.redis.scanBatchSize
  | maxCapacity, s => s.cache.memory.maxCapacity
  | secretEnv, s => s.password.secretEnv
  | maxConcurrentHashes, s => s.password.maxConcurrentHashes
  | keyDir, s => s.signing.keyDir
  | passphraseEnv, s => s.signing.passphraseEnv
  | issuer, s => s.signing.issuer
  | audience, s => s.signing.audience
  | tokenTtlMinutes, s => s.signing.tokenTtlMinutes
  | keyPrefix, s => s.session.keyPrefix
  | nonceBytes, s => s.session.nonceBytes
  | level, s => s.logging.level
  | format, s => s.logging.format

def ofFound? (f : Field) : Option Raw → Option f.shape.Value
  | some v => f.shape.read? v
  | none => some (f.get {})

theorem eq_of_prefix {f g : Field} (h : f.path <+: g.path) : f = g := by
  cases f <;> cases g <;> first | rfl | exact absurd h (by decide)

end Field

section Reading

variable {α : Type} {es : List (String × Raw)}

def slot? (es : List (String × Raw)) (name : String) (d : α) (read : Raw → Option α) : Option α :=
  match es.lookup name with
  | some v => read v
  | none => some d

theorem withDefault?_record {names : List String} {name : String} (h : name ∈ names) (d : α)
    (read : Raw → Option α) :
    Record.withDefault? ⟨names.map fun n => (n, es.lookup n)⟩ name d read =
      slot? es name d read := by
  rw [Record.withDefault?, Record.find, List.lookup_graph (fun n => es.lookup n) h, slot?]
  cases es.lookup name <;> rfl

def inner (es : List (String × Raw)) (name : String) : List (String × Raw) :=
  ((es.lookup name).map Raw.entries).getD []

theorem slot?_section {name : String} {d : α} {read : Raw → Option α}
    (hempty : read (.table []) = some d)
    (htable : ∀ v, es.lookup name = some v → ∃ inside, v = .table inside) :
    slot? es name d read = read (.table (inner es name)) := by
  unfold slot? inner
  cases h : es.lookup name with
  | none => exact hempty.symm
  | some v =>
    obtain ⟨inside, rfl⟩ := htable v h
    rfl

theorem RemoteCache.read?_table {x : RemoteCache} :
    RemoteCache.read? Raw.form (.table es) = some x ↔
    slot? es "url" "redis://localhost:6379" Raw.text? = some x.url ∧
      slot? es "key_prefix" "" Raw.text? = some x.keyPrefix ∧
      slot? es "scan_batch_size" 250 (Raw.natBelow? limit32) = some x.scanBatchSize := by
  simp only [RemoteCache.read?, Raw.form, Raw.record?, Option.bind_eq_bind, Option.bind_some]
  iterate 3 rw [withDefault?_record (by decide)]
  simp only [Option.bind_eq_some_iff]
  constructor
  · rintro ⟨url, hurl, keyPrefix, hkeyPre, batch, hbatch, h⟩
    cases h
    exact ⟨hurl, hkeyPre, hbatch⟩
  · rintro ⟨hurl, hkeyPre, hbatch⟩
    exact ⟨_, hurl, _, hkeyPre, _, hbatch, rfl⟩

theorem MemoryCache.read?_table {x : MemoryCache} :
    MemoryCache.read? Raw.form (.table es) = some x ↔
    slot? es "max_capacity" 100000 (Raw.natBelow? limit64) = some x.maxCapacity := by
  simp only [MemoryCache.read?, Raw.form, Raw.record?, Option.bind_eq_bind, Option.bind_some]
  rw [withDefault?_record (by decide)]
  simp only [Option.bind_eq_some_iff]
  constructor
  · rintro ⟨capacity, hcapacity, h⟩
    cases h
    exact hcapacity
  · intro hcapacity
    exact ⟨_, hcapacity, rfl⟩

theorem Password.read?_table {x : Password} : Password.read? Raw.form (.table es) = some x ↔
    slot? es "secret_env" "WARDEN_HASH_SECRET" Raw.text? = some x.secretEnv ∧
      slot? es "max_concurrent_hashes" 4 (Raw.natBelow? limit64) = some x.maxConcurrentHashes := by
  simp only [Password.read?, Raw.form, Raw.record?, Option.bind_eq_bind, Option.bind_some]
  iterate 2 rw [withDefault?_record (by decide)]
  simp only [Option.bind_eq_some_iff]
  constructor
  · rintro ⟨secretEnv, hsecret, hashes, hhashes, h⟩
    cases h
    exact ⟨hsecret, hhashes⟩
  · rintro ⟨hsecret, hhashes⟩
    exact ⟨_, hsecret, _, hhashes, rfl⟩

theorem Session.read?_table {x : Session} : Session.read? Raw.form (.table es) = some x ↔
    slot? es "key_prefix" "SessionTicket" Raw.text? = some x.keyPrefix ∧
      slot? es "nonce_bytes" 32 (Raw.natBelow? limit64) = some x.nonceBytes := by
  simp only [Session.read?, Raw.form, Raw.record?, Option.bind_eq_bind, Option.bind_some]
  iterate 2 rw [withDefault?_record (by decide)]
  simp only [Option.bind_eq_some_iff]
  constructor
  · rintro ⟨keyPrefix, hkeyPre, nonceBytes, hnonce, h⟩
    cases h
    exact ⟨hkeyPre, hnonce⟩
  · rintro ⟨hkeyPre, hnonce⟩
    exact ⟨_, hkeyPre, _, hnonce, rfl⟩

theorem Signing.read?_table {x : Signing} : Signing.read? Raw.form (.table es) = some x ↔
    slot? es "key_dir" "JWK" Raw.text? = some x.keyDir ∧
      slot? es "passphrase_env" "WARDEN_JWK_PASSPHRASE" Raw.text? = some x.passphraseEnv ∧
      slot? es "issuer" "http://localhost:5500/" Raw.text? = some x.issuer ∧
      slot? es "audience" "warden" Raw.text? = some x.audience ∧
      slot? es "token_ttl_minutes" 10 (Raw.natBelow? limit64) = some x.tokenTtlMinutes := by
  simp only [Signing.read?, Raw.form, Raw.record?, Option.bind_eq_bind, Option.bind_some]
  iterate 5 rw [withDefault?_record (by decide)]
  simp only [Option.bind_eq_some_iff]
  constructor
  · rintro ⟨keyDir, hdir, passphraseEnv, henv, issuer, hissuer, audience, haudience, ttl, httl, h⟩
    cases h
    exact ⟨hdir, henv, hissuer, haudience, httl⟩
  · rintro ⟨hdir, henv, hissuer, haudience, httl⟩
    exact ⟨_, hdir, _, henv, _, hissuer, _, haudience, _, httl, rfl⟩

theorem Logging.read?_table {x : Logging} : Logging.read? Raw.form (.table es) = some x ↔
    slot? es "level" "info" Raw.text? = some x.level ∧
      slot? es "format" "json" Raw.text? = some x.format := by
  simp only [Logging.read?, Raw.form, Raw.record?, Option.bind_eq_bind, Option.bind_some]
  iterate 2 rw [withDefault?_record (by decide)]
  simp only [Option.bind_eq_some_iff]
  constructor
  · rintro ⟨level, hlevel, format, hformat, h⟩
    cases h
    exact ⟨hlevel, hformat⟩
  · rintro ⟨hlevel, hformat⟩
    exact ⟨_, hlevel, _, hformat, rfl⟩

theorem Cache.read?_table {x : Cache}
    (hredis : ∀ v, es.lookup "redis" = some v → ∃ inside, v = .table inside)
    (hmemory : ∀ v, es.lookup "memory" = some v → ∃ inside, v = .table inside) :
    Cache.read? Raw.form (.table es) = some x ↔
      slot? es "provider" "memory" Raw.text? = some x.provider ∧
        slot? es "default_ttl_seconds" (14 * 24 * 60 * 60) (Raw.natBelow? limit64) =
          some x.defaultTtlSeconds ∧
        slot? es "operation_timeout_ms" 2000 (Raw.natBelow? limit64) =
          some x.operationTimeoutMs ∧
        RemoteCache.read? Raw.form (.table (inner es "redis")) = some x.redis ∧
        MemoryCache.read? Raw.form (.table (inner es "memory")) = some x.memory := by
  have hremote : slot? es "redis" {} (RemoteCache.read? Raw.form) =
      RemoteCache.read? Raw.form (.table (inner es "redis")) := slot?_section rfl hredis
  have hlocal : slot? es "memory" {} (MemoryCache.read? Raw.form) =
      MemoryCache.read? Raw.form (.table (inner es "memory")) := slot?_section rfl hmemory
  rw [← hremote, ← hlocal]
  simp only [Cache.read?, Raw.form, Raw.record?, Option.bind_eq_bind, Option.bind_some]
  iterate 5 rw [withDefault?_record (by decide)]
  simp only [Option.bind_eq_some_iff]
  constructor
  · rintro ⟨provider, hprovider, ttl, httl, timeout, htimeout, redis, hredis, memory, hmemory, h⟩
    cases h
    exact ⟨hprovider, httl, htimeout, hredis, hmemory⟩
  · rintro ⟨hprovider, httl, htimeout, hredis, hmemory⟩
    exact ⟨_, hprovider, _, httl, _, htimeout, _, hredis, _, hmemory, rfl⟩

theorem Settings.read?_table {s : Settings}
    (hcache : ∀ v, es.lookup "cache" = some v → ∃ inside, v = .table inside)
    (hpassword : ∀ v, es.lookup "password" = some v → ∃ inside, v = .table inside)
    (hsigning : ∀ v, es.lookup "signing" = some v → ∃ inside, v = .table inside)
    (hsession : ∀ v, es.lookup "session" = some v → ∃ inside, v = .table inside)
    (hlogging : ∀ v, es.lookup "logging" = some v → ∃ inside, v = .table inside) :
    Settings.read? Raw.form (.table es) = some s ↔
      Cache.read? Raw.form (.table (inner es "cache")) = some s.cache ∧
        Password.read? Raw.form (.table (inner es "password")) = some s.password ∧
        Signing.read? Raw.form (.table (inner es "signing")) = some s.signing ∧
        Session.read? Raw.form (.table (inner es "session")) = some s.session ∧
        Logging.read? Raw.form (.table (inner es "logging")) = some s.logging := by
  have hcache' : slot? es "cache" {} (Cache.read? Raw.form) =
      Cache.read? Raw.form (.table (inner es "cache")) := slot?_section rfl hcache
  have hpassword' : slot? es "password" {} (Password.read? Raw.form) =
      Password.read? Raw.form (.table (inner es "password")) := slot?_section rfl hpassword
  have hsigning' : slot? es "signing" {} (Signing.read? Raw.form) =
      Signing.read? Raw.form (.table (inner es "signing")) := slot?_section rfl hsigning
  have hsession' : slot? es "session" {} (Session.read? Raw.form) =
      Session.read? Raw.form (.table (inner es "session")) := slot?_section rfl hsession
  have hlogging' : slot? es "logging" {} (Logging.read? Raw.form) =
      Logging.read? Raw.form (.table (inner es "logging")) := slot?_section rfl hlogging
  rw [← hcache', ← hpassword', ← hsigning', ← hsession', ← hlogging']
  simp only [Settings.read?, Raw.form, Raw.record?, Option.bind_eq_bind, Option.bind_some]
  iterate 5 rw [withDefault?_record (by decide)]
  simp only [Option.bind_eq_some_iff]
  constructor
  · rintro ⟨cache, h₁, password, h₂, signing, h₃, session, h₄, logging, h₅, h⟩
    cases h
    exact ⟨h₁, h₂, h₃, h₄, h₅⟩
  · rintro ⟨h₁, h₂, h₃, h₄, h₅⟩
    exact ⟨_, h₁, _, h₂, _, h₃, _, h₄, _, h₅, rfl⟩

theorem at?_inner (es : List (String × Raw)) (first second : String) (rest : List String) :
    (Raw.table es).at? (first :: second :: rest) =
      (Raw.table (inner es first)).at? (second :: rest) := by
  rw [Raw.at?_cons, Raw.entries, inner]
  cases es.lookup first <;> rfl

theorem tablesAlong_inner {first second : String} {rest : List String}
    (h : (Raw.table es).TablesAlong (first :: second :: rest)) :
    (Raw.table (inner es first)).TablesAlong (second :: rest) := by
  refine ⟨⟨_, rfl⟩, fun v hv => ?_⟩
  rw [Raw.entries, inner] at hv
  cases hfirst : es.lookup first with
  | none =>
    rw [hfirst] at hv
    cases hv
  | some part =>
    rw [hfirst] at hv
    exact (h.2 part hfirst).2 v hv

theorem exists_table {first second : String} {rest : List String}
    (h : (Raw.table es).TablesAlong (first :: second :: rest)) (v : Raw)
    (hv : es.lookup first = some v) : ∃ inside, v = .table inside :=
  (h.2 v hv).1

namespace Field

variable {f : Field} {first second third : String}

theorem ofFound?_two (h : f.path = [first, second]) :
    f.ofFound? ((Raw.table es).at? f.path) =
      slot? (inner es first) second (f.get {}) f.shape.read? := by
  rw [h, at?_inner, Raw.at?_cons, Raw.entries, slot?]
  cases (inner es first).lookup second <;> rfl

theorem ofFound?_three (h : f.path = [first, second, third]) :
    f.ofFound? ((Raw.table es).at? f.path) =
      slot? (inner (inner es first) second) third (f.get {}) f.shape.read? := by
  rw [h, at?_inner, at?_inner, Raw.at?_cons, Raw.entries, slot?]
  cases (inner (inner es first) second).lookup third <;> rfl

end Field

theorem Settings.read?_eq_some_iff {s : Settings}
    (htables : ∀ f : Field, (Raw.table es).TablesAlong f.path) :
    Settings.read? Raw.form (.table es) = some s ↔
      ∀ f : Field, f.ofFound? ((Raw.table es).at? f.path) = some (f.get s) := by
  rw [Settings.read?_table (exists_table (htables .provider)) (exists_table (htables .secretEnv))
      (exists_table (htables .keyDir)) (exists_table (htables .keyPrefix))
      (exists_table (htables .level)),
    Cache.read?_table (exists_table (tablesAlong_inner (htables .url)))
      (exists_table (tablesAlong_inner (htables .maxCapacity))),
    RemoteCache.read?_table, MemoryCache.read?_table, Password.read?_table, Signing.read?_table,
    Session.read?_table, Logging.read?_table]
  constructor
  · rintro ⟨⟨h₁, h₂, h₃, ⟨h₄, h₅, h₆⟩, h₇⟩, ⟨h₈, h₉⟩, ⟨h₁₀, h₁₁, h₁₂, h₁₃, h₁₄⟩, ⟨h₁₅, h₁₆⟩, h₁₇,
      h₁₈⟩ f
    cases f with
    | url => exact (Field.ofFound?_three rfl).trans h₄
    | remoteKeyPrefix => exact (Field.ofFound?_three rfl).trans h₅
    | scanBatchSize => exact (Field.ofFound?_three rfl).trans h₆
    | maxCapacity => exact (Field.ofFound?_three rfl).trans h₇
    | _ => exact (Field.ofFound?_two rfl).trans (by assumption)
  · intro h
    have two {f : Field} {first second : String} (hpath : f.path = [first, second]) :
        slot? (inner es first) second (f.get {}) f.shape.read? = some (f.get s) :=
      (Field.ofFound?_two hpath).symm.trans (h f)
    have three {f : Field} {first second third : String} (hpath : f.path = [first, second, third]) :
        slot? (inner (inner es first) second) third (f.get {}) f.shape.read? = some (f.get s) :=
      (Field.ofFound?_three hpath).symm.trans (h f)
    exact ⟨⟨two (f := .provider) rfl, two (f := .defaultTtlSeconds) rfl,
        two (f := .operationTimeoutMs) rfl,
        ⟨three (f := .url) rfl, three (f := .remoteKeyPrefix) rfl, three (f := .scanBatchSize) rfl⟩,
        three (f := .maxCapacity) rfl⟩,
      ⟨two (f := .secretEnv) rfl, two (f := .maxConcurrentHashes) rfl⟩,
      ⟨two (f := .keyDir) rfl, two (f := .passphraseEnv) rfl, two (f := .issuer) rfl,
        two (f := .audience) rfl, two (f := .tokenTtlMinutes) rfl⟩,
      ⟨two (f := .keyPrefix) rfl, two (f := .nonceBytes) rfl⟩,
      two (f := .level) rfl, two (f := .format) rfl⟩

end Reading

end AuthCore.Config
