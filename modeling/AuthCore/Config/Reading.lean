import AuthCore.Config.Settings
import AuthCore.Json.Record
import AuthCore.Number.Limits

set_option autoImplicit false

namespace AuthCore.Config

structure Form (ν : Type) where
  record? : List String → ν → Option (Record ν)
  text? : ν → Option String
  natBelow? : Nat → ν → Option Nat

variable {ν : Type}

def RemoteCache.read? (f : Form ν) (v : ν) : Option RemoteCache := do
  let r ← f.record? ["url", "key_prefix", "scan_batch_size"] v
  let d : RemoteCache := {}
  return {
    url := ← r.withDefault? "url" d.url f.text?
    keyPrefix := ← r.withDefault? "key_prefix" d.keyPrefix f.text?
    scanBatchSize := ← r.withDefault? "scan_batch_size" d.scanBatchSize (f.natBelow? limit32) }

def MemoryCache.read? (f : Form ν) (v : ν) : Option MemoryCache := do
  let r ← f.record? ["max_capacity"] v
  let d : MemoryCache := {}
  return { maxCapacity := ← r.withDefault? "max_capacity" d.maxCapacity (f.natBelow? limit64) }

def Cache.read? (f : Form ν) (v : ν) : Option Cache := do
  let r ← f.record?
    ["provider", "default_ttl_seconds", "operation_timeout_ms", "redis", "memory"] v
  let d : Cache := {}
  return {
    provider := ← r.withDefault? "provider" d.provider f.text?
    defaultTtlSeconds :=
      ← r.withDefault? "default_ttl_seconds" d.defaultTtlSeconds (f.natBelow? limit64)
    operationTimeoutMs :=
      ← r.withDefault? "operation_timeout_ms" d.operationTimeoutMs (f.natBelow? limit64)
    redis := ← r.withDefault? "redis" d.redis (RemoteCache.read? f)
    memory := ← r.withDefault? "memory" d.memory (MemoryCache.read? f) }

def Password.read? (f : Form ν) (v : ν) : Option Password := do
  let r ← f.record? ["secret_env", "max_concurrent_hashes"] v
  let d : Password := {}
  return {
    secretEnv := ← r.withDefault? "secret_env" d.secretEnv f.text?
    maxConcurrentHashes :=
      ← r.withDefault? "max_concurrent_hashes" d.maxConcurrentHashes (f.natBelow? limit64) }

def Signing.read? (f : Form ν) (v : ν) : Option Signing := do
  let r ← f.record? ["key_dir", "passphrase_env", "issuer", "audience", "token_ttl_minutes"] v
  let d : Signing := {}
  return {
    keyDir := ← r.withDefault? "key_dir" d.keyDir f.text?
    passphraseEnv := ← r.withDefault? "passphrase_env" d.passphraseEnv f.text?
    issuer := ← r.withDefault? "issuer" d.issuer f.text?
    audience := ← r.withDefault? "audience" d.audience f.text?
    tokenTtlMinutes :=
      ← r.withDefault? "token_ttl_minutes" d.tokenTtlMinutes (f.natBelow? limit64) }

def Session.read? (f : Form ν) (v : ν) : Option Session := do
  let r ← f.record? ["key_prefix", "nonce_bytes"] v
  let d : Session := {}
  return {
    keyPrefix := ← r.withDefault? "key_prefix" d.keyPrefix f.text?
    nonceBytes := ← r.withDefault? "nonce_bytes" d.nonceBytes (f.natBelow? limit64) }

def Logging.read? (f : Form ν) (v : ν) : Option Logging := do
  let r ← f.record? ["level", "format"] v
  let d : Logging := {}
  return {
    level := ← r.withDefault? "level" d.level f.text?
    format := ← r.withDefault? "format" d.format f.text? }

def Settings.read? (f : Form ν) (v : ν) : Option Settings := do
  let r ← f.record? ["cache", "password", "signing", "session", "logging"] v
  let d : Settings := {}
  return {
    cache := ← r.withDefault? "cache" d.cache (Cache.read? f)
    password := ← r.withDefault? "password" d.password (Password.read? f)
    signing := ← r.withDefault? "signing" d.signing (Signing.read? f)
    session := ← r.withDefault? "session" d.session (Session.read? f)
    logging := ← r.withDefault? "logging" d.logging (Logging.read? f) }

def jsonForm : Form Json.Value := ⟨Json.record?, Json.Value.text?, Json.Value.natBelow?⟩

end AuthCore.Config
