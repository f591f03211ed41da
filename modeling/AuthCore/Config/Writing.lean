import AuthCore.Config.Settings
import AuthCore.Json.Value

set_option autoImplicit false

namespace AuthCore.Config

def RemoteCache.toJson (c : RemoteCache) : Json.Value :=
  .record [("url", .text c.url), ("key_prefix", .text c.keyPrefix),
    ("scan_batch_size", .nat c.scanBatchSize)]

def MemoryCache.toJson (c : MemoryCache) : Json.Value :=
  .record [("max_capacity", .nat c.maxCapacity)]

def Cache.toJson (c : Cache) : Json.Value :=
  .record [("provider", .text c.provider), ("default_ttl_seconds", .nat c.defaultTtlSeconds),
    ("operation_timeout_ms", .nat c.operationTimeoutMs), ("redis", c.redis.toJson),
    ("memory", c.memory.toJson)]

def Password.toJson (c : Password) : Json.Value :=
  .record [("secret_env", .text c.secretEnv), ("max_concurrent_hashes", .nat c.maxConcurrentHashes)]

def Signing.toJson (c : Signing) : Json.Value :=
  .record [("key_dir", .text c.keyDir), ("passphrase_env", .text c.passphraseEnv),
    ("issuer", .text c.issuer), ("audience", .text c.audience),
    ("token_ttl_minutes", .nat c.tokenTtlMinutes)]

def Session.toJson (c : Session) : Json.Value :=
  .record [("key_prefix", .text c.keyPrefix), ("nonce_bytes", .nat c.nonceBytes)]

def Logging.toJson (c : Logging) : Json.Value :=
  .record [("level", .text c.level), ("format", .text c.format)]

def Settings.toJson (c : Settings) : Json.Value :=
  .record [("cache", c.cache.toJson), ("password", c.password.toJson),
    ("signing", c.signing.toJson), ("session", c.session.toJson), ("logging", c.logging.toJson)]

end AuthCore.Config
