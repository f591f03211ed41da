set_option autoImplicit false

namespace AuthCore.Config

structure RemoteCache where
  url : String := "redis://localhost:6379"
  keyPrefix : String := ""
  scanBatchSize : Nat := 250
deriving DecidableEq

structure MemoryCache where
  maxCapacity : Nat := 100000
deriving DecidableEq

structure Cache where
  /-- Which kind of cache is used: `memory` or `redis`. -/
  provider : String := "memory"
  /-- The lifetime of entries that are written without one: fourteen days. -/
  defaultTtlSeconds : Nat := 14 * 24 * 60 * 60
  operationTimeoutMs : Nat := 2000
  redis : RemoteCache := {}
  memory : MemoryCache := {}
deriving DecidableEq

structure Password where
  /-- The variable that holds the secret of the hash. -/
  secretEnv : String := "WARDEN_HASH_SECRET"
  maxConcurrentHashes : Nat := 4
deriving DecidableEq

structure Signing where
  keyDir : String := "JWK"
  passphraseEnv : String := "WARDEN_JWK_PASSPHRASE"
  issuer : String := "http://localhost:5500/"
  audience : String := "warden"
  tokenTtlMinutes : Nat := 10
deriving DecidableEq

structure Session where
  keyPrefix : String := "SessionTicket"
  nonceBytes : Nat := 32
deriving DecidableEq

structure Logging where
  level : String := "info"
  format : String := "json"
deriving DecidableEq

structure Settings where
  cache : Cache := {}
  password : Password := {}
  signing : Signing := {}
  session : Session := {}
  logging : Logging := {}
deriving DecidableEq

end AuthCore.Config
