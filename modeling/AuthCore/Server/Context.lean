import AuthCore.Cache.Manager
import AuthCore.Config.Rules
import AuthCore.Password.Hasher
import AuthCore.Password.Secret
import AuthCore.Server.Event
import AuthCore.Session.Store
import AuthCore.Signing.Repository
import AuthCore.Token.Issuer

set_option autoImplicit false

namespace AuthCore.Server

structure Context where
  hasher : Password.Hasher
  secret : Password.Secret
  keys : Signing.Repository
  tokens : Token.Issuer
  sessions : Session.Store

def loadSecret (secret : Password.Secret) (load : Except Failure Bytes) : Noted Password.Secret :=
  let (answer, after) := secret.expose load
  match answer with
  | .ok _ => ⟨if secret.isLoaded then [] else [.secretLoaded secret.source], .ok after⟩
  | .error f => .quiet (.error f)

def loadKeys (keys : Signing.Repository) (disk : Files.Disk) :
    Noted (Signing.KeyMaterial × Signing.Repository) :=
  let (answer, after) := keys.material disk
  match answer with
  | .ok m =>
    ⟨if keys.isLoaded then [] else [.keyLoaded m.source m.jwk.kid after.loadAttempts],
      .ok (m, after)⟩
  | .error f => .quiet (.error f)

theorem loadSecret_outcome (secret : Password.Secret) (load : Except Failure Bytes) :
    (loadSecret secret load).outcome =
      (secret.expose load).1.map fun _ => (secret.expose load).2 := by
  unfold loadSecret
  cases h : (secret.expose load).1 <;> simp [h, Noted.quiet, Except.map]

theorem loadKeys_outcome (keys : Signing.Repository) (disk : Files.Disk) :
    (loadKeys keys disk).outcome =
      (keys.material disk).1.map fun m => (m, (keys.material disk).2) := by
  unfold loadKeys
  cases h : (keys.material disk).1 <;> simp [h, Noted.quiet, Except.map]

namespace Context

def assemble (c : Config.Settings) (secret : Password.Secret) (load : Except Failure Bytes)
    (keys : Signing.Repository) (disk : Files.Disk) : Noted Context := do
  Noted.quiet c.validate
  let secret ← loadSecret secret load
  let (material, keys) ← loadKeys keys disk
  Noted.note (.credentialsLoaded material.jwk.kid)
  return {
    hasher := .new .current c.password.maxConcurrentHashes
    secret := secret
    keys := keys
    tokens := .new c.signing.issuer c.signing.audience c.signing.tokenTtlMinutes
    sessions := .ofSettings c.session }

def ofSettings (c : Config.Settings) (environment : List (String × Bytes)) (disk : Files.Disk) :
    Noted Context := do
  let secretName := c.password.secretEnv
  let keys := Signing.Repository.ofSettings c.signing environment
  Noted.note (.keyDirectoryConfigured keys.keyDir keys.passphrase.isSome)
  assemble c (.ofVariable secretName)
    (Password.Secret.loadVariable secretName (environment.lookup secretName)) keys disk

end Context

def releaseEvents : Cache.Manager → List Event
  | .memory _ => [.contextClosed]
  | .remote _ => [.connectionReleased, .contextClosed]

def closeCache {σ : Type} (server : Cache.Remote.Server σ) (now : Time.Instant)
    (s : Cache.Manager × σ) : Noted (Cache.Manager × σ) :=
  let (answer, after) := Cache.Manager.answer server .close now s
  match answer with
  | .ok isFirst => ⟨if isFirst then releaseEvents s.1 else [], .ok after⟩
  | .error f => .quiet (.error f)

end AuthCore.Server
