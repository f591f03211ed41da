import AuthCore.Failure
import AuthCore.Log.Line

set_option autoImplicit false

namespace AuthCore.Server

inductive Event where
  | starting
  | cacheWanted (provider : String)
  | memoryCacheChosen
  | remoteCacheChosen
  /-- The address as it may be logged. -/
  | connecting (url : String)
  | connected
  | contextWanted
  | keyDirectoryConfigured (keyDir : String) (isEncrypted : Bool)
  | secretLoaded (source : String)
  | keyLoaded (source kid : String) (attempt : Nat)
  | credentialsLoaded (kid : String)
  | ready (keyPrefix issuer : String)
  | stopRequested
  | connectionReleased
  | contextClosed
  | stopped
  | startupFailed (f : Failure)

namespace Event

def version : String := "0.1.0"

def line : Event → Log.Line
  | starting => ⟨.info, "warden_server", [("message", .text ("Starting Warden v" ++ version))]⟩
  | cacheWanted provider =>
    ⟨.info, "warden_server",
      [("message", .text "Initializing cache"), ("provider", .text provider)]⟩
  | memoryCacheChosen =>
    ⟨.info, "warden_cache::provider",
      [("message", .text "Initializing in-memory cache provider")]⟩
  | remoteCacheChosen =>
    ⟨.info, "warden_cache::provider", [("message", .text "Initializing Redis cache provider")]⟩
  | connecting url =>
    ⟨.info, "warden_cache::redis::client",
      [("message", .text "Connecting to Redis"), ("url", .text url)]⟩
  | connected =>
    ⟨.info, "warden_cache::redis::client",
      [("message", .text "Successfully connected to Redis")]⟩
  | contextWanted =>
    ⟨.info, "warden_server", [("message", .text "Initializing authentication context")]⟩
  | keyDirectoryConfigured keyDir isEncrypted =>
    ⟨.debug, "warden_auth::signing::repository",
      [("message", .text "Configured signing key repository"), ("key_dir", .text keyDir),
        ("encrypted", .bool isEncrypted)]⟩
  | secretLoaded source =>
    ⟨.info, "warden_auth::password::secret",
      [("message", .text "Password hashing secret loaded"), ("source", .text source)]⟩
  | keyLoaded source kid attempt =>
    ⟨.info, "warden_auth::signing::repository",
      [("message", .text "Signing key loaded"), ("source", .text source), ("kid", .text kid),
        ("attempt", .nat attempt)]⟩
  | credentialsLoaded kid =>
    ⟨.info, "warden_auth::context",
      [("message", .text "Authentication credentials loaded"), ("kid", .text kid)]⟩
  | ready keyPrefix issuer =>
    ⟨.info, "warden_server",
      [("message", .text "Warden ready"), ("session_prefix", .text keyPrefix),
        ("issuer", .text issuer)]⟩
  | stopRequested => ⟨.info, "warden_server", [("message", .text "Shutdown signal received")]⟩
  | connectionReleased =>
    ⟨.info, "warden_cache::redis::client", [("message", .text "Redis connection released")]⟩
  | contextClosed =>
    ⟨.info, "warden_auth::context", [("message", .text "Authentication context shut down")]⟩
  | stopped => ⟨.info, "warden_server", [("message", .text "Warden stopped")]⟩
  | startupFailed f =>
    ⟨.error, "warden_server",
      [("message", .text "Startup failed"), ("error", .text f.display)]⟩

end Event

/-- An outcome together with what happened on the way, in order. -/
structure Noted (α : Type) where
  events : List Event
  outcome : Except Failure α

namespace Noted

variable {α β : Type}

def quiet (outcome : Except Failure α) : Noted α := ⟨[], outcome⟩

def note (e : Event) : Noted Unit := ⟨[e], .ok ()⟩

def bind (a : Noted α) (next : α → Noted β) : Noted β :=
  match a.outcome with
  | .ok x => ⟨a.events ++ (next x).events, (next x).outcome⟩
  | .error f => ⟨a.events, .error f⟩

instance : Monad Noted where
  pure a := quiet (.ok a)
  bind := bind

theorem outcome_bind (a : Noted α) (next : α → Noted β) :
    (a >>= next).outcome = a.outcome >>= fun x => (next x).outcome := by
  change (bind a next).outcome = _
  unfold bind
  cases a.outcome <;> rfl

theorem outcome_pure (a : α) : (pure a : Noted α).outcome = .ok a := rfl

theorem outcome_note_bind (e : Event) (next : Unit → Noted α) :
    (note e >>= next).outcome = (next ()).outcome := rfl

theorem outcome_quiet (outcome : Except Failure α) : (quiet outcome).outcome = outcome := rfl

end Noted

end AuthCore.Server
