import AuthCore.Config.Layers
import AuthCore.Server.Context

set_option autoImplicit false

namespace AuthCore.Server

structure Surroundings where
  formats : List Config.Format
  disk : Files.Disk
  environment : List (String × Bytes)
  /-- A log filter in place of that of the settings. -/
  logFilter : Option String
  attempt : Cache.Attempt

namespace Surroundings

def settingsName (w : Surroundings) : String :=
  ((w.environment.lookup "WARDEN_ENV").bind Text.Utf8.decode?).getD "development"

def settings (w : Surroundings) : Except Failure Config.Settings :=
  Config.load w.formats w.disk w.environment w.settingsName

def override? (w : Surroundings) : Option Log.Filter := w.logFilter.bind Log.Filter.ofText?

def filter (w : Surroundings) (c : Config.Settings) : Log.Filter :=
  w.override?.getD (.ofText c.logging.level)

def complaints (w : Surroundings) (c : Config.Settings) : List String :=
  if w.override?.isSome then [] else Log.Filter.complaints c.logging.level

end Surroundings

structure Service where
  settings : Config.Settings
  cache : Cache.Manager
  context : Context

def openingEvents (c : Config.Cache) : List Event :=
  match Cache.Provider.ofName c.provider with
  | .ok .memory => [.memoryCacheChosen]
  | .ok .remote => [.remoteCacheChosen, .connecting (Cache.Url.mask c.redis.url)]
  | .error _ => []

def openedEvents : Except Failure Cache.Manager → List Event
  | .ok (.remote _) => [.connected]
  | _ => []

def openCache (c : Config.Cache) (attempt : Cache.Attempt) : Noted Cache.Manager :=
  let made := Cache.Manager.new c attempt
  ⟨openingEvents c ++ openedEvents made, made⟩

/-- A cache has to answer that it is well. -/
def checkHealth (answer : Except Failure Bool) : Except Failure Unit := do
  if ← answer then return else throw .cacheUnhealthy

def start (c : Config.Settings) (w : Surroundings) (health : Cache.Manager → Except Failure Bool) :
    Noted Service := do
  Noted.note .starting
  Noted.note (.cacheWanted c.cache.provider)
  let cache ← openCache c.cache w.attempt
  Noted.quiet (checkHealth (health cache))
  Noted.note .contextWanted
  let context ← Context.ofSettings c w.environment w.disk
  Noted.note (.ready c.session.keyPrefix c.signing.issuer)
  return ⟨c, cache, context⟩

/-- The first check that fails decides: cache, health, then what the context needs. -/
theorem start_outcome (c : Config.Settings) (w : Surroundings)
    (health : Cache.Manager → Except Failure Bool) :
    (start c w health).outcome = (do
      let cache ← Cache.Manager.new c.cache w.attempt
      checkHealth (health cache)
      let context ← (Context.ofSettings c w.environment w.disk).outcome
      return (⟨c, cache, context⟩ : Service)) := by
  unfold start
  simp only [Noted.outcome_bind, Noted.outcome_quiet, Noted.outcome_pure]
  rfl

def boot (w : Surroundings) (health : Cache.Manager → Except Failure Bool) :
    Except Failure (Config.Settings × Noted Service) := do
  let c ← w.settings
  return (c, start c w health)

def Service.stop {σ : Type} (service : Service) (server : Cache.Remote.Server σ)
    (now : Time.Instant) (s : σ) : Noted Service := do
  Noted.note .stopRequested
  let (cache, _) ← closeCache server now (service.cache, s)
  Noted.note .stopped
  return { service with cache := cache }

def Noted.history {α : Type} (n : Noted α) : List Event :=
  match n.outcome with
  | .ok _ => n.events
  | .error f => n.events ++ [.startupFailed f]

def shownLines (f : Log.Filter) (events : List Event) : List Log.Line :=
  (events.map Event.line).filter fun l => l.isShown f

def unsettledMessage (f : Failure) : String := "Failed to load configuration: " ++ f.display

def writesJson (c : Config.Settings) : Bool := c.logging.format == "json"

end AuthCore.Server
