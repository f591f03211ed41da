import AuthCore.Cache.Memory
import AuthCore.Cache.Remote
import AuthCore.Cache.Url
import AuthCore.Config.Settings

set_option autoImplicit false

namespace AuthCore.Cache

inductive Provider where
  | memory
  | remote

def Provider.ofName (name : String) : Except Failure Provider :=
  if name = "redis" then .ok .remote
  else if name = "memory" then .ok .memory
  else .error (.unknownProvider name)

inductive Attempt where
  | connected
  | refused
  | timedOut

def Remote.connect (c : Config.Cache) (attempt : Attempt) : Except Failure Remote :=
  if Url.isAccepted c.redis.url then
    match attempt with
    | .connected =>
      .ok {
        handle := .new "redis" ()
        keyPrefix := c.redis.keyPrefix
        timeoutMs := c.operationTimeoutMs
        defaultTtlSeconds := c.defaultTtlSeconds
        batch := max 1 c.redis.scanBatchSize }
    | .refused => .error .remoteUnreachable
    | .timedOut => .error (.connectTimedOut c.operationTimeoutMs)
  else .error .remoteRefused

def Memory.ofSettings (c : Config.Cache) : Memory := .new c.memory.maxCapacity c.defaultTtlSeconds

inductive Manager where
  | memory (m : Memory)
  | remote (r : Remote)

namespace Manager

def new (c : Config.Cache) (attempt : Attempt) : Except Failure Manager := do
  match ← Provider.ofName c.provider with
  | .memory => return .memory (.ofSettings c)
  | .remote => return .remote (← Remote.connect c attempt)

variable {σ : Type}

def answer (server : Remote.Server σ) (r : Request) (now : Time.Instant) (s : Manager × σ) :
    Except Failure r.Answer × Manager × σ :=
  match s with
  | (.memory m, t) =>
    let (answer, m) := m.answer r now
    (answer, .memory m, t)
  | (.remote c, t) =>
    let (answer, c, t) := Remote.answer server r now (c, t)
    (answer, .remote c, t)

def backend (server : Remote.Server σ) : Backend (Manager × σ) := ⟨answer server⟩

end Manager

end AuthCore.Cache
