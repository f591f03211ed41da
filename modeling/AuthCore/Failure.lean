import AuthCore.Text.Decimal

/-!
Why an operation of the library fails. A failure is a cause with its data; the category and the
wording of each cause are functions of it, so no other module spells a message.
-/

set_option autoImplicit false

namespace AuthCore

inductive ErrorKind where
  | validation
  | internal
  | cache
  | timeout
  | configuration
  | credential
  | serialization
deriving DecidableEq

namespace ErrorKind

def all : List ErrorKind :=
  [validation, internal, cache, timeout, configuration, credential, serialization]

def name : ErrorKind → String
  | validation => "Validation"
  | internal => "Internal"
  | cache => "Cache"
  | timeout => "Timeout"
  | configuration => "Configuration"
  | credential => "Credential"
  | serialization => "Serialization"

def label : ErrorKind → String
  | validation => "VALIDATION"
  | internal => "INTERNAL"
  | cache => "CACHE"
  | timeout => "TIMEOUT"
  | configuration => "CONFIGURATION"
  | credential => "CREDENTIAL"
  | serialization => "SERIALIZATION"

def ofName? (s : String) : Option ErrorKind := all.find? fun k => k.name == s

/-- Only failures of the cache and of its deadline may pass when tried again. -/
def retryable : ErrorKind → Bool
  | cache | timeout => true
  | _ => false

end ErrorKind

inductive HashFault where
  | memoryTooSmall
  | timeTooSmall
  | threadsNotEnough
  | threadsTooMany
  | outputTooShort
  | outputTooLong
  | saltTooShort
deriving DecidableEq

def HashFault.message : HashFault → String
  | memoryTooSmall => "memory cost is too small"
  | timeTooSmall => "time cost is too small"
  | threadsNotEnough => "not enough threads"
  | threadsTooMany => "too many threads"
  | outputTooShort => "output is too short"
  | outputTooLong => "output is too long"
  | saltTooShort => "salt is too short"

/-- The causes. A `detail` is the report of a reader or of the system, which no rule depends on. -/
inductive Failure where
  /-- A failure that a caller of the library words itself. -/
  | reported (kind : ErrorKind) (message : String) (source : Option String)
  | nonceLengthRefused (least given : Nat)
  | keyPrefixRefused
  | tokenLifetimeRefused (longest given : Nat)
  | noHashSlots
  | noOperationTimeout
  | unknownProvider (name : String)
  | settingsRefused (detail : String)
  | settingsNotBuilt (detail : String)
  | settingsNotDecoded (detail : String)
  | lockPoisoned (client : String)
  | clientClosed (client : String)
  | remoteRefused
  | remoteUnreachable
  | commandFailed (command detail : String)
  | cacheUnhealthy
  | connectTimedOut (ms : Nat)
  | commandTimedOut (command : String) (ms : Nat)
  | hashParameters (fault : HashFault)
  | hashing (fault : HashFault)
  | variableMissing (name : String)
  | secretEmpty (source : String)
  | nonceTooShort (least given : Nat)
  | ownerMismatch
  | ticketMissing
  | keptKeyForeign
  | ticketVersion (version : UInt8)
  | ticketEmpty
  | keyDirectoryMissing (directory : String)
  | keyDirectoryUnreadable (directory detail : String)
  | noKeyFile (directory : String)
  | manyKeyFiles (directory : String) (count : Nat)
  | keyUnreadable (path detail : String)
  | keyNotDecrypted (detail : String)
  | keyNotParsed (detail : String)
  | keyNotEncoded (detail : String)
  | signing (detail : String)
  | signingTask (detail : String)
  | json (detail : String)
  | inputOutput (detail : String)
deriving DecidableEq

namespace Failure

def kind : Failure → ErrorKind
  | reported k _ _ => k
  | nonceLengthRefused .. | keyPrefixRefused | tokenLifetimeRefused .. | noHashSlots
  | noOperationTimeout | unknownProvider _ | settingsRefused _ | settingsNotBuilt _
  | settingsNotDecoded _ => .configuration
  | lockPoisoned _ | clientClosed _ | remoteRefused | remoteUnreachable | commandFailed ..
  | cacheUnhealthy => .cache
  | connectTimedOut _ | commandTimedOut .. => .timeout
  | hashParameters _ | hashing _ | signing _ | signingTask _ | inputOutput _ => .internal
  | variableMissing _ | secretEmpty _ | keyDirectoryMissing _ | keyDirectoryUnreadable ..
  | noKeyFile _ | manyKeyFiles .. | keyUnreadable .. | keyNotDecrypted _ | keyNotParsed _
  | keyNotEncoded _ => .credential
  | nonceTooShort .. | ownerMismatch | ticketMissing | keptKeyForeign => .validation
  | ticketVersion _ | ticketEmpty | json _ => .serialization

open Text.Decimal (write)

def message : Failure → String
  | reported _ m _ => m
  | nonceLengthRefused least given =>
    s!"session.nonce_bytes must be at least {write least} (got {write given})"
  | keyPrefixRefused => "session.key_prefix must be non-empty and must not contain '_'"
  | tokenLifetimeRefused longest given =>
    s!"signing.token_ttl_minutes must be between 1 and {write longest} (got {write given})"
  | noHashSlots => "password.max_concurrent_hashes must be greater than zero"
  | noOperationTimeout => "cache.operation_timeout_ms must be greater than zero"
  | unknownProvider name => s!"Unknown cache provider: '{name}'. Supported: memory, redis"
  | settingsRefused detail => s!"Configuration error: {detail}"
  | settingsNotBuilt detail => s!"Failed to build config: {detail}"
  | settingsNotDecoded detail => s!"Failed to deserialize config: {detail}"
  | lockPoisoned client => s!"{client} client lock poisoned"
  | clientClosed client => s!"{client} client has been closed"
  | remoteRefused => "Failed to create Redis client"
  | remoteUnreachable => "Failed to connect to Redis"
  | commandFailed command detail => s!"Redis {command} failed: {detail}"
  | cacheUnhealthy => "Cache health check failed"
  | connectTimedOut ms => s!"Connecting to Redis timed out after {write ms} ms"
  | commandTimedOut command ms => s!"Redis {command} timed out after {write ms} ms"
  | hashParameters fault => s!"Invalid Argon2 parameters: {fault.message}"
  | hashing fault => s!"Password hashing failed: {fault.message}"
  | variableMissing name => s!"Environment variable {name} is not set"
  | secretEmpty source => s!"Password hashing secret from {source} is empty"
  | nonceTooShort least given =>
    s!"Session nonce must be at least {write least} bytes, got {write given}"
  | ownerMismatch => "Session ticket owner does not match the session key"
  | ticketMissing => "Session ticket to renew does not exist"
  | keptKeyForeign => "Session key to keep belongs to a different owner"
  | ticketVersion version =>
    s!"Unsupported session ticket format version {write version.toNat}"
  | ticketEmpty => "Empty session ticket payload"
  | keyDirectoryMissing directory => s!"Signing key directory {directory} does not exist"
  | keyDirectoryUnreadable directory detail =>
    s!"Signing key directory {directory} is not readable: {detail}"
  | noKeyFile directory => s!"No .pem signing key found in {directory}"
  | manyKeyFiles directory count =>
    s!"Expected exactly one .pem signing key in {directory}, found {write count}"
  | keyUnreadable path detail => s!"Failed to read signing key {path}: {detail}"
  | keyNotDecrypted detail => s!"Failed to decrypt signing key: {detail}"
  | keyNotParsed detail => s!"Failed to parse signing key: {detail}"
  | keyNotEncoded detail => s!"Failed to encode signing key: {detail}"
  | signing detail => s!"Failed to sign token: {detail}"
  | signingTask detail => s!"Token signing task failed: {detail}"
  | json detail => s!"JSON serialization error: {detail}"
  | inputOutput detail => s!"I/O error: {detail}"

def source : Failure → Option String
  | reported _ _ s => s
  | settingsRefused detail | json detail | inputOutput detail => some detail
  | commandFailed _ detail => some detail
  | _ => none

def retryable (f : Failure) : Bool := f.kind.retryable

def display (f : Failure) : String := f.kind.label ++ ": " ++ f.message

/-- What others may keep of a failure: kind and message, without the underlying cause. -/
def copy (f : Failure) : Failure := reported f.kind f.message none

end Failure

end AuthCore
