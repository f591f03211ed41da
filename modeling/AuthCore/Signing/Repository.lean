import AuthCore.Config.Settings
import AuthCore.Files.Node
import AuthCore.Once
import AuthCore.Rsa.Encoding
import AuthCore.Signing.Credential

/-!
The one signing key of a directory. A directory without exactly one key file is refused, since no
rule could choose among several. The key is read on first use and kept from then on.
-/

set_option autoImplicit false

namespace AuthCore.Signing

def keyEnding : Bytes := [0x70, 0x65, 0x6D]

def lower (b : UInt8) : UInt8 := if 0x41 ≤ b ∧ b ≤ 0x5A then b + 0x20 else b

def isKeyName (name : Bytes) : Bool :=
  (Files.afterPoint? 0x2E name).any fun ending => ending.map lower == keyEnding

/-- The names of key files among the entries of a directory, each given with whether it leads to a
file. A name need not be text. -/
def keyNames {ν : Type} (bytes : ν → Bytes) (entries : List (ν × Bool)) : List ν :=
  (entries.filter fun e => e.2 && isKeyName (bytes e.1)).map Prod.fst

def candidates (entries : List (String × Bool)) : List String :=
  keyNames Text.Utf8.encode entries

def only {ν : Type} (dir : String) : List ν → Except Failure ν
  | [] => .error (.noKeyFile dir)
  | [name] => .ok name
  | names => .error (.manyKeyFiles dir names.length)

def findKeyFile (dir : String) : Files.Node → Except Failure String
  | .missing => .error (.keyDirectoryMissing dir)
  | .blocked detail => .error (.keyDirectoryUnreadable dir detail)
  | .file _ => .error (.keyDirectoryUnreadable dir "not a directory")
  | .directory entries => (only dir (candidates entries)).map (Files.join dir)

def readKeyFile (path : String) : Files.Node → Except Failure String
  | .file content =>
    match Text.Utf8.decode? content with
    | some text => .ok text
    | none => .error (.keyUnreadable path "stream did not contain valid UTF-8")
  | .missing => .error (.keyUnreadable path "No such file or directory (os error 2)")
  | .blocked detail => .error (.keyUnreadable path detail)
  | .directory _ => .error (.keyUnreadable path "Is a directory (os error 21)")

def loadPrivateKey (disk : Files.Disk) (dir : String) (passphrase : Option String) :
    Except Failure (String × Rsa.PrivateKey) := do
  let path ← findKeyFile dir (disk dir)
  let pem ← readKeyFile path (disk path)
  let key ← Rsa.decodePrivateKey pem passphrase
  return (path, key)

def loadMaterial (disk : Files.Disk) (dir : String) (passphrase : Option String) :
    Except Failure KeyMaterial := do
  let (path, key) ← loadPrivateKey disk dir passphrase
  KeyMaterial.ofPrivateKey path key

structure Repository where
  keyDir : String
  passphrase : Option String
  cell : Once KeyMaterial

namespace Repository

def new (keyDir : String) (passphrase : Option String) : Repository := ⟨keyDir, passphrase, .empty⟩

/-- A passphrase variable counts when it holds text that is not empty. -/
def passphraseOf (setting : Option Bytes) : Option String :=
  (setting.bind Text.Utf8.decode?).filter fun s => !s.isEmpty

/-- The repository that the settings and the variables of the process name. -/
def ofSettings (c : Config.Signing) (environment : List (String × Bytes)) : Repository :=
  new c.keyDir (passphraseOf (environment.lookup c.passphraseEnv))

def material (r : Repository) (disk : Files.Disk) : Except Failure KeyMaterial × Repository :=
  let (answer, cell) := r.cell.get (loadMaterial disk r.keyDir r.passphrase)
  (answer, { r with cell := cell })

def isLoaded (r : Repository) : Bool := r.cell.isLoaded

def loadAttempts (r : Repository) : Nat := r.cell.attempts

def publicJwk (r : Repository) (disk : Files.Disk) : Except Failure Jwk × Repository :=
  let (answer, r) := r.material disk
  (answer.map KeyMaterial.jwk, r)

def jwks (r : Repository) (disk : Files.Disk) : Except Failure Jwks × Repository :=
  let (answer, r) := r.publicJwk disk
  (answer.map Jwks.single, r)

def credential (r : Repository) (disk : Files.Disk) : Except Failure Credential × Repository :=
  let (answer, r) := r.material disk
  (answer.map KeyMaterial.credential, r)

/-- The repository for diagnostics; it shows neither passphrase nor key. -/
def describe (r : Repository) : String :=
  let passphrase := if r.passphrase.isSome then "Some(..)" else "None"
  let material :=
    match r.cell.value with
    | some m => m.describe
    | none => "None"
  Text.describe "SigningKeyRepository"
    [("key_dir", Text.quote r.keyDir), ("passphrase", passphrase), ("material", material),
      ("load_attempts", Text.Decimal.write r.loadAttempts)] true

end Repository

end AuthCore.Signing
