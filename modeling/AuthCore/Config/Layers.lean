import AuthCore.Config.Environment
import AuthCore.Config.Formats
import AuthCore.Config.Rules

/-!
The settings of a run, from the defaults up: the common file, the file of the setting's name, and
the variables of the environment. A later layer wins, entry by entry. Either file may be missing.
-/

set_option autoImplicit false

namespace AuthCore.Config

/-- Text of a settings file: a byte order mark is dropped, ill-formed bytes are replaced. -/
def fileText (bs : Bytes) : String :=
  Text.Utf8.decodeLossy (if [0xEF, 0xBB, 0xBF].isPrefixOf bs then bs.drop 3 else bs)

def fileLayer? (formats : List Format) (disk : Files.Disk) (path : String) :
    Option (List (String × Raw)) :=
  match findFile formats disk path with
  | some (f, bs) => f.read? (fileText bs)
  | none => some []

def layers? (formats : List Format) (disk : Files.Disk) (environment : List (String × Bytes))
    (name : String) : Option (List (List (String × Raw))) := do
  return [← fileLayer? formats disk "config/default", ← fileLayer? formats disk ("config/" ++ name),
    ← Environment.layer? environment]

def combine (layers : List (List (String × Raw))) : Raw :=
  layers.foldl (fun r layer => r.assignAll layer) (.table [])

def decode? (r : Raw) : Option Settings := Settings.read? Raw.form r

def load (formats : List Format) (disk : Files.Disk) (environment : List (String × Bytes))
    (name : String) : Except Failure Settings :=
  match layers? formats disk environment name with
  | none => .error (.settingsNotBuilt "a layer cannot be read")
  | some layers =>
    match decode? (combine layers) with
    | none => .error (.settingsNotDecoded "a setting has the wrong type")
    | some s => s.validate.map fun _ => s

def ofDocument (text : String) : Except Failure Settings :=
  match (Toml.read? text).bind fun layer => decode? (combine [layer]) with
  | none => .error (.settingsRefused "no settings document")
  | some s => s.validate.map fun _ => s

section Load

variable {formats : List Format} {disk : Files.Disk} {environment : List (String × Bytes)}
  {name : String}

theorem load_eq_ok_iff {s : Settings} : load formats disk environment name = .ok s ↔
    ∃ layers, layers? formats disk environment name = some layers ∧
      decode? (combine layers) = some s ∧ s.validate = .ok () := by
  unfold load
  cases layers? formats disk environment name with
  | none => simp
  | some layers =>
    cases hfound : decode? (combine layers) with
    | none => simp [hfound]
    | some found => simp [hfound, Settings.map_validate_eq_ok_iff]

theorem kind_of_load {f : Failure} (h : load formats disk environment name = .error f) :
    f.kind = .configuration := by
  unfold load at h
  split at h
  · cases h
    rfl
  · split at h
    · cases h
      rfl
    · exact Settings.kind_of_map_validate h

end Load

end AuthCore.Config
