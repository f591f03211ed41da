import AuthCore.Files.Node
import AuthCore.Proofs.Config.TomlTables

set_option autoImplicit false

namespace AuthCore.Config

structure Format where
  endings : List String
  read? : String → Option (List (String × Raw))
  keyed : ∀ {text : String} {layer : List (String × Raw)}, read? text = some layer →
    (Raw.table layer).Keyed

namespace Format

def toml : Format := ⟨["toml"], Toml.read?, Toml.keyed_read?⟩

/-- A format that nothing reads: its files are found, and settings cannot be built from them. -/
def unread (endings : List String) : Format := ⟨endings, fun _ => none, nofun⟩

/-- The formats of the service in the order of the search, of which only TOML has a reader here. -/
def known : List Format :=
  toml :: [["json"], ["yaml", "yml"], ["ini"], ["ron"], ["json5"]].map unread

end Format

/-- A name without slashes and lone points at its end. -/
def trimPath (path : String) : String :=
  let rec go : (fuel : Nat) → List Char → List Char
    | 0, cs => cs
    | _, ['/'] => ['/']
    | fuel + 1, '/' :: cs => go fuel cs
    | fuel + 1, '.' :: '/' :: cs => go fuel ('/' :: cs)
    | _, cs => cs
  String.ofList (go path.length path.toList.reverse).reverse

/-- The name with an ending of settings files; names that end in a step up have none. -/
def withEnding (path ending : String) : String :=
  let trimmed := trimPath path
  if trimmed.endsWith "/.." ∨ trimmed = ".." then path else trimmed ++ "." ++ ending

/-- The format and the bytes of a settings file: that of the very name if it is there, which counts
only with an ending of a format, else the first that there is of the name with an ending. -/
def findFile (formats : List Format) (disk : Files.Disk) (path : String) :
    Option (Format × Bytes) :=
  match disk path with
  | .file content =>
    let ending := (Files.extension? ((path.splitOn "/").getLastD "")).getD ""
    (formats.find? fun f => f.endings.contains ending).map fun f => (f, content)
  | _ =>
    formats.findSome? fun f => f.endings.findSome? fun ending =>
      match disk (withEnding path ending) with
      | .file content => some (f, content)
      | _ => none

theorem findFile_of_first {disk : Files.Disk} {path ending : String} {content : Bytes} {f : Format}
    (hpath : (disk path).isFile = false) (hending : f.endings.head? = some ending)
    (hfile : disk (withEnding path ending) = .file content) (others : List Format) :
    findFile (f :: others) disk path = some (f, content) := by
  unfold findFile
  split
  · rename_i hthere
    rw [hthere] at hpath
    cases hpath
  · obtain ⟨rest, hrest⟩ := List.head?_eq_some_iff.mp hending
    rw [List.findSome?_cons, hrest, List.findSome?_cons, hfile]

end AuthCore.Config
