import AuthCore.Server.Startup
import Std.Time.DateTime.Timestamp

/-!
The command line of the service. It takes the files below the working directory and the variables of
its process, writes the log to standard output, and stops at the end of standard input. A first
argument is a log filter in place of that of the settings. The program has no network client, so a
connection to a cache server runs into its deadline.
-/

set_option autoImplicit false

namespace AuthCore.CommandLine

def clock : IO Time.Instant := do
  return .ofNanos (← Std.Time.Timestamp.now).toNanosecondsSinceUnixEpoch.toInt

def isFile (entry : IO.FS.DirEntry) : IO Bool := do
  match ← entry.path.metadata.toBaseIO with
  | .ok found => return found.type == .file
  | .error _ => return false

def observe (path : String) : IO Files.Node := do
  try
    return .file (← IO.FS.readBinFile path).toList
  catch
    | .noFileOrDirectory .. => return .missing
    | fault =>
      try
        let entries ← ((← IO.currentDir) / path).readDir
        return .directory (← entries.toList.mapM fun e => do return (e.fileName, ← isFile e))
      catch _ => return .blocked (toString fault)

def snapshot (paths : List String) : IO Files.Disk := do
  let nodes ← paths.mapM fun path => do return (path, ← observe path)
  return fun path => (nodes.lookup path).getD .missing

def entry? (bs : Bytes) : Option (String × Bytes) := do
  let name := bs.takeWhile (· != 0x3D)
  return (← Text.Utf8.decode? name, bs.drop (name.length + 1))

/-- The pieces of a text of bytes that ends each piece with a zero. -/
def pieces (bs : Bytes) : List Bytes :=
  (bs.foldr (fun b acc =>
    match b, acc with
    | 0, acc => [] :: acc
    | b, [] => [[b]]
    | b, piece :: rest => (b :: piece) :: rest) []).filter fun piece => !piece.isEmpty

def processEnvironment : IO (List (String × Bytes)) := do
  return (pieces (← IO.FS.readBinFile "/proc/self/environ").toList).filterMap entry?

def settingsPaths (name : String) : List String :=
  ["config/default", "config/" ++ name].flatMap fun path =>
    path :: (Config.Format.known.flatMap Config.Format.endings).map (Config.withEnding path)

def keyPaths (keyDir : String) : IO (List String) := do
  match ← observe keyDir with
  | .directory entries => return keyDir :: (Signing.candidates entries).map (Files.join keyDir)
  | _ => return [keyDir]

def awaitCache (c : Config.Cache) : IO Unit := do
  match Cache.Remote.connect c .connected, Cache.Provider.ofName c.provider with
  | .ok _, .ok .remote => IO.sleep (UInt32.ofNat c.operationTimeoutMs)
  | _, _ => return

partial def awaitEnd (input : IO.FS.Stream) : IO Unit := do
  if (← input.getLine).isEmpty then return
  awaitEnd input

def writeLines (c : Config.Settings) (lines : List Log.Line) : IO Unit := do
  let now ← clock
  let output ← IO.getStdout
  for l in lines do
    output.putStrLn (if Server.writesJson c then Json.write (l.toJson now) else l.toText now)
  output.flush

def silent : Cache.Remote.Server Unit := fun _ _ s => (.silence, s)

def tell {α : Type} (c : Config.Settings) (f : Log.Filter) (n : Server.Noted α) :
    IO (Option α) := do
  writeLines c (Server.shownLines f n.history)
  return n.outcome.toOption

def run (override : Option String) : IO UInt32 := do
  let environment ← processEnvironment
  let early : Server.Surroundings :=
    ⟨Config.Format.known, fun _ => .missing, environment, override, .timedOut⟩
  let paths := settingsPaths early.settingsName
  let early := { early with disk := ← snapshot paths }
  match early.settings with
  | .error f =>
    IO.eprintln (Server.unsettledMessage f)
    return 1
  | .ok c =>
    let w := { early with disk := ← snapshot (paths ++ (← keyPaths c.signing.keyDir)) }
    for complaint in w.complaints c do IO.eprintln complaint
    awaitCache c.cache
    let now ← clock
    let health (m : Cache.Manager) := (Cache.Manager.answer silent .health now (m, ())).1
    let some service ← tell c (w.filter c) (Server.start c w health) | return 1
    awaitEnd (← IO.getStdin)
    let some _ ← tell c (w.filter c) (service.stop silent (← clock) ()) | return 1
    return 0

end AuthCore.CommandLine

def main (args : List String) : IO UInt32 := AuthCore.CommandLine.run args.head?
