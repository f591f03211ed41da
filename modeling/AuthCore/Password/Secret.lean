import AuthCore.Once
import AuthCore.Text.Quoted
import AuthCore.Text.Utf8

set_option autoImplicit false

namespace AuthCore.Password

structure Secret where
  source : String
  cell : Once Bytes

namespace Secret

def new (source : String) : Secret := ⟨source, .empty⟩

def ofVariable (name : String) : Secret := new ("env:" ++ name)

def ofBytes (bs : Bytes) : Secret := ⟨"inline", .filled bs⟩

def loadVariable (name : String) (setting : Option Bytes) : Except Failure Bytes :=
  match setting.filter fun bs => (Text.Utf8.decode? bs).isSome with
  | some bs => .ok bs
  | none => .error (.variableMissing name)

def accept (source : String) (load : Except Failure Bytes) : Except Failure Bytes :=
  match load with
  | .ok [] => .error (.secretEmpty source)
  | outcome => outcome

def expose (s : Secret) (load : Except Failure Bytes) : Except Failure Bytes × Secret :=
  let (answer, cell) := s.cell.get (accept s.source load)
  (answer, { s with cell := cell })

def isLoaded (s : Secret) : Bool := s.cell.isLoaded

def describe (s : Secret) : String :=
  Text.describe "HashSecret"
    [("source", Text.quote s.source), ("loaded", if s.isLoaded then "true" else "false")] true

end Secret

end AuthCore.Password
