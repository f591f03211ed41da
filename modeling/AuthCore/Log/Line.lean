import AuthCore.Json.Writer
import AuthCore.Log.Filter
import AuthCore.Time.Rfc3339

set_option autoImplicit false

namespace AuthCore.Log

structure Line where
  level : Level
  target : String
  /-- The message comes first. -/
  fields : List (String × Json.Value)

namespace Line

def isShown (f : Filter) (l : Line) : Bool := f.shows l.level l.target

def toJson (l : Line) (now : Time.Instant) : Json.Value :=
  .record [("timestamp", .text (Time.Rfc3339.write now)), ("level", .text l.level.label),
    ("fields", .record l.fields), ("target", .text l.target)]

def fieldText (field : String × Json.Value) : String :=
  let value :=
    match field.2 with
    | .text s => s
    | v => Json.write v
  if field.1 = "message" then value else field.1 ++ ": " ++ value

def toText (l : Line) (now : Time.Instant) : String :=
  "  " ++ Time.Rfc3339.write now ++ " " ++ l.level.label ++ " " ++ l.target ++ ": " ++
    ", ".intercalate (l.fields.map fieldText)

end Line

end AuthCore.Log
