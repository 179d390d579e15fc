/-
Registering the server in the settings of a client: a JSON object in which one member holds the
servers by name. An entry that is there stays as it is; otherwise one is added and the document is
written anew, members in byte order and numbers in their shortest form.
-/
import DocAtlas.Fault
import DocAtlas.Json.Float
import DocAtlas.Json.Reader
import DocAtlas.Json.Sorted
import DocAtlas.Json.Writer
import DocAtlas.Product
import DocAtlas.Text.Blank

namespace DocAtlas

namespace Registration

/-- The name of the server. -/
def serverName : Text := Product.name

/-- The value of a document in its plain form. -/
def value (text : Text) : Except Fault Json :=
  match Json.parse? text with
  | none => .error .jsonSyntax
  | some v =>
    match v.floats? with
    | none => .error .jsonShape
    | some v => .ok v.sorted

/-- The members of the servers in a document; none if there is no such object. -/
def servers? (key : Text) (doc : Table Json) : Option (Table Json) :=
  match Table.find? key doc with
  | some (.obj servers) => some servers
  | _ => none

/-- Whether the servers of a document have an entry for the server. -/
def isEntered (servers : Table Json) : Bool := (Table.find? serverName servers).isSome

/-- Whether a settings file names the server. -/
def isRegistered (text key : Text) : Bool :=
  match value text with
  | .ok (.obj doc) => ((servers? key doc).map isEntered).getD false
  | _ => false

/-- The members of a settings document. Blank text is an empty document. -/
def document (existing : Text) : Except Fault (Table Json) :=
  if (Text.trim existing).isEmpty then .ok []
  else
    match value existing with
    | .error f => .error (.during "invalid JSON" f)
    | .ok (.obj doc) => .ok doc
    | .ok .null => .error .nullDocument
    | .ok _ => .error (.during "invalid JSON" .jsonShape)

/-- The entry of the server, some members of which may be set from outside. -/
def entry (extra : List (Text × Json)) : Json :=
  .obj (extra.foldl (fun e m => Table.put m.1 m.2 e)
    [("args", .strs ["serve", "--watch"]), ("command", .str serverName)])

/-- The document with the server entered; none if it was there. -/
def add (existing key : Text) (extra : List (Text × Json)) : Except Fault (Option Text) := do
  let doc ← document existing
  let servers := (servers? key doc).getD []
  if isEntered servers then return none
  let servers := Table.put serverName (entry extra) servers
  return some ((Json.obj (Table.put key (.obj servers) doc)).pretty ++ "\n")

end Registration

end DocAtlas
