/-
Byte strings in JSON: a text in UTF-8 is a string, any other is an object with its base64.
-/
import DocAtlas.Json.Value
import DocAtlas.Text.Base64
import DocAtlas.Text.Rune

namespace DocAtlas.Json

def ofBytes (t : Text) : Json := if Text.isUtf8 t then .str t else .obj [("b64", .str (Base64.encode t))]

/-- The bytes a value stands for; none for a value of another shape. -/
def bytes? : Json → Option Text
  | .str s => some s
  | .obj members =>
    match lookup? "b64" members with
    | some (.str s) => Base64.decode? s
    | _ => none
  | _ => none

end DocAtlas.Json
