/-
The grammars source files are written in, and which grammar a path calls for: the extension
decides, in capital or small letters.
-/
import DocAtlas.Text.Lower

namespace DocAtlas

inductive Grammar where
  | javascript | typescript | tsx
deriving DecidableEq, Repr

namespace Grammar

/-- The language the grammar belongs to. -/
def language : Grammar → Text
  | javascript => "javascript"
  | typescript | tsx => "typescript"

def isTsx (g : Grammar) : Bool := g == tsx

def isTyped (g : Grammar) : Bool := g != javascript

/-- The part of the last path element from its last dot on. -/
def extension (path : Text) : Text :=
  let base := path.reverse.takeWhile (· != 47)
  let ext := base.takeWhile (· != 46)
  if ext.length < base.length then 46 :: ext.reverse else []

/-- The grammar of an extension in small letters. -/
def ofExtension? (ext : Text) : Option Grammar :=
  if ext = ".js" ∨ ext = ".jsx" ∨ ext = ".mjs" ∨ ext = ".cjs" then some javascript
  else if ext = ".ts" ∨ ext = ".mts" ∨ ext = ".cts" then some typescript
  else if ext = ".tsx" then some tsx
  else none

/-- The grammar a path calls for. -/
def ofPath? (path : Text) : Option Grammar := ofExtension? (Text.lower (extension path))

/-- Whether a path can be parsed. -/
def supports (path : Text) : Bool := (ofPath? path).isSome

/-- The language of a path in words. -/
def languageOf (path : Text) : Text := ((ofPath? path).map language).getD "unknown"

/-- Every extension that can be parsed. -/
def extensions : List Text := [".js", ".jsx", ".mjs", ".cjs", ".ts", ".tsx", ".mts", ".cts"]

end Grammar

end DocAtlas
