/-
Log lines: how records are shown. A text line is a sequence of `key=value`, a value being quoted
if it is empty or holds a blank, an equals sign, a quote or something that is not printable. A
JSON line is an object.
-/
import DocAtlas.Json.Float
import DocAtlas.Json.Sorted
import DocAtlas.Json.Writer
import DocAtlas.Log.Record
import DocAtlas.Text.Blank
import DocAtlas.Text.Lower
import DocAtlas.Text.Quoted

namespace DocAtlas

namespace LogLevel

/-- The level a user means; what is not understood means `info`. -/
def ofInput (t : Text) : LogLevel :=
  let w := Text.lower (Text.trim t)
  if w = "debug" then debug
  else if w = "warn" ∨ w = "warning" then warn
  else if w = "error" then error
  else info

/-- The level with exactly this name; any other name means `info`. -/
def ofName (t : Text) : LogLevel :=
  if t = "debug" then debug else if t = "warn" then warn else if t = "error" then error else info

end LogLevel

namespace LogRecord

/-- Whether a rune makes a value on a text line be quoted. -/
def forcesQuotes (r : Rune) : Bool :=
  match r.code with
  | none => true
  | some n =>
    if n < 0x80 then n ≤ 32 || n == 61 || n == 34 else r.isBlank || !Text.isPrintableCode n

/-- A key or value on a text line. -/
def bare (t : Text) : Text :=
  if t.isEmpty || t.runes.any forcesQuotes then Text.quoted t else t

/-- A string on a JSON line. -/
def jsonString (t : Text) : Text :=
  34 :: t.runes.flatMap (fun r =>
    if r.code == some 8 || r.code == some 12 then Json.codeEscape (r.code.getD 0) else Json.escapedRune false r) ++ [34]

/-- A value on a text line. -/
def textValue : LogValue → Text
  | .text t => bare t
  | .int n => Text.ofInt n
  | .bool b => Text.ofBool b
  | .data v => bare v.sorted.plain

/-- A value on a JSON line. -/
def jsonValue : LogValue → Text
  | .text t => jsonString t
  | .int n => Text.ofInt n
  | .bool b => Text.ofBool b
  | .data v => Json.compact false (v.floats?.getD v).sorted

/-- The record on a text line. -/
def textLine (r : LogRecord) : Text :=
  "level=" ++ r.level.label ++ " msg=" ++ bare r.message ++
    r.attrs.flatMap (fun (k, v) => 32 :: bare k ++ 61 :: textValue v) ++ "\n"

/-- The record on a JSON line. -/
def jsonLine (r : LogRecord) : Text :=
  "\x7b\"level\":\"" ++ r.level.label ++ "\",\"msg\":" ++ jsonString r.message ++
    r.attrs.flatMap (fun (k, v) => 44 :: jsonString k ++ 58 :: jsonValue v) ++ "\x7d\n"

end LogRecord

/-- Which records are shown, and in which form. -/
structure LogSettings where
  level : LogLevel
  json : Bool

namespace LogSettings

/-- The text of the records that are shown. -/
def render (s : LogSettings) (rs : List LogRecord) : Text :=
  (rs.filter fun r => s.level.severity ≤ r.level.severity).flatMap fun r =>
    if s.json then r.jsonLine else r.textLine

end LogSettings

end DocAtlas
