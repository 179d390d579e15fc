/-
The tokens of a YAML text. Where a collection begins and ends by indentation alone there are tokens
too, and where the text cannot be read on there is a last token that says so.
-/
import DocAtlas.Yaml.Place

namespace DocAtlas.Yaml

inductive TokenKind where
  | versionDirective (major minor : Text)
  | tagDirective (handle start : Text)
  | documentStart | documentEnd
  | blockSequence | blockMapping | blockEnd
  | flowSequence | flowSequenceEnd
  | flowMapping | flowMappingEnd
  | blockEntry | flowEntry
  | key | value
  | alias_ (name : Text)
  | anchor (name : Text)
  | tag (handle suffix : Text)
  /-- A scalar; `plain` if it stands without quotes and is no block. -/
  | scalar (text : Text) (plain : Bool)
  | streamEnd
  /-- The text cannot be read on. -/
  | unreadable
deriving DecidableEq, Repr

/-- A token and the line it is on, counted from zero. -/
structure Token where
  kind : TokenKind
  line : Nat
deriving DecidableEq, Repr

end DocAtlas.Yaml
