/-
Reading documentation comments back: a description followed by tags. A tag starts only at the
beginning of a comment line, so one that is mentioned in prose is not a tag.
-/
import DocAtlas.Text.Blank

namespace DocAtlas.Doc

/-- One entry `@name {type} param text`. -/
structure Tag where
  name : Text
  type : Text
  param : Text
  text : Text
deriving DecidableEq, Repr

/-- What a documentation comment holds. -/
structure Comment where
  description : Text
  tags : List Tag
deriving DecidableEq, Repr

namespace Tag

/-- Whether tags of this name are followed by the name of a parameter. -/
def namesParam (name : Text) : Bool := name == "param" || name == "property" || name == "prop"

/-- Splits off a leading type in braces. -/
def cutType (t : Text) : Text × Text :=
  match t with
  | 123 :: rest =>
    match Text.cut 125 rest with
    | (type, some after) => (type, Text.trim after)
    | (_, none) => ([], t)
  | _ => ([], t)

/-- A tag from what follows the `@` on its line. -/
def ofLine (line : Text) : Tag :=
  let (name, after) := Text.cut 32 line
  let (type, rest) := cutType (Text.trim (after.getD []))
  let (param, rest) :=
    if namesParam name then
      let (param, rest) := Text.cut 32 rest
      (param, Text.trim (rest.getD []))
    else ([], rest)
  ⟨name, type, param, Text.trim (Text.trimPrefix "- " rest)⟩

/-- The tag with one more line of text. -/
def continued (tag : Tag) (line : Text) : Tag :=
  if line.isEmpty then tag else { tag with text := Text.trim (tag.text ++ " " ++ line) }

end Tag

namespace Comment

/-- A comment line without its margin. -/
def content (line : Text) : Text := Text.trim (Text.trimPrefix "*" (Text.trim line))

/-- Reads the tags of a line list; `current` is the tag the lines belong to until the next. -/
def tagsFrom (current : Tag) : List Text → List Tag
  | [] => [current]
  | line :: lines =>
    match line with
    | 64 :: rest => current :: tagsFrom (Tag.ofLine rest) lines
    | _ => tagsFrom (current.continued line) lines

/-- Reads the lines of a comment: a description up to the first tag, then the tags. -/
def ofLines : List Text → List Text × List Tag
  | [] => ([], [])
  | line :: lines =>
    match line with
    | 64 :: rest => ([], tagsFrom (Tag.ofLine rest) lines)
    | _ =>
      let (description, tags) := ofLines lines
      (line :: description, tags)

/-- The shape of a documentation comment; `/**/` is an empty plain one. -/
def hasShape (c : Text) : Bool :=
  List.isPrefixOf (Text.ofString "/**") c && List.isSuffixOf (Text.ofString "*/") c && 5 ≤ c.length

/-- Reads a documentation comment. Line comments, plain block comments and malformed ones are
none. -/
def parse? (comment : Text) : Option Comment :=
  let c := Text.trim comment
  if hasShape c then
    let (description, tags) := ofLines ((Text.lines (Text.slice c 3 (c.length - 2))).map content)
    some ⟨Text.trim (Text.joinWith "\n" description), tags⟩
  else none

/-- The first tag of a name. -/
def tag? (c : Comment) (name : Text) : Option Tag := c.tags.find? fun t => t.name == name

/-- Whether the comment has a tag of a name. -/
def hasTag (c : Comment) (name : Text) : Bool := c.tags.any fun t => t.name == name

end Comment

end DocAtlas.Doc
