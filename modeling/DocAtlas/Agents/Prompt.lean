/-
Questions to a person at a terminal, answered line by line. No answer means yes.
-/
import DocAtlas.Text.Blank
import DocAtlas.Text.Lower

namespace DocAtlas

/-- The input that has not been read yet. -/
abbrev Answers := Text

namespace Answers

/-- The longest line that is read; at a longer one reading ends for good. -/
def longestLine : Nat := 65535

/-- The next line, without its line end, and what follows it. -/
def next? (a : Answers) : Option Text × Answers :=
  if a.isEmpty then (none, [])
  else
    let (line, rest) := Text.cut Text.newline a
    if longestLine < line.length then (none, []) else (some (Text.trimSuffix "\r" line), rest.getD [])

/-- The text of a yes-or-no question. -/
def question (text : Text) : Text := text ++ " [Y/n] "

/-- Whether an answer means yes. -/
def isYes (answer : Text) : Bool := ([[], "y", "yes"] : List Text).contains (Text.lower (Text.trim answer))

/-- The answer to a yes-or-no question. -/
def confirm (a : Answers) : Bool × Answers :=
  match a.next? with
  | (none, rest) => (true, rest)
  | (some line, rest) => (isYes line, rest)

/-- The text of the question where to register with a program. -/
def scopeQuestion (label : Text) : Text :=
  "\n" ++ label ++ ": register the quickgen MCP server?\n" ++
    "  [1] project scope (shared through the repository)\n" ++ "  [2] user scope\n" ++ "  [3] skip\n" ++ "  > "

/-- The scope an answer chooses; none skips. -/
def scopeOf (answer : Text) : Option Text :=
  let choice := Text.trim answer
  if choice = [] ∨ choice = "1" then some "project" else if choice = "2" then some "user" else none

/-- The chosen scope. -/
def scope (a : Answers) : Option Text × Answers :=
  match a.next? with
  | (none, rest) => (some "project", rest)
  | (some line, rest) => (scopeOf line, rest)

end Answers

end DocAtlas
