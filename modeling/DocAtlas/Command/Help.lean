/-
The help of a command: what it does, how it is called, the commands below it and its flags, each in
a column. Commands and flags are in byte order of their names.
-/
import DocAtlas.Command.Spec
import DocAtlas.Text.Blank

namespace DocAtlas

/-- A text without blanks at its end. -/
def trimEnd (t : Text) : Text := (t.reverse.dropWhile fun b => b == 32 || (9 ≤ b && b ≤ 13)).reverse

/-- A text filled up with blanks. -/
def filled (width : Nat) (t : Text) : Text := t ++ List.replicate (width - t.length) 32

namespace Flag

/-- The flag on the left of its line. -/
def left (f : Flag) : Text :=
  let named : Text := match f.letter with
    | some _ => "  " ++ f.label
    | none => "      " ++ f.label
  if f.isSwitch then named else named ++ " string"

/-- What the flag does, on the right of its line. -/
def right (f : Flag) : Text :=
  if f.default.isEmpty then f.usage else f.usage ++ " (default " ++ Text.quoted f.default ++ ")"

/-- One line for each flag. -/
def usages (flags : List Flag) : Text :=
  let sorted := flags.mergeSort fun f g => Text.le f.name g.name
  let width := sorted.foldl (fun w f => max w f.left.length) 0
  let lines : List Text := sorted.map fun f => filled (width + 3) f.left ++ f.right
  Text.joinWith "\n" lines

end Flag

namespace CommandPath

/-- The line that shows how the command is called. -/
def useLine (p : CommandPath) : Text :=
  p.words ++ p.command.info.operands ++ if p.command.info.bareUse then [] else Text.ofString " [flags]"

/-- The width of the column of commands. -/
def nameWidth (p : CommandPath) : Nat := p.command.children.foldl (fun w c => max w c.name.length) 11

/-- One line for each command below. -/
def childLines (p : CommandPath) : Text :=
  (p.command.children.mergeSort fun a b => Text.le a.name b.name).flatMap fun c =>
    Text.ofString "\n  " ++ filled p.nameWidth c.name ++ [32] ++ c.info.short

/-- A part of the text, if there is anything to show. -/
def part (isThere : Bool) (t : Text) : Text := if isThere then t else []

/-- How the command is used; `withHelp` shows the flag for help too. -/
def usage (p : CommandPath) (withHelp : Bool) : Text :=
  let c := p.command
  let own := p.own ++ if withHelp then [Command.helpFlag c.name] else []
  let hasChildren := !c.children.isEmpty
  List.flatten
    ["Usage:",
     part c.info.action.isSome ("\n  " ++ p.useLine),
     part hasChildren ("\n  " ++ p.words ++ " [command]"),
     part (!c.info.aliases.isEmpty) ("\n\nAliases:\n  " ++ Text.joinWith ", " (c.name :: c.info.aliases)),
     part hasChildren ("\n\nAvailable Commands:" ++ p.childLines),
     part (!own.isEmpty) ("\n\nFlags:\n" ++ Flag.usages own),
     part (!p.inherited.isEmpty) ("\n\nGlobal Flags:\n" ++ Flag.usages p.inherited),
     part hasChildren ("\n\nUse \"" ++ p.words ++ " [command] --help\" for more information about a command."),
     "\n"]

/-- The help of the command. -/
def help (p : CommandPath) : Text :=
  let about := if p.command.info.long.isEmpty then p.command.info.short else p.command.info.long
  trimEnd about ++ "\n\n" ++ p.usage true

end CommandPath

end DocAtlas
