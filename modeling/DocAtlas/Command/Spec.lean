/-
Commands: each has a name, flags and perhaps commands below it, and those that do something have an
action. A command line names a command by the way to it from the program.
-/
import DocAtlas.Command.Flags

namespace DocAtlas

/-- What a command does. -/
inductive Action where
  | document | generate | query | trace | watch | serve | init | setup | version | help
  /-- Prints the completion script of a shell. -/
  | completion (shell : Text)
deriving DecidableEq, Repr

/-- How many operands a command takes. -/
inductive Arity where
  | any | exactly (n : Nat)
deriving DecidableEq, Repr

/-- A command without those below it. -/
structure CommandInfo where
  name : Text
  /-- What its operands are called. -/
  operands : Text
  aliases : List Text
  short : Text
  /-- What it does at length; the short text stands in if there is none. -/
  long : Text
  flags : List Flag
  /-- Flags that commands below it have too. -/
  shared : List Flag
  arity : Arity
  action : Option Action
  /-- Whether the line that shows its use leaves out that it has flags. -/
  bareUse : Bool

/-- A command with those below it, in the order they were added. -/
inductive Command where
  | mk (info : CommandInfo) (children : List Command)

namespace Command

def info : Command → CommandInfo
  | mk i _ => i

def children : Command → List Command
  | mk _ cs => cs

def name (c : Command) : Text := c.info.name

/-- The command below this one that a word names. -/
def child? (c : Command) (word : Text) : Option Command :=
  c.children.find? fun d => d.name == word || d.info.aliases.contains word

/-- A command to build others from: it takes no operands. -/
def leaf (name short long : Text) (flags : List Flag) (action : Action) : CommandInfo :=
  ⟨name, [], [], short, long, flags, [], .exactly 0, some action, false⟩

/-- The flag every command has. -/
def helpFlag (name : Text) : Flag := ⟨"help", some 104, true, "help for " ++ name, []⟩

end Command

/-- A command with the commands above it: the innermost first, the program last. -/
structure CommandPath where
  command : Command
  above : List Command

namespace CommandPath

/-- The words that name it. -/
def words (p : CommandPath) : Text := Text.joinWith " " ((p.above.reverse.map Command.name) ++ [p.command.name])

/-- The flags of the commands above it that it has too. -/
def inherited (p : CommandPath) : List Flag := p.above.flatMap fun c => c.info.shared

/-- The flags it has itself. -/
def own (p : CommandPath) : List Flag := p.command.info.flags ++ p.command.info.shared

/-- All flags but the one for help. -/
def flags (p : CommandPath) : List Flag := p.own ++ p.inherited

/-- Goes down from a command as far as the arguments name commands. Each of these is taken out. -/
def descend : (fuel : Nat) → CommandPath → List Text → CommandPath × List Text
  | 0, p, args => (p, args)
  | fuel + 1, p, args =>
    match Flag.operandsAhead p.flags args with
    | [] => (p, args)
    | word :: _ =>
      match p.command.child? word with
      | none => (p, args)
      | some c => descend fuel ⟨c, p.command :: p.above⟩ (Flag.dropOperand p.flags word args)

end CommandPath

/-! ## Words that are no commands -/

/-- The next row of the table of distances, for one more letter of the first word. -/
def nextRow (b : UInt8) : (left : Nat) → (row : List Nat) → Text → List Nat
  | left, diagonal :: above :: row, c :: t =>
    let cell := if b == c then diagonal else 1 + min left (min diagonal above)
    cell :: nextRow b cell (above :: row) t
  | _, _, _ => []

/-- The number of letters to add, take away or change to make one word of another. -/
def editDistance (s t : Text) : Nat :=
  let start := List.range (t.length + 1)
  let rows := s.foldl (fun (row : List Nat) b => (row.head?.getD 0 + 1) :: nextRow b (row.head?.getD 0 + 1) row t) start
  rows.getLast?.getD 0

namespace Command

/-- Whether a word may have been meant for a command's name. -/
def isSimilar (word name : Text) : Bool :=
  let w := word.map Text.lowerByte
  let n := name.map Text.lowerByte
  editDistance w n ≤ 2 || w.isPrefixOf n

/-- The commands below this one that a word may have been meant for. -/
def similar (c : Command) (word : Text) : List Text :=
  ((c.children.filter fun d => d.info.action != some .help).map name).filter (isSimilar word)

/-- The command that arguments name, with the rest of them. The program takes no operands besides
commands. -/
def locate (program : Command) (args : List Text) : Except UsageFault (CommandPath × List Text) :=
  let (p, rest) := CommandPath.descend args.length ⟨program, []⟩ args
  if !p.above.isEmpty then .ok (p, rest)
  else
    match Flag.operandsAhead p.flags rest with
    | [] => .ok (p, rest)
    | word :: _ => .error (.unknownCommand word p.words (program.similar word))

end Command

end DocAtlas
