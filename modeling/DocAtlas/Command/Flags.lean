/-
The flags of a command line. A flag is `--name value` or `--name=value`; a switch needs no value; a
flag with a letter is also `-x`. Flags and operands may be mixed, and after `--` all are operands.
-/
import DocAtlas.Text.Quoted

namespace DocAtlas

/-- A flag. -/
structure Flag where
  name : Text
  letter : Option UInt8
  /-- Whether it is on or off and needs no value. -/
  isSwitch : Bool
  usage : Text
  /-- What it stands for if it is not given; empty means off or nothing. -/
  default : Text
deriving DecidableEq, Repr

/-- What is wrong with a command line. -/
inductive UsageFault where
  | badSyntax (arg : Text)
  | unknownFlag (name : Text)
  | unknownLetter (letter : UInt8) (letters : Text)
  | noValue (name : Text)
  | noLetterValue (letter : UInt8) (letters : Text)
  | notBool (flag : Flag) (value : Text)
  | unknownCommand (name path : Text) (similar : List Text)
  | operandCount (due given : Nat)
deriving Repr

namespace Flag

/-- A flag with a value. -/
def text (name usage : Text) : Flag := ⟨name, none, false, usage, []⟩

def switch (name usage : Text) : Flag := ⟨name, none, true, usage, []⟩

/-- The flag as it is called. -/
def label (f : Flag) : Text :=
  match f.letter with
  | some b => [45, b] ++ ", --" ++ f.name
  | none => "--" ++ f.name

end Flag

namespace UsageFault

/-- A letter between quotes. -/
def letterText (b : UInt8) : Text := 39 :: b :: [39]

/-- The line that offers a similar command. -/
def offer (name : Text) : Text := "\t" ++ name ++ "\n"

def message : UsageFault → Text
  | badSyntax arg => "bad flag syntax: " ++ arg
  | unknownFlag name => "unknown flag: --" ++ name
  | unknownLetter b letters => "unknown shorthand flag: " ++ letterText b ++ " in -" ++ letters
  | noValue name => "flag needs an argument: --" ++ name
  | noLetterValue b letters => "flag needs an argument: " ++ letterText b ++ " in -" ++ letters
  | notBool flag value =>
    "invalid argument " ++ Text.quoted value ++ " for " ++ Text.quoted flag.label ++
      " flag: strconv.ParseBool: parsing " ++ Text.quoted value ++ ": invalid syntax"
  | unknownCommand name path similar =>
    let offers : Text := if similar.isEmpty then [] else "\n\nDid you mean this?\n" ++ similar.flatMap offer
    "unknown command " ++ Text.quoted name ++ " for " ++ Text.quoted path ++ offers
  | operandCount due given => "accepts " ++ Text.ofNat due ++ " arg(s), received " ++ Text.ofNat given

end UsageFault

/-- The flags given, with their values. -/
abbrev FlagValues := List (Text × Text)

namespace FlagValues

def isGiven (v : FlagValues) (name : Text) : Bool := v.any fun e => e.1 == name

/-- The last value given, if it is not empty. -/
def text? (v : FlagValues) (name : Text) : Option Text :=
  ((v.reverse.find? fun e => e.1 == name).map Prod.snd).filter fun t => !t.isEmpty

/-- Whether a switch is on. -/
def isOn (v : FlagValues) (name : Text) : Bool :=
  (((v.reverse.find? fun e => e.1 == name).map Prod.snd).bind Text.toBool?).getD false

end FlagValues

namespace Flag

/-- The flag of a name. -/
def named? (flags : List Flag) (name : Text) : Option Flag := flags.find? fun f => f.name == name

/-- The flag of a letter. -/
def lettered? (flags : List Flag) (b : UInt8) : Option Flag := flags.find? fun f => f.letter == some b

/-- A flag with a value, if the flag takes it. -/
def checked (f : Flag) (value : Text) : Except UsageFault (Text × Text) :=
  if f.isSwitch && (Text.toBool? value).isNone then .error (.notBool f value) else .ok (f.name, value)

/-- What an argument does: it gives flags, and may leave one that takes the next argument as its
value. -/
structure Effect where
  given : FlagValues
  /-- A flag that needs a value, and the fault if there is none. -/
  pending : Option (Flag × UsageFault)

/-- The effect of `--name` or `--name=value`. -/
def long (flags : List Flag) (arg : Text) : Except UsageFault Effect :=
  let body := arg.drop 2
  if body.isEmpty || body.head? == some 45 || body.head? == some 61 then .error (.badSyntax arg)
  else
    let (name, value) := Text.cut 61 body
    match named? flags name, value with
    | none, _ => .error (.unknownFlag name)
    | some f, some v => (f.checked v).map fun e => ⟨[e], none⟩
    | some f, none =>
      if f.isSwitch then .ok ⟨[(f.name, "true")], none⟩ else .ok ⟨[], some (f, .noValue name)⟩

/-- The effect of letters after one dash. -/
def short (flags : List Flag) : Text → Except UsageFault Effect
  | [] => .ok ⟨[], none⟩
  | b :: more =>
    match lettered? flags b with
    | none => .error (.unknownLetter b (b :: more))
    | some f =>
      match more with
      | 61 :: v :: vs => (f.checked (v :: vs)).map fun e => ⟨[e], none⟩
      | _ =>
        if f.isSwitch then do
          let rest ← short flags more
          return ⟨(f.name, Text.ofString "true") :: rest.given, rest.pending⟩
        else if more.isEmpty then .ok ⟨[], some (f, .noLetterValue b [b])⟩
        else (f.checked more).map fun e => ⟨[e], none⟩

/-- Whether an argument is no flag. -/
def isOperand (arg : Text) : Bool := arg.head? != some 45 || arg.length == 1

/-- Reads the arguments of a command: the flags given, and the operands. -/
def parse (flags : List Flag) : List Text → Except UsageFault (FlagValues × List Text)
  | [] => .ok ([], [])
  | arg :: rest => do
    if isOperand arg then
      let (v, operands) ← parse flags rest
      return (v, arg :: operands)
    if arg = "--" then return ([], rest)
    let effect ← if arg.tail.head? == some 45 then long flags arg else short flags arg.tail
    match effect.pending with
    | none =>
      let (v, operands) ← parse flags rest
      return (effect.given ++ v, operands)
    | some (f, fault) =>
      match rest with
      | [] => throw fault
      | value :: rest =>
        let e ← f.checked value
        let (v, operands) ← parse flags rest
        return (effect.given ++ e :: v, operands)

/-! ## Looking ahead -/

/-- Whether an argument is a flag that takes the next one as its value, as far as can be told before
the command is known. A flag that is not known is taken to. -/
def takesNext (flags : List Flag) (arg : Text) : Bool :=
  !arg.any (· == 61) &&
    match arg with
    | 45 :: 45 :: name => !(named? flags name).any Flag.isSwitch
    | [45, b] => !(lettered? flags b).any Flag.isSwitch
    | _ => false

/-- The operands, as far as can be told before the command is known. -/
def operandsAhead (flags : List Flag) : List Text → List Text
  | [] => []
  | arg :: rest =>
    if arg = "--" then []
    else if takesNext flags arg then
      match rest with
      | [] => []
      | [_] => []
      | _ :: next :: rest => operandsAhead flags (next :: rest)
    else if arg.isEmpty || arg.head? == some 45 then operandsAhead flags rest
    else arg :: operandsAhead flags rest

/-- The arguments without the first operand that is a word. -/
def dropOperand (flags : List Flag) (word : Text) : List Text → List Text
  | [] => []
  | arg :: rest =>
    if arg = "--" then arg :: rest
    else if takesNext flags arg then
      match rest with
      | [] => [arg]
      | value :: rest => arg :: value :: dropOperand flags word rest
    else if arg.head? != some 45 && arg == word then rest
    else arg :: dropOperand flags word rest

end Flag

end DocAtlas
