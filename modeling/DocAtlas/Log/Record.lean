/-
Log records: a level, a message and named values. Operations return the records they would log;
which of them are shown, and how, is decided where the log is written.
-/
import DocAtlas.Json.Value

namespace DocAtlas

inductive LogLevel where
  | debug | info | warn | error
deriving DecidableEq, Repr

namespace LogLevel

def severity : LogLevel → Nat
  | debug => 0
  | info => 1
  | warn => 2
  | error => 3

/-- The name in records. -/
def label : LogLevel → Text
  | debug => "DEBUG"
  | info => "INFO"
  | warn => "WARN"
  | error => "ERROR"

/-- The name in settings. -/
def name : LogLevel → Text
  | debug => "debug"
  | info => "info"
  | warn => "warn"
  | error => "error"

end LogLevel

/-- A value in a record. -/
inductive LogValue where
  | text (t : Text)
  | int (n : Int)
  | bool (b : Bool)
  /-- Any value from outside, its numbers being floating-point numbers. -/
  | data (v : Json)
deriving Repr

structure LogRecord where
  level : LogLevel
  message : Text
  attrs : List (Text × LogValue)
deriving Repr

namespace LogRecord

/-- The key of a value that came without one. -/
def badKey : Text := "!BADKEY"

/-- Pairs keys and values that come in alternation. A value where a key should be, and a key
without a value, are recorded under `badKey`. -/
def pairUp : List Json → List (Text × LogValue)
  | [] => []
  | [.str k] => [(badKey, .text k)]
  | .str k :: .str v :: rest => (k, .text v) :: pairUp rest
  | .str k :: v :: rest => (k, .data v) :: pairUp rest
  | v :: rest => (badKey, .data v) :: pairUp rest

end LogRecord

end DocAtlas
