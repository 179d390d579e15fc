/-
Run metrics in the text format of monitoring systems: families in byte order of their names, each
with its help and type, samples in byte order of their labels, families without samples left out.
-/
import DocAtlas.Number.Shortest

namespace DocAtlas

/-- What has been counted. -/
structure Metrics where
  /-- How often each outcome occurred in each mode. -/
  files : List ((Text × Text) × Nat)
  /-- The time spent on each file in each mode, in nanoseconds, in order. -/
  durations : List (Text × List Nat)
  components : Nat
  symbols : Nat
  calls : Nat
deriving Repr

namespace Metrics

def empty : Metrics := ⟨[], [], 0, 0, 0⟩

/-- Counts one more for an outcome, keeping byte order. -/
def bump (key : Text × Text) : List ((Text × Text) × Nat) → List ((Text × Text) × Nat)
  | [] => [(key, 1)]
  | (k, n) :: rest =>
    if k = key then (k, n + 1) :: rest
    else if (k.1 = key.1 && Text.le k.2 key.2) || (k.1 != key.1 && Text.le k.1 key.1) then (k, n) :: bump key rest
    else (key, 1) :: (k, n) :: rest

/-- Adds a duration to a mode, keeping byte order. -/
def observe (mode : Text) (nanos : Nat) : List (Text × List Nat) → List (Text × List Nat)
  | [] => [(mode, [nanos])]
  | (m, ns) :: rest =>
    if m = mode then (m, ns ++ [nanos]) :: rest
    else if Text.le m mode then (m, ns) :: observe mode nanos rest
    else (mode, [nanos]) :: (m, ns) :: rest

/-- One file was processed. -/
def fileProcessed (m : Metrics) (mode outcome : Text) (nanos : Nat) : Metrics :=
  { m with files := bump (mode, outcome) m.files, durations := observe mode nanos m.durations }

/-- Components were documented. -/
def componentsDocumented (m : Metrics) (n : Nat) : Metrics := { m with components := m.components + n }

/-- Facts were recorded. -/
def knowledgeRecorded (m : Metrics) (symbols calls : Nat) : Metrics :=
  { m with symbols := m.symbols + symbols, calls := m.calls + calls }

/-! ## Numbers -/

/-- A duration in seconds. -/
def seconds (nanos : Nat) : Binary64 :=
  (Binary64.ofNat (nanos / 1000000000)).addMagnitude
    ((Binary64.ofRatio? false (nanos % 1000000000) 1000000000).getD .zero)

/-- Whether a magnitude is at most another. -/
def atMost (x y : Binary64) : Bool :=
  let (a, b) := x.ratio
  let (c, d) := y.ratio
  a * d ≤ c * b

/-- The upper bounds of the duration buckets: half a millisecond, doubled thirteen times. -/
def bounds : List Binary64 :=
  (List.range 14).map fun i => (Binary64.ofRatio? false (5 * Nat.pow 2 i) 10000).getD .zero

/-- A count as a sample. -/
def countText (n : Nat) : Text := (Binary64.ofNat n).reportText

/-! ## Text -/

/-- A label value, with backslash, quote and newline escaped. -/
def labelText (t : Text) : Text :=
  t.flatMap fun b => if b == 92 then "\\\\" else if b == 34 then "\\\"" else if b == 10 then "\\n" else [b]

/-- A label. -/
def label (name value : Text) : Text := name ++ "=\"" ++ labelText value ++ "\""

/-- A sample with labels. -/
def sample (name : Text) (labels : List Text) (value : Text) : Text :=
  let listed : Text := if labels.isEmpty then [] else 123 :: Text.joinWith "," labels ++ [125]
  name ++ listed ++ " " ++ value ++ "\n"

/-- The head of a family. -/
def head (name help type : Text) : Text :=
  "# HELP " ++ name ++ " " ++ help ++ "\n# TYPE " ++ name ++ " " ++ type ++ "\n"

/-- A counter without labels. -/
def counter (name help : Text) (n : Nat) : Text := head name help "counter" ++ sample name [] (countText n)

/-- The samples of the durations of a mode. -/
def histogram (name mode : Text) (nanos : List Nat) : Text :=
  let xs := nanos.map seconds
  let sum := xs.foldl Binary64.addMagnitude .zero
  let bucket (le : Text) (n : Nat) : Text :=
    sample (name ++ "_bucket") [label "mode" mode, label "le" le] (countText n)
  bounds.flatMap (fun b => bucket b.reportText (xs.countP fun x => atMost x b)) ++
    bucket "+Inf" xs.length ++
    sample (name ++ "_sum") [label "mode" mode] sum.reportText ++
    sample (name ++ "_count") [label "mode" mode] (countText xs.length)

/-- All families. -/
def render (m : Metrics) : Text :=
  counter "quickgen_calls_total" "Call sites recorded in the knowledge base." m.calls ++
    counter "quickgen_components_total" "Components documented." m.components ++
    (if m.durations.isEmpty then []
     else head "quickgen_file_duration_seconds" "Time spent on a single file." "histogram" ++
      m.durations.flatMap fun (mode, nanos) => histogram "quickgen_file_duration_seconds" mode nanos) ++
    (if m.files.isEmpty then []
     else head "quickgen_files_total" "Files processed, by mode and outcome." "counter" ++
      m.files.flatMap fun ((mode, outcome), n) =>
        sample "quickgen_files_total" [label "mode" mode, label "outcome" outcome] (countText n)) ++
    counter "quickgen_symbols_total" "Symbols recorded in the knowledge base." m.symbols

end Metrics

end DocAtlas
