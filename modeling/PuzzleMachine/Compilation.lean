import PuzzleMachine.Statement.Parse
import PuzzleMachine.Validation

set_option autoImplicit false

namespace PuzzleMachine

structure Compilation where
  sources : SourceMap
  result : Diagnosed ValidProgram

def LimitError.diagnostic (e : LimitError) : Diagnostic :=
  { kind := .invalidHardware, span := .zero 0, message := e.message }

-- Reads one more file: its statements are kept, or what is wrong with it is.
def readFile (sources : SourceMap) (units : Array ParsedUnit) (ds : Array Diagnostic)
    (id : UInt16) : Checked (Array ParsedUnit × Array Diagnostic) := do
  match ← scan sources id with
  | .error wrong => return (units, ds ++ wrong)
  | .ok tokens =>
      match ← parseTokens tokens id with
      | .error wrong => return (units, ds ++ wrong.map ParseError.diagnostic)
      | .ok unit => return (units.push unit, ds)

def readFiles (sources : SourceMap) : Checked (Array ParsedUnit × Array Diagnostic) :=
  sources.ids.foldlM (fun (units, ds) id => readFile sources units ds id) (#[], #[])

def compileFiles (sources : SourceMap) (hw : Hardware) : Checked (Diagnosed ValidProgram) := do
  match hw.check with
  | .error e => return .error [e.diagnostic]
  | .ok () =>
      let (units, ds) ← readFiles sources
      -- Units are validated together, so only if there is nothing wrong with any of them.
      if ds.isEmpty then validate hw units.toList else return .error ds.toList

def tooManyUnits (count : Nat) : Diagnostic :=
  { kind := .internal, span := .zero 0
    message := s!"too many source units: {count} (at most {SourceMap.maxFiles})" }

def compile (units : List SourceUnit) (hw : Hardware) : Checked Compilation := do
  if SourceMap.maxFiles < units.length then
    return ⟨.empty, .error [tooManyUnits units.length]⟩
  let sources := SourceMap.ofUnits units
  return ⟨sources, ← compileFiles sources hw⟩

end PuzzleMachine
