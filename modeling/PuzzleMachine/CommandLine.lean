import PuzzleMachine.Codec.Run
import PuzzleMachine.CommandLine.Arguments
import PuzzleMachine.Diagnostic.Render
import PuzzleMachine.FileTree
import PuzzleMachine.Json.Reader
import PuzzleMachine.Json.Writer
import PuzzleMachine.Log
import PuzzleMachine.Report

set_option autoImplicit false

namespace PuzzleMachine

abbrev ReadFile := String → Except ReadError String

inductive CommandError where
  | read (path : String) (error : ReadError)
  | json (path : String)
  | spec (name : String) (error : LimitError)
  | compile (report : String)
  | failed (count total : Nat)
deriving DecidableEq, Repr

def CommandError.message : CommandError → String
  | .read path error => s!"failed to read {path}: {error.message}"
  | .json path => s!"failed to parse {path}"
  | .spec name error => s!"invalid spec {name}: {error.message}"
  | .compile report => report
  | .failed count total => s!"{count} of {total} test cases failed"

namespace Load

def text (read : ReadFile) (path : String) : Except CommandError String :=
  (read path).mapError (.read path)

def json {α : Type} (read : ReadFile) (codec : Codec α) (default : α) :
    Option String → Except CommandError α
  | none => .ok default
  | some path => do
      match (Json.parse (← text read path)).bind codec.decode? with
      | some v => return v
      | none => throw (.json path)

def specName (path : Option String) : String := path.getD "<default>"

def hardware (read : ReadFile) (path : Option String) : Except CommandError Hardware := do
  let hw ← json read Codec.hardware .default path
  hw.check.mapError (.spec (specName path))
  return hw

def puzzle (read : ReadFile) (path : Option String) : Except CommandError Puzzle := do
  let p ← json read Codec.puzzle .default path
  p.check.mapError (.spec (specName path))
  return p

def sources (read : ReadFile) (paths : List String) : Except CommandError (List SourceUnit) :=
  paths.mapM fun path => return ⟨path, ← text read path⟩

end Load

def Compilation.program (c : Compilation) : Checked (Except CommandError ValidProgram) :=
  match c.result with
  | .ok p => .ok (.ok p)
  | .error ds => do return .error (.compile (← Diagnostic.renderAll c.sources ds))

structure Transcript where
  exitCode : UInt32
  output : String
deriving DecidableEq, Repr

namespace Command

def logText (filter : LogFilter) (events : List LogEvent) : String :=
  String.join ((events.filter fun e => filter.shows e.level).map fun e => e.line ++ "\n")

def infoText (filter : LogFilter) (message : String) : String :=
  logText filter [⟨.info, message⟩]

def errorEvent (e : CommandError) : LogEvent :=
  let text := match e with
    -- A report does not end in a line break here.
    | .compile report => Text.dropLineEnd report.toList
    | e => e.message.toList
  ⟨.error, String.join (text.map Text.harmless)⟩

def stopped (filter : LogFilter) (output : String) (e : CommandError) : Transcript :=
  ⟨1, output ++ logText filter [errorEvent e]⟩

def withProgram (filter : LogFilter) (units : List SourceUnit) (hw : Hardware)
    (next : String → ValidProgram → Checked Transcript) : Checked Transcript := do
  let compilation ← PuzzleMachine.compile units hw
  let output := logText filter (← Log.compilationEvents compilation)
  match ← compilation.program with
  | .error e => return stopped filter output e
  | .ok program => next output program

def runProgram (filter : LogFilter) (hw : Hardware) (puzzle : Puzzle) (config : RunConfig)
    (json : Bool) (output : String) (program : ValidProgram) : Checked Transcript := do
  let code := program.code
  let v ← runAll code hw puzzle config
  let events ← Log.puzzleEvents filter code hw puzzle config v
  let report := if json then (Codec.verdict.encode v).indented ++ "\n" else v.report config.trace
  let output := output ++ logText filter events ++ report
  if v.passed then return ⟨0, output⟩
  else
    let total := v.results.length
    return stopped filter output (.failed (total - v.passedCount) total)

def execute (read : ReadFile) (filter : LogFilter) : Command → Checked Transcript
  -- Files are read in a fixed order: hardware, puzzle, sources.
  | .compile paths hardware =>
      let inputs := do
        let hw ← Load.hardware read hardware
        return (hw, ← Load.sources read paths)
      match inputs with
      | .error e => .ok (stopped filter "" e)
      | .ok (hw, units) =>
          withProgram filter units hw fun output program =>
            let count := program.instructions.length
            let message := s!"Compiled {units.length} file(s) to {count} instructions"
            .ok ⟨0, output ++ infoText filter message⟩
  | .run paths hardware puzzle config json =>
      let inputs := do
        let hw ← Load.hardware read hardware
        let p ← Load.puzzle read puzzle
        return (hw, p, ← Load.sources read paths)
      match inputs with
      | .error e => .ok (stopped filter "" e)
      | .ok (hw, p, units) => withProgram filter units hw (runProgram filter hw p config json)
  | .checkSpec hardware puzzle =>
      let inputs := do
        let hw ← Load.hardware read hardware
        return (hw, ← Load.puzzle read puzzle)
      match inputs with
      | .error e => .ok (stopped filter "" e)
      | .ok (hw, p) =>
          let message :=
            s!"Specs OK: {hw.registers} registers, {hw.capacities.length} stacks, " ++
              s!"{hw.permitted.length} opcodes, {p.cases.length} test cases"
          .ok ⟨0, infoText filter message⟩

end Command

namespace CommandLine

def version : String := "0.1.0"

def usage : String :=
  "Compile and run Tinker puzzle programs\n\n" ++
  "Usage: tinker compile --source <FILES>... [--hardware <FILE>]\n" ++
  "       tinker run --source <FILES>... [--hardware <FILE>] [--program <FILE>]\n" ++
  "                  [--max-cycles <N>] [--parallel] [--json] [--trace]\n" ++
  "       tinker check-spec [--hardware <FILE>] [--program <FILE>]\n"

def answer (read : ReadFile) (filter : LogFilter) (args : List String) :
    Checked (Option Transcript) :=
  match Request.parse? args with
  | none => .ok none
  | some .version => .ok (some ⟨0, s!"tinker {version}\n"⟩)
  | some .help => .ok (some ⟨0, usage⟩)
  | some (.command c) => (c.execute read filter).map some

end CommandLine
end PuzzleMachine
