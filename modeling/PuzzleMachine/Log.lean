import PuzzleMachine.Compilation
import PuzzleMachine.Verdict

set_option autoImplicit false

namespace PuzzleMachine

inductive LogLevel where
  | error
  | warn
  | info
  | debug
  | trace
deriving DecidableEq, Repr

namespace LogLevel

def name : LogLevel → String
  | .error => "ERROR"
  | .warn => "WARN"
  | .info => "INFO"
  | .debug => "DEBUG"
  | .trace => "TRACE"

def rank : LogLevel → Nat
  | .error => 1
  | .warn => 2
  | .info => 3
  | .debug => 4
  | .trace => 5

end LogLevel

-- The least urgent level that is shown; `none` shows nothing.
abbrev LogFilter := Option LogLevel

def LogFilter.shows (filter : LogFilter) (level : LogLevel) : Bool :=
  filter.any fun limit => level.rank ≤ limit.rank

structure LogEvent where
  level : LogLevel
  message : String
deriving DecidableEq, Repr

def LogEvent.line (e : LogEvent) : String := s!"{e.level.name} {e.message}"

def LogEvent.within (e : LogEvent) (context : String) : LogEvent :=
  { e with message := context ++ e.message }

namespace Log

def fileEvents (sources : SourceMap) (id : UInt16) : Checked (List LogEvent) := do
  let file ← sources.file id
  match ← scan sources id with
  | .error _ => return []
  | .ok tokens =>
      let scanned := s!"lexed unit={file.name} tokens={tokens.length}"
      match ← parseTokens tokens id with
      | .error _ => return [⟨.debug, scanned⟩]
      | .ok u =>
          let parsed := s!"parsed unit={file.name} statements={u.statements.length}"
          return [⟨.debug, scanned⟩, ⟨.debug, parsed⟩]

def compilationEvents (c : Compilation) : Checked (List LogEvent) := do
  let files ← c.sources.ids.mapM (fileEvents c.sources)
  let last := match c.result with
    | .error _ => []
    | .ok p =>
        let labels := p.labels.entries.length
        [⟨.debug, s!"lowered instructions={p.instructions.length} labels={labels}"⟩]
  return files.flatten ++ last

def stepEvents (pc cycles : Nat) (opcode? : Option Opcode) (status : Status) : List LogEvent :=
  let step (op : Opcode) : LogEvent := ⟨.trace, s!"step pc={pc} cycle={cycles} opcode={op.name}"⟩
  match opcode?, status with
  | none, _ => [⟨.trace, s!"halted cycles={cycles}"⟩]
  | some _, .faulted ⟨.timeout ceiling, _, _⟩ =>
      [⟨.trace, s!"timed out pc={pc} ceiling={ceiling}"⟩]
  | some op, .faulted f => [step op, ⟨.trace, s!"faulted pc={pc} kind={f.kind.text}"⟩]
  | some op, _ => [step op]

def stepsEvents (acc : List LogEvent) : Nat → Machine → List LogEvent
  | 0, _ => acc
  | n + 1, m =>
      if m.state.status.isTerminal then acc
      else
        let pc := m.state.pc
        let cycles := m.state.cycles
        let opcode? := m.code.instructions[pc]?.map Instruction.opcode
        match m.step? with
        | .ok m => stepsEvents ((stepEvents pc cycles opcode? m.state.status).reverse ++ acc) n m
        | .error _ => acc

def runEvents (m : Machine) : List LogEvent :=
  (stepsEvents [] (m.ceiling.toNat + 1 - m.state.cycles) m).reverse

def record (name : String) (fields : List (String × String)) : String :=
  let inner := String.intercalate ", " (fields.map fun (field, text) => s!"{field}: {text}")
  s!"{name} \x7b {inner} \x7d"

def spanText (s : Span) : String :=
  record "Span" [("file_id", toString s.file), ("start", toString s.start),
    ("end", toString s.stop), ("line", toString s.line), ("column", toString s.column)]

def kindText : FaultKind → String
  | .stackOverflow stack capacity =>
      record "StackOverflow" [("stack", toString stack), ("capacity", toString capacity)]
  | .stackUnderflow stack => record "StackUnderflow" [("stack", toString stack)]
  | .arithmetic .overflow => "Arithmetic(Overflow)"
  | .arithmetic .divideByZero => "Arithmetic(DivideByZero)"
  | .inputExhausted => "InputExhausted"
  | .invalidJump target => record "InvalidJump" [("target", toString target)]
  | .invalidRegister register => record "InvalidRegister" [("register", toString register)]
  | .invalidStack stack => record "InvalidStack" [("stack", toString stack)]
  | .timeout ceiling => record "Timeout" [("ceiling", toString ceiling)]

def statusText : Status → String
  | .ready => "Ready"
  | .running => "Running"
  | .halted => "Halted"
  | .faulted f =>
      let fault := record "Fault"
        [("kind", kindText f.kind), ("pc", toString f.pc), ("span", spanText f.span)]
      s!"Faulted({fault})"

def finishedEvent (r : CaseResult) (index : Nat) : LogEvent :=
  ⟨.debug, s!"test case finished case={index} passed={r.passed} cycles={r.cycles} " ++
    s!"status={statusText r.status}"⟩

def puzzleEvents (filter : LogFilter) (code : Code) (hw : Hardware) (puzzle : Puzzle)
    (config : RunConfig) (v : Verdict) : Checked (List LogEvent) := do
  let context :=
    s!"run_all\x7bcases={puzzle.cases.length} parallel={config.parallel}\x7d: "
  let steps ← if filter.shows .trace then
      puzzle.cases.mapM fun c => return runEvents (← c.machine code hw config)
    else pure []
  let inContext (e : LogEvent) := e.within context
  -- The steps of cases that are run side by side do not say what they are part of.
  let sideBySide := config.parallel && 1 < puzzle.cases.length
  let steps := if sideBySide then steps.flatten else steps.flatten.map inContext
  let finished := v.results.zipIdx.map fun (r, index) => inContext (finishedEvent r index)
  return steps ++ finished

end Log
end PuzzleMachine
