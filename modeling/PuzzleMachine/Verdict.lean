import PuzzleMachine.Machine
import PuzzleMachine.Puzzle
import PuzzleMachine.Score

set_option autoImplicit false

namespace PuzzleMachine

structure RunConfig where
  ceiling : UInt64
  -- Cases may be run side by side; the answer is the same.
  parallel : Bool
  trace : Bool
deriving DecidableEq, Repr

def RunConfig.default : RunConfig := ⟨1000000, false, false⟩

structure CaseResult where
  passed : Bool
  output : List Int32
  expected : List Int32
  cycles : Nat
  executed : Nat
  registersUsed : Nat
  peak : Nat
  status : Status
  trace : Option (List TraceEntry)
deriving DecidableEq, Repr

structure Verdict where
  passed : Bool
  results : List CaseResult
  programSize : Nat
  maxCycles : Nat
  totalCycles : Nat
  registersUsed : Nat
  peak : Nat
deriving DecidableEq, Repr

def CaseResult.ofMachine (m : Machine) (expected : List Int32) : CaseResult :=
  let s := m.state
  let output := s.output.toList
  { passed := s.status = .halted && output = expected
    output
    expected
    cycles := s.cycles
    executed := s.executed
    registersUsed := s.registersUsed
    peak := s.peak
    status := s.status
    trace := m.trace.map Array.toList }

def TestCase.machine (code : Code) (hw : Hardware) (config : RunConfig) (c : TestCase) :
    Checked Machine := do
  let m ← Machine.start code hw c.input config.ceiling
  return if config.trace then m.withTrace else m

def TestCase.run (code : Code) (hw : Hardware) (config : RunConfig) (c : TestCase) :
    Checked CaseResult := do
  let m ← c.machine code hw config
  return .ofMachine (← m.run?) c.expected

namespace Verdict

def largest (results : List CaseResult) (count : CaseResult → Nat) : Nat :=
  results.foldl (fun most r => max most (count r)) 0

def ofResults (results : List CaseResult) (programSize : Nat) : Checked Verdict :=
  let total := results.foldl (fun sum r => sum + r.cycles) 0
  if total < UInt64.size then
    .ok {
      -- Without any case there is no pass.
      passed := !results.isEmpty && results.all CaseResult.passed
      results
      programSize
      maxCycles := largest results CaseResult.cycles
      totalCycles := total
      registersUsed := largest results CaseResult.registersUsed
      peak := largest results CaseResult.peak }
  else .error .outOfRange

def passedCount (v : Verdict) : Nat := v.results.countP CaseResult.passed

def score? (v : Verdict) : Option Score :=
  if v.passed then some ⟨v.maxCycles, v.programSize, v.registersUsed, v.peak⟩ else none

end Verdict

def runAll (code : Code) (hw : Hardware) (puzzle : Puzzle) (config : RunConfig) :
    Checked Verdict := do
  let results ← puzzle.cases.mapM (TestCase.run code hw config)
  Verdict.ofResults results code.instructions.size

end PuzzleMachine
