import PuzzleMachine.Verdict

set_option autoImplicit false

namespace PuzzleMachine

def padLeft (width : Nat) (s : String) : String :=
  String.ofList (List.replicate (width - s.length) ' ') ++ s

def padRight (width : Nat) (s : String) : String :=
  s ++ String.ofList (List.replicate (width - s.length) ' ')

def valuesText (vs : List Int32) : String :=
  "[" ++ String.intercalate ", " (vs.map fun v => toString v.toInt) ++ "]"

def CaseResult.text (r : CaseResult) : String :=
  if r.passed then s!"pass in {r.cycles} cycles"
  else match r.status.fault? with
    | some fault => s!"fault after {r.cycles} cycles: {fault.text}"
    | none => s!"wrong output {valuesText r.output}, expected {valuesText r.expected}"

def TraceEntry.text (e : TraceEntry) : String :=
  let cycle := padLeft 6 (toString e.cycle)
  let pc := padRight 4 (toString e.pc)
  s!"    [{cycle}] pc {pc} {e.span.text}"

namespace Verdict

def caseLines (withTrace : Bool) (r : CaseResult) (index : Nat) : List String :=
  let entries := if withTrace then r.trace.getD [] else []
  s!"case {index}: {r.text}" :: entries.map TraceEntry.text

def lastLine (v : Verdict) : String :=
  match v.score? with
  | some score => s!"passed: {score.text}"
  | none => s!"failed: {v.passedCount} of {v.results.length} test cases passed"

def lines (v : Verdict) (withTrace : Bool) : List String :=
  v.results.zipIdx.flatMap (fun (r, index) => caseLines withTrace r index) ++ [v.lastLine]

def report (v : Verdict) (withTrace : Bool) : String :=
  String.join ((v.lines withTrace).map (· ++ "\n"))

end Verdict
end PuzzleMachine
