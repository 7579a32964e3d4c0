import PuzzleMachine.Codec.Puzzle

set_option autoImplicit false

namespace PuzzleMachine.Codec

def arithmeticError : Codec ArithmeticError where
  encode
    | .overflow => .str "Overflow"
    | .divideByZero => .str "DivideByZero"
  decode? j := do
    match ← j.variant? with
    | ("Overflow", data) => do noData data; return .overflow
    | ("DivideByZero", data) => do noData data; return .divideByZero
    | _ => none

def onlyField {α : Type} (c : Codec α) (name : String) (data : Option Json) : Option α := do
  let [field] ← (← data).fields? [name] | none
  c.required field

def faultKind : Codec FaultKind where
  encode
    | .stackOverflow stack capacity => .tagged "StackOverflow" (.obj [
        ("stack", word64.encode stack), ("capacity", word64.encode capacity)])
    | .stackUnderflow stack =>
        .tagged "StackUnderflow" (.obj [("stack", word64.encode stack)])
    | .arithmetic e => .tagged "Arithmetic" (arithmeticError.encode e)
    | .inputExhausted => .str "InputExhausted"
    | .invalidJump target => .tagged "InvalidJump" (.obj [("target", count.encode target)])
    | .invalidRegister register =>
        .tagged "InvalidRegister" (.obj [("register", word64.encode register)])
    | .invalidStack stack => .tagged "InvalidStack" (.obj [("stack", word64.encode stack)])
    | .timeout ceiling => .tagged "Timeout" (.obj [("ceiling", word64.encode ceiling)])
  decode? j := do
    match ← j.variant? with
    | ("StackOverflow", data) => do
        let [stack, capacity] ← (← data).fields? ["stack", "capacity"] | none
        return .stackOverflow (← word64.required stack) (← word64.required capacity)
    | ("StackUnderflow", data) => return .stackUnderflow (← onlyField word64 "stack" data)
    | ("Arithmetic", data) => return .arithmetic (← arithmeticError.required data)
    | ("InputExhausted", data) => do noData data; return .inputExhausted
    | ("InvalidJump", data) => return .invalidJump (← onlyField count "target" data)
    | ("InvalidRegister", data) => return .invalidRegister (← onlyField word64 "register" data)
    | ("InvalidStack", data) => return .invalidStack (← onlyField word64 "stack" data)
    | ("Timeout", data) => return .timeout (← onlyField word64 "ceiling" data)
    | _ => none

def fault : Codec Fault where
  encode f := .obj [
    ("kind", faultKind.encode f.kind), ("pc", count.encode f.pc), ("span", span.encode f.span)]
  decode? j := do
    let [kind, pc, place] ← j.fields? ["kind", "pc", "span"] | none
    return ⟨← faultKind.required kind, ← count.required pc, ← span.required place⟩

def status : Codec Status where
  encode
    | .ready => .str "Ready"
    | .running => .str "Running"
    | .halted => .str "Halted"
    | .faulted f => .tagged "Faulted" (fault.encode f)
  decode? j := do
    match ← j.variant? with
    | ("Ready", data) => do noData data; return .ready
    | ("Running", data) => do noData data; return .running
    | ("Halted", data) => do noData data; return .halted
    | ("Faulted", data) => return .faulted (← fault.required data)
    | _ => none

def traceEntry : Codec TraceEntry where
  encode e := .obj [
    ("cycle", count.encode e.cycle), ("pc", count.encode e.pc), ("span", span.encode e.span)]
  decode? j := do
    let [cycle, pc, place] ← j.fields? ["cycle", "pc", "span"] | none
    return ⟨← count.required cycle, ← count.required pc, ← span.required place⟩

def state : Codec State where
  encode s := .obj [
    ("registers", int32.array.encode s.registers), ("stacks", int32.array.array.encode s.contents),
    ("capacities", word64.array.encode s.capacities), ("input", int32.array.encode s.input),
    ("input_cursor", count.encode s.cursor), ("output", int32.array.encode s.output),
    ("pc", count.encode s.pc), ("cycle_count", count.encode s.cycles),
    ("instruction_count", count.encode s.executed),
    ("registers_touched", bool.array.encode s.touched),
    ("peak_stack_depth", count.encode s.peak), ("status", status.encode s.status)]
  decode? j := do
    let [registers, contents, capacities, input, cursor, output, pc, cycles, executed, touched,
        peak, result] ← j.fields? ["registers", "stacks", "capacities", "input", "input_cursor",
          "output", "pc", "cycle_count", "instruction_count", "registers_touched",
          "peak_stack_depth", "status"]
      | none
    return {
      registers := ← int32.array.required registers
      contents := ← int32.array.array.required contents
      capacities := ← word64.array.required capacities
      input := ← int32.array.required input
      cursor := ← count.required cursor
      output := ← int32.array.required output
      pc := ← count.required pc
      cycles := ← count.required cycles
      executed := ← count.required executed
      touched := ← bool.array.required touched
      peak := ← count.required peak
      status := ← status.required result }

-- A missing record of cycles is not written. By position it has to be given.
def caseResult : Codec CaseResult where
  encode r := .obj <| [
    ("passed", bool.encode r.passed), ("output", int32.list.encode r.output),
    ("expected_output", int32.list.encode r.expected), ("cycles", count.encode r.cycles),
    ("instructions", count.encode r.executed), ("registers_used", count.encode r.registersUsed),
    ("peak_stack_depth", count.encode r.peak), ("status", status.encode r.status)] ++
    r.trace.toList.map fun entries => ("trace", traceEntry.list.encode entries)
  decode? j := do
    let [passed, output, expected, cycles, executed, registersUsed, peak, result, trace] ←
        j.fields? ["passed", "output", "expected_output", "cycles", "instructions",
          "registers_used", "peak_stack_depth", "status", "trace"]
      | none
    if j.isArr && trace.isNone then failure
    return {
      passed := ← bool.required passed
      output := ← int32.list.required output
      expected := ← int32.list.required expected
      cycles := ← count.required cycles
      executed := ← count.required executed
      registersUsed := ← count.required registersUsed
      peak := ← count.required peak
      status := ← status.required result
      trace := ← traceEntry.list.nullable.orDefault none trace }

def verdict : Codec Verdict where
  encode v := .obj [
    ("passed", bool.encode v.passed), ("results", caseResult.list.encode v.results),
    ("program_size", count.encode v.programSize), ("max_cycles", count.encode v.maxCycles),
    ("total_cycles", count.encode v.totalCycles),
    ("registers_used", count.encode v.registersUsed),
    ("peak_stack_depth", count.encode v.peak)]
  decode? j := do
    let [passed, results, programSize, maxCycles, totalCycles, registersUsed, peak] ←
        j.fields? ["passed", "results", "program_size", "max_cycles", "total_cycles",
          "registers_used", "peak_stack_depth"]
      | none
    return {
      passed := ← bool.required passed
      results := ← caseResult.list.required results
      programSize := ← count.required programSize
      maxCycles := ← count.required maxCycles
      totalCycles := ← count.required totalCycles
      registersUsed := ← count.required registersUsed
      peak := ← count.required peak }

def score : Codec Score where
  encode s := .obj [
    ("cycles", count.encode s.cycles), ("instructions", count.encode s.instructions),
    ("registers", count.encode s.registers), ("stack_depth", count.encode s.stackDepth)]
  decode? j := do
    let [cycles, instructions, registers, depth] ←
      j.fields? ["cycles", "instructions", "registers", "stack_depth"] | none
    return ⟨← count.required cycles, ← count.required instructions, ← count.required registers,
      ← count.required depth⟩

end PuzzleMachine.Codec
