import PuzzleMachine.Codec.Statement
import PuzzleMachine.Verdict

set_option autoImplicit false

namespace PuzzleMachine.Codec

def capacity : Codec UInt64 where
  encode n := .obj [("capacity", word64.encode n)]
  decode? j := do
    let [n] ← j.fields? ["capacity"] | none
    word64.required n

-- A set of opcodes is listed in order; an opcode may be given more than once.
def opcodeSet : Codec (Opcode → Bool) where
  encode permits := opcode.list.encode (Opcode.all.filter permits)
  decode? j := (opcode.list.decode? j).map fun ops op => ops.contains op

def hardware : Codec Hardware where
  encode hw := .obj [
    ("num_registers", word64.encode hw.registers), ("stacks", capacity.list.encode hw.capacities),
    ("permitted_opcodes", opcodeSet.encode hw.permits)]
  decode? j := do
    let [registers, capacities, opcodes] ←
      j.fields? ["num_registers", "stacks", "permitted_opcodes"] | none
    return ⟨← word64.required registers, ← capacity.list.orDefault [] capacities,
      ← opcodeSet.orDefault (fun _ => true) opcodes⟩

def testCase : Codec TestCase where
  encode c := .obj [
    ("input", int32.list.encode c.input), ("expected_output", int32.list.encode c.expected)]
  decode? j := do
    let [input, expected] ← j.fields? ["input", "expected_output"] | none
    return ⟨← int32.list.orDefault [] input, ← int32.list.orDefault [] expected⟩

def puzzle : Codec Puzzle where
  encode p := .obj [
    ("hardware", string.encode p.hardware), ("test_cases", testCase.list.encode p.cases)]
  decode? j := do
    let [hardware, cases] ← j.fields? ["hardware", "test_cases"] | none
    return ⟨← string.orDefault "" hardware, ← testCase.list.required cases⟩

def runConfig : Codec RunConfig where
  encode c := .obj [
    ("cycle_ceiling", word64.encode c.ceiling), ("parallel", bool.encode c.parallel),
    ("record_trace", bool.encode c.trace)]
  decode? j := do
    let [ceiling, parallel, trace] ← j.fields? ["cycle_ceiling", "parallel", "record_trace"] | none
    return ⟨← word64.orDefault RunConfig.default.ceiling ceiling,
      ← bool.orDefault RunConfig.default.parallel parallel,
      ← bool.orDefault RunConfig.default.trace trace⟩

end PuzzleMachine.Codec
