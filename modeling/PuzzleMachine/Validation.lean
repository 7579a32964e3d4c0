import PuzzleMachine.Code
import PuzzleMachine.Diagnostic
import PuzzleMachine.Hardware
import PuzzleMachine.LabelTable

set_option autoImplicit false

namespace PuzzleMachine

inductive Violation where
  | duplicateLabel (label : Located String) (first : Span)
  | opcodeNotPermitted (op : Opcode) (span : Span)
  -- `available` is how many registers of that sort, or how many stacks, there are.
  | invalidRegister (register : Located Register) (available : Nat)
  | invalidStack (stack : Located UInt64) (available : Nat)
  | readOnlyRegister (register : Located Register)
  | undefinedLabel (label : Located String)
deriving DecidableEq, Repr

namespace Violation

def counted (count : Nat) (noun : String) : String :=
  if count = 1 then s!"1 {noun}" else s!"{count} {noun}s"

def availability (count : Nat) (noun : String) : String :=
  s!"this hardware has {counted count noun}"

def noun : Register → String
  | .stackLength _ => "stack"
  | _ => "register"

def opcodeSpan (op : Opcode) (span : Span) : Checked Span := do
  return { span with stop := ← addWords span.start (.ofNat op.name.utf8ByteSize) }

def diagnostic : Violation → Checked Diagnostic
  | .duplicateLabel l first => .ok {
      kind := .duplicateLabel, span := l.span, message := s!"duplicate label {l.value}"
      notes := [⟨first, "first declared here"⟩] }
  | .opcodeNotPermitted op span => do
      let span ← opcodeSpan op span
      let message := s!"opcode {op.name} is not permitted on this hardware"
      return { kind := .opcodeNotPermitted, span, message }
  | .invalidRegister r available => .ok {
      kind := .invalidRegister, span := r.span
      message := s!"invalid reference to register {r.value.text}"
      hints := [availability available (noun r.value)] }
  | .invalidStack s available => .ok {
      kind := .invalidStack, span := s.span
      message := s!"invalid reference to stack {stackText s.value}"
      hints := [availability available "stack"] }
  | .readOnlyRegister r => .ok {
      kind := .readOnlyRegister, span := r.span
      message := s!"cannot write to read-only register {r.value.text}" }
  | .undefinedLabel l => .ok {
      kind := .undefinedLabel, span := l.span, message := s!"undefined label {l.value}" }

end Violation

namespace Hardware

-- How many registers there are of the same sort as `r`; input length is always there.
def bound? (hw : Hardware) : Register → Option (UInt64 × Nat)
  | .inputLength => none
  | .stackLength n => some (n, hw.capacities.length)
  | .user n => some (n, hw.registers.toNat)

def registerViolations (hw : Hardware) (r : Located Register) : List Violation :=
  match hw.bound? r.value with
  | none => []
  | some (index, available) =>
      if index.toNat < available then [] else [.invalidRegister r available]

def destinationViolations (hw : Hardware) (r : Located Register) : List Violation :=
  match hw.registerViolations r with
  | [] => if r.value.user?.isSome then [] else [.readOnlyRegister r]
  | vs => vs

def valueViolations (hw : Hardware) (v : Located Value) : List Violation :=
  match v.value with
  | .literal _ => []
  | .register r => hw.registerViolations ⟨r, v.span⟩

def stackViolations (hw : Hardware) (s : Located UInt64) : List Violation :=
  if s.value.toNat < hw.capacities.length then [] else [.invalidStack s hw.capacities.length]

end Hardware

namespace LabelTable

def targetViolations (labels : LabelTable) (l : Located String) : List Violation :=
  if labels.contains l.value then [] else [.undefinedLabel l]

def declarationViolations (labels : LabelTable) (l : Located String) : List Violation :=
  match labels.find? l.value with
  | none => []
  -- A declaration at another place than the first one of its name is a duplicate.
  | some first => if first.span = l.span then [] else [.duplicateLabel l first.span]

end LabelTable

def operandViolations (hw : Hardware) (labels : LabelTable) : SourceOperand → List Violation
  | .dest r => hw.destinationViolations r
  | .value v => hw.valueViolations v
  | .stack s => hw.stackViolations s
  | .target l => labels.targetViolations l

def instructionViolations (hw : Hardware) (labels : LabelTable) (i : Located SourceInstruction) :
    List Violation :=
  -- The opcode comes first, then the operands in source order.
  (if hw.permits i.value.opcode then [] else [.opcodeNotPermitted i.value.opcode i.span]) ++
    i.value.operands.flatMap (operandViolations hw labels)

def statementViolations (hw : Hardware) (labels : LabelTable) : Statement → List Violation
  | .label l => labels.declarationViolations l
  | .instruction i => instructionViolations hw labels i

def violations (hw : Hardware) (units : List ParsedUnit) : List Violation :=
  (units.flatMap ParsedUnit.statements).flatMap (statementViolations hw (.collect units))

def resolve? (labels : LabelTable) (i : SourceInstruction) : Option MachineInstruction :=
  i.traverse? (fun r => r.value.user?) (fun v => some v.value) (fun s => some s.value)
    fun l => labels.target? l.value

theorem user?_isSome_of_destinationViolations {hw : Hardware} {r : Located Register}
    (h : hw.destinationViolations r = []) : r.value.user?.isSome := by
  simp only [Hardware.destinationViolations] at h
  split at h
  · split at h <;> simp_all
  · contradiction

theorem target?_isSome_of_targetViolations {labels : LabelTable} {l : Located String}
    (h : labels.targetViolations l = []) : (labels.target? l.value).isSome := by
  simp only [LabelTable.targetViolations] at h
  split at h <;> simp_all [LabelTable.contains, LabelTable.target?]

theorem resolve?_isSome {hw : Hardware} {labels : LabelTable} {i : Located SourceInstruction}
    (h : instructionViolations hw labels i = []) : (resolve? labels i.value).isSome := by
  obtain ⟨i, span⟩ := i
  have dest : ∀ r, hw.destinationViolations r = [] → ∃ n, r.value.user? = some n := fun r hr =>
    Option.isSome_iff_exists.mp (user?_isSome_of_destinationViolations hr)
  have target : ∀ l, labels.targetViolations l = [] → ∃ n, labels.target? l.value = some n :=
    fun l hl => Option.isSome_iff_exists.mp (target?_isSome_of_targetViolations hl)
  simp only [instructionViolations, List.append_eq_nil_iff, List.flatMap_eq_nil_iff] at h
  cases i <;> simp only [Instruction.operands, List.forall_mem_cons, operandViolations] at h <;>
    simp only [resolve?, Instruction.traverse?]
  case read r | set r _ | arith r _ | cmp r _ _ =>
    obtain ⟨n, hn⟩ := dest _ h.2.1
    simp [hn]
  case pop s r =>
    obtain ⟨n, hn⟩ := dest _ h.2.2.1
    simp [hn]
  case jump l =>
    obtain ⟨n, hn⟩ := target _ h.2.1
    simp [hn]
  case branch v l =>
    obtain ⟨n, hn⟩ := target _ h.2.2.1
    simp [hn]
  all_goals simp

/-- Units that fit the hardware: their instructions in order, each of which has a meaning as
code. -/
structure ValidProgram where
  instructions : List (Located SourceInstruction)
  labels : LabelTable
  resolvable : ∀ i ∈ instructions, (resolve? labels i.value).isSome

theorem resolvable_of_violations_eq_nil {hw : Hardware} {units : List ParsedUnit}
    (h : violations hw units = []) :
    ∀ i ∈ units.flatMap ParsedUnit.instructions, (resolve? (.collect units) i.value).isSome := by
  intro i hi
  simp only [List.mem_flatMap, ParsedUnit.instructions, List.mem_filterMap] at hi
  obtain ⟨u, hu, s, hs, hi⟩ := hi
  simp only [violations, List.flatMap_eq_nil_iff, List.mem_flatMap] at h
  have hs := h s ⟨u, hu, hs⟩
  cases s <;> simp only [Statement.instruction?, Option.some.injEq, reduceCtorEq] at hi
  subst hi
  exact resolve?_isSome hs

def validate (hw : Hardware) (units : List ParsedUnit) : Checked (Diagnosed ValidProgram) :=
  if h : violations hw units = [] then
    .ok (.ok ⟨units.flatMap ParsedUnit.instructions, .collect units,
      resolvable_of_violations_eq_nil h⟩)
  else do
    return .error (← (violations hw units).mapM Violation.diagnostic)

-- Labels disappear: each jump carries the index that its label stands for.
def ValidProgram.code (p : ValidProgram) : Code where
  instructions := (p.instructions.attach.map fun ⟨i, hi⟩ =>
    (resolve? p.labels i.value).get (p.resolvable i hi)).toArray
  spans := (p.instructions.map Located.span).toArray

end PuzzleMachine
