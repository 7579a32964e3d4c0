import PuzzleMachine.Codec.Source
import PuzzleMachine.Code

set_option autoImplicit false

namespace PuzzleMachine.Codec

def opcode : Codec Opcode where
  encode op := .str op.name
  decode? j := do
    let (name, data) ← j.variant?
    noData data
    Opcode.ofName? name

def register : Codec Register where
  encode
    | .inputLength => .str "InputLength"
    | .stackLength n => .tagged "StackLength" (word64.encode n)
    | .user n => .tagged "User" (word64.encode n)
  decode? j := do
    match ← j.variant? with
    | ("InputLength", data) => do noData data; return .inputLength
    | ("StackLength", data) => return .stackLength (← word64.required data)
    | ("User", data) => return .user (← word64.required data)
    | _ => none

def value : Codec Value where
  encode
    | .literal v => .tagged "Literal" (int32.encode v)
    | .register r => .tagged "Register" (register.encode r)
  decode? j := do
    match ← j.variant? with
    | ("Literal", data) => return .literal (← int32.required data)
    | ("Register", data) => return .register (← register.required data)
    | _ => none

def variantName : Opcode → String
  | .read => "Read"
  | .write => "Write"
  | .set => "Set"
  | .arith .add => "Add"
  | .arith .sub => "Sub"
  | .arith .mul => "Mul"
  | .arith .div => "Div"
  | .cmp => "Cmp"
  | .push => "Push"
  | .pop => "Pop"
  | .jump => "Jmp"
  | .branch .zero => "Jez"
  | .branch .nonzero => "Jnz"
  | .branch .negative => "Jlz"
  | .branch .positive => "Jgz"

def ofVariantName? (name : String) : Option Opcode :=
  Opcode.all.find? fun op => variantName op == name

section

variable {R V S T : Type} (r : Codec R) (v : Codec V) (s : Codec S) (t : Codec T)

def encodeOperand : Operand R V S T → Json
  | .dest d => r.encode d
  | .value a => v.encode a
  | .stack k => s.encode k
  | .target l => t.encode l

def decodeOperand? (kind : OperandKind) (j : Json) : Option (Operand R V S T) :=
  match kind with
  | .register => (r.decode? j).map .dest
  | .value => (v.decode? j).map .value
  | .stack => (s.decode? j).map .stack
  | .label => (t.decode? j).map .target

def packOperands : List Json → Json
  | [j] => j
  | js => .arr js

def unpackOperands? (arity : Nat) (j : Json) : Option (List Json) :=
  if arity = 1 then some [j]
  else match j with
    | .arr items => if items.length = arity then some items else none
    | _ => none

def instruction : Codec (Instruction R V S T) where
  encode i :=
    .tagged (variantName i.opcode) (packOperands (i.operands.map (encodeOperand r v s t)))
  decode? j := do
    let (name, data) ← j.variant?
    let op ← ofVariantName? name
    let items ← unpackOperands? op.signature.length (← data)
    let operands ← (op.signature.zip items).mapM fun (kind, item) =>
      decodeOperand? r v s t kind item
    Instruction.ofOperands? op operands

end

def sourceInstruction : Codec SourceInstruction :=
  instruction (located register) (located value) (located word64) (located string)

def machineInstruction : Codec MachineInstruction := instruction word64 value word64 count

def statement : Codec Statement where
  encode
    | .label l => .tagged "Label" ((located string).encode l)
    | .instruction i => .tagged "Instruction" ((located sourceInstruction).encode i)
  decode? j := do
    match ← j.variant? with
    | ("Label", data) => return .label (← (located string).required data)
    | ("Instruction", data) => return .instruction (← (located sourceInstruction).required data)
    | _ => none

def parsedUnit : Codec ParsedUnit where
  encode u := .obj [
    ("file_id", word16.encode u.file), ("statements", statement.list.encode u.statements)]
  decode? j := do
    let [file, statements] ← j.fields? ["file_id", "statements"] | none
    return ⟨← word16.required file, ← statement.list.required statements⟩

def code : Codec Code where
  encode c := .obj [
    ("instructions", machineInstruction.array.encode c.instructions),
    ("spans", span.array.encode c.spans)]
  decode? j := do
    let [instructions, spans] ← j.fields? ["instructions", "spans"] | none
    return ⟨← machineInstruction.array.required instructions, ← span.array.required spans⟩

end PuzzleMachine.Codec
