import PuzzleMachine.Opcode

set_option autoImplicit false

namespace PuzzleMachine

-- Source text and executable code have the same instructions over different operands: destinations
-- `R`, values `V`, stacks `S` and jump targets `T`.
inductive Instruction (R V S T : Type) where
  | read (dest : R)
  | write (value : V)
  | set (dest : R) (value : V)
  | arith (op : Arith) (dest : R) (value : V)
  | cmp (dest : R) (left right : V)
  | push (value : V) (stack : S)
  | pop (stack : S) (dest : R)
  | jump (target : T)
  | branch (test : Test) (value : V) (target : T)
deriving DecidableEq, Repr

inductive Operand (R V S T : Type) where
  | dest (register : R)
  | value (value : V)
  | stack (stack : S)
  | target (target : T)
deriving DecidableEq, Repr

def Operand.kind {R V S T : Type} : Operand R V S T → OperandKind
  | .dest _ => .register
  | .value _ => .value
  | .stack _ => .stack
  | .target _ => .label

namespace Instruction

variable {R V S T R' V' S' T' : Type}

def opcode : Instruction R V S T → Opcode
  | .read _ => .read
  | .write _ => .write
  | .set _ _ => .set
  | .arith op _ _ => .arith op
  | .cmp _ _ _ => .cmp
  | .push _ _ => .push
  | .pop _ _ => .pop
  | .jump _ => .jump
  | .branch test _ _ => .branch test

def operands : Instruction R V S T → List (Operand R V S T)
  | .read r => [.dest r]
  | .write v => [.value v]
  | .set r v => [.dest r, .value v]
  | .arith _ r v => [.dest r, .value v]
  | .cmp r a b => [.dest r, .value a, .value b]
  | .push v s => [.value v, .stack s]
  | .pop s r => [.stack s, .dest r]
  | .jump t => [.target t]
  | .branch _ v t => [.value v, .target t]

def ofOperands? : Opcode → List (Operand R V S T) → Option (Instruction R V S T)
  | .read, [.dest r] => some (.read r)
  | .write, [.value v] => some (.write v)
  | .set, [.dest r, .value v] => some (.set r v)
  | .arith op, [.dest r, .value v] => some (.arith op r v)
  | .cmp, [.dest r, .value a, .value b] => some (.cmp r a b)
  | .push, [.value v, .stack s] => some (.push v s)
  | .pop, [.stack s, .dest r] => some (.pop s r)
  | .jump, [.target t] => some (.jump t)
  | .branch test, [.value v, .target t] => some (.branch test v t)
  | _, _ => none

def traverse? (r : R → Option R') (v : V → Option V') (s : S → Option S') (t : T → Option T') :
    Instruction R V S T → Option (Instruction R' V' S' T')
  | .read d => do return .read (← r d)
  | .write a => do return .write (← v a)
  | .set d a => do return .set (← r d) (← v a)
  | .arith op d a => do return .arith op (← r d) (← v a)
  | .cmp d a b => do return .cmp (← r d) (← v a) (← v b)
  | .push a k => do return .push (← v a) (← s k)
  | .pop k d => do return .pop (← s k) (← r d)
  | .jump l => do return .jump (← t l)
  | .branch test a l => do return .branch test (← v a) (← t l)

@[simp] theorem ofOperands?_operands (i : Instruction R V S T) :
    ofOperands? i.opcode i.operands = some i := by
  cases i <;> rfl

theorem map_kind_operands (i : Instruction R V S T) :
    i.operands.map Operand.kind = i.opcode.signature := by
  cases i <;> rfl

end Instruction
end PuzzleMachine
