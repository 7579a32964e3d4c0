set_option autoImplicit false

namespace PuzzleMachine

inductive Arith where
  | add
  | sub
  | mul
  -- Rounds toward zero.
  | div
deriving DecidableEq, Repr

inductive Test where
  | zero
  | nonzero
  | negative
  | positive
deriving DecidableEq, Repr

inductive Opcode where
  | read
  | write
  | set
  | arith (op : Arith)
  | cmp
  | push
  | pop
  | jump
  | branch (test : Test)
deriving DecidableEq, Repr

inductive OperandKind where
  | register
  | value
  | stack
  | label
deriving DecidableEq, Repr

def OperandKind.text : OperandKind → String
  | .register => "register"
  | .value => "register or integer"
  | .stack => "stack"
  | .label => "label"

namespace Opcode

def all : List Opcode :=
  [.read, .write, .set, .arith .add, .arith .sub, .arith .mul, .arith .div, .cmp, .push, .pop,
    .jump, .branch .zero, .branch .nonzero, .branch .negative, .branch .positive]

def name : Opcode → String
  | .read => "READ"
  | .write => "WRITE"
  | .set => "SET"
  | .arith .add => "ADD"
  | .arith .sub => "SUB"
  | .arith .mul => "MUL"
  | .arith .div => "DIV"
  | .cmp => "CMP"
  | .push => "PUSH"
  | .pop => "POP"
  | .jump => "JMP"
  | .branch .zero => "JEZ"
  | .branch .nonzero => "JNZ"
  | .branch .negative => "JLZ"
  | .branch .positive => "JGZ"

def ofName? (name : String) : Option Opcode := all.find? fun op => op.name == name

def signature : Opcode → List OperandKind
  | .read => [.register]
  | .write => [.value]
  | .set | .arith _ => [.register, .value]
  | .cmp => [.register, .value, .value]
  | .push => [.value, .stack]
  | .pop => [.stack, .register]
  | .jump => [.label]
  | .branch _ => [.value, .label]

theorem mem_all (op : Opcode) : op ∈ all := by
  cases op <;> (try rename_i x; cases x) <;> decide

@[simp] theorem ofName?_name (op : Opcode) : ofName? op.name = some op := by
  cases op <;> (try rename_i x; cases x) <;> decide

end Opcode
end PuzzleMachine
