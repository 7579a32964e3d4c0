import PuzzleMachine.Instruction
import PuzzleMachine.Span

set_option autoImplicit false

namespace PuzzleMachine

inductive Register where
  -- How many input values are left.
  | inputLength
  -- How many values a stack holds.
  | stackLength (stack : UInt64)
  | user (index : UInt64)
deriving DecidableEq, Repr

def Register.text : Register → String
  | .inputLength => "RLI"
  | .stackLength n => s!"RS{n}"
  | .user n => s!"RX{n}"

def Register.user? : Register → Option UInt64
  | .user n => some n
  | _ => none

def stackText (stack : UInt64) : String := s!"S{stack}"

inductive Value where
  | literal (value : Int32)
  | register (register : Register)
deriving DecidableEq, Repr

def Value.text : Value → String
  | .literal v => toString v.toInt
  | .register r => r.text

abbrev SourceInstruction :=
  Instruction (Located Register) (Located Value) (Located UInt64) (Located String)

abbrev SourceOperand := Operand (Located Register) (Located Value) (Located UInt64) (Located String)

inductive Statement where
  -- Marks the position of the next instruction.
  | label (name : Located String)
  | instruction (instruction : Located SourceInstruction)
deriving DecidableEq, Repr

def Statement.span : Statement → Span
  | .label l => l.span
  | .instruction i => i.span

def Statement.instruction? : Statement → Option (Located SourceInstruction)
  | .label _ => none
  | .instruction i => some i

structure ParsedUnit where
  file : UInt16
  statements : List Statement
deriving DecidableEq, Repr

def ParsedUnit.instructions (u : ParsedUnit) : List (Located SourceInstruction) :=
  u.statements.filterMap Statement.instruction?

end PuzzleMachine
