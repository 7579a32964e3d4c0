import PuzzleMachine.Diagnostic
import PuzzleMachine.Token

set_option autoImplicit false

namespace PuzzleMachine

inductive ParseError.Kind where
  | unexpectedToken
  | unexpectedEnd
  | unknownOpcode
  | operandCount
deriving DecidableEq, Repr

inductive ParseError.Cause where
  | unexpectedToken (found : Token) (context : String)
  | unexpectedEnd (context : String)
  | unknownOpcode (name : String)
  -- An operand, counted from zero, is of the wrong kind.
  | wrongOperand (op : Opcode) (index : Nat) (expected : OperandKind) (found : Token)
  | operandCount (op : Opcode) (found : Nat)
deriving DecidableEq, Repr

structure ParseError where
  cause : ParseError.Cause
  span : Span
deriving DecidableEq, Repr

namespace ParseError

def Cause.kind : Cause → Kind
  | .unexpectedToken .. | .wrongOperand .. => .unexpectedToken
  | .unexpectedEnd _ => .unexpectedEnd
  | .unknownOpcode _ => .unknownOpcode
  | .operandCount .. => .operandCount

def Cause.message : Cause → String
  | .unexpectedToken found context => s!"unexpected `{found.text}` {context}"
  | .unexpectedEnd context => s!"unexpected end of input {context}"
  | .unknownOpcode name => s!"unknown opcode `{name}`"
  | .wrongOperand op index expected found =>
      s!"expected {expected.text} for operand {index + 1} of {op.name}, found `{found.text}`"
  | .operandCount op found =>
      let count := op.signature.length
      let ending := if count = 1 then "" else "s"
      s!"{op.name} expects {count} operand{ending}, found {found}"

def wrongOperand (op : Opcode) (index : UInt64) (expected : OperandKind) (found : Token)
    (span : Span) : Checked ParseError :=
  -- The place is shown counted from one, and has to fit 64 bits.
  if index.toNat + 1 < UInt64.size then .ok ⟨.wrongOperand op index.toNat expected found, span⟩
  else .error .outOfRange

def kind (e : ParseError) : Kind := e.cause.kind

def text (e : ParseError) : String := s!"{e.cause.message} at {e.span.text}"

def diagnostic (e : ParseError) : Diagnostic :=
  { kind := .statement, span := e.span, message := e.cause.message }

end ParseError
end PuzzleMachine
