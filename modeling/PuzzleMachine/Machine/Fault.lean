import PuzzleMachine.Span
import PuzzleMachine.Statement

set_option autoImplicit false

namespace PuzzleMachine

inductive ArithmeticError where
  | overflow
  | divideByZero
deriving DecidableEq, Repr

inductive FaultKind where
  | stackOverflow (stack : UInt64) (capacity : UInt64)
  | stackUnderflow (stack : UInt64)
  | arithmetic (error : ArithmeticError)
  | inputExhausted
  | invalidJump (target : Nat)
  | invalidRegister (register : UInt64)
  | invalidStack (stack : UInt64)
  | timeout (ceiling : UInt64)
deriving DecidableEq, Repr

structure Fault where
  kind : FaultKind
  pc : Nat
  span : Span
deriving DecidableEq, Repr

inductive Status where
  | ready
  | running
  | halted
  | faulted (fault : Fault)
deriving DecidableEq, Repr

def Status.isTerminal : Status → Bool
  | .halted | .faulted _ => true
  | .ready | .running => false

def Status.fault? : Status → Option Fault
  | .faulted fault => some fault
  | _ => none

def ArithmeticError.text : ArithmeticError → String
  | .overflow => "overflow"
  | .divideByZero => "division by zero"

def FaultKind.text : FaultKind → String
  | .stackOverflow stack capacity =>
      s!"stack {stackText stack} overflowed its capacity of {capacity}"
  | .stackUnderflow stack => s!"stack {stackText stack} underflowed"
  | .arithmetic error => s!"arithmetic error: {error.text}"
  | .inputExhausted => "read past the end of input"
  | .invalidJump target => s!"jump target {target} is past the end of the program"
  | .invalidRegister register => s!"register RX{register} does not exist on this hardware"
  | .invalidStack stack => s!"stack {stackText stack} does not exist on this hardware"
  | .timeout ceiling => s!"cycle ceiling of {ceiling} reached"

def Fault.text (f : Fault) : String := s!"{f.kind.text} at {f.span.text}"

end PuzzleMachine
