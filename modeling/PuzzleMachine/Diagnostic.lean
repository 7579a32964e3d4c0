import PuzzleMachine.Span

set_option autoImplicit false

namespace PuzzleMachine

inductive DiagnosticKind where
  | token
  | statement
  | invalidRegister
  | invalidStack
  | readOnlyRegister
  | opcodeNotPermitted
  | duplicateLabel
  | undefinedLabel
  | invalidHardware
  | internal
deriving DecidableEq, Repr

inductive Stage where
  | tokens
  | statements
  | validation
deriving DecidableEq, Repr

namespace DiagnosticKind

def name : DiagnosticKind → String
  | .token => "syntax error"
  | .statement => "parse error"
  | .invalidRegister => "invalid register"
  | .invalidStack => "invalid stack"
  | .readOnlyRegister => "read-only register"
  | .opcodeNotPermitted => "opcode not permitted"
  | .duplicateLabel => "duplicate label"
  | .undefinedLabel => "undefined label"
  | .invalidHardware => "invalid hardware"
  | .internal => "internal compiler error"

def stage : DiagnosticKind → Stage
  | .token => .tokens
  | .statement => .statements
  | _ => .validation

end DiagnosticKind

structure Note where
  span : Span
  message : String
deriving DecidableEq, Repr

structure Diagnostic where
  kind : DiagnosticKind
  span : Span
  message : String
  notes : List Note := []
  hints : List String := []
deriving DecidableEq, Repr

def Diagnostic.text (d : Diagnostic) : String :=
  s!"error: {d.kind.name}: {d.message} at {d.span.text}"

abbrev Diagnosed := Except (List Diagnostic)

end PuzzleMachine
