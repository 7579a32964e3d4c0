import PuzzleMachine.Statement

set_option autoImplicit false

namespace PuzzleMachine

inductive Token where
  | opcode (op : Opcode)
  | register (register : Register)
  | stack (index : UInt64)
  | integer (value : Int32)
  -- A label name, or a word where an opcode belongs.
  | word (name : String)
  | colon
  | newline
deriving DecidableEq, Repr

def Token.text : Token → String
  | .opcode op => op.name
  | .register r => r.text
  | .stack n => stackText n
  | .integer v => toString v.toInt
  | .word name => name
  | .colon => ":"
  | .newline => "end of line"

namespace Token

def register? : Token → Option Register
  | .register r => some r
  | _ => none

def value? : Token → Option Value
  | .integer v => some (.literal v)
  | t => t.register?.map .register

def stack? : Token → Option UInt64
  | .stack n => some n
  | _ => none

def word? : Token → Option String
  | .word name => some name
  | _ => none

end Token
end PuzzleMachine
