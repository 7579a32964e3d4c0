import PuzzleMachine.Text.Invisible

set_option autoImplicit false

namespace PuzzleMachine.Text

-- A backslash form for quotes, the backslash and the common controls, the hexadecimal code point
-- for whatever else would not be seen, and any other character as it is.
def quoted (c : Char) : String :=
  match c.toNat with
  | 0 => "\\0"
  | 9 => "\\t"
  | 10 => "\\n"
  | 13 => "\\r"
  | 34 => "\\\""
  | 39 => "\\\x27"
  | 92 => "\\\\"
  | n => if isInvisible c then s!"\\u\x7b{String.ofList (Nat.toDigits 16 n)}\x7d" else c.toString

-- A control character that a terminal would act on as its code, any other one as it is.
def harmless (c : Char) : String :=
  match c.toNat with
  | 7 => "\\x07"
  | 8 => "\\x08"
  | 12 => "\\x0c"
  | 27 => "\\x1b"
  | 127 => "\\x7f"
  | n =>
      if 0x80 ≤ n ∧ n ≤ 0x9f then s!"\\u\x7b{String.ofList (Nat.toDigits 16 n)}\x7d"
      else c.toString

end PuzzleMachine.Text
