set_option autoImplicit false

namespace PuzzleMachine

-- Less is better, in the order of the fields.
structure Score where
  cycles : Nat
  instructions : Nat
  registers : Nat
  stackDepth : Nat
deriving DecidableEq, Repr

namespace Score

def order (a b : Score) : Ordering :=
  (compare a.cycles b.cycles).then <| (compare a.instructions b.instructions).then <|
    (compare a.registers b.registers).then <| compare a.stackDepth b.stackDepth

def text (s : Score) : String :=
  s!"{s.cycles} cycles, {s.instructions} instructions, {s.registers} registers, " ++
    s!"stack depth {s.stackDepth}"

end Score
end PuzzleMachine
