import PuzzleMachine.Statement

set_option autoImplicit false

namespace PuzzleMachine

abbrev MachineInstruction := Instruction UInt64 Value UInt64 Nat

def Value.user? : Value → Option UInt64
  | .register r => r.user?
  | .literal _ => none

def Instruction.userRegisters : MachineInstruction → List UInt64
  | .read r => [r]
  | .write v => v.user?.toList
  | .set r v => r :: v.user?.toList
  | .arith _ r v => r :: v.user?.toList
  | .cmp r a b => r :: (a.user?.toList ++ b.user?.toList)
  | .push v _ => v.user?.toList
  | .pop _ r => [r]
  | .jump _ => []
  | .branch _ v _ => v.user?.toList

-- Code runs off its end to halt. Stored code may lack spans or have too many.
structure Code where
  instructions : Array MachineInstruction
  spans : Array Span
deriving DecidableEq, Repr

namespace Code

def Paired (c : Code) : Prop := c.instructions.size = c.spans.size

instance (c : Code) : Decidable c.Paired := inferInstanceAs (Decidable (_ = _))

def ofParts (instructions : Array MachineInstruction) (spans : Array Span) : Checked Code :=
  if instructions.size = spans.size then .ok ⟨instructions, spans⟩ else .error .unpairedSpans

def haltIndex (c : Code) : Nat := c.instructions.size

end Code
end PuzzleMachine
