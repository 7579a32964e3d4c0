set_option autoImplicit false

namespace PuzzleMachine

def value32? (n : Int) : Option Int32 :=
  if Int32.minValue.toInt ≤ n ∧ n ≤ Int32.maxValue.toInt then some (.ofInt n) else none

def index64? (n : Nat) : Option UInt64 := if n < UInt64.size then some (.ofNat n) else none

end PuzzleMachine
