import PuzzleMachine.Machine.Memory

set_option autoImplicit false

namespace PuzzleMachine

structure State extends Memory where
  pc : Nat
  cycles : Nat
  executed : Nat
  -- The registers that executed instructions named.
  touched : Array Bool
  status : Status
deriving DecidableEq, Repr

namespace State

def fresh (hw : Hardware) (input : List Int32) : State where
  toMemory := .fresh hw input
  pc := 0
  cycles := 0
  executed := 0
  touched := Array.replicate hw.registers.toNat false
  status := .ready

def touch (touched : Array Bool) (rs : List UInt64) : Array Bool :=
  rs.foldl (fun t r => t.setIfInBounds r.toNat true) touched

def registersUsed (s : State) : Nat := s.touched.toList.count true

end State
end PuzzleMachine
