import PuzzleMachine.Hardware

set_option autoImplicit false

namespace PuzzleMachine

structure TestCase where
  input : List Int32
  expected : List Int32
deriving DecidableEq, Repr

structure Puzzle where
  hardware : String
  cases : List TestCase
deriving DecidableEq, Repr

namespace Puzzle

def default : Puzzle := ⟨"", [⟨[], []⟩]⟩

def check (p : Puzzle) : Except LimitError Unit :=
  if p.cases.isEmpty then .error .noTestCases else .ok ()

end Puzzle
end PuzzleMachine
