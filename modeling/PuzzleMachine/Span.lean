import PuzzleMachine.Breach

set_option autoImplicit false

namespace PuzzleMachine

structure Span where
  file : UInt16
  start : UInt32
  -- Exclusive.
  stop : UInt32
  -- Counted from one.
  line : UInt32
  -- Counted from one, in bytes.
  column : UInt32
deriving DecidableEq, Repr

structure Located (α : Type) where
  value : α
  span : Span
deriving DecidableEq, Repr

namespace Span

def zero (file : UInt16) : Span := ⟨file, 0, 0, 1, 1⟩

def isEmpty (s : Span) : Bool := s.start == s.stop

def length (s : Span) : Checked UInt32 :=
  if s.start ≤ s.stop then .ok (s.stop - s.start) else .error (.reversedSpan s.start s.stop)

def cover (a b : Span) : Span :=
  -- Line and column are those of the span that starts first.
  let first := if a.start ≤ b.start then a else b
  { first with stop := max a.stop b.stop }

def merge (a b : Span) : Checked Span :=
  if a.file = b.file then .ok (a.cover b) else .error .mixedFiles

-- The empty span of `file` just past `s`.
def justAfter (s : Span) (file : UInt16) : Checked Span := do
  let column ← addWords s.column (← s.length)
  return ⟨file, s.stop, s.stop, s.line, column⟩

def text (s : Span) : String := s!"{s.line}:{s.column}"

end Span
end PuzzleMachine
