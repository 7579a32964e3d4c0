set_option autoImplicit false

namespace PuzzleMachine

-- What a caller can get wrong with values it put together by hand. Values that this library builds
-- itself break none of these rules.
inductive Breach where
  | reversedSpan (start stop : UInt32)
  | mixedFiles
  | tooManyFiles
  | pastEnd (offset : UInt32) (length : Nat)
  | noLineStarts
  | unpairedSpans
  | missingSpan
  -- An index, a cut or a word-sized sum outside its range.
  | outOfRange
deriving DecidableEq, Repr

def Breach.message? : Breach → Option String
  | .reversedSpan start stop => some s!"malformed span: end ({stop}) < start ({start})"
  | .mixedFiles => some "cannot merge spans from different files"
  | .tooManyFiles => some "too many source files"
  | .pastEnd offset length => some s!"offset {offset} is beyond EOF (len = {length})"
  | .noLineStarts => some "line_starts invariant violated: empty array"
  | .unpairedSpans => some "every instruction needs exactly one span"
  | .missingSpan => some "BUG: program counter past the halt index"
  | .outOfRange => none

abbrev Checked := Except Breach

def Checked.ofOption {α : Type} (breach : Breach) : Option α → Checked α
  | some a => .ok a
  | none => .error breach

def addWords (a b : UInt32) : Checked UInt32 :=
  if a.toNat + b.toNat < UInt32.size then .ok (a + b) else .error .outOfRange

def countOn (n : Nat) : Checked Nat :=
  if n + 1 < UInt64.size then .ok (n + 1) else .error .outOfRange

end PuzzleMachine
