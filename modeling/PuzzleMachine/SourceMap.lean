import PuzzleMachine.Span
import PuzzleMachine.Text.Bytes

set_option autoImplicit false

namespace PuzzleMachine

structure SourceUnit where
  name : String
  text : String
deriving DecidableEq, Repr

-- A unit with the offsets at which its lines start, the end of the text last.
structure SourceFile where
  name : String
  text : String
  lineStarts : Array UInt32
deriving DecidableEq, Repr

structure SourceMap where
  files : Array SourceFile
deriving DecidableEq, Repr

namespace SourceFile

def newlineEnds : Nat → List Char → List UInt32
  | _, [] => []
  | offset, c :: cs =>
      let next := offset + c.utf8Size
      if c = '\n' then .ofNat next :: newlineEnds next cs else newlineEnds next cs

def indexLines (text : String) : Array UInt32 :=
  let starts := (0 :: newlineEnds 0 text.toList).toArray
  let stop := UInt32.ofNat text.utf8ByteSize
  -- The end of the text closes the list, once.
  if starts.back? = some stop then starts else starts.push stop

def ofUnit (unit : SourceUnit) : SourceFile := ⟨unit.name, unit.text, indexLines unit.text⟩

def lineCount (f : SourceFile) : Checked Nat :=
  if f.lineStarts.isEmpty then .error .noLineStarts else .ok (f.lineStarts.size - 1)

/-- The last of the `size` starts from `base` on that is not after `offset`, or `base` where each
is after it. The range is halved, so the starts have to be in order. -/
def lineIndex (starts : Array UInt32) (offset : UInt32) (base size : Nat) : Nat :=
  if size ≤ 1 then base
  else
    let half := size / 2
    let mid := base + half
    let base := if starts[mid]?.any (offset < ·) then base else mid
    lineIndex starts offset base (size - half)
termination_by size

def lineColumn (f : SourceFile) (offset : UInt32) : Checked (UInt32 × UInt32) := do
  if UInt32.ofNat f.text.utf8ByteSize < offset then
    throw (.pastEnd offset f.text.utf8ByteSize)
  let count ← f.lineCount
  -- The end of the text starts no line: it belongs to the last one.
  let index := lineIndex f.lineStarts offset 0 (max count 1)
  let start ← Checked.ofOption .outOfRange f.lineStarts[index]?
  if offset < start then throw .outOfRange
  let column ← addWords (offset - start) 1
  return (.ofNat (index + 1), column)

def lineRange? (f : SourceFile) (line : UInt32) : Option (UInt32 × UInt32) := do
  if line = 0 then failure
  let start ← f.lineStarts[line.toNat - 1]?
  let stop ← f.lineStarts[line.toNat]?
  return (start, stop)

def slice (f : SourceFile) (start stop : UInt32) : Checked (List Char) :=
  Checked.ofOption .outOfRange (Text.slice? f.text.toList start.toNat stop.toNat)

def lineText? (f : SourceFile) (line : UInt32) : Checked (Option (List Char)) :=
  match f.lineRange? line with
  | none => .ok none
  | some (start, stop) => (f.slice start stop).map fun cs => some (Text.dropLineEnd cs)

end SourceFile

namespace SourceMap

def maxFiles : Nat := 65535

def empty : SourceMap := ⟨#[]⟩

def size (m : SourceMap) : Nat := m.files.size

def get? (m : SourceMap) (file : UInt16) : Option SourceFile := m.files[file.toNat]?

def ofUnits (units : List SourceUnit) : SourceMap := ⟨(units.map SourceFile.ofUnit).toArray⟩

def add (m : SourceMap) (unit : SourceUnit) : Checked UInt16 × SourceMap :=
  if m.size < maxFiles then (.ok (.ofNat m.size), ⟨m.files.push (.ofUnit unit)⟩)
  else (.error .tooManyFiles, m)

def file (m : SourceMap) (id : UInt16) : Checked SourceFile :=
  Checked.ofOption .outOfRange (m.get? id)

def span (m : SourceMap) (id : UInt16) (start stop : UInt32) : Checked Span := do
  let (line, column) ← (← m.file id).lineColumn start
  return ⟨id, start, stop, line, column⟩

def snippet (m : SourceMap) (s : Span) : Checked (List Char) := do
  (← m.file s.file).slice s.start s.stop

def ids (m : SourceMap) : List UInt16 := (List.range m.size).map .ofNat

end SourceMap
end PuzzleMachine
