import PuzzleMachine.Diagnostic
import PuzzleMachine.SourceMap

set_option autoImplicit false

namespace PuzzleMachine.Diagnostic

-- Carets under the part of a span that is on a line of `width` bytes, and at least one.
def underline (s : Span) (width : Nat) : String :=
  let column := s.column.toNat
  let stop := min (column + (s.stop.toNat - s.start.toNat)) (width + 1)
  String.ofList (List.replicate (column - 1) ' ' ++ List.replicate (max (stop - column) 1) '^')

def lineNumber (line : UInt32) : String :=
  let digits := Nat.toDigits 10 line.toNat
  String.ofList (List.replicate (3 - digits.length) ' ' ++ digits)

def excerpt (file : SourceFile) (s : Span) : Checked String := do
  match ← file.lineText? s.line with
  | none => return ""
  | some line =>
      let carets := underline s (Text.byteLength line)
      return s!"   |\n{lineNumber s.line} | {String.ofList line}\n   | {carets}\n"

def noteText (sources : SourceMap) (note : Note) : String :=
  let place := match sources.get? note.span.file with
    | none => ""
    | some file => s!"     at {file.name}:{note.span.line}:{note.span.column}\n"
  s!"   = note: {note.message}\n" ++ place

-- The text of one diagnostic; without its file there is only the message.
def render (sources : SourceMap) (d : Diagnostic) : Checked String := do
  let header := s!"error: {d.kind.name}: {d.message}\n"
  match sources.get? d.span.file with
  | none => return header
  | some file =>
      let place := s!"  --> {file.name}:{d.span.line}:{d.span.column}\n"
      let excerpt ← excerpt file d.span
      let notes := String.join (d.notes.map (noteText sources))
      let hints := String.join (d.hints.map fun hint => s!"   = help: {hint}\n")
      return header ++ place ++ excerpt ++ notes ++ hints

def renderAll (sources : SourceMap) (ds : List Diagnostic) : Checked String := do
  return String.intercalate "\n" (← ds.mapM (render sources))

end PuzzleMachine.Diagnostic
