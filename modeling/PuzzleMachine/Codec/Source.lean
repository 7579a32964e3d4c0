import PuzzleMachine.Codec.Basic
import PuzzleMachine.SourceMap

set_option autoImplicit false

namespace PuzzleMachine.Codec

def span : Codec Span where
  encode s := .obj [
    ("file_id", word16.encode s.file), ("start", word32.encode s.start),
    ("end", word32.encode s.stop), ("line", word32.encode s.line),
    ("column", word32.encode s.column)]
  decode? j := do
    let [file, start, stop, line, column] ←
      j.fields? ["file_id", "start", "end", "line", "column"] | none
    return ⟨← word16.required file, ← word32.required start, ← word32.required stop,
      ← word32.required line, ← word32.required column⟩

def located {α : Type} (c : Codec α) : Codec (Located α) where
  encode l := .obj [("node", c.encode l.value), ("span", span.encode l.span)]
  decode? j := do
    let [value, place] ← j.fields? ["node", "span"] | none
    return ⟨← c.required value, ← span.required place⟩

def sourceUnit : Codec SourceUnit where
  encode u := .obj [("name", string.encode u.name), ("source", string.encode u.text)]
  decode? j := do
    let [name, text] ← j.fields? ["name", "source"] | none
    return ⟨← string.required name, ← string.required text⟩

def sourceFile : Codec SourceFile where
  encode f := .obj [
    ("name", string.encode f.name), ("source", string.encode f.text),
    ("line_starts", word32.array.encode f.lineStarts)]
  decode? j := do
    let [name, text, starts] ← j.fields? ["name", "source", "line_starts"] | none
    return ⟨← string.required name, ← string.required text, ← word32.array.required starts⟩

def sourceMap : Codec SourceMap where
  encode m := .obj [("files", sourceFile.array.encode m.files)]
  decode? j := do
    let [files] ← j.fields? ["files"] | none
    return ⟨← sourceFile.array.required files⟩

end PuzzleMachine.Codec
