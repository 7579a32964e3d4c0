import PuzzleMachine.Statement.Stream
import PuzzleMachine.Token.Scan

set_option autoImplicit false

namespace PuzzleMachine

abbrev OperandReader := StateT Nat TokenReader

def takeOperand {α : Type} (op : Opcode) (kind : OperandKind) (read? : Token → Option α) :
    OperandReader (Located α) := fun count => ExceptT.mk fun stream =>
  match stream.next? with
  | none => do return (.error ⟨.operandCount op count, ← stream.here⟩, stream)
  | some t =>
      match read? t.value with
      | none => .ok (.error ⟨.wrongOperand op count kind t.value, t.span⟩, stream.advance)
      | some a => .ok (.ok (⟨a, t.span⟩, count + 1), stream.advance)

def takeInstruction (op : Opcode) : OperandReader SourceInstruction :=
  let register := takeOperand op .register Token.register?
  let value := takeOperand op .value Token.value?
  let stack := takeOperand op .stack Token.stack?
  let target := takeOperand op .label Token.word?
  match op with
  | .read => .read <$> register
  | .write => .write <$> value
  | .set => .set <$> register <*> value
  | .arith f => .arith f <$> register <*> value
  | .cmp => .cmp <$> register <*> value <*> value
  | .push => .push <$> value <*> stack
  | .pop => .pop <$> stack <*> register
  | .jump => .jump <$> target
  | .branch test => .branch test <$> value <*> target

def endInstruction (op : Opcode) (start : Span) (i : SourceInstruction) :
    TokenReader (Located SourceInstruction) := ExceptT.mk fun stream =>
  match stream.next? with
  | none => do return (.ok ⟨i, ← stream.spanFrom start⟩, stream)
  | some t =>
      let found := op.signature.length + stream.restOfLine.length
      .ok (.error ⟨.operandCount op found, t.span⟩, stream)

def parseInstruction (op : Opcode) (start : Span) : TokenReader (Located SourceInstruction) := do
  let (i, _) ← (takeInstruction op).run 0
  endInstruction op start i

def parseLabel : TokenReader (List Statement) := do
  match (← get).rest with
  | ⟨.word name, span⟩ :: ⟨.colon, _⟩ :: _ =>
      modify fun stream => stream.advance.advance
      return [.label ⟨name, span⟩]
  | _ => return []

def parseBody : TokenReader (List Statement) := do
  match (← get).rest with
  | [] | ⟨.newline, _⟩ :: _ => return []
  | ⟨.opcode op, start⟩ :: _ =>
      modify TokenStream.advance
      return [.instruction (← parseInstruction op start)]
  | ⟨.word name, span⟩ :: _ => throw ⟨.unknownOpcode name, span⟩
  | ⟨found, span⟩ :: _ => throw ⟨.unexpectedToken found "at start of statement", span⟩

def parseLine : TokenReader (List Statement) := do
  return (← parseLabel) ++ (← parseBody)

-- Reads the next line and passes over its newline, and over what an error leaves of it.
def nextLine (s : TokenStream) : Checked (Except ParseError (List Statement) × TokenStream) := do
  match ← parseLine.on s with
  | (.ok statements, later) => return (.ok statements, later.advance)
  | (.error e, later) => return (.error e, later.skipLine)

section Progress

variable {α : Type} {op : Opcode} {kind : OperandKind} {read? : Token → Option α} {n : Nat}
  {start : Span} {i : SourceInstruction} {s later : TokenStream} {t : Located Token}

open TokenReader TokenStream

theorem takeOperand_at_end (ended : s.next? = none) :
    ((takeOperand op kind read?).run n).on s =
      s.here.map fun span => (.error ⟨.operandCount op n, span⟩, s) := by
  simp only [takeOperand, on, StateT.run, ExceptT.run, ExceptT.mk, ended]
  cases s.here <;> rfl

theorem takeOperand_of_next? (next : s.next? = some t) :
    ((takeOperand op kind read?).run n).on s = match read? t.value with
      | none => .ok (.error ⟨.wrongOperand op n kind t.value, t.span⟩, s.advance)
      | some a => .ok (.ok (⟨a, t.span⟩, n + 1), s.advance) := by
  cases read : read? t.value <;>
    simp only [takeOperand, on, StateT.run, ExceptT.run, ExceptT.mk, next, read]

theorem endInstruction_at_end (ended : s.next? = none) :
    (endInstruction op start i).on s = (s.spanFrom start).map fun span => (.ok ⟨i, span⟩, s) := by
  simp only [endInstruction, on, StateT.run, ExceptT.run, ExceptT.mk, ended]
  cases s.spanFrom start <;> rfl

theorem endInstruction_of_next? (next : s.next? = some t) :
    (endInstruction op start i).on s =
      .ok (.error ⟨.operandCount op (op.signature.length + s.restOfLine.length), t.span⟩, s) := by
  simp only [endInstruction, on, StateT.run, ExceptT.run, ExceptT.mk, next]

theorem takeOperand_staysInLine : StaysInLine ((takeOperand op kind read?).run n) := by
  intro s result later read
  cases next : s.next? with
  | none =>
    rw [takeOperand_at_end next] at read
    cases place : s.here <;> rw [place] at read <;> cases read
    exact .start s
  | some t =>
    rw [takeOperand_of_next? next] at read
    split at read <;> cases read <;> exact sameLine_advance next

theorem takeInstruction_staysInLine : StaysInLine ((takeInstruction op).run n) := by
  cases op <;>
    simp only [takeInstruction, seq_eq_bind_map, map_eq_pure_bind, bind_assoc, pure_bind,
      StateT.run_bind, StateT.run_pure] <;>
    repeat' first
      | exact .pure _
      | refine .bind takeOperand_staysInLine fun _ => ?_

theorem endInstruction_staysInLine : StaysInLine (endInstruction op start i) := by
  intro s result later read
  cases next : s.next? with
  | none =>
    rw [endInstruction_at_end next] at read
    cases place : s.spanFrom start <;> rw [place] at read <;> cases read
    exact .start s
  | some t =>
    rw [endInstruction_of_next? next] at read
    cases read
    exact .start s

theorem parseInstruction_staysInLine : StaysInLine (parseInstruction op start) :=
  .bind takeInstruction_staysInLine fun _ => endInstruction_staysInLine

theorem parseLabel_staysInLine : StaysInLine parseLabel := by
  intro s result later read
  simp only [parseLabel, on_bind, on_get, Except.bind] at read
  split at read
  next name span colon rest same =>
    obtain ⟨file, taken?, _⟩ := s
    cases same
    cases read
    exact .take nofun (.take nofun (.start _))
  next =>
    cases read
    exact .start s

theorem parseBody_staysInLine : StaysInLine parseBody := by
  intro s result later read
  simp only [parseBody, on_bind, on_get, Except.bind] at read
  split at read
  next =>
    cases read
    exact .start s
  next =>
    cases read
    exact .start s
  next op start rest same =>
    obtain ⟨file, taken?, _⟩ := s
    cases same
    refine .take nofun ?_
    exact parseInstruction_staysInLine.bind (fun _ => .pure _) _ _ _ read
  next =>
    cases read
    exact .start s
  next =>
    cases read
    exact .start s

theorem endInstruction_endsLine : EndsLine (endInstruction op start i) := by
  intro s i' later read
  cases next : s.next? with
  | none =>
    rw [endInstruction_at_end next] at read
    cases place : s.spanFrom start <;> rw [place] at read <;> cases read
    exact next
  | some t =>
    rw [endInstruction_of_next? next] at read
    cases read

theorem parseInstruction_endsLine : EndsLine (parseInstruction op start) :=
  .bind fun _ => endInstruction_endsLine

theorem parseBody_endsLine : EndsLine parseBody := by
  intro s statements later read
  simp only [parseBody, on_bind, on_get, Except.bind] at read
  split at read
  next same =>
    cases read
    simp [next?, same]
  next same =>
    cases read
    simp [next?, same]
  next op start rest same => exact (EndsLine.map parseInstruction_endsLine) _ _ _ read
  next => cases read
  next => cases read

theorem parseLine_staysInLine : StaysInLine parseLine :=
  parseLabel_staysInLine.bind fun _ => parseBody_staysInLine.bind fun _ => .pure _

theorem parseLine_endsLine : EndsLine parseLine :=
  .bind fun _ => parseBody_endsLine.map

-- Whatever is on a line, reading goes on after it.
theorem nextLine_eq (s : TokenStream) :
    nextLine s = (parseLine.on s).map fun (result, _) => (result, s.skipLine) := by
  unfold nextLine
  cases taken : parseLine.on s with
  | error => rfl
  | ok reached =>
    obtain ⟨result, later⟩ := reached
    rw [← (parseLine_staysInLine s result later taken).skipLine_eq]
    cases result with
    | error => rfl
    | ok statements =>
      rw [skipLine_of_next?_eq_none (parseLine_endsLine s statements later taken)]
      rfl

theorem skipLine_of_nextLine {result : Except ParseError (List Statement)}
    (read : nextLine s = .ok (result, later)) : later = s.skipLine := by
  rw [nextLine_eq] at read
  cases taken : parseLine.on s <;> rw [taken] at read <;> cases read
  rfl

end Progress

def parseLines (s : TokenStream) : Checked (List (Except ParseError (List Statement))) :=
  if _ : s.rest = [] then .ok []
  else match _ : nextLine s with
    | .error b => .error b
    | .ok (result, later) => do return result :: (← parseLines later)
termination_by s.rest.length
decreasing_by
  have skipped := skipLine_of_nextLine ‹nextLine s = _›
  rw [skipped]
  exact TokenStream.skipLine_length_lt ‹_›

def parseTokens (tokens : List (Located Token)) (file : UInt16) :
    Checked (Except (List ParseError) ParsedUnit) := do
  let results ← parseLines (.ofTokens file tokens)
  return (collect results).map fun parts => ⟨file, parts.flatten⟩

-- Scans and parses one file of `sources`; what cannot be scanned is not parsed.
def parse (sources : SourceMap) (file : UInt16) : Checked (Diagnosed ParsedUnit) := do
  match ← scan sources file with
  | .error ds => return .error ds
  | .ok tokens =>
      return (← parseTokens tokens file).mapError fun es => es.map ParseError.diagnostic

end PuzzleMachine
