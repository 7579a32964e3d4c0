import PuzzleMachine.Proofs.Stream

set_option autoImplicit false

namespace PuzzleMachine

/-- The token stands for the operand, at its own place. -/
inductive Denotes : Located Token → SourceOperand → Prop where
  | dest (r : Register) (span : Span) : Denotes ⟨.register r, span⟩ (.dest ⟨r, span⟩)
  | register (r : Register) (span : Span) :
      Denotes ⟨.register r, span⟩ (.value ⟨.register r, span⟩)
  | literal (v : Int32) (span : Span) : Denotes ⟨.integer v, span⟩ (.value ⟨.literal v, span⟩)
  | stack (n : UInt64) (span : Span) : Denotes ⟨.stack n, span⟩ (.stack ⟨n, span⟩)
  | target (name : String) (span : Span) : Denotes ⟨.word name, span⟩ (.target ⟨name, span⟩)

def OperandKind.admits : OperandKind → Token → Bool
  | .register, .register _ | .value, .register _ | .value, .integer _ | .stack, .stack _
  | .label, .word _ => true
  | _, _ => false

theorem exists_denotes {kind : OperandKind} {t : Located Token} (admitted : kind.admits t.value) :
    ∃ operand, operand.kind = kind ∧ Denotes t operand := by
  obtain ⟨token, span⟩ := t
  cases kind <;> cases token <;> cases admitted
  · exact ⟨_, rfl, .dest _ span⟩
  · exact ⟨_, rfl, .register _ span⟩
  · exact ⟨_, rfl, .literal _ span⟩
  · exact ⟨_, rfl, .stack _ span⟩
  · exact ⟨_, rfl, .target _ span⟩

theorem Denotes.admits {t : Located Token} {operand : SourceOperand} (denotes : Denotes t operand) :
    operand.kind.admits t.value = true := by
  cases denotes <;> rfl

namespace Instruction

variable {R V S T : Type} {i j : Instruction R V S T}

theorem eq_of_operands (opcode : i.opcode = j.opcode) (operands : i.operands = j.operands) :
    i = j := by
  have built := ofOperands?_operands i
  rw [opcode, operands, ofOperands?_operands] at built
  exact (Option.some.inj built).symm

theorem exists_of_kinds {op : Opcode} {operands : List (Operand R V S T)}
    (kinds : operands.map Operand.kind = op.signature) :
    ∃ i : Instruction R V S T, i.opcode = op ∧ i.operands = operands := by
  match op, operands, kinds with
  | .read, [.dest r], _ => exact ⟨.read r, rfl, rfl⟩
  | .write, [.value v], _ => exact ⟨.write v, rfl, rfl⟩
  | .set, [.dest r, .value v], _ => exact ⟨.set r v, rfl, rfl⟩
  | .arith f, [.dest r, .value v], _ => exact ⟨.arith f r v, rfl, rfl⟩
  | .cmp, [.dest r, .value a, .value b], _ => exact ⟨.cmp r a b, rfl, rfl⟩
  | .push, [.value v, .stack k], _ => exact ⟨.push v k, rfl, rfl⟩
  | .pop, [.stack k, .dest r], _ => exact ⟨.pop k r, rfl, rfl⟩
  | .jump, [.target t], _ => exact ⟨.jump t, rfl, rfl⟩
  | .branch test, [.value v, .target t], _ => exact ⟨.branch test v t, rfl, rfl⟩

end Instruction

section Reading

variable (op : Opcode)

def takeKind : OperandKind → OperandReader SourceOperand
  | .register => .dest <$> takeOperand op .register Token.register?
  | .value => .value <$> takeOperand op .value Token.value?
  | .stack => .stack <$> takeOperand op .stack Token.stack?
  | .label => .target <$> takeOperand op .label Token.word?

def takeKinds (kinds : List OperandKind) : OperandReader (List SourceOperand) :=
  kinds.mapM (takeKind op)

theorem takeInstruction_eq_takeKinds :
    (fun i => (i.opcode, i.operands)) <$> takeInstruction op =
      (fun operands => (op, operands)) <$> takeKinds op op.signature := by
  cases op <;>
    simp only [takeInstruction, Opcode.signature, takeKinds, takeKind, List.mapM_cons,
      List.mapM_nil, seq_eq_bind_map, map_eq_pure_bind, bind_assoc, pure_bind, Instruction.opcode,
      Instruction.operands]

variable {op} {α β : Type} {kind : OperandKind} {kinds : List OperandKind} {t : Located Token}
  {ts taken : List (Located Token)} {n m : Nat} {operand : SourceOperand}
  {operands : List SourceOperand} {s later : TokenStream}

theorem map_on (f : α → β) (reader : OperandReader α) :
    ((f <$> reader).run n).on s = ((reader.run n).on s).map fun (result, later) =>
      (result.map fun (a, n) => (f a, n), later) := by
  rw [StateT.run_map, map_eq_pure_bind, TokenReader.on_bind]
  rcases (reader.run n).on s with _ | ⟨_ | _, later⟩ <;> rfl

theorem takeKind_at_end (ended : s.next? = none) :
    ((takeKind op kind).run n).on s =
      s.here.map fun span => (.error ⟨.operandCount op n, span⟩, s) := by
  cases kind <;>
    simp only [takeKind, map_on, takeOperand_at_end ended] <;> cases s.here <;> rfl

theorem takeKind_of_denotes (next : s.next? = some t) (denotes : Denotes t operand) :
    ((takeKind op operand.kind).run n).on s = .ok (.ok (operand, n + 1), s.advance) := by
  cases denotes <;>
    simp only [takeKind, Operand.kind, map_on, takeOperand_of_next? next] <;> rfl

theorem takeKind_of_not_admits (next : s.next? = some t) (rejected : kind.admits t.value = false) :
    ((takeKind op kind).run n).on s =
      .ok (.error ⟨.wrongOperand op n kind t.value, t.span⟩, s.advance) := by
  obtain ⟨token, span⟩ := t
  cases kind <;> simp only [takeKind, map_on, takeOperand_of_next? next] <;>
    cases token <;> first | rfl | cases rejected

theorem takeKinds_cons_at_end (ended : s.next? = none) :
    ((takeKinds op (kind :: kinds)).run n).on s =
      s.here.map fun span => (.error ⟨.operandCount op n, span⟩, s) := by
  rw [takeKinds, List.mapM_cons, StateT.run_bind, TokenReader.on_bind, takeKind_at_end ended]
  cases s.here <;> rfl

theorem takeKinds_cons_of_denotes (next : s.next? = some t) (denotes : Denotes t operand) :
    ((takeKinds op (operand.kind :: kinds)).run n).on s =
      (((takeKinds op kinds).run (n + 1)).on s.advance).map fun (result, later) =>
        (result.map fun (operands, n) => (operand :: operands, n), later) := by
  rw [takeKinds, List.mapM_cons, StateT.run_bind, TokenReader.on_bind, takeKind_of_denotes next denotes]
  simp only [Except.bind, ← map_eq_pure_bind]
  exact map_on (operand :: ·) (takeKinds op kinds)

theorem takeKinds_cons_of_not_admits (next : s.next? = some t)
    (rejected : kind.admits t.value = false) :
    ((takeKinds op (kind :: kinds)).run n).on s =
      .ok (.error ⟨.wrongOperand op n kind t.value, t.span⟩, s.advance) := by
  rw [takeKinds, List.mapM_cons, StateT.run_bind, TokenReader.on_bind,
    takeKind_of_not_admits next rejected]
  rfl

theorem takeKinds_of_denotes (denotes : List.Forall₂ Denotes s.restOfLine operands) :
    ∃ m later, ((takeKinds op (operands.map Operand.kind)).run n).on s =
      .ok (.ok (operands, m), later) ∧ later.next? = none := by
  induction operands generalizing s n with
  | nil =>
    refine ⟨n, s, rfl, ?_⟩
    cases next : s.next? with
    | none => rfl
    | some t =>
      rw [TokenStream.restOfLine_of_next? next] at denotes
      cases denotes
  | cons operand operands ih =>
    cases next : s.next? with
    | none =>
      rw [TokenStream.restOfLine_of_next?_eq_none next] at denotes
      cases denotes
    | some t =>
      rw [TokenStream.restOfLine_of_next? next] at denotes
      cases denotes with
      | cons here rest =>
        obtain ⟨m, later, read, ended⟩ := @ih (n + 1) s.advance rest
        refine ⟨m, later, ?_, ended⟩
        rw [List.map_cons, takeKinds_cons_of_denotes next here, read]
        rfl

theorem denotes_of_takeKinds
    (read : ((takeKinds op kinds).run n).on s = .ok (.ok (operands, m), later)) :
    operands.map Operand.kind = kinds ∧
      ∃ taken, s.restOfLine = taken ++ later.restOfLine ∧ List.Forall₂ Denotes taken operands := by
  induction kinds generalizing s n operands with
  | nil =>
    cases read
    exact ⟨rfl, [], rfl, .nil⟩
  | cons kind kinds ih =>
    cases next : s.next? with
    | none =>
      rw [takeKinds_cons_at_end next] at read
      obtain ⟨span, -, same⟩ := map_ok_iff.mp read
      cases same
    | some t =>
      cases admitted : kind.admits t.value with
      | false =>
        rw [takeKinds_cons_of_not_admits next admitted] at read
        cases read
      | true =>
        obtain ⟨operand, rfl, denotes⟩ := exists_denotes admitted
        rw [takeKinds_cons_of_denotes next denotes] at read
        obtain ⟨⟨result, later'⟩, taken, same⟩ := map_ok_iff.mp read
        cases result with
        | error => cases same
        | ok found =>
          cases same
          obtain ⟨kinds_eq, taken, line, denote⟩ := ih taken
          rw [TokenStream.restOfLine_of_next? next, line]
          exact ⟨congrArg (operand.kind :: ·) kinds_eq, t :: taken, rfl, .cons denotes denote⟩

-- A place for an error is needed only where the tokens of the line end.
theorem exists_takeKinds (placed : ∀ later, s.SameLine later → ∃ span, later.here = .ok span) :
    ∃ outcome, ((takeKinds op kinds).run n).on s = .ok outcome := by
  induction kinds generalizing s n with
  | nil => exact ⟨_, rfl⟩
  | cons kind kinds ih =>
    cases next : s.next? with
    | none =>
      obtain ⟨span, here⟩ := placed s (.start s)
      rw [takeKinds_cons_at_end next, here]
      exact ⟨_, rfl⟩
    | some t =>
      cases admitted : kind.admits t.value with
      | false => exact ⟨_, takeKinds_cons_of_not_admits next admitted⟩
      | true =>
        obtain ⟨operand, rfl, denotes⟩ := exists_denotes admitted
        have later : ∀ later, s.advance.SameLine later → ∃ span, later.here = .ok span :=
          fun later same => placed later ((TokenStream.sameLine_advance next).trans same)
        obtain ⟨outcome, read⟩ := @ih (n + 1) s.advance later
        rw [takeKinds_cons_of_denotes next denotes, read]
        exact ⟨_, rfl⟩

-- An instruction is read as the operands in its opcode's signature are, one by one.
theorem takeInstruction_on :
    (((takeInstruction op).run n).on s).map (fun (result, later) =>
        (result.map fun ((i, m) : SourceInstruction × Nat) => ((i.opcode, i.operands), m), later)) =
      (((takeKinds op op.signature).run n).on s).map fun (result, later) =>
        (result.map fun (operands, m) => ((op, operands), m), later) := by
  have same := congrArg (fun reader => (reader.run n).on s) (takeInstruction_eq_takeKinds op)
  simp only [map_on] at same
  exact same

theorem takeInstruction_ok_iff {i : SourceInstruction} :
    ((takeInstruction op).run n).on s = .ok (.ok (i, m), later) ↔
      i.opcode = op ∧
        ((takeKinds op op.signature).run n).on s = .ok (.ok (i.operands, m), later) := by
  have same := @takeInstruction_on op n s
  constructor
  · intro read
    rw [read] at same
    obtain ⟨⟨result, later'⟩, taken, found⟩ := map_ok_iff.mp same.symm
    cases result with
    | error => cases found
    | ok reached =>
      obtain ⟨operands, m'⟩ := reached
      obtain ⟨⟨⟨rfl, rfl⟩, rfl⟩, rfl⟩ :
          ((op = i.opcode ∧ operands = i.operands) ∧ m' = m) ∧ later' = later := by
        simpa only [Except.map, Except.ok.injEq, Prod.mk.injEq] using found
      exact ⟨rfl, taken⟩
  · rintro ⟨opcode, taken⟩
    rw [taken] at same
    obtain ⟨⟨result, later'⟩, read, found⟩ := map_ok_iff.mp same
    cases result with
    | error => cases found
    | ok reached =>
      obtain ⟨j, m'⟩ := reached
      obtain ⟨⟨⟨opcode', operands⟩, rfl⟩, rfl⟩ :
          ((j.opcode = op ∧ j.operands = i.operands) ∧ m' = m) ∧ later' = later := by
        simpa only [Except.map, Except.ok.injEq, Prod.mk.injEq] using found
      rwa [Instruction.eq_of_operands (opcode'.trans opcode.symm) operands] at read

theorem exists_takeInstruction
    (placed : ∀ later, s.SameLine later → ∃ span, later.here = .ok span) :
    ∃ outcome, ((takeInstruction op).run n).on s = .ok outcome := by
  obtain ⟨outcome, taken⟩ := @exists_takeKinds op op.signature n s placed
  have same := @takeInstruction_on op n s
  rw [taken] at same
  obtain ⟨found, read, -⟩ := map_ok_iff.mp same
  exact ⟨found, read⟩

end Reading

def lastSpan (start : Span) (ts : List (Located Token)) : Span :=
  (ts.getLast?.map Located.span).getD start

section Instructions

variable {op : Opcode} {start : Span} {s later : TokenStream} {i' : Located SourceInstruction}

theorem spanFrom_eq (opened : s.taken? = some ⟨.opcode op, start⟩) (same : s.SameLine later)
    (ended : later.next? = none) :
    later.spanFrom start = start.merge (lastSpan start s.restOfLine) := by
  rw [TokenStream.spanFrom, same.taken?_eq ended, opened, lastSpan]
  cases s.restOfLine.getLast? <;> rfl

theorem endInstruction_ok_iff {i : SourceInstruction} :
    (endInstruction op start i).on s = .ok (.ok i', later) ↔
      s.next? = none ∧ s.spanFrom start = .ok i'.span ∧ i'.value = i ∧ later = s := by
  obtain ⟨value, span⟩ := i'
  cases next : s.next? with
  | none =>
    rw [endInstruction_at_end next, map_ok_iff]
    constructor
    · rintro ⟨place, found, same⟩
      cases same
      exact ⟨rfl, found, rfl, rfl⟩
    · rintro ⟨-, found, rfl, rfl⟩
      exact ⟨span, found, rfl⟩
  | some t => simp [endInstruction_of_next? next]

theorem parseInstruction_ok_iff (opened : s.taken? = some ⟨.opcode op, start⟩) :
    (∃ later, (parseInstruction op start).on s = .ok (.ok i', later)) ↔
      i'.value.opcode = op ∧ List.Forall₂ Denotes s.restOfLine i'.value.operands ∧
        start.merge (lastSpan start s.restOfLine) = .ok i'.span := by
  constructor
  · rintro ⟨later, read⟩
    obtain ⟨⟨i, m⟩, s', taken, ends⟩ := TokenReader.bind_on_ok_iff.mp read
    obtain ⟨ended, place, rfl, -⟩ := endInstruction_ok_iff.mp ends
    have same := takeInstruction_staysInLine s _ s' taken
    obtain ⟨opcode, taken⟩ := takeInstruction_ok_iff.mp taken
    obtain ⟨-, tokens, line, denotes⟩ := denotes_of_takeKinds taken
    rw [TokenStream.restOfLine_of_next?_eq_none ended, List.append_nil] at line
    rw [spanFrom_eq opened same ended] at place
    exact ⟨opcode, line ▸ denotes, place⟩
  · rintro ⟨rfl, denotes, place⟩
    obtain ⟨m, later, taken, ended⟩ := takeKinds_of_denotes denotes
    rw [Instruction.map_kind_operands] at taken
    have read := takeInstruction_ok_iff.mpr ⟨rfl, taken⟩
    have same := takeInstruction_staysInLine s _ later read
    rw [← spanFrom_eq opened same ended] at place
    refine ⟨later, TokenReader.bind_on_ok_iff.mpr ⟨_, later, read, ?_⟩⟩
    exact endInstruction_ok_iff.mpr ⟨ended, place, rfl, rfl⟩

theorem exists_parseInstruction {span : Span} (opened : s.taken? = some ⟨.opcode op, start⟩)
    (placed : ∀ later, s.SameLine later → ∃ span, later.here = .ok span)
    (merged : start.merge (lastSpan start s.restOfLine) = .ok span) :
    ∃ outcome, (parseInstruction op start).on s = .ok outcome := by
  obtain ⟨⟨result, s'⟩, taken⟩ := @exists_takeInstruction op 0 s placed
  have same := takeInstruction_staysInLine s _ s' taken
  rw [parseInstruction, TokenReader.on_bind, taken]
  cases result with
  | error => exact ⟨_, rfl⟩
  | ok found =>
    obtain ⟨i, m⟩ := found
    cases next : s'.next? with
    | none =>
      rw [← spanFrom_eq opened same next] at merged
      have ends := @endInstruction_ok_iff op start s' s' ⟨i, span⟩ i
      exact ⟨_, ends.mpr ⟨next, merged, rfl, rfl⟩⟩
    | some t =>
      exact ⟨_, endInstruction_of_next? next⟩

end Instructions
end PuzzleMachine
