import PuzzleMachine.Proofs.Spelling
import PuzzleMachine.Proofs.Validation

set_option autoImplicit false

namespace PuzzleMachine

open Statement

def Operand.text : SourceOperand → String
  | .dest r => r.value.text
  | .value v => v.value.text
  | .stack s => stackText s.value
  | .target l => l.value

def Statement.text : Statement → String
  | .label l => l.value ++ ":"
  | .instruction i => " ".intercalate (i.value.opcode.name :: i.value.operands.map Operand.text)

def programText (program : List Statement) : String := "\n".intercalate (program.map Statement.text)

def Statement.Printable : Statement → Prop
  | .label l => IsLabelName l.value
  | .instruction i => ∀ l, .target l ∈ i.value.operands → IsLabelName l.value

section Lines

def Operand.token : SourceOperand → Token
  | .dest r => .register r.value
  | .value ⟨.literal v, _⟩ => .integer v
  | .value ⟨.register r, _⟩ => .register r
  | .stack s => .stack s.value
  | .target l => .word l.value

theorem Operand.spells {o : SourceOperand} (named : ∀ l, o = .target l → IsLabelName l.value) :
    Spells o.text.toList o.token := by
  rcases o with r | ⟨v | r, span⟩ | s | l
  · exact spells_register r.value
  · exact spells_integer v
  · exact spells_register r
  · exact spells_stack s.value
  · exact (named l rfl).spells

theorem Operand.denotes (o : SourceOperand) :
    Denotes ⟨o.token, .zero 0⟩ (o.relocate fun _ => .zero 0) := by
  rcases o with r | ⟨v | r, span⟩ | s | l <;> constructor

theorem separated_cons {c : Char} {rest : List Char} (stops : isWordPart c = false) :
    Separated (c :: rest) := by
  intro d head
  cases head
  exact stops

theorem Operand.token_ne_newline (o : SourceOperand) : o.token ≠ .newline := by
  rcases o with r | ⟨v | r, span⟩ | s | l <;> nofun

theorem separated_operands (os : List SourceOperand) :
    Separated (os.flatMap fun o => ' ' :: o.text.toList) := by
  cases os with
  | nil => exact separated_nil
  | cons => exact separated_cons rfl

theorem readings_operands {os : List SourceOperand}
    (named : ∀ l, .target l ∈ os → IsLabelName l.value) :
    readings (os.flatMap fun o => ' ' :: o.text.toList) = os.map fun o => .token o.token := by
  induction os with
  | nil => simp
  | cons o os ih =>
    have later := ih fun l member => named l (List.mem_cons_of_mem o member)
    have spells : Spells o.text.toList o.token :=
      Operand.spells fun l same => named l (same ▸ List.mem_cons_self)
    rw [List.flatMap_cons, List.cons_append, readings_blank, spells _ (separated_operands os),
      later, List.map_cons]

theorem toList_intercalate (separator first : String) (rest : List String) :
    (separator.intercalate (first :: rest)).toList =
      first.toList ++ rest.flatMap fun s => separator.toList ++ s.toList := by
  induction rest generalizing first with
  | nil => simp
  | cons s rest ih => simp [String.intercalate_cons_cons, ih]

theorem textReads_label {l : Located String} (named : IsLabelName l.value) :
    TextReads (Statement.label l).text.toList [(Statement.label l).bare] := by
  have text : (Statement.label l).text.toList = l.value.toList ++ [':'] := String.toList_append
  have lexed : readings (Statement.label l).text.toList =
      ([.word l.value, .colon] : List Token).map .token := by
    rw [text, named.spells _ (separated_cons rfl), readings_colon, readings_nil]
    rfl
  exact ⟨lexed, .cons (.labelled l.value (.zero 0) (.zero 0) .blank) .nil⟩

theorem textReads_instruction {i : Located SourceInstruction}
    (named : ∀ l, .target l ∈ i.value.operands → IsLabelName l.value) :
    TextReads (Statement.instruction i).text.toList [(Statement.instruction i).bare] := by
  have text : (Statement.instruction i).text.toList =
      i.value.opcode.name.toList ++ i.value.operands.flatMap fun o => ' ' :: o.text.toList := by
    rw [Statement.text, toList_intercalate, List.flatMap_map]
    rfl
  have lexed : readings (Statement.instruction i).text.toList =
      (.opcode i.value.opcode :: i.value.operands.map Operand.token : List Token).map .token := by
    rw [text, spells_opcode _ _ (separated_operands _), readings_operands named, List.map_cons,
      List.map_map]
    rfl
  have inLine : ∀ t ∈ bareTokens (.opcode i.value.opcode :: i.value.operands.map Operand.token),
      decide (t.value = .newline) = false := by
    simp [bareTokens, Operand.token_ne_newline]
  have denotes : List.Forall₂ Denotes (bareTokens (i.value.operands.map Operand.token))
      (i.value.relocate fun _ => .zero 0).operands := by
    rw [bareTokens, List.map_map, Instruction.operands_relocate, List.forall₂_map_left_iff,
      List.forall₂_map_right_iff, List.forall₂_same]
    exact fun o _ => o.denotes
  obtain ⟨last, ends⟩ := exists_last_of_denotes denotes
  have zero : ∀ t ∈ bareTokens (i.value.operands.map Operand.token), t.span = .zero 0 := by
    simp [bareTokens]
  -- From the opcode to the last operand is nowhere as well.
  have body := @BodyReads.instruction _ (.zero 0) _ _ denotes ends
  rw [zero last (List.mem_of_getLast? ends), Instruction.opcode_relocate] at body
  refine ⟨lexed, ?_⟩
  rw [segments, List.splitOnP_eq_singleton inLine]
  exact .cons (.unlabelled body) .nil

theorem textReads_line {s : Statement} (printable : s.Printable) :
    TextReads s.text.toList [s.bare] := by
  cases s with
  | label l => exact textReads_label printable
  | instruction i => exact textReads_instruction printable

end Lines

section Programs

variable {program : List Statement}

theorem textReads_programText (printable : ∀ s ∈ program, s.Printable) :
    TextReads (programText program).toList (program.map .bare) := by
  induction program with
  | nil => exact textReads_nil_iff.mpr rfl
  | cons s program ih =>
    obtain ⟨first, later⟩ := List.forall_mem_cons.mp printable
    have line := textReads_line first
    cases program with
    | nil => simpa [programText] using line
    | cons s' program =>
      have text : (programText (s :: s' :: program)).toList =
          s.text.toList ++ '\n' :: (programText (s' :: program)).toList := by
        simp [programText, String.intercalate_cons_cons]
      rw [text, textReads_append_newline_iff]
      exact ⟨_, _, line, ih later, rfl⟩

/-- A program that is written out, with or without a newline at its end, is read back. -/
theorem parse_programText {sources : SourceMap} {id : UInt16} {name ending : String}
    (printable : ∀ s ∈ program, s.Printable) (ends : ending = "" ∨ ending = "\n")
    (found : sources.get? id = some (.ofUnit ⟨name, programText program ++ ending⟩))
    (bound : (programText program ++ ending).utf8ByteSize < UInt32.size) :
    ∃ u, parse sources id = .ok (.ok u) ∧ u.statements.map bare = program.map bare := by
  refine (parse_ok_iff found bound).mpr ?_
  have reads := textReads_programText printable
  rcases ends with rfl | rfl
  · simpa using reads
  · have text : (programText program ++ "\n").toList = (programText program).toList ++ ['\n'] :=
      String.toList_append
    rw [text, textReads_append_newline_iff]
    exact ⟨_, [], reads, textReads_nil_iff.mpr rfl, (List.append_nil _).symm⟩

end Programs

def sampler : List Statement :=
  [.label ⟨"READY_1", .zero 0⟩,
    .instruction ⟨.push ⟨.literal .minValue, .zero 0⟩ ⟨0xffffffffffffffff, .zero 0⟩, .zero 0⟩,
    .instruction ⟨.arith .sub ⟨.user 0xffffffffffffffff, .zero 0⟩ ⟨.register .inputLength, .zero 0⟩,
      .zero 0⟩,
    .instruction ⟨.branch .negative ⟨.register (.stackLength 3), .zero 0⟩ ⟨"READY_1", .zero 0⟩,
      .zero 0⟩]

example : programText sampler =
    "READY_1:\nPUSH -2147483648 S18446744073709551615\n" ++
      "SUB RX18446744073709551615 RLI\nJLZ RS3 READY_1" := by
  decide +kernel

theorem sampler_read :
    ∃ u, parse (.ofUnits [⟨"main", programText sampler ++ "\n"⟩]) 0 = .ok (.ok u) ∧
      u.statements.map bare = sampler.map bare := by
  have label : IsLabelName "READY_1" := by
    have keywords : ∀ op ∈ Opcode.all, "READY_1" ≠ op.name := by decide
    refine ⟨⟨'R', ['E', 'A', 'D', 'Y', '_', '1'], ?_⟩, fun op => keywords op op.mem_all, ?_, ?_⟩
    · simp
    · decide
    · simp
  have printable : ∀ s ∈ sampler, s.Printable := by
    simp [sampler, Statement.Printable, Instruction.operands, label]
  exact parse_programText printable (.inr rfl) rfl (by decide +kernel)

end PuzzleMachine
