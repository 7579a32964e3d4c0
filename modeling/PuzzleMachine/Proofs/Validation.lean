import Mathlib.Data.List.Nodup
import PuzzleMachine.Proofs.Parse
import PuzzleMachine.Validation

set_option autoImplicit false

namespace PuzzleMachine

open Statement

def Operand.register? : SourceOperand → Option Register
  | .dest r => some r.value
  | .value ⟨.register r, _⟩ => some r
  | _ => none

def Statement.operands (program : List Statement) : List SourceOperand :=
  (instructions program).flatMap fun i => i.value.operands

structure Hardware.Accepts (hw : Hardware) (program : List Statement) : Prop where
  opcodes : ∀ i ∈ instructions program, hw.permits i.value.opcode
  registers : ∀ o ∈ operands program, ∀ n, o.register? = some (.user n) → n < hw.registers
  stackLengths : ∀ o ∈ operands program, ∀ k, o.register? = some (.stackLength k) →
    k.toNat < hw.capacities.length
  stackIndices : ∀ s, .stack s ∈ operands program → s.value.toNat < hw.capacities.length
  destinations : ∀ r, .dest r ∈ operands program → ∃ n, r.value = .user n
  labels : (names program).Nodup
  targets : ∀ l, .target l ∈ operands program → l.value ∈ names program

inductive Place where
  -- A declaration that comes after those in `earlier`.
  | declaration (earlier : List (Located String)) (label : Located String)
  | opcode (instruction : Located SourceInstruction)
  | operand (operand : SourceOperand)

def places (earlier : List (Located String)) : List Statement → List Place
  | [] => []
  | .label l :: rest => .declaration earlier l :: places (earlier ++ [l]) rest
  | .instruction i :: rest => .opcode i :: i.value.operands.map .operand ++ places earlier rest

/-- What is wrong at a place of a program that declares the names in `declared`. -/
def Place.violation? (hw : Hardware) (declared : List String) : Place → Option Violation
  | .declaration earlier l =>
      (earlier.find? (·.value = l.value)).map fun first => .duplicateLabel l first.span
  | .opcode i =>
      if hw.permits i.value.opcode then none else some (.opcodeNotPermitted i.value.opcode i.span)
  | .operand (.dest ⟨.user n, span⟩) | .operand (.value ⟨.register (.user n), span⟩) =>
      if n < hw.registers then none
      else some (.invalidRegister ⟨.user n, span⟩ hw.registers.toNat)
  | .operand (.dest ⟨.stackLength k, span⟩) =>
      if k.toNat < hw.capacities.length then some (.readOnlyRegister ⟨.stackLength k, span⟩)
      else some (.invalidRegister ⟨.stackLength k, span⟩ hw.capacities.length)
  | .operand (.dest ⟨.inputLength, span⟩) => some (.readOnlyRegister ⟨.inputLength, span⟩)
  | .operand (.value ⟨.register (.stackLength k), span⟩) =>
      if k.toNat < hw.capacities.length then none
      else some (.invalidRegister ⟨.stackLength k, span⟩ hw.capacities.length)
  | .operand (.value _) => none
  | .operand (.stack s) =>
      if s.value.toNat < hw.capacities.length then none
      else some (.invalidStack s hw.capacities.length)
  | .operand (.target l) => if l.value ∈ declared then none else some (.undefinedLabel l)

section Operands

variable (hw : Hardware)

theorem operandViolations_eq {labels : LabelTable} {declared : List String}
    (known : ∀ name, labels.contains name ↔ name ∈ declared) (o : SourceOperand) :
    operandViolations hw labels o = ((Place.operand o).violation? hw declared).toList := by
  rcases o with ⟨_ | k | n, span⟩ | ⟨v | _ | k | n, span⟩ | s | l
  case target =>
    simp only [operandViolations, LabelTable.targetViolations, Place.violation?, known]
    split <;> rfl
  all_goals
    simp only [operandViolations, Hardware.destinationViolations, Hardware.valueViolations,
      Hardware.registerViolations, Hardware.stackViolations, Hardware.bound?, Register.user?,
      Place.violation?, UInt64.lt_iff_toNat_lt]
    repeat' split
    all_goals simp_all

theorem instructionViolations_eq {labels : LabelTable} {declared : List String}
    (known : ∀ name, labels.contains name ↔ name ∈ declared) (i : Located SourceInstruction) :
    instructionViolations hw labels i =
      (.opcode i :: i.value.operands.map .operand : List Place).filterMap
        (Place.violation? hw declared) := by
  rw [instructionViolations, List.filterMap_eq_flatMap_toList, List.flatMap_cons, List.flatMap_map]
  congr 1
  · rw [Place.violation?]
    split <;> rfl
  · exact congrArg (List.flatMap · i.value.operands) (funext (operandViolations_eq hw known))

end Operands

section Program

variable {hw : Hardware} {units : List ParsedUnit}

theorem declarationViolations_eq {declared : List String} {earlier later : List (Located String)}
    {l : Located String}
    (program : labels (units.flatMap ParsedUnit.statements) = earlier ++ l :: later)
    (distinct : ((earlier ++ l :: later).map Located.span).Nodup) :
    (LabelTable.collect units).declarationViolations l =
      ((Place.declaration earlier l).violation? hw declared).toList := by
  have found := LabelTable.declared?_span l.value 0 (units.flatMap ParsedUnit.statements)
  rw [← LabelTable.find?_collect, program, List.find?_append] at found
  rw [LabelTable.declarationViolations, Place.violation?]
  cases first? : earlier.find? (·.value = l.value) with
  | none =>
    simp only [first?, Option.none_or, List.find?_cons, decide_true, Option.map_some,
      Option.map_eq_some_iff] at found
    obtain ⟨entry, found, same⟩ := found
    simp [found, same]
  | some first =>
    simp only [first?, Option.some_or, Option.map_some, Option.map_eq_some_iff] at found
    obtain ⟨entry, found, same⟩ := found
    -- The table tells declarations apart by their spans only.
    have apart : first.span ≠ l.span := by
      rw [List.map_append, List.nodup_append] at distinct
      exact distinct.2.2 _ (List.mem_map_of_mem (List.mem_of_find?_eq_some first?)) _ (by simp)
    simp [found, same, apart]

theorem flatMap_statementViolations
    (distinct : ((labels (units.flatMap ParsedUnit.statements)).map Located.span).Nodup)
    {before rest : List Statement}
    (program : units.flatMap ParsedUnit.statements = before ++ rest) :
    rest.flatMap (statementViolations hw (.collect units)) =
      (places (labels before) rest).filterMap
        (Place.violation? hw (names (units.flatMap ParsedUnit.statements))) := by
  -- What is left of the program decides, and the labels before it are the earlier ones.
  induction rest generalizing before with
  | nil => rfl
  | cons s rest ih =>
    rw [List.flatMap_cons, @ih (before ++ [s]) (by simp [program]), labels_append]
    cases s with
    | label l =>
      have split : labels (units.flatMap ParsedUnit.statements) =
          labels before ++ l :: labels rest := by simp [program]
      rw [statementViolations, declarationViolations_eq split (split ▸ distinct)]
      simp only [places, List.filterMap_eq_flatMap_toList, List.flatMap_cons]
      rfl
    | instruction i =>
      rw [places, List.filterMap_append, statementViolations,
        instructionViolations_eq hw (fun _ => LabelTable.contains_collect)]
      simp

theorem operand_allowed_iff {declared : List String} {o : SourceOperand} :
    (Place.operand o).violation? hw declared = none ↔
      (∀ n, o.register? = some (.user n) → n < hw.registers) ∧
        (∀ k, o.register? = some (.stackLength k) → k.toNat < hw.capacities.length) ∧
        (∀ s, .stack s = o → s.value.toNat < hw.capacities.length) ∧
        (∀ r, .dest r = o → ∃ n, r.value = .user n) ∧
        ∀ l, .target l = o → l.value ∈ declared := by
  rcases o with ⟨_ | k | n, span⟩ | ⟨v | _ | k | n, span⟩ | s | l <;>
    simp [Place.violation?, Operand.register?]
  split <;> simp

theorem places_allowed_iff {declared : List String} {earlier : List (Located String)}
    {program : List Statement} :
    (∀ p ∈ places earlier program, p.violation? hw declared = none) ↔
      ((names program).Nodup ∧ ∀ name ∈ names program, name ∉ earlier.map Located.value) ∧
        (∀ i ∈ instructions program, hw.permits i.value.opcode) ∧
        ∀ o ∈ operands program, (Place.operand o).violation? hw declared = none := by
  -- Names are declared once if no declaration finds its name among the earlier ones.
  induction program generalizing earlier with
  | nil => simp [places, names, operands]
  | cons s rest ih =>
    cases s with
    | label l =>
      have first : (Place.declaration earlier l).violation? hw declared = none ↔
          l.value ∉ earlier.map Located.value := by
        simp [Place.violation?]
      rw [places, List.forall_mem_cons, ih, first]
      simp only [names, operands, labels_label, instructions_label, List.map_cons, List.map_append,
        List.nodup_cons, List.forall_mem_cons, List.mem_append, List.map_nil, List.mem_singleton]
      grind
    | instruction i =>
      have opcode : (Place.opcode i).violation? hw declared = none ↔
          hw.permits i.value.opcode := by
        simp [Place.violation?]
      rw [places, List.cons_append, List.forall_mem_cons, List.forall_mem_append, ih, opcode]
      simp only [names, operands, labels_instruction, instructions_instruction, List.forall_mem_cons,
        List.flatMap_cons, List.forall_mem_append, List.forall_mem_map]
      tauto

theorem accepts_iff {program : List Statement} :
    hw.Accepts program ↔
      ∀ p ∈ places [] program, p.violation? hw (names program) = none := by
  simp only [places_allowed_iff, operand_allowed_iff, List.map_nil, List.not_mem_nil,
    not_false_iff, implies_true, and_true]
  constructor
  · intro accepts
    refine ⟨accepts.labels, accepts.opcodes, fun o member => ⟨accepts.registers o member,
      accepts.stackLengths o member, ?_, ?_, ?_⟩⟩
    · rintro s rfl
      exact accepts.stackIndices s member
    · rintro r rfl
      exact accepts.destinations r member
    · rintro l rfl
      exact accepts.targets l member
  · rintro ⟨labels, opcodes, allowed⟩
    exact {
      opcodes, labels
      registers := fun o member => (allowed o member).1
      stackLengths := fun o member => (allowed o member).2.1
      stackIndices := fun s member => (allowed _ member).2.2.1 s rfl
      destinations := fun r member => (allowed _ member).2.2.2.1 r rfl
      targets := fun l member => (allowed _ member).2.2.2.2 l rfl }

theorem opcode_mem_places {earlier : List (Located String)} {program : List Statement}
    {i : Located SourceInstruction} (member : .opcode i ∈ places earlier program) :
    i ∈ instructions program := by
  induction program generalizing earlier with
  | nil => simp [places] at member
  | cons s rest ih =>
    cases s with
    | label l => exact ih (by simpa [places] using member)
    | instruction j =>
      simp only [places, List.cons_append, List.mem_cons, Place.opcode.injEq, List.mem_append,
        List.mem_map, reduceCtorEq, and_false, exists_false, false_or] at member
      rw [instructions_instruction, List.mem_cons]
      exact member.imp id ih

theorem diagnostic_of_violation {declared : List String} {p : Place} {v : Violation}
    (violated : p.violation? hw declared = some v)
    (fits : ∀ i, p = .opcode i →
      i.span.start.toNat + i.value.opcode.name.utf8ByteSize < UInt32.size) :
    ∃ d, v.diagnostic = .ok d := by
  cases p with
  | declaration earlier l =>
    obtain ⟨first, -, rfl⟩ := Option.map_eq_some_iff.mp violated
    exact ⟨_, rfl⟩
  | opcode i =>
    have fits := fits i rfl
    have size := UInt32.toNat_ofNat_of_lt' (n := i.value.opcode.name.utf8ByteSize) (by omega)
    simp only [Place.violation?] at violated
    split_ifs at violated
    cases violated
    simp [Violation.diagnostic, Violation.opcodeSpan, addWords, size, fits, pure, Except.pure]
  | operand o =>
    rcases o with ⟨_ | k | n, span⟩ | ⟨v | _ | k | n, span⟩ | s | l <;>
      simp only [Place.violation?] at violated <;> (try split_ifs at violated) <;>
      cases violated <;> exact ⟨_, rfl⟩

theorem label_spans_nodup (read : ∀ u ∈ units, u.FromSmallText)
    (files : (units.map ParsedUnit.file).Nodup) :
    ((labels (units.flatMap ParsedUnit.statements)).map Located.span).Nodup := by
  rw [labels, List.filterMap_flatMap, List.map_flatMap, List.nodup_flatMap]
  refine ⟨fun u member => (read u member).label_spans_nodup, ?_⟩
  refine (List.pairwise_map.mp files).imp_of_mem ?_
  intro u u' member member' apart span inside inside'
  obtain ⟨l, l_mem, rfl⟩ := List.mem_map.mp inside
  obtain ⟨l', l'_mem, same⟩ := List.mem_map.mp inside'
  have file := (read u member).label_file l_mem
  rw [← same, (read u' member').label_file l'_mem] at file
  exact apart file.symm

theorem violations_eq (read : ∀ u ∈ units, u.FromSmallText)
    (files : (units.map ParsedUnit.file).Nodup) :
    violations hw units = (places [] (units.flatMap ParsedUnit.statements)).filterMap
      (Place.violation? hw (names (units.flatMap ParsedUnit.statements))) := by
  have start : units.flatMap ParsedUnit.statements = [] ++ units.flatMap ParsedUnit.statements :=
    rfl
  exact flatMap_statementViolations (label_spans_nodup read files) start

theorem diagnostics_total (read : ∀ u ∈ units, u.FromSmallText)
    (files : (units.map ParsedUnit.file).Nodup) :
    ∀ v ∈ violations hw units, ∃ d, v.diagnostic = .ok d := by
  intro v member
  rw [violations_eq read files] at member
  obtain ⟨p, place, violated⟩ := List.mem_filterMap.mp member
  refine diagnostic_of_violation violated ?_
  rintro i rfl
  obtain ⟨u, unit, inside⟩ :=
    List.mem_flatMap.mp (mem_instructions.mp (opcode_mem_places place))
  exact (read u unit).keyword_fits inside

end Program

end PuzzleMachine
