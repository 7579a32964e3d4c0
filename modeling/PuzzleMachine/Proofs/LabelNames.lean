import Mathlib.Data.Set.Function
import Mathlib.Logic.Equiv.Basic
import PuzzleMachine.Proofs.Relocation
import PuzzleMachine.Proofs.Resolve

set_option autoImplicit false

namespace PuzzleMachine

open Statement LabelTable

section Rename

variable (f : String → String)

def Located.rename (l : Located String) : Located String := ⟨f l.value, l.span⟩

def Operand.rename (o : SourceOperand) : SourceOperand := o.map id id id (.rename f)

def Instruction.rename (i : SourceInstruction) : SourceInstruction := i.map id id id (.rename f)

def Statement.rename : Statement → Statement
  | .label l => .label (l.rename f)
  | .instruction i => .instruction ⟨i.value.rename f, i.span⟩

def ParsedUnit.rename (u : ParsedUnit) : ParsedUnit :=
  { u with statements := u.statements.map (.rename f) }

def LabelEntry.rename (e : LabelEntry) : LabelEntry := { e with name := f e.name }

def Violation.rename : Violation → Violation
  | .duplicateLabel l first => .duplicateLabel (l.rename f) first
  | .undefinedLabel l => .undefinedLabel (l.rename f)
  | v => v

theorem flatMap_rename (units : List ParsedUnit) :
    (units.map (.rename f)).flatMap ParsedUnit.statements =
      (units.flatMap ParsedUnit.statements).map (.rename f) := by
  rw [List.flatMap_map, List.map_flatMap]
  rfl

theorem instructions_rename (program : List Statement) :
    instructions (program.map (.rename f)) =
      (instructions program).map fun i => ⟨i.value.rename f, i.span⟩ := by
  induction program with
  | nil => rfl
  | cons s program ih => cases s <;> simp [Statement.rename, ih]

end Rename

def Operand.target? : SourceOperand → Option String
  | .target l => some l.value
  | _ => none

def Statement.mentioned : Statement → List String
  | .label l => [l.value]
  | .instruction i => i.value.operands.filterMap Operand.target?

def labelNames (units : List ParsedUnit) : Set String :=
  {name | ∃ s ∈ units.flatMap ParsedUnit.statements, name ∈ s.mentioned}

section Table

variable {f : String → String} {name : String}

-- The first declaration of a name is found under the new one, if no other name gets that too.
theorem declared?_rename {program : List Statement}
    (apart : ∀ l ∈ labels program, f l.value = f name → l.value = name) (next : Nat) :
    declared? (f name) next (program.map (.rename f)) =
      (declared? name next program).map (.rename f) := by
  induction program generalizing next with
  | nil => rfl
  | cons s program ih =>
    cases s with
    | instruction i => exact ih apart (next + 1)
    | label l =>
      obtain ⟨here, later⟩ := List.forall_mem_cons.mp apart
      rw [List.map_cons, Statement.rename, declared?, declared?]
      by_cases same : l.value = name
      next => simp [same, Located.rename, LabelEntry.rename]
      next => simpa [same, Located.rename, mt here same] using ih later next

def LabelTable.Renamed (f : String → String) (labels labels' : LabelTable) (name : String) : Prop :=
  labels'.find? (f name) = (labels.find? name).map (.rename f)

theorem renamed_collect {units : List ParsedUnit} (apart : Set.InjOn f (labelNames units))
    (mentioned : name ∈ labelNames units) :
    Renamed f (.collect units) (.collect (units.map (.rename f))) name := by
  rw [Renamed, find?_collect, find?_collect, flatMap_rename]
  refine declared?_rename (fun l member same => ?_) 0
  exact apart ⟨_, mem_labels.mp member, List.mem_singleton.mpr rfl⟩ mentioned same

namespace LabelTable.Renamed

variable {labels labels' : LabelTable} (renamed : Renamed f labels labels' name)

include renamed

theorem contains_eq : labels'.contains (f name) = labels.contains name := by
  rw [contains, contains, renamed, Option.isSome_map]

theorem target?_eq : labels'.target? (f name) = labels.target? name := by
  rw [target?, target?, renamed, Option.map_map]
  rfl

end LabelTable.Renamed
end Table

section Violations

variable {f : String → String} {hw : Hardware} {labels labels' : LabelTable}

theorem registerViolations_rename (r : Located Register) :
    (hw.registerViolations r).map (.rename f) = hw.registerViolations r := by
  rw [Hardware.registerViolations]
  split
  next => rfl
  next => split <;> rfl

theorem destinationViolations_rename (r : Located Register) :
    (hw.destinationViolations r).map (.rename f) = hw.destinationViolations r := by
  rw [Hardware.destinationViolations]
  split
  next => split <;> rfl
  next => exact registerViolations_rename r

theorem operandViolations_rename {o : SourceOperand}
    (renamed : ∀ name, o.target? = some name → Renamed f labels labels' name) :
    operandViolations hw labels' (o.rename f) =
      (operandViolations hw labels o).map (.rename f) := by
  cases o with
  | dest r => exact (destinationViolations_rename r).symm
  | value v =>
    obtain ⟨_ | r, span⟩ := v
    next => rfl
    next => exact (registerViolations_rename ⟨r, span⟩).symm
  | stack s =>
    change hw.stackViolations s = (hw.stackViolations s).map (.rename f)
    rw [Hardware.stackViolations]
    split <;> rfl
  | target l =>
    have known := (renamed l.value rfl).contains_eq
    change labels'.targetViolations (l.rename f) = (labels.targetViolations l).map (.rename f)
    rw [targetViolations, targetViolations, Located.rename, known]
    split <;> rfl

theorem declarationViolations_rename {l : Located String}
    (renamed : Renamed f labels labels' l.value) :
    labels'.declarationViolations (l.rename f) =
      (labels.declarationViolations l).map (.rename f) := by
  rw [declarationViolations, declarationViolations, Located.rename, renamed]
  cases labels.find? l.value with
  | none => rfl
  | some first =>
    simp only [Option.map_some, LabelEntry.rename]
    split <;> rfl

theorem statementViolations_rename {s : Statement}
    (renamed : ∀ name ∈ s.mentioned, Renamed f labels labels' name) :
    statementViolations hw labels' (s.rename f) =
      (statementViolations hw labels s).map (.rename f) := by
  cases s with
  | label l => exact declarationViolations_rename (renamed _ (List.mem_singleton.mpr rfl))
  | instruction i =>
    have operands : i.value.operands.flatMap (fun o => operandViolations hw labels' (o.rename f)) =
        i.value.operands.flatMap fun o => (operandViolations hw labels o).map (.rename f) := by
      refine List.flatMap_congr fun o member => operandViolations_rename fun name target => ?_
      exact renamed name (List.mem_filterMap.mpr ⟨o, member, target⟩)
    simp only [Statement.rename, statementViolations, instructionViolations, Instruction.rename,
      Instruction.opcode_map, Instruction.operands_map, List.flatMap_map, List.map_append,
      List.map_flatMap]
    refine congrArg₂ _ ?_ operands
    split <;> rfl

theorem violations_rename {units : List ParsedUnit} (apart : Set.InjOn f (labelNames units)) :
    violations hw (units.map (.rename f)) = (violations hw units).map (.rename f) := by
  rw [violations, violations, flatMap_rename, List.flatMap_map, List.map_flatMap]
  refine List.flatMap_congr fun s member => statementViolations_rename fun name mentioned => ?_
  exact renamed_collect apart ⟨s, member, mentioned⟩

end Violations

section Diagnostics

variable {f : String → String}

def Diagnostic.unworded (d : Diagnostic) : Diagnostic := { d with message := "" }

theorem Violation.diagnostic_rename (v : Violation) :
    (v.rename f).diagnostic.map Diagnostic.unworded = v.diagnostic.map Diagnostic.unworded := by
  cases v <;> rfl

theorem mapM_diagnostic_rename (vs : List Violation) :
    ((vs.map (.rename f)).mapM Violation.diagnostic).map (List.map Diagnostic.unworded) =
      (vs.mapM Violation.diagnostic).map (List.map Diagnostic.unworded) := by
  rw [map_mapM, map_mapM, List.mapM_map]
  exact congrArg (List.mapM · vs) (funext Violation.diagnostic_rename)

end Diagnostics

section Code

variable {f : String → String} {hw : Hardware} {units : List ParsedUnit} {p p' : ValidProgram}

theorem resolve?_rename {labels labels' : LabelTable} {i : SourceInstruction}
    (renamed : ∀ name ∈ i.operands.filterMap Operand.target?, Renamed f labels labels' name) :
    resolve? labels' (i.rename f) = resolve? labels i := by
  cases i with
  | jump l =>
    have known := (renamed l.value (by simp [Instruction.operands, Operand.target?])).target?_eq
    simp [resolve?, Instruction.rename, Instruction.map, Instruction.traverse?, Located.rename,
      known]
  | branch test v l =>
    have known := (renamed l.value (by simp [Instruction.operands, Operand.target?])).target?_eq
    simp [resolve?, Instruction.rename, Instruction.map, Instruction.traverse?, Located.rename,
      known]
  | _ => rfl

theorem code_eq_of_rename (apart : Set.InjOn f (labelNames units))
    (valid : validate hw units = .ok (.ok p))
    (valid' : validate hw (units.map (.rename f)) = .ok (.ok p')) : p'.code = p.code := by
  obtain ⟨-, instructions, labels⟩ := validate_ok valid
  obtain ⟨-, instructions', labels'⟩ := validate_ok valid'
  rw [flatMap_rename, instructions_rename, ← instructions] at instructions'
  -- A new name has the index of the old one, so instructions resolve to the same, one by one.
  have resolved : p'.code.instructions.toList.map some = p.code.instructions.toList.map some := by
    rw [p'.code_instructions, p.code_instructions, instructions', labels', labels, List.map_map]
    refine List.map_congr_left fun i member => resolve?_rename fun name target => ?_
    rw [instructions, mem_instructions] at member
    exact renamed_collect apart ⟨_, member, target⟩
  have spans : p'.code.spans.toList = p.code.spans.toList := by
    rw [p'.code_spans, p.code_spans, instructions', List.map_map]
    rfl
  have same := List.map_injective_iff.mpr (fun _ _ => Option.some.inj) resolved
  rw [show p'.code = ⟨p'.code.instructions, p'.code.spans⟩ from rfl, Array.toList_inj.mp same,
    Array.toList_inj.mp spans]

end Code

/-- Under other names, units are accepted if and only if they were, and mean the same code.
Otherwise they get the same diagnostics, which differ in their wording alone. -/
theorem label_names_only_tell_apart {f : String → String} {units : List ParsedUnit}
    (apart : Set.InjOn f (labelNames units)) (hw : Hardware) :
    ((∃ p, validate hw units = .ok (.ok p)) ↔
        ∃ p', validate hw (units.map (.rename f)) = .ok (.ok p')) ∧
      (∀ p p', validate hw units = .ok (.ok p) →
        validate hw (units.map (.rename f)) = .ok (.ok p') → p'.code = p.code) ∧
      (∀ ds, validate hw units = .ok (.error ds) →
        ∃ ds', validate hw (units.map (.rename f)) = .ok (.error ds') ∧
          ds'.map Diagnostic.unworded = ds.map Diagnostic.unworded) ∧
      ∀ b, validate hw units = .error b ↔ validate hw (units.map (.rename f)) = .error b := by
  have violated := @violations_rename f hw units apart
  have told := mapM_diagnostic_rename (f := f) (violations hw units)
  rw [← violated] at told
  refine ⟨?_, fun p p' => code_eq_of_rename apart, fun ds rejected => ?_, fun b => ?_⟩
  · rw [exists_validate_ok_iff, exists_validate_ok_iff, violated, List.map_eq_nil_iff]
  · obtain ⟨wrong, same⟩ := validate_rejected_iff.mp rejected
    rw [same] at told
    obtain ⟨ds', told', alike⟩ := map_ok_iff.mp told
    have wrong' : violations hw (units.map (.rename f)) ≠ [] := by
      rwa [violated, Ne, List.map_eq_nil_iff]
    exact ⟨ds', validate_rejected_iff.mpr ⟨wrong', told'⟩, alike⟩
  -- Without the wording both lists of diagnostics come to the same, a breach included.
  · rw [validate_error_iff, validate_error_iff, ← map_error_iff (f := List.map Diagnostic.unworded),
      ← told, map_error_iff]

def detour : List ParsedUnit :=
  [⟨0, [.instruction ⟨.jump ⟨"ONWARD", ⟨0, 4, 10, 1, 5⟩⟩, ⟨0, 0, 10, 1, 1⟩⟩,
      .label ⟨"ON", ⟨0, 11, 13, 2, 1⟩⟩]⟩,
    ⟨1, [.instruction ⟨.jump ⟨"END", ⟨1, 4, 7, 1, 5⟩⟩, ⟨1, 0, 7, 1, 1⟩⟩,
      .label ⟨"ONWARD", ⟨1, 8, 14, 2, 1⟩⟩,
      .instruction ⟨.jump ⟨"ON", ⟨1, 20, 22, 2, 13⟩⟩, ⟨1, 16, 22, 2, 9⟩⟩,
      .label ⟨"END", ⟨1, 23, 26, 3, 1⟩⟩]⟩]

theorem detour_fine : violations .default detour = [] := by decide

def exchange : Equiv.Perm String := Equiv.swap "ON" "ONWARD"

theorem detour_exchanged :
    Set.InjOn exchange (labelNames detour) ∧ detour.map (.rename exchange) ≠ detour ∧
      ∃ p p', validate .default detour = .ok (.ok p) ∧
        p.code.instructions = #[.jump 2, .jump 3, .jump 1] ∧
        validate .default (detour.map (.rename exchange)) = .ok (.ok p') ∧ p'.code = p.code := by
  have apart : Set.InjOn exchange (labelNames detour) := exchange.injective.injOn
  have ⟨accepted, code, _⟩ := label_names_only_tell_apart apart .default
  let p : ValidProgram := ⟨_, .collect detour, resolvable_of_violations_eq_nil detour_fine⟩
  have valid : validate .default detour = .ok (.ok p) := dif_pos detour_fine
  obtain ⟨p', valid'⟩ := accepted.mp ⟨p, valid⟩
  exact ⟨apart, by decide, p, p', valid, by decide, valid', code p p' valid valid'⟩

end PuzzleMachine
