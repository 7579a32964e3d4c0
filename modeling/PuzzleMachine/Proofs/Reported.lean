import PuzzleMachine.Proofs.Overrun

set_option autoImplicit false

namespace PuzzleMachine

open Statement

def offered (count : Nat) (noun : String) : String :=
  "this hardware has " ++ if count = 1 then s!"1 {noun}" else s!"{count} {noun}s"

/-- What there is to tell about a place of a program that declares the names in `declared`. -/
def Place.report? (hw : Hardware) (declared : List String) : Place → Option Diagnostic
  | .declaration earlier l =>
      (earlier.find? (·.value = l.value)).map fun first => {
        kind := .duplicateLabel, span := l.span, message := s!"duplicate label {l.value}"
        notes := [⟨first.span, "first declared here"⟩] }
  | .opcode i =>
      if hw.permits i.value.opcode then none
      else some {
        kind := .opcodeNotPermitted, span := keywordSpan i
        message := s!"opcode {i.value.opcode.name} is not permitted on this hardware" }
  | .operand (.dest ⟨.user n, span⟩) | .operand (.value ⟨.register (.user n), span⟩) =>
      if n < hw.registers then none
      else some {
        kind := .invalidRegister, span, message := s!"invalid reference to register RX{n}"
        hints := [offered hw.registers.toNat "register"] }
  | .operand (.value ⟨.register (.stackLength k), span⟩) =>
      if k.toNat < hw.capacities.length then none
      else some {
        kind := .invalidRegister, span, message := s!"invalid reference to register RS{k}"
        hints := [offered hw.capacities.length "stack"] }
  | .operand (.dest ⟨.stackLength k, span⟩) =>
      -- Of a length that there is not, it goes untold that it cannot be written to.
      if k.toNat < hw.capacities.length then some {
        kind := .readOnlyRegister, span
        message := s!"cannot write to read-only register RS{k}" }
      else some {
        kind := .invalidRegister, span, message := s!"invalid reference to register RS{k}"
        hints := [offered hw.capacities.length "stack"] }
  | .operand (.dest ⟨.inputLength, span⟩) =>
      some { kind := .readOnlyRegister, span, message := "cannot write to read-only register RLI" }
  | .operand (.value _) => none
  | .operand (.stack s) =>
      if s.value.toNat < hw.capacities.length then none
      else some {
        kind := .invalidStack, span := s.span
        message := s!"invalid reference to stack S{s.value}"
        hints := [offered hw.capacities.length "stack"] }
  | .operand (.target l) =>
      if l.value ∈ declared then none
      else some {
        kind := .undefinedLabel, span := l.span, message := s!"undefined label {l.value}" }

section Reports

variable {hw : Hardware} {declared : List String} {p : Place} {v : Violation} {d : Diagnostic}

theorem availability_eq (count : Nat) (noun : String) :
    Violation.availability count noun = offered count noun := by
  unfold Violation.availability Violation.counted offered
  split <;> rfl

theorem Place.report?_of_fine (fine : p.violation? hw declared = none) :
    p.report? hw declared = none := by
  cases p with
  | declaration earlier l =>
    rw [Place.violation?, Option.map_eq_none_iff] at fine
    rw [Place.report?, fine, Option.map_none]
  | opcode i =>
    rw [Place.violation?] at fine
    split at fine <;> cases fine
    exact if_pos ‹_›
  | operand o =>
    rcases o with ⟨_ | k | n, span⟩ | ⟨v | _ | k | n, span⟩ | s | l <;>
      simp only [Place.violation?] at fine <;> (try split at fine) <;> cases fine <;>
      simp only [Place.report?, *, if_true]

theorem Place.report?_of_violation (violated : p.violation? hw declared = some v)
    (told : v.diagnostic = .ok d) : p.report? hw declared = some d := by
  cases p with
  | declaration earlier l =>
    obtain ⟨first, found, rfl⟩ := Option.map_eq_some_iff.mp violated
    cases told
    rw [Place.report?, found]
    rfl
  | opcode i =>
    have span := diagnostic_span violated told
    rw [Place.violation?] at violated
    split at violated <;> cases violated
    obtain ⟨place, -, same⟩ := bind_ok_iff.mp told
    cases same
    rw [Place.report?, if_neg ‹_›]
    obtain rfl : place = keywordSpan i := span
    rfl
  | operand o =>
    rcases o with ⟨_ | k | n, span⟩ | ⟨v | _ | k | n, span⟩ | s | l <;>
      simp only [Place.violation?] at violated <;> (try split at violated) <;>
      cases violated <;> cases told <;>
      simp only [Place.report?, *, if_true, if_false, ← availability_eq] <;> rfl

end Reports

section Program

variable {hw : Hardware} {units : List ParsedUnit} {texts : List String}

/-- Units are accepted as they have to be, and otherwise there is one diagnostic for each place
that is wrong, in the order of the places. -/
theorem validate_exact (read : List.Forall₂ ParsedUnit.ReadFrom units texts)
    (bounds : ∀ text ∈ texts, text.utf8ByteSize < UInt32.size)
    (files : (units.map ParsedUnit.file).Nodup) :
    ((∃ p, validate hw units = .ok (.ok p)) ↔
        hw.Accepts (units.flatMap ParsedUnit.statements)) ∧
      (¬ hw.Accepts (units.flatMap ParsedUnit.statements) →
        ∃ ds, validate hw units = .ok (.error ds) ∧ ds ≠ [] ∧
          ds = (places [] (units.flatMap ParsedUnit.statements)).filterMap
            (Place.report? hw (names (units.flatMap ParsedUnit.statements)))) := by
  have small : ∀ u ∈ units, u.FromSmallText := by
    intro u member
    obtain ⟨text, listed, here⟩ := exists_related read.flip member
    exact ⟨text, here, bounds text listed⟩
  have accepted : hw.Accepts (units.flatMap ParsedUnit.statements) ↔ violations hw units = [] := by
    rw [accepts_iff, violations_eq small files, List.filterMap_eq_nil_iff]
  rw [accepted, exists_validate_ok_iff]
  refine ⟨Iff.rfl, fun wrong => ?_⟩
  obtain ⟨ds, reported⟩ := exists_mapM_ok (@diagnostics_total hw _ small files)
  have told := mapM_ok_iff.mp reported
  refine ⟨ds, validate_rejected_iff.mpr ⟨wrong, reported⟩, ?_, ?_⟩
  · rintro rfl
    exact wrong (List.forall₂_nil_right_iff.mp told)
  · rw [violations_eq small files] at told
    exact (filterMap_eq_of_related told (fun _ _ _ => Place.report?_of_violation)
      fun _ => Place.report?_of_fine).symm

end Program

def repeated : ParsedUnit where
  file := 0
  statements := [
    .label ⟨"L", ⟨0, 0, 1, 1, 1⟩⟩,
    .instruction ⟨.jump ⟨"M", ⟨0, 7, 8, 1, 8⟩⟩, ⟨0, 3, 8, 1, 4⟩⟩,
    .label ⟨"L", ⟨0, 9, 10, 2, 1⟩⟩]

theorem repeated_reported :
    repeated.ReadFrom "L: JMP M\nL:" ∧ validate (.without .jump) [repeated] = .ok (.error [
      { kind := .opcodeNotPermitted, span := ⟨0, 3, 6, 1, 4⟩
        message := "opcode JMP is not permitted on this hardware" },
      { kind := .undefinedLabel, span := ⟨0, 7, 8, 1, 8⟩, message := "undefined label M" },
      { kind := .duplicateLabel, span := ⟨0, 9, 10, 2, 1⟩, message := "duplicate label L"
        notes := [⟨⟨0, 0, 1, 1, 1⟩, "first declared here"⟩] }]) := by
  have read : repeated.ReadFrom "L: JMP M\nL:" :=
    ⟨.ofUnits [⟨"main", "L: JMP M\nL:"⟩], .ofUnit ⟨"main", "L: JMP M\nL:"⟩, rfl, rfl,
      by decide +kernel⟩
  obtain ⟨ds, rejected, -, same⟩ := (@validate_exact (.without .jump) _ _ (.cons read .nil)
    (by decide) (by decide)).2 fun accepts => absurd accepts.labels (by decide)
  refine ⟨read, rejected.trans (congrArg (Except.ok ∘ Except.error) (same.trans ?_))⟩
  decide +kernel

theorem spread_unreported :
    ∃ u : ParsedUnit, u.ReadFrom (spread 4294967291 4294967292).text ∧
      ¬ (Hardware.without .write).Accepts ([u].flatMap ParsedUnit.statements) ∧
      validate (.without .write) [u] = .error .outOfRange := by
  have read : spreadOut.ReadFrom (spread 4294967291 4294967292).text :=
    ⟨.ofUnits [spread 4294967291 4294967292], .ofUnit (spread 4294967291 4294967292), rfl, rfl,
      @parse_spread 4294967290 4294967291 _ rfl rfl rfl⟩
  refine ⟨spreadOut, read, fun accepts => ?_, rfl⟩
  exact absurd (accepts.opcodes _ List.mem_cons_self) (by decide)

end PuzzleMachine
