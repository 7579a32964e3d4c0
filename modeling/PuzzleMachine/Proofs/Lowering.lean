import PuzzleMachine.Proofs.Overrun

set_option autoImplicit false

namespace PuzzleMachine

open Statement

section Lowered

variable {hw : Hardware} {units : List ParsedUnit} {p : ValidProgram}

theorem rejected_ne_nil {ds : List Diagnostic} (rejected : validate hw units = .ok (.error ds)) :
    ds ≠ [] := by
  obtain ⟨wrong, told⟩ := validate_rejected_iff.mp rejected
  rintro rfl
  cases h : violations hw units with
  | nil => exact wrong h
  | cons v vs =>
    rw [h] at told
    cases mapM_ok_iff.mp told

theorem mapM_eq_some_iff {α β : Type} {f : α → Option β} {as : List α} {bs : List β} :
    as.mapM f = some bs ↔ as.map f = bs.map some := by
  induction as generalizing bs with
  | nil => cases bs <;> simp
  | cons a as ih =>
    rw [List.mapM_cons]
    cases here : f a with
    | none => cases bs <;> simp [here]
    | some b =>
      cases bs with
      | nil => cases as.mapM f <;> simp
      | cons b' bs =>
        rw [List.map_cons, here, List.map_cons, List.cons.injEq, ← ih]
        cases as.mapM f <;> simp

/-- One instruction after the other is given its meaning, every destination and label included, and
what comes of it is code with a span for each of the instructions. -/
structure Lowers (labels : LabelTable) (statements : List Statement) (c : Code) : Prop where
  meanings : ∃ js, (instructions statements).mapM (fun i => resolve? labels i.value) = some js ∧
    Code.ofParts js.toArray ((instructions statements).map Located.span).toArray = .ok c
  instructions : c.instructions.size = statements.countP (·.instruction?.isSome)
  spans : c.spans.size = statements.countP (·.instruction?.isSome)

theorem length_instructions (statements : List Statement) :
    (instructions statements).length = statements.countP (·.instruction?.isSome) := by
  rw [instructions, List.length_filterMap_eq_countP]

theorem lowers_of_valid (valid : validate hw units = .ok (.ok p)) :
    Lowers (.collect units) (units.flatMap ParsedUnit.statements) p.code := by
  obtain ⟨-, instructions, labels⟩ := validate_ok valid
  have halt : p.code.instructions.size = p.instructions.length := p.code_haltIndex
  have size : p.code.instructions.size =
      (units.flatMap ParsedUnit.statements).countP (·.instruction?.isSome) := by
    rw [halt, instructions, length_instructions]
  refine ⟨⟨p.code.instructions.toList, ?_, ?_⟩, size, p.code_paired ▸ size⟩
  · rw [mapM_eq_some_iff, ← instructions, ← labels, p.code_instructions]
  · rw [← instructions, ← p.code_spans]
    exact if_pos p.code_paired

/-- Whatever the units and the hardware, validation ends: with a program, with something to tell, or
at a forbidden keyword whose end cannot be told. A program always becomes code. -/
theorem validate_and_lower (hw : Hardware) (units : List ParsedUnit) :
    ((∃ result, validate hw units = .ok result) ↔
        ∀ i ∈ units.flatMap ParsedUnit.instructions, ¬ hw.Overruns i) ∧
      (∀ b, validate hw units = .error b → b = .outOfRange) ∧
      (∀ ds, validate hw units = .ok (.error ds) → ds ≠ []) ∧
      ∀ p, validate hw units = .ok (.ok p) →
        Lowers (.collect units) (units.flatMap ParsedUnit.statements) p.code := by
  refine ⟨?_, fun b broken => (validate_breaks_iff.mp broken).1, fun ds => rejected_ne_nil,
    fun p => lowers_of_valid⟩
  constructor
  · intro ⟨result, told⟩ i inside overruns
    have broken := validate_breaks_iff.mpr ⟨rfl, i, inside, overruns⟩
    cases told.symm.trans broken
  · intro short
    cases told : validate hw units with
    | ok result => exact ⟨result, rfl⟩
    | error b =>
      obtain ⟨-, i, inside, overruns⟩ := validate_breaks_iff.mp told
      exact absurd overruns (short i inside)

end Lowered

def readAt (start : UInt32) : ParsedUnit where
  file := 0
  statements := [.instruction ⟨.read ⟨.user 0, ⟨0, start, start, 1, 1⟩⟩, ⟨0, start, start, 1, 1⟩⟩]

theorem readAt_untold : validate (.without .read) [readAt 4294967292] = .error .outOfRange :=
  rfl

theorem readAt_told_and_lowered :
    (∃ ds, validate (.without .read) [readAt 4294967291] = .ok (.error ds) ∧ ds ≠ []) ∧
      ∃ p, validate .default [readAt 4294967292] = .ok (.ok p) ∧
        Lowers (.collect [readAt 4294967292]) (readAt 4294967292).statements p.code := by
  have rejected : ∃ ds, validate (.without .read) [readAt 4294967291] = .ok (.error ds) := ⟨_, rfl⟩
  have accepted : ∃ p, validate .default [readAt 4294967292] = .ok (.ok p) := ⟨_, rfl⟩
  obtain ⟨ds, rejected⟩ := rejected
  obtain ⟨p, accepted⟩ := accepted
  refine ⟨⟨ds, rejected, ?_⟩, p, accepted, ?_⟩
  · exact (validate_and_lower (.without .read) [readAt 4294967291]).2.2.1 ds rejected
  · exact (validate_and_lower .default [readAt 4294967292]).2.2.2 p accepted

end PuzzleMachine
