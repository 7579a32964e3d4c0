import Mathlib.Data.List.Nodup
import PuzzleMachine.Proofs.Resolve

set_option autoImplicit false

namespace PuzzleMachine

open Statement LabelTable

section Declarations

variable {units : List ParsedUnit} {l l' : Located String}

theorem contains_of_mem (member : l ∈ labels (units.flatMap ParsedUnit.statements)) :
    (LabelTable.collect units).contains l.value :=
  contains_collect.mpr (List.mem_map_of_mem member)

theorem declarationViolations_eq_nil_iff
    (member : l ∈ labels (units.flatMap ParsedUnit.statements)) :
    (LabelTable.collect units).declarationViolations l = [] ↔
      ((labels (units.flatMap ParsedUnit.statements)).find? (·.value = l.value)).map
        Located.span = some l.span := by
  obtain ⟨first, found⟩ := Option.isSome_iff_exists.mp (contains_of_mem member)
  have place := declared?_span l.value 0 (units.flatMap ParsedUnit.statements)
  rw [← find?_collect, found, Option.map_some] at place
  rw [← place, declarationViolations, found, Option.some.injEq]
  simp

theorem declaration_fine {hw : Hardware} (fine : violations hw units = [])
    (member : l ∈ labels (units.flatMap ParsedUnit.statements)) :
    (LabelTable.collect units).declarationViolations l = [] :=
  List.flatMap_eq_nil_iff.mp fine _ (mem_labels.mp member)

theorem eq_of_same_name {hw : Hardware} (fine : violations hw units = [])
    (member : l ∈ labels (units.flatMap ParsedUnit.statements))
    (member' : l' ∈ labels (units.flatMap ParsedUnit.statements)) (same : l.value = l'.value) :
    l = l' := by
  -- Both are at the place of the first declaration of their name.
  have first := (declarationViolations_eq_nil_iff member).mp (declaration_fine fine member)
  have first' := (declarationViolations_eq_nil_iff member').mp (declaration_fine fine member')
  rw [same, first', Option.some.injEq] at first
  cases l
  cases l'
  cases same
  cases first
  rfl

def again (file : UInt16) (l : Located String) : ParsedUnit := ⟨file, [.label l]⟩

theorem collect_again (member : l ∈ labels (units.flatMap ParsedUnit.statements))
    (file : UInt16) : LabelTable.collect (units ++ [again file l]) = .collect units := by
  rw [LabelTable.collect, List.flatMap_append, collectFrom_append]
  exact declare_of_known (contains_of_mem member)

theorem violations_again {hw : Hardware} (fine : violations hw units = [])
    (member : l ∈ labels (units.flatMap ParsedUnit.statements)) (file : UInt16) :
    violations hw (units ++ [again file l]) = [] := by
  rw [violations, collect_again member, List.flatMap_append, List.flatMap_append]
  have added := (List.append_nil _).trans (declaration_fine fine member)
  exact List.append_eq_nil_iff.mpr ⟨fine, added⟩

end Declarations

section Validated

variable {hw : Hardware} {units : List ParsedUnit} {p : ValidProgram} {l : Located String}

theorem validate_again (valid : validate hw units = .ok (.ok p))
    (member : l ∈ labels (units.flatMap ParsedUnit.statements)) (file : UInt16) :
    validate hw (units ++ [again file l]) = .ok (.ok p) := by
  obtain ⟨fine, instructions, table⟩ := validate_ok valid
  obtain ⟨p', valid'⟩ := exists_validate_ok_iff.mpr (violations_again fine member file)
  obtain ⟨-, instructions', table'⟩ := validate_ok valid'
  rw [collect_again member, ← table] at table'
  rw [List.flatMap_append, instructions_append, ← instructions] at instructions'
  rw [valid']
  cases p
  cases p'
  cases table'
  cases instructions'.trans (List.append_nil _)
  rfl

/-- Units are accepted only if all declarations of a name are at one place. So a name is declared
twice in them if and only if a declaration is there twice, and any of theirs can be there again. -/
theorem accepted_names_at_one_place (valid : validate hw units = .ok (.ok p)) :
    (∀ l ∈ labels (units.flatMap ParsedUnit.statements),
        ∀ l' ∈ labels (units.flatMap ParsedUnit.statements), l.value = l'.value → l = l') ∧
      ((names (units.flatMap ParsedUnit.statements)).Nodup ↔
        (labels (units.flatMap ParsedUnit.statements)).Nodup) ∧
      ∀ l ∈ labels (units.flatMap ParsedUnit.statements), ∀ file,
        validate hw (units ++ [⟨file, [.label l]⟩]) = .ok (.ok p) := by
  obtain ⟨fine, -⟩ := validate_ok valid
  have agree : ∀ l ∈ labels (units.flatMap ParsedUnit.statements),
      ∀ l' ∈ labels (units.flatMap ParsedUnit.statements), l.value = l'.value → l = l' :=
    fun _ member _ => eq_of_same_name fine member
  exact ⟨agree, ⟨List.Nodup.of_map _, List.Nodup.map_on agree⟩,
    fun _ member => validate_again valid member⟩

end Validated

def labelledWrite : ParsedUnit where
  file := 0
  statements := [
    .label ⟨"L", ⟨0, 0, 1, 1, 1⟩⟩,
    .instruction ⟨.write ⟨.literal 1, ⟨0, 9, 10, 1, 10⟩⟩, ⟨0, 3, 10, 1, 4⟩⟩]

theorem labelledWrite_declared_again :
    (names labelledWrite.statements).Nodup ∧
      ∃ p, validate .default [labelledWrite] = .ok (.ok p) ∧
        validate .default [labelledWrite, ⟨7, [.label ⟨"L", ⟨0, 0, 1, 1, 1⟩⟩]⟩] = .ok (.ok p) := by
  have fine : violations .default [labelledWrite] = [] := by decide
  obtain ⟨p, valid⟩ := exists_validate_ok_iff.mpr fine
  have ⟨_, once, repeated⟩ := accepted_names_at_one_place valid
  exact ⟨once.mpr (by decide), p, valid, repeated _ List.mem_cons_self 7⟩

-- A unit that is given twice declares its name twice, and is accepted.
theorem labelledWrite_twice_accepted :
    (∃ p, validate .default [labelledWrite, labelledWrite] = .ok (.ok p)) ∧
      ¬ (names ([labelledWrite, labelledWrite].flatMap ParsedUnit.statements)).Nodup :=
  ⟨⟨_, dif_pos (by decide)⟩, by decide⟩

end PuzzleMachine
