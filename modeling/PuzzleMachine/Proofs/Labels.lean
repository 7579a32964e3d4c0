import PuzzleMachine.LabelTable

set_option autoImplicit false

namespace PuzzleMachine
namespace Statement

variable (l : Located String) (i : Located SourceInstruction) (xs ys : List Statement)

def label? : Statement → Option (Located String)
  | .label l => some l
  | .instruction _ => none

def labels (statements : List Statement) : List (Located String) := statements.filterMap label?

def names (statements : List Statement) : List String := (labels statements).map Located.value

def instructions (statements : List Statement) : List (Located SourceInstruction) :=
  statements.filterMap instruction?

@[simp] theorem labels_nil : labels [] = [] := rfl
@[simp] theorem labels_label : labels (.label l :: xs) = l :: labels xs := rfl
@[simp] theorem labels_instruction : labels (.instruction i :: xs) = labels xs := rfl

@[simp] theorem labels_append : labels (xs ++ ys) = labels xs ++ labels ys :=
  List.filterMap_append

@[simp] theorem instructions_nil : instructions [] = [] := rfl
@[simp] theorem instructions_label : instructions (.label l :: xs) = instructions xs := rfl

@[simp] theorem instructions_instruction :
    instructions (.instruction i :: xs) = i :: instructions xs := rfl

@[simp] theorem instructions_append : instructions (xs ++ ys) = instructions xs ++ instructions ys :=
  List.filterMap_append

theorem mem_labels {l : Located String} {xs : List Statement} :
    l ∈ labels xs ↔ .label l ∈ xs := by
  simp only [labels, List.mem_filterMap]
  constructor
  · rintro ⟨s, member, same⟩
    cases s <;> cases same
    exact member
  · exact fun member => ⟨_, member, rfl⟩

theorem mem_instructions {i : Located SourceInstruction} {xs : List Statement} :
    i ∈ instructions xs ↔ .instruction i ∈ xs := by
  simp only [instructions, List.mem_filterMap]
  constructor
  · rintro ⟨s, member, same⟩
    cases s <;> cases same
    exact member
  · exact fun member => ⟨_, member, rfl⟩

theorem flatMap_instructions (units : List ParsedUnit) :
    units.flatMap ParsedUnit.instructions = instructions (units.flatMap ParsedUnit.statements) :=
  (List.filterMap_flatMap ..).symm

end Statement

open Statement

namespace LabelTable

theorem find?_concat (t : LabelTable) (e : LabelEntry) (name : String) :
    find? ⟨t.entries ++ [e]⟩ name =
      (t.find? name).or (if e.name = name then some e else none) := by
  by_cases same : e.name = name <;> simp [find?, List.find?_append, same]

theorem record_of_known {t : LabelTable} {e first : LabelEntry}
    (known : t.find? e.name = some first) : t.record e = (some first, t) := by
  rw [record, known]

theorem record_of_new {t : LabelTable} {e : LabelEntry} (new : t.find? e.name = none) :
    t.record e = (none, ⟨t.entries ++ [e]⟩) := by
  rw [record, new]

theorem find?_declare (t : LabelTable) (e : LabelEntry) (name : String) :
    (t.declare e).find? name = (t.find? name).or (if e.name = name then some e else none) := by
  rw [declare]
  cases known : t.find? e.name with
  | none =>
    rw [record_of_new known]
    exact find?_concat t e name
  -- An entry that is left out has a name for which the table has an answer already.
  | some first =>
    rw [record_of_known known]
    by_cases same : e.name = name
    · simp [← same, known]
    · simp [same]

theorem declare_of_known {t : LabelTable} {e : LabelEntry} (known : t.contains e.name) :
    t.declare e = t := by
  obtain ⟨first, found⟩ := Option.isSome_iff_exists.mp known
  rw [declare, record_of_known found]

theorem collectFrom_append (t : LabelTable) (next : Nat) (xs ys : List Statement) :
    t.collectFrom next (xs ++ ys) =
      (t.collectFrom next xs).collectFrom (next + (instructions xs).length) ys := by
  induction xs generalizing t next with
  | nil => rfl
  | cons s xs ih =>
    cases s with
    | label l => exact ih _ next
    | instruction i =>
      rw [instructions_instruction, List.length_cons, ← Nat.add_assoc, Nat.add_right_comm]
      exact ih t (next + 1)

def declared? (name : String) (next : Nat) : List Statement → Option LabelEntry
  | [] => none
  | .label l :: rest =>
      if l.value = name then some ⟨l.value, next, l.span⟩ else declared? name next rest
  | .instruction _ :: rest => declared? name (next + 1) rest

theorem find?_collectFrom (t : LabelTable) (next : Nat) (name : String)
    (statements : List Statement) :
    (t.collectFrom next statements).find? name =
      (t.find? name).or (declared? name next statements) := by
  induction statements generalizing t next with
  | nil => simp [collectFrom, declared?]
  | cons s rest ih =>
    cases s with
    | instruction i => exact ih t (next + 1)
    | label l =>
      rw [collectFrom, ih, find?_declare, Option.or_assoc, declared?]
      by_cases same : l.value = name <;> simp [same]

theorem find?_collect (units : List ParsedUnit) (name : String) :
    (collect units).find? name = declared? name 0 (units.flatMap ParsedUnit.statements) := by
  rw [collect, find?_collectFrom]
  simp [find?, empty]

theorem declared?_span (name : String) (next : Nat) (statements : List Statement) :
    (declared? name next statements).map LabelEntry.span =
      ((labels statements).find? (·.value = name)).map Located.span := by
  induction statements generalizing next with
  | nil => rfl
  | cons s rest ih =>
    cases s with
    | instruction i => exact ih (next + 1)
    | label l =>
      rw [declared?, labels_label, List.find?_cons]
      by_cases same : l.value = name
      · simp [same]
      · simpa [same] using ih next

theorem declared?_append (name : String) (next : Nat) (xs ys : List Statement) :
    declared? name next (xs ++ ys) =
      (declared? name next xs).or (declared? name (next + (instructions xs).length) ys) := by
  induction xs generalizing next with
  | nil => rfl
  | cons s xs ih =>
    cases s with
    | label l => by_cases same : l.value = name <;> simp [declared?, same, ih]
    | instruction i => simp [declared?, ih, Nat.add_assoc, Nat.add_comm 1]

-- A numbering that starts later leads to targets that are as much later.
theorem declared?_add (name : String) (next count : Nat) (statements : List Statement) :
    (declared? name (next + count) statements).map LabelEntry.target =
      (declared? name next statements).map fun e => e.target + count := by
  induction statements generalizing next with
  | nil => rfl
  | cons s rest ih =>
    cases s with
    | label l => by_cases same : l.value = name <;> simp [declared?, same, ih]
    | instruction i => simpa only [declared?, Nat.add_right_comm] using ih (next + 1)

theorem declared?_isSome {name : String} {next : Nat} {statements : List Statement} :
    (declared? name next statements).isSome ↔ name ∈ names statements := by
  rw [← Option.isSome_map (f := LabelEntry.span), declared?_span, Option.isSome_map,
    List.find?_isSome]
  simp [names]

theorem declared?_target_le {name : String} {next : Nat} {statements : List Statement}
    {e : LabelEntry} (declared : declared? name next statements = some e) :
    e.target ≤ next + (instructions statements).length := by
  induction statements generalizing next with
  | nil => cases declared
  | cons s rest ih =>
    cases s with
    | label l =>
      rw [declared?] at declared
      split at declared
      · cases declared
        exact Nat.le_add_right next _
      · exact ih declared
    | instruction i =>
      have := ih declared
      rw [instructions_instruction, List.length_cons]
      omega

theorem target_le_of_collect {units : List ParsedUnit} {name : String} {target : Nat}
    (known : (collect units).target? name = some target) :
    target ≤ (instructions (units.flatMap ParsedUnit.statements)).length := by
  rw [target?, find?_collect] at known
  obtain ⟨e, declared, rfl⟩ := Option.map_eq_some_iff.mp known
  simpa using declared?_target_le declared

theorem contains_collect {units : List ParsedUnit} {name : String} :
    (collect units).contains name ↔ name ∈ names (units.flatMap ParsedUnit.statements) := by
  rw [contains, find?_collect, declared?_isSome]

end LabelTable
end PuzzleMachine
