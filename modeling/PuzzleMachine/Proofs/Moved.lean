import PuzzleMachine.Proofs.Relocation
import PuzzleMachine.Proofs.Validation

set_option autoImplicit false

namespace PuzzleMachine

open Statement LabelTable

section Statements

variable (f : Span → Span) (program : List Statement)

theorem labels_relocate :
    labels (program.map (.relocate f)) = (labels program).map (.relocate f) := by
  induction program with
  | nil => rfl
  | cons s program ih => cases s <;> simp [Statement.relocate, ih]

theorem instructions_relocate :
    instructions (program.map (.relocate f)) =
      (instructions program).map fun i => ⟨i.value.relocate f, f i.span⟩ := by
  induction program with
  | nil => rfl
  | cons s program ih => cases s <;> simp [Statement.relocate, ih]

theorem names_relocate : names (program.map (.relocate f)) = names program := by
  simp [names, labels_relocate, Function.comp_def]

theorem declared?_relocate (name : String) (next : Nat) :
    (declared? name next (program.map (.relocate f))).map LabelEntry.target =
      (declared? name next program).map LabelEntry.target := by
  induction program generalizing next with
  | nil => rfl
  | cons s program ih =>
    cases s with
    | label l => by_cases same : l.value = name <;> simp [Statement.relocate, declared?, same, ih]
    | instruction i => exact ih (next + 1)

end Statements

section Resolutions

def Instruction.resolveWith (target? : String → Option Nat) (i : SourceInstruction) :
    Option MachineInstruction :=
  i.traverse? (fun r => r.value.user?) (fun v => some v.value) (fun s => some s.value)
    fun l => target? l.value

def resolutions (program : List Statement) : List (Option MachineInstruction) :=
  (instructions program).map fun i =>
    i.value.resolveWith fun name => (declared? name 0 program).map LabelEntry.target

theorem Instruction.resolveWith_relocate (target? : String → Option Nat) (f : Span → Span)
    (i : SourceInstruction) : (i.relocate f).resolveWith target? = i.resolveWith target? := by
  cases i <;> rfl

theorem resolutions_relocate (f : Span → Span) (program : List Statement) :
    resolutions (program.map (.relocate f)) = resolutions program := by
  simp only [resolutions, instructions_relocate, declared?_relocate, List.map_map,
    Function.comp_def, Instruction.resolveWith_relocate]

end Resolutions

section Places

variable (f : Span → Span)

def Place.relocate : Place → Place
  | .declaration earlier l => .declaration (earlier.map (.relocate f)) (l.relocate f)
  | .opcode i => .opcode ⟨i.value.relocate f, f i.span⟩
  | .operand o => .operand (o.relocate f)

def Violation.relocate : Violation → Violation
  | .duplicateLabel l first => .duplicateLabel (l.relocate f) (f first)
  | .opcodeNotPermitted op span => .opcodeNotPermitted op (f span)
  | .invalidRegister r available => .invalidRegister (r.relocate f) available
  | .invalidStack s available => .invalidStack (s.relocate f) available
  | .readOnlyRegister r => .readOnlyRegister (r.relocate f)
  | .undefinedLabel l => .undefinedLabel (l.relocate f)

theorem places_relocate (earlier : List (Located String)) (program : List Statement) :
    places (earlier.map (.relocate f)) (program.map (.relocate f)) =
      (places earlier program).map (.relocate f) := by
  induction program generalizing earlier with
  | nil => rfl
  | cons s program ih =>
    cases s with
    | label l =>
      have later := ih (earlier ++ [l])
      rw [List.map_append] at later
      simpa [Statement.relocate, places, Place.relocate] using later
    | instruction i =>
      simp [Statement.relocate, places, Place.relocate, ih, Function.comp_def]

theorem Place.violation?_relocate (hw : Hardware) (declared : List String) (p : Place) :
    (p.relocate f).violation? hw declared = (p.violation? hw declared).map (.relocate f) := by
  cases p with
  | declaration earlier l =>
    simp only [relocate, violation?, List.find?_map, Function.comp_def, Located.value_relocate,
      Option.map_map]
    rfl
  | opcode i =>
    simp only [relocate, violation?, Instruction.opcode_relocate]
    split <;> rfl
  | operand o =>
    rcases o with ⟨_ | k | n, span⟩ | ⟨v | _ | k | n, span⟩ | s | l <;>
      simp only [relocate, violation?, Operand.relocate, Operand.map, Located.relocate] <;>
      (try split) <;> rfl

def programViolations (hw : Hardware) (program : List Statement) : List Violation :=
  (places [] program).filterMap (Place.violation? hw (names program))

theorem programViolations_relocate (hw : Hardware) (program : List Statement) :
    programViolations hw (program.map (.relocate f)) =
      (programViolations hw program).map (.relocate f) := by
  have moved := places_relocate f [] program
  rw [List.map_nil] at moved
  simp only [programViolations, moved, names_relocate, List.filterMap_map, List.map_filterMap,
    Function.comp_def, Place.violation?_relocate]

end Places

section Diagnostics

/-- What a diagnostic says, without the places that it is about. -/
def Diagnostic.bare (d : Diagnostic) : Diagnostic :=
  { d with span := .zero 0, notes := d.notes.map fun n => { n with span := .zero 0 } }

def Violation.bare (v : Violation) : Violation := v.relocate fun _ => .zero 0

theorem Violation.diagnostic_bare {v : Violation} {d : Diagnostic} (told : v.diagnostic = .ok d) :
    v.bare.diagnostic.map Diagnostic.bare = .ok d.bare := by
  cases v with
  | opcodeNotPermitted op span =>
    obtain ⟨place, -, same⟩ := bind_ok_iff.mp told
    cases same
    have fits : (0 : UInt32).toNat + (UInt32.ofNat op.name.utf8ByteSize).toNat < UInt32.size := by
      rw [UInt32.toNat_zero, Nat.zero_add]
      exact UInt32.toNat_lt_size _
    simp only [bare, relocate, diagnostic, opcodeSpan, Span.zero, addWords, if_pos fits]
    rfl
  | _ =>
    cases told
    rfl

-- Diagnostics of the same violations at other places say the same.
theorem diagnostics_bare_eq {vs vs' : List Violation} {ds ds' : List Diagnostic}
    (same : vs.map Violation.bare = vs'.map Violation.bare)
    (told : vs.mapM Violation.diagnostic = .ok ds)
    (told' : vs'.mapM Violation.diagnostic = .ok ds') :
    ds.map Diagnostic.bare = ds'.map Diagnostic.bare := by
  have bare {vs : List Violation} {ds : List Diagnostic}
      (told : vs.mapM Violation.diagnostic = .ok ds) :
      (vs.map Violation.bare).mapM (fun v => v.diagnostic.map Diagnostic.bare) =
        .ok (ds.map Diagnostic.bare) := by
    rw [mapM_ok_iff, List.forall₂_map_left_iff, List.forall₂_map_right_iff]
    exact (mapM_ok_iff.mp told).imp fun _ _ => Violation.diagnostic_bare
  have first := bare told
  rw [same, bare told'] at first
  exact (Except.ok.inj first).symm

end Diagnostics

end PuzzleMachine
