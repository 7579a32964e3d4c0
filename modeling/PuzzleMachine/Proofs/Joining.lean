import PuzzleMachine.Proofs.Units

set_option autoImplicit false

namespace PuzzleMachine

open Statement

def joinedText (units : List SourceUnit) : String := "\n".intercalate (units.map SourceUnit.text)

section Text

variable {units : List SourceUnit} {program : List Statement}

theorem textReads_joinedText_iff :
    TextReads (joinedText units).toList program ↔
      ∃ parts, List.Forall₂ (fun unit part => TextReads unit.text.toList part) units parts ∧
        program = parts.flatten := by
  induction units generalizing program with
  | nil => simpa [joinedText] using textReads_nil_iff
  | cons unit units ih =>
    cases units with
    | nil => simp [joinedText, List.forall₂_cons_left_iff]
    | cons unit' units =>
      have text : (joinedText (unit :: unit' :: units)).toList =
          unit.text.toList ++ '\n' :: (joinedText (unit' :: units)).toList := by
        simp [joinedText, String.intercalate_cons_cons]
      rw [text, textReads_append_newline_iff]
      constructor
      next =>
        intro ⟨first, _, here, there, same⟩
        obtain ⟨parts, later, rfl⟩ := ih.mp there
        exact ⟨first :: parts, .cons here later, same⟩
      next =>
        intro ⟨parts, each, same⟩
        cases each with
        | cons here later => exact ⟨_, _, here, ih.mpr ⟨_, later, rfl⟩, same⟩

theorem size_le_joinedText {unit : SourceUnit} (member : unit ∈ units) :
    unit.text.utf8ByteSize ≤ (joinedText units).utf8ByteSize := by
  induction units with
  | nil => cases member
  | cons first units ih =>
    cases units with
    | nil =>
      cases List.mem_singleton.mp member
      simp [joinedText]
    | cons second units =>
      have size : (joinedText (first :: second :: units)).utf8ByteSize =
          first.text.utf8ByteSize + 1 + (joinedText (second :: units)).utf8ByteSize := by
        simp only [joinedText, List.map_cons, String.intercalate_cons_cons,
          String.utf8ByteSize_append]
        rfl
      rcases List.mem_cons.mp member with rfl | later
      · omega
      · have := ih later
        omega

end Text

section Validated

variable {hw : Hardware} {parsed parsed' : List ParsedUnit} {p p' : ValidProgram}

theorem code_eq_of_bare (valid : validate hw parsed = .ok (.ok p))
    (valid' : validate hw parsed' = .ok (.ok p'))
    (same : (parsed.flatMap ParsedUnit.statements).map bare =
      (parsed'.flatMap ParsedUnit.statements).map bare) :
    p.code.instructions = p'.code.instructions ∧
      p.instructions.map (fun i => (Statement.instruction i).bare) =
        p'.instructions.map (fun i => (Statement.instruction i).bare) := by
  constructor
  next =>
    have meaning := resolutions_relocate (fun _ => .zero 0) (parsed.flatMap ParsedUnit.statements)
    have meaning' := resolutions_relocate (fun _ => .zero 0) (parsed'.flatMap ParsedUnit.statements)
    have resolved : p.code.instructions.toList.map some = p'.code.instructions.toList.map some := by
      rw [code_resolutions valid, code_resolutions valid', ← meaning, ← meaning']
      exact congrArg resolutions same
    exact Array.toList_inj.mp (List.map_injective_iff.mpr (fun _ _ => Option.some.inj) resolved)
  next =>
    obtain ⟨-, instructions, -⟩ := validate_ok valid
    obtain ⟨-, instructions', -⟩ := validate_ok valid'
    have moved := instructions_relocate fun _ => .zero 0
    have located : ∀ program : List Statement,
        (Statement.instructions program).map (fun i => (Statement.instruction i).bare) =
          (Statement.instructions (program.map bare)).map .instruction := by
      intro program
      rw [show program.map bare = program.map (.relocate fun _ => .zero 0) from rfl, moved,
        List.map_map]
      rfl
    rw [instructions, instructions', located, located, same]

variable (read : ∀ u ∈ parsed, u.FromSmallText) (files : (parsed.map ParsedUnit.file).Nodup)
  (read' : ∀ u ∈ parsed', u.FromSmallText) (files' : (parsed'.map ParsedUnit.file).Nodup)

include read files read' files'

theorem validate_alike (same : (parsed.flatMap ParsedUnit.statements).map bare =
      (parsed'.flatMap ParsedUnit.statements).map bare) :
    (∃ p p', validate hw parsed = .ok (.ok p) ∧ validate hw parsed' = .ok (.ok p')) ∨
      ∃ ds ds', validate hw parsed = .ok (.error ds) ∧ validate hw parsed' = .ok (.error ds') ∧
        ds.map Diagnostic.bare = ds'.map Diagnostic.bare := by
  have violated : (violations hw parsed).map Violation.bare =
      (violations hw parsed').map Violation.bare := by
    have moved := programViolations_relocate (fun _ => .zero 0) hw
    rw [violations_eq read files, violations_eq read' files']
    exact (moved _).symm.trans ((congrArg (programViolations hw) same).trans (moved _))
  by_cases none : violations hw parsed = []
  next =>
    rw [none, List.map_nil, eq_comm, List.map_eq_nil_iff] at violated
    exact .inl ⟨_, _, dif_pos none, dif_pos violated⟩
  next =>
    have none' : violations hw parsed' ≠ [] := by
      intro none'
      rw [none', List.map_nil, List.map_eq_nil_iff] at violated
      exact none violated
    obtain ⟨ds, told⟩ := exists_mapM_ok (@diagnostics_total hw _ read files)
    obtain ⟨ds', told'⟩ := exists_mapM_ok (@diagnostics_total hw _ read' files')
    refine .inr ⟨ds, ds', ?_, ?_, diagnostics_bare_eq violated told told'⟩
    · rw [validate, dif_neg none, told]; rfl
    · rw [validate, dif_neg none', told']; rfl

end Validated

theorem joined_units_compile_alike {units : List SourceUnit} {name : String} {hw : Hardware}
    (count : units.length ≤ SourceMap.maxFiles)
    (bound : (joinedText units).utf8ByteSize < UInt32.size) :
    ((∃ p, outcome units hw = .ok (.ok p)) ↔
        ∃ p, outcome [⟨name, joinedText units⟩] hw = .ok (.ok p)) ∧
      (∀ p p', outcome units hw = .ok (.ok p) →
        outcome [⟨name, joinedText units⟩] hw = .ok (.ok p') →
          p.code.instructions = p'.code.instructions ∧
            p.instructions.map (fun i => (Statement.instruction i).bare) =
              p'.instructions.map (fun i => (Statement.instruction i).bare)) ∧
      ((∀ id ∈ (SourceMap.ofUnits units).ids, ∃ u, parse (.ofUnits units) id = .ok (.ok u)) →
        (¬ ∃ p, outcome units hw = .ok (.ok p)) →
          ∃ ds ds', outcome units hw = .ok (.error ds) ∧
            outcome [⟨name, joinedText units⟩] hw = .ok (.error ds') ∧
            ds.map Diagnostic.bare = ds'.map Diagnostic.bare) := by
  have bounds : ∀ unit ∈ units, unit.text.utf8ByteSize < UInt32.size := fun unit member =>
    Nat.lt_of_le_of_lt (size_le_joinedText member) bound
  have single : [(⟨name, joinedText units⟩ : SourceUnit)].length ≤ SourceMap.maxFiles := by
    rw [List.length_singleton]
    decide
  have bounds' : ∀ unit ∈ [(⟨name, joinedText units⟩ : SourceUnit)],
      unit.text.utf8ByteSize < UInt32.size := by simpa using bound
  cases checked : hw.check with
  | error e =>
    -- What is wrong with the hardware has nothing to do with the units.
    simp [outcome_of_refused count checked, outcome_of_refused single checked]
  | ok =>
    by_cases readable : ∃ parts, List.Forall₂
        (fun (unit : SourceUnit) part => TextReads unit.text.toList part) units parts
    next =>
      obtain ⟨parts, reads⟩ := readable
      have joined := textReads_joinedText_iff.mpr ⟨parts, reads, rfl⟩
      obtain ⟨parsed, files, bares, read, distinct⟩ := exists_outcome count bounds checked reads
      obtain ⟨parsed', files', bares', read', distinct'⟩ :=
        @exists_outcome [⟨name, joinedText units⟩] single bounds' hw checked [parts.flatten]
          (.cons joined .nil)
      have same : (parsed.flatMap ParsedUnit.statements).map bare =
          (parsed'.flatMap ParsedUnit.statements).map bare := by
        rw [bares, bares', List.flatten_singleton]
      rw [files, files']
      refine ⟨?_, fun p p' valid valid' => code_eq_of_bare valid valid' same, fun _ rejected => ?_⟩
      · rcases @validate_alike hw _ _ read distinct read' distinct' same with
          ⟨p, p', valid, valid'⟩ | ⟨ds, ds', told, told', -⟩
        · exact iff_of_true ⟨p, valid⟩ ⟨p', valid'⟩
        · simp [told, told']
      · rcases @validate_alike hw _ _ read distinct read' distinct' same with
          ⟨p, p', valid, -⟩ | told
        · exact absurd ⟨p, valid⟩ rejected
        · exact told
    next =>
      have fails : ¬ ∃ p, outcome units hw = .ok (.ok p) := fun ⟨p, accepted⟩ =>
        readable (reads_of_outcome_ok bounds accepted)
      have fails' : ¬ ∃ p, outcome [⟨name, joinedText units⟩] hw = .ok (.ok p) := by
        intro ⟨p, accepted⟩
        obtain ⟨parts, reads⟩ := reads_of_outcome_ok bounds' accepted
        cases reads with
        | cons joined =>
          obtain ⟨parts, reads, -⟩ := textReads_joinedText_iff.mp joined
          exact readable ⟨parts, reads⟩
      refine ⟨iff_of_false fails fails', fun p _ valid => absurd ⟨p, valid⟩ fails, fun each => ?_⟩
      obtain ⟨parsed, all⟩ := exists_related_to_each each
      have reads := (parseAll_textReads_iff count bounds).mp ⟨parsed, parseAll_ok_iff.mpr all, rfl⟩
      exact absurd ⟨_, reads⟩ readable

def halves : List SourceUnit :=
  [⟨"first", "JMP L\nL: ; here"⟩, ⟨"second", "WRITE 1\nL: JEZ 0 M"⟩]

theorem halves_reported_alike :
    ∃ ds ds', outcome halves .default = .ok (.error ds) ∧
      outcome [⟨"main", joinedText halves⟩] .default = .ok (.error ds') ∧
      ds.map Diagnostic.bare = ds'.map Diagnostic.bare := by
  have count : halves.length ≤ SourceMap.maxFiles := by decide
  have bound : (joinedText halves).utf8ByteSize < UInt32.size := by decide +kernel
  refine (@joined_units_compile_alike halves "main" .default count bound).2.2 ?_ ?_
  · have parsed : (SourceMap.ofUnits halves).ids.all fun id =>
        (parse (.ofUnits halves) id).toOption.any Except.isOk := by decide +kernel
    intro id member
    have accepted := List.all_eq_true.mp parsed id member
    rcases read : parse (.ofUnits halves) id with b | ds | u <;> rw [read] at accepted
    · cases accepted
    · cases accepted
    · exact ⟨u, rfl⟩
  · have rejected : (outcome halves .default).toOption.any Except.isOk = false := by
      decide +kernel
    intro ⟨p, accepted⟩
    rw [accepted] at rejected
    cases rejected

end PuzzleMachine
