import PuzzleMachine.Proofs.ErrorPlaces
import PuzzleMachine.Proofs.Marks
import PuzzleMachine.Proofs.Units

set_option autoImplicit false

namespace PuzzleMachine

def Span.Before (a b : Span) : Prop := a.file < b.file ∨ a.file = b.file ∧ a.start < b.start

section Order

variable {files : List UInt16}

-- What each file has is in order if the files are and what is in one of them is.
theorem pairwise_flatten_files {α : Type} {R : α → α → Prop} {file : α → UInt16}
    {lists : List (List α)}
    (each : List.Forall₂ (fun id as => (∀ a ∈ as, file a = id) ∧ as.Pairwise R) files lists)
    (ordered : files.Pairwise (· < ·)) :
    lists.flatten.Pairwise fun a b => file a < file b ∨ file a = file b ∧ R a b := by
  refine List.pairwise_flatten.mpr ⟨fun as member => ?_, ?_⟩
  · obtain ⟨id, -, same, inside⟩ := exists_related each member
    refine inside.imp_of_mem fun here there before => .inr ⟨?_, before⟩
    exact (same _ here).trans (same _ there).symm
  · refine pairwise_of_related each ordered fun id id' as as' here there before => ?_
    intro a inside a' inside'
    rw [here.1 a inside, there.1 a' inside']
    exact .inl before

theorem before_flatten {lists : List (List Span)}
    (each : List.Forall₂ (fun file spans => (∀ s ∈ spans, s.file = file) ∧
      spans.Pairwise fun a b => a.start.toNat < b.start.toNat) files lists)
    (ordered : files.Pairwise (· < ·)) : lists.flatten.Pairwise Span.Before :=
  (pairwise_flatten_files each ordered).imp fun before =>
    before.imp_right fun ⟨same, start⟩ => ⟨same, UInt32.lt_iff_toNat_lt.mpr start⟩

end Order

section Stages

variable {units : List SourceUnit} {hw : Hardware}

theorem compile_of_outcome {result : Diagnosed ValidProgram}
    (count : units.length ≤ SourceMap.maxFiles) (reached : outcome units hw = .ok result) :
    compile units hw = .ok ⟨.ofUnits units, result⟩ := by
  obtain ⟨c, compiled, rfl⟩ := map_ok_iff.mp reached
  rw [compile, if_neg (Nat.not_lt.mpr count)] at compiled ⊢
  obtain ⟨result, files, same⟩ := bind_ok_iff.mp compiled
  cases same
  exact compiled

def SourceMap.Reads (sources : SourceMap) (id : UInt16) (result : Diagnosed ParsedUnit) : Prop :=
  ∃ unit : SourceUnit, unit.Fits ∧ sources.get? id = some (.ofUnit unit) ∧
    parse sources id = .ok result

theorem exists_reads (count : units.length ≤ SourceMap.maxFiles)
    (fits : ∀ unit ∈ units, unit.Fits) :
    ∃ results, List.Forall₂ (SourceMap.ofUnits units).Reads (SourceMap.ofUnits units).ids results := by
  refine exists_related_to_each fun id member => ?_
  obtain ⟨unit, inside, found⟩ := exists_related (located_units count).flip member
  obtain ⟨result, parsed⟩ := exists_parse found (fits unit inside)
  exact ⟨result, unit, fits unit inside, found, parsed⟩

variable {sources : SourceMap} {results : List (Diagnosed ParsedUnit)} {parsed : List ParsedUnit}
  {ds : List Diagnostic}

theorem outcome_of_failures (count : units.length ≤ SourceMap.maxFiles)
    (checked : hw.check = .ok ())
    (reads : List.Forall₂ (SourceMap.ofUnits units).Reads (SourceMap.ofUnits units).ids results)
    (some : failures results ≠ []) :
    outcome units hw = .ok (.error (failures results).flatten) := by
  have each := mapM_ok_iff.mpr (reads.imp fun _ _ ⟨_, _, _, parsed⟩ => parsed)
  have filled : ¬ (failures results).isEmpty := by simpa using some
  rw [outcome_of_checked count checked, parseAll, each, ok_bind, collect_eq, if_neg filled]
  rfl

theorem outcome_of_parsed (count : units.length ≤ SourceMap.maxFiles)
    (checked : hw.check = .ok ())
    (reads : List.Forall₂ (SourceMap.ofUnits units).Reads (SourceMap.ofUnits units).ids
      (parsed.map .ok)) :
    outcome units hw = validate hw parsed := by
  refine outcome_of_parseAll count checked (parseAll_ok_iff.mpr ?_)
  exact (List.forall₂_map_right_iff.mp reads).imp fun _ _ ⟨_, _, _, parsed⟩ => parsed

theorem failures_before (count : sources.size ≤ SourceMap.maxFiles)
    (reads : List.Forall₂ sources.Reads sources.ids results) :
    ((failures results).flatten.map Diagnostic.span).Pairwise Span.Before := by
  obtain ⟨ids, sub, failed⟩ := exists_related_failures reads
  rw [List.map_flatten]
  refine before_flatten (List.forall₂_map_right_iff.mpr ?_) ((ids_ordered count).sublist sub)
  refine failed.imp fun id ds ⟨unit, fits, found, parsed⟩ => ?_
  obtain ⟨told, -⟩ := parse_told found fits parsed
  exact ⟨List.forall_mem_map.mpr told.file,
    List.pairwise_map.mpr (told.ordered.imp UInt32.lt_iff_toNat_lt.mp)⟩

theorem marks_in_order (count : sources.size ≤ SourceMap.maxFiles)
    (reads : List.Forall₂ (fun id u => ∃ unit : SourceUnit,
      unit.text.utf8ByteSize < UInt32.size ∧ sources.get? id = some (.ofUnit unit) ∧
        parse sources id = .ok (.ok u)) sources.ids parsed) :
    ((parsed.flatMap ParsedUnit.statements).flatMap Statement.marks).Pairwise Span.Before := by
  have lists : (parsed.flatMap ParsedUnit.statements).flatMap Statement.marks =
      (parsed.map fun u => u.statements.flatMap Statement.marks).flatten := by
    rw [List.flatMap_assoc, List.flatMap_def]
  rw [lists]
  refine before_flatten (List.forall₂_map_right_iff.mpr ?_) (ids_ordered count)
  refine reads.imp fun id u ⟨unit, bound, found, parsed⟩ => ?_
  obtain ⟨places, ordered⟩ := marks_of_parse found bound parsed
  exact ⟨fun s member => (places s member).1, ordered⟩

theorem marks_before (count : sources.size ≤ SourceMap.maxFiles)
    (reads : List.Forall₂ sources.Reads sources.ids (parsed.map .ok)) :
    ((parsed.flatMap ParsedUnit.statements).flatMap Statement.marks).Pairwise Span.Before :=
  marks_in_order count ((List.forall₂_map_right_iff.mp reads).imp
    fun _ _ ⟨unit, fits, found, parsed⟩ => ⟨unit, fits.bytes, found, parsed⟩)

theorem fromSmallText_of_reads (reads : List.Forall₂ sources.Reads sources.ids (parsed.map .ok)) :
    ∀ u ∈ parsed, u.FromSmallText := by
  intro u member
  obtain ⟨id, -, unit, fits, found, read⟩ :=
    exists_related (List.forall₂_map_right_iff.mp reads) member
  have file := parse_file read
  exact ⟨_, ⟨sources, .ofUnit unit, file ▸ found, rfl, file ▸ read⟩, fits.bytes⟩

theorem files_of_reads (count : sources.size ≤ SourceMap.maxFiles)
    (reads : List.Forall₂ sources.Reads sources.ids (parsed.map .ok)) :
    (parsed.map ParsedUnit.file).Nodup := by
  have files := parseAll_ok_iff.mpr
    ((List.forall₂_map_right_iff.mp reads).imp fun _ _ ⟨_, _, _, parsed⟩ => parsed)
  rw [files_of_parseAll files]
  exact ids_nodup count

theorem compile_cases (count : units.length ≤ SourceMap.maxFiles)
    (fits : ∀ unit ∈ units, unit.Fits) (checked : hw.check = .ok ()) :
    ∃ results, List.Forall₂ (SourceMap.ofUnits units).Reads (SourceMap.ofUnits units).ids results ∧
      (failures results ≠ [] ∧
          compile units hw = .ok ⟨.ofUnits units, .error (failures results).flatten⟩ ∨
        ∃ parsed result, results = parsed.map .ok ∧ validate hw parsed = .ok result ∧
          compile units hw = .ok ⟨.ofUnits units, result⟩) := by
  obtain ⟨results, reads⟩ := exists_reads count fits
  refine ⟨results, reads, ?_⟩
  by_cases none : failures results = []
  · obtain ⟨parsed, rfl⟩ := exists_values_of_failures none
    have size := count
    rw [← size_ofUnits] at size
    obtain ⟨result, valid⟩ :=
      @exists_validate hw parsed (fromSmallText_of_reads reads) (files_of_reads size reads)
    refine .inr ⟨parsed, result, rfl, valid, compile_of_outcome count ?_⟩
    rw [outcome_of_parsed count checked reads, valid]
  · exact .inl ⟨none, compile_of_outcome count (outcome_of_failures count checked reads none)⟩

-- A refusal of which something can be computed to be true is one that is told.
theorem refused_of_any {P : List Diagnostic → Prop} [DecidablePred P]
    (any : (compile units hw).toOption.any fun c => match c.result with
      | .error ds => decide (P ds)
      | .ok _ => false) :
    ∃ c ds, compile units hw = .ok c ∧ c.result = .error ds ∧ P ds := by
  rcases compiled : compile units hw with b | c <;> rw [compiled] at any
  · cases any
  rcases failed : c.result with ds | p <;>
    simp only [Except.toOption, Option.any_some, failed, decide_eq_true_eq, Bool.false_eq_true]
      at any
  exact ⟨c, ds, rfl, failed, any⟩

theorem compile_of_parse_error {b : Breach} (count : units.length ≤ SourceMap.maxFiles)
    (checked : hw.check = .ok ()) (filled : units ≠ [])
    (first : parse (.ofUnits units) 0 = .error b) : compile units hw = .error b := by
  obtain ⟨unit, rest, rfl⟩ := List.exists_cons_of_ne_nil filled
  have ids : ∃ later, (SourceMap.ofUnits (unit :: rest)).ids = 0 :: later := by
    rw [SourceMap.ids, size_ofUnits, List.length_cons, List.range_succ_eq_map, List.map_cons]
    exact ⟨_, rfl⟩
  obtain ⟨later, ids⟩ := ids
  have stopped : outcome (unit :: rest) hw = .error b := by
    rw [outcome_of_checked count checked, parseAll, ids, List.mapM_cons, first]
    rfl
  exact map_error_iff.mp stopped

theorem compile_padded {rest : List SourceUnit} (n : Nat) (full : n + 7 = UInt32.size)
    (count : rest.length < SourceMap.maxFiles) (checked : hw.check = .ok ()) :
    compile (padded (n + 1) :: rest) hw = .error .outOfRange := by
  refine compile_of_parse_error count checked (List.cons_ne_nil _ _) (parse_padded ?_ full)
  rfl

theorem parse_second (first first' second : SourceUnit) :
    parse (.ofUnits [first, second]) 1 = parse (.ofUnits [first', second]) 1 :=
  parse_congr rfl

end Stages

/-- Compiling for a machine that there can be ends, and if it fails then with what is wrong, in the
order of files and texts. If there is anything wrong with files, it is what parsing each of them by
itself says, and otherwise what validating all of them says. -/
theorem compile_told_in_stages {units : List SourceUnit} {hw : Hardware}
    (count : units.length ≤ SourceMap.maxFiles) (fits : ∀ unit ∈ units, unit.Fits)
    (checked : hw.check = .ok ()) :
    ∃ results : List (Diagnosed ParsedUnit),
      List.Forall₂ (fun id r => parse (.ofUnits units) id = .ok r)
        (SourceMap.ofUnits units).ids results ∧
      ((∃ ds, .error ds ∈ results) ∧
          compile units hw = .ok ⟨.ofUnits units, .error (failures results).flatten⟩ ∨
        ∃ parsed result, results = parsed.map .ok ∧ validate hw parsed = .ok result ∧
          compile units hw = .ok ⟨.ofUnits units, result⟩) ∧
      (∀ ds, .error ds ∈ results →
        (∀ d ∈ ds, d.kind = .token) ∨ ∀ d ∈ ds, d.kind = .statement) ∧
      ∀ c ds, compile units hw = .ok c → c.result = .error ds →
        ds ≠ [] ∧ (ds.map Diagnostic.span).Pairwise Span.Before := by
  obtain ⟨results, reads, reached⟩ := compile_cases count fits checked
  have stages : ∀ ds, .error ds ∈ results →
      ds ≠ [] ∧ ((∀ d ∈ ds, d.kind = .token) ∨ ∀ d ∈ ds, d.kind = .statement) := by
    intro ds member
    obtain ⟨id, -, unit, fits, found, parsed⟩ := exists_related reads member
    exact ⟨parse_error_ne_nil parsed, (parse_told found fits parsed).2.2⟩
  refine ⟨results, reads.imp fun _ _ ⟨_, _, _, parsed⟩ => parsed, ?_,
    fun ds member => (stages ds member).2, fun c ds compiled failed => ?_⟩
  · refine reached.imp_left fun ⟨wrong, told⟩ => ⟨?_, told⟩
    obtain ⟨ds, member⟩ := List.exists_mem_of_ne_nil _ wrong
    exact ⟨ds, mem_failures.mp member⟩
  · rw [← size_ofUnits] at count
    rcases reached with ⟨wrong, same⟩ | ⟨parsed, result, rfl, valid, same⟩
    · cases compiled.symm.trans same
      cases failed
      -- A file with which something is wrong has something to tell.
      obtain ⟨ds, member⟩ := List.exists_mem_of_ne_nil _ wrong
      have filled := (stages ds (mem_failures.mp member)).1
      refine ⟨fun empty => filled ?_, failures_before count reads⟩
      exact List.flatten_eq_nil_iff.mp empty ds member
    · cases compiled.symm.trans same
      cases failed
      obtain ⟨filled, sub, -⟩ :=
        validate_error (fromSmallText_of_reads reads) (files_of_reads count reads) valid
      exact ⟨filled, (marks_before count reads).sublist sub⟩

def faulty : List SourceUnit := [⟨"main", "HALT\nWRITE"⟩, ⟨"second", "@ FOO"⟩]

theorem faulty_told :
    faulty.length ≤ SourceMap.maxFiles ∧ (∀ unit ∈ faulty, unit.Fits) ∧
      Hardware.default.check = .ok () ∧
      ∃ c ds, compile faulty .default = .ok c ∧ c.result = .error ds ∧
        ds.map Diagnostic.kind = [.statement, .statement, .token] ∧
        (ds.map Diagnostic.span).Pairwise Span.Before := by
  have count : faulty.length ≤ SourceMap.maxFiles := by decide
  have fits : ∀ unit ∈ faulty, unit.Fits := by decide +kernel
  have checked : Hardware.default.check = .ok () := rfl
  obtain ⟨c, ds, compiled, failed, kinds⟩ := @refused_of_any faulty .default
    (fun ds => ds.map Diagnostic.kind = [.statement, .statement, .token]) _ (by decide +kernel)
  obtain ⟨results, -, -, -, told⟩ := compile_told_in_stages count fits checked
  exact ⟨count, fits, checked, c, ds, compiled, failed, kinds, (told c ds compiled failed).2⟩

-- All that is wrong with the second unit is lost as the first one comes to an end that has no
-- column, though neither has as many bytes as 32-bit words cannot count.
theorem padded_hides_faults :
    (∀ unit ∈ [padded 4294967290, ⟨"second", "FOO"⟩], unit.text.utf8ByteSize < UInt32.size) ∧
      Hardware.default.check = .ok () ∧
      (∃ ds, parse (.ofUnits [padded 4294967290, ⟨"second", "FOO"⟩]) 1 = .ok (.error ds)) ∧
      compile [padded 4294967290, ⟨"second", "FOO"⟩] .default = .error .outOfRange := by
  refine ⟨?_, rfl, ?_, compile_padded 4294967289 (by decide) (by decide) rfl⟩
  · rw [List.forall_mem_cons, List.forall_mem_singleton, padded_size]
    decide
  · rw [parse_second _ ⟨"first", ""⟩]
    have computed : (parse (.ofUnits [⟨"first", ""⟩, ⟨"second", "FOO"⟩]) 1).toOption.any
        (!·.isOk) := by
      decide +kernel
    rcases parsed : parse (.ofUnits [⟨"first", ""⟩, ⟨"second", "FOO"⟩]) 1 with _ | ds | _ <;>
      rw [parsed] at computed
    · cases computed
    · exact ⟨ds, rfl⟩
    · cases computed

end PuzzleMachine
