import PuzzleMachine.Proofs.Moved
import PuzzleMachine.Proofs.Resolve
import PuzzleMachine.Proofs.TextReads

set_option autoImplicit false

namespace PuzzleMachine

open Statement

def parseAll (sources : SourceMap) : Checked (Diagnosed (List ParsedUnit)) := do
  let results ← sources.ids.mapM (parse sources)
  return (collect results).mapError List.flatten

section Files

variable {sources : SourceMap} {id : UInt16}

theorem scan_error_ne_nil {ds : List Diagnostic} (scanned : scan sources id = .ok (.error ds)) :
    ds ≠ [] := by
  rw [scan] at scanned
  split at scanned
  next =>
    cases scanned
    simp
  next =>
    obtain ⟨results, -, same⟩ := bind_ok_iff.mp scanned
    exact (collect_error (Except.ok.inj same)).2

theorem parse_error_ne_nil {ds : List Diagnostic} (parsed : parse sources id = .ok (.error ds)) :
    ds ≠ [] := by
  rcases parse_error parsed with scanned | ⟨tokens, results, -, -, some, rfl⟩
  · exact scan_error_ne_nil scanned
  · simpa using some

-- A file with which something is wrong would be lost if nothing came with it.
theorem collect_flatten {results : List (Diagnosed ParsedUnit)}
    (some : ∀ ds, .error ds ∈ results → ds ≠ []) :
    (collect results).mapError List.flatten =
      if (failures results).flatten.isEmpty then .ok (results.filterMap Except.toOption)
      else .error (failures results).flatten := by
  have filled : ∀ ds ∈ failures results, ds ≠ [] :=
    fun ds member => some ds (mem_failures.mp member)
  rw [collect_eq]
  cases wrong : failures results with
  | nil => rfl
  | cons ds rest =>
    obtain ⟨d, ds, rfl⟩ := List.exists_cons_of_ne_nil (filled ds (wrong ▸ List.mem_cons_self))
    rfl

theorem readFile_eq (units : Array ParsedUnit) (ds : Array Diagnostic) :
    readFile sources units ds id = (parse sources id).map fun
      | .error wrong => (units, ds ++ wrong)
      | .ok unit => (units.push unit, ds) := by
  rw [readFile, parse]
  rcases scan sources id with _ | _ | tokens
  · rfl
  · rfl
  · simp only [ok_bind]
    rcases parseTokens tokens id with _ | _ | unit <;> rfl

theorem foldlM_readFile (ids : List UInt16) (units : Array ParsedUnit) (ds : Array Diagnostic) :
    ids.foldlM (fun (units, ds) id => readFile sources units ds id) (units, ds) =
      (ids.mapM (parse sources)).map fun results =>
        (units ++ (results.filterMap Except.toOption).toArray, ds ++ (failures results).flatten) := by
  induction ids generalizing units ds with
  | nil => simp [Except.map, pure, Except.pure]
  | cons id ids ih =>
    rw [List.foldlM_cons, List.mapM_cons]
    dsimp only
    rw [readFile_eq]
    rcases parse sources id with _ | _ | unit
    · rfl
    all_goals
      simp only [Except.map, ok_bind, ih]
      cases ids.mapM (parse sources) <;>
        simp [pure, Except.pure, List.filterMap_cons, Except.toOption, ← Array.toList_inj]

theorem readFiles_eq (sources : SourceMap) :
    (readFiles sources).map (fun (units, ds) =>
      if ds.isEmpty then .ok units.toList else .error ds.toList) = parseAll sources := by
  rw [readFiles, foldlM_readFile, parseAll]
  cases all : sources.ids.mapM (parse sources) with
  | error => rfl
  | ok results =>
    have each := mapM_ok_iff.mp all
    have some : ∀ ds, .error ds ∈ results → ds ≠ [] := by
      intro ds member
      obtain ⟨id, -, parsed⟩ := exists_related each member
      exact parse_error_ne_nil parsed
    simp [Except.map, collect_flatten some, pure, Except.pure]

end Files

def outcome (units : List SourceUnit) (hw : Hardware) : Checked (Diagnosed ValidProgram) :=
  (compile units hw).map Compilation.result

section Outcome

variable {units : List SourceUnit} {hw : Hardware} {parsed : List ParsedUnit} {p : ValidProgram}

theorem parseAll_ok_iff {sources : SourceMap} :
    parseAll sources = .ok (.ok parsed) ↔
      List.Forall₂ (fun id u => parse sources id = .ok (.ok u)) sources.ids parsed := by
  rw [parseAll, bind_ok_iff]
  constructor
  next =>
    intro ⟨results, each, same⟩
    have collected : collect results = .ok parsed := by
      cases all : collect results with
      | error => rw [all] at same; cases same
      | ok => rw [all] at same; cases same; rfl
    rw [collect_ok collected, mapM_ok_iff, List.forall₂_map_right_iff] at each
    exact each
  next =>
    intro each
    refine ⟨parsed.map .ok, mapM_ok_iff.mpr (List.forall₂_map_right_iff.mpr each), ?_⟩
    rw [collect_map_ok]
    rfl

theorem outcome_of_refused {e : LimitError} (count : units.length ≤ SourceMap.maxFiles)
    (refused : hw.check = .error e) : outcome units hw = .ok (.error [e.diagnostic]) := by
  simp only [outcome, compile, compileFiles, Nat.not_lt.mpr count, refused, if_false]
  rfl

theorem outcome_of_checked (count : units.length ≤ SourceMap.maxFiles)
    (checked : hw.check = .ok ()) :
    outcome units hw = parseAll (.ofUnits units) >>= fun
      | .error ds => .ok (.error ds)
      | .ok parsed => validate hw parsed := by
  simp only [outcome, compile, compileFiles, Nat.not_lt.mpr count, checked, if_false, ← readFiles_eq]
  rcases readFiles (.ofUnits units) with b | ⟨parsed, ds⟩
  · rfl
  · by_cases none : ds.isEmpty
    · simp only [ok_bind, Except.map, none, if_true]
      cases validate hw parsed.toList <;> rfl
    · simp only [ok_bind, Except.map, none]
      rfl

theorem outcome_of_parseAll (count : units.length ≤ SourceMap.maxFiles)
    (checked : hw.check = .ok ()) (all : parseAll (.ofUnits units) = .ok (.ok parsed)) :
    outcome units hw = validate hw parsed := by
  rw [outcome_of_checked count checked, all, ok_bind]

theorem outcome_ok (accepted : outcome units hw = .ok (.ok p)) :
    units.length ≤ SourceMap.maxFiles ∧ hw.check = .ok () ∧
      ∃ parsed, parseAll (.ofUnits units) = .ok (.ok parsed) ∧
        validate hw parsed = .ok (.ok p) := by
  by_cases count : units.length ≤ SourceMap.maxFiles
  next =>
    cases checked : hw.check with
    | error e =>
      rw [outcome_of_refused count checked] at accepted
      cases accepted
    | ok =>
      rw [outcome_of_checked count checked, bind_ok_iff] at accepted
      obtain ⟨ds | parsed, all, valid⟩ := accepted
      · cases valid
      · exact ⟨count, rfl, parsed, all, valid⟩
  next =>
    simp only [outcome, compile, Nat.lt_of_not_le count, if_true] at accepted
    cases accepted

-- A program of which something can be computed to be true is one that is compiled.
theorem accepted_of_any {P : ValidProgram → Prop} [DecidablePred P]
    (any : (outcome units hw).toOption.any fun r => r.toOption.any fun p => decide (P p)) :
    ∃ p, outcome units hw = .ok (.ok p) ∧ P p := by
  rcases compiled : outcome units hw with b | ds | p <;> rw [compiled] at any
  · cases any
  · cases any
  · exact ⟨p, rfl, of_decide_eq_true any⟩

end Outcome

section Files

variable {units : List SourceUnit} {parsed : List ParsedUnit} {sources : SourceMap} {id : UInt16}

theorem parse_file {u : ParsedUnit} (read : parse sources id = .ok (.ok u)) : u.file = id := by
  obtain ⟨tokens, -, parsed⟩ := parse_ok read
  obtain ⟨results, -, same⟩ := bind_ok_iff.mp parsed
  obtain ⟨parts, -, rfl⟩ := map_ok_iff.mp (Except.ok.inj same)
  rfl

theorem files_of_parseAll (all : parseAll sources = .ok (.ok parsed)) :
    parsed.map ParsedUnit.file = sources.ids := by
  have files := (parseAll_ok_iff.mp all).imp fun id u read => (parse_file read).symm
  rw [← List.forall₂_map_right_iff, List.forall₂_eq_eq_eq] at files
  exact files.symm

theorem word_of_index {i n : Nat} (count : n ≤ SourceMap.maxFiles) (inside : i < n) :
    (UInt16.ofNat i).toNat = i := by
  refine UInt16.toNat_ofNat_of_lt' ?_
  have : SourceMap.maxFiles < UInt16.size := by decide
  omega

theorem ids_ordered (count : sources.size ≤ SourceMap.maxFiles) :
    sources.ids.Pairwise (· < ·) := by
  refine List.pairwise_map.mpr (List.pairwise_lt_range.imp_of_mem ?_)
  intro i j inside inside' before
  rwa [UInt16.lt_iff_toNat_lt, word_of_index count (List.mem_range.mp inside),
    word_of_index count (List.mem_range.mp inside')]

theorem ids_nodup (count : sources.size ≤ SourceMap.maxFiles) : sources.ids.Nodup :=
  (ids_ordered count).imp UInt16.ne_of_lt

theorem get?_ofUnits (units : List SourceUnit) (id : UInt16) :
    (SourceMap.ofUnits units).get? id = units[id.toNat]?.map .ofUnit := by
  simp [SourceMap.get?, SourceMap.ofUnits]

theorem size_ofUnits (units : List SourceUnit) : (SourceMap.ofUnits units).size = units.length := by
  simp [SourceMap.size, SourceMap.ofUnits]

theorem located_units (count : units.length ≤ SourceMap.maxFiles) :
    List.Forall₂ (fun id unit => (SourceMap.ofUnits units).get? id = some (.ofUnit unit))
      (SourceMap.ofUnits units).ids units := by
  refine List.forall₂_iff_get.mpr ⟨by simp [SourceMap.ids, SourceMap.size, SourceMap.ofUnits], ?_⟩
  intro i _ inside
  have word := word_of_index count inside
  simp [SourceMap.ids, SourceMap.get?, SourceMap.ofUnits, word, inside]

theorem exists_unit_of_parseAll (count : units.length ≤ SourceMap.maxFiles)
    (all : parseAll (.ofUnits units) = .ok (.ok parsed)) : ∀ u ∈ parsed, ∃ unit ∈ units,
      (SourceMap.ofUnits units).get? u.file = some (.ofUnit unit) ∧
        parse (.ofUnits units) u.file = .ok (.ok u) := by
  intro u member
  obtain ⟨id, id_mem, read⟩ := exists_related (parseAll_ok_iff.mp all) member
  obtain ⟨unit, unit_mem, found⟩ := exists_related (located_units count).flip id_mem
  have file := parse_file read
  exact ⟨unit, unit_mem, file ▸ found, file ▸ read⟩

theorem fromSmallText_of_parseAll (count : units.length ≤ SourceMap.maxFiles)
    (bounds : ∀ unit ∈ units, unit.text.utf8ByteSize < UInt32.size)
    (all : parseAll (.ofUnits units) = .ok (.ok parsed)) : ∀ u ∈ parsed, u.FromSmallText := by
  intro u member
  obtain ⟨unit, listed, found, read⟩ := exists_unit_of_parseAll count all u member
  exact ⟨_, ⟨_, _, found, rfl, read⟩, bounds unit listed⟩

theorem parseAll_textReads_iff (count : units.length ≤ SourceMap.maxFiles)
    (bounds : ∀ unit ∈ units, unit.text.utf8ByteSize < UInt32.size)
    {parts : List (List Statement)} :
    (∃ parsed, parseAll (.ofUnits units) = .ok (.ok parsed) ∧
        parsed.map (fun u => u.statements.map bare) = parts) ↔
      List.Forall₂ (fun unit part => TextReads unit.text.toList part) units parts := by
  simp only [parseAll_ok_iff]
  refine exists_map_iff (located_units count) fun unit member id part found => ?_
  exact parse_ok_iff found (bounds unit member)

theorem flatMap_bare {parts : List (List Statement)}
    (bares : parsed.map (fun u => u.statements.map bare) = parts) :
    (parsed.flatMap ParsedUnit.statements).map bare = parts.flatten := by
  rw [← bares, List.map_flatMap, List.flatMap_def]

theorem exists_outcome (count : units.length ≤ SourceMap.maxFiles)
    (bounds : ∀ unit ∈ units, unit.text.utf8ByteSize < UInt32.size) {hw : Hardware}
    (checked : hw.check = .ok ()) {parts : List (List Statement)}
    (reads : List.Forall₂ (fun unit part => TextReads unit.text.toList part) units parts) :
    ∃ parsed, outcome units hw = validate hw parsed ∧
      (parsed.flatMap ParsedUnit.statements).map bare = parts.flatten ∧
        (∀ u ∈ parsed, u.FromSmallText) ∧ (parsed.map ParsedUnit.file).Nodup := by
  obtain ⟨parsed, all, bares⟩ := (parseAll_textReads_iff count bounds).mpr reads
  refine ⟨parsed, outcome_of_parseAll count checked all, flatMap_bare bares,
    fromSmallText_of_parseAll count bounds all, ?_⟩
  rw [files_of_parseAll all]
  exact ids_nodup (by rwa [size_ofUnits])

theorem reads_of_outcome_ok (bounds : ∀ unit ∈ units, unit.text.utf8ByteSize < UInt32.size)
    {hw : Hardware} {p : ValidProgram} (accepted : outcome units hw = .ok (.ok p)) :
    ∃ parts, List.Forall₂ (fun unit part => TextReads unit.text.toList part) units parts := by
  obtain ⟨count, -, parsed, all, -⟩ := outcome_ok accepted
  exact ⟨_, (parseAll_textReads_iff count bounds).mp ⟨parsed, all, rfl⟩⟩

end Files

theorem code_resolutions {hw : Hardware} {parsed : List ParsedUnit} {p : ValidProgram}
    (valid : validate hw parsed = .ok (.ok p)) :
    p.code.instructions.toList.map some =
      resolutions (parsed.flatMap ParsedUnit.statements) := by
  obtain ⟨-, instructions, labels⟩ := validate_ok valid
  have known : (LabelTable.collect parsed).target? = fun name => _ :=
    funext fun name =>
      congrArg (Option.map LabelEntry.target) (LabelTable.find?_collect parsed name)
  rw [p.code_instructions, instructions, labels, resolutions, ← known]
  rfl

end PuzzleMachine
