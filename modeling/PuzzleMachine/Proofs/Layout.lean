import PuzzleMachine.Proofs.Joining
import PuzzleMachine.Proofs.Leniency
import PuzzleMachine.Proofs.LongestMatch
import PuzzleMachine.Proofs.Substance

set_option autoImplicit false

namespace PuzzleMachine

open Text

inductive Trivia : List Char → Prop where
  | nil : Trivia []
  | comment {body : List Char} (plain : '\n' ∉ body) : Trivia (';' :: body)
  | blank {c : Char} {rest : List Char} (blank : isBlank c = true) (later : Trivia rest) :
      Trivia (c :: rest)

/-- The same lines with another layout. -/
inductive Relaid : List (List Char) → List (List Char) → Prop where
  | nil : Relaid [] []
  | kept {before line behind : List Char} {lines lines' : List (List Char)}
      (blanks : ∀ c ∈ before, isBlank c = true) (trivia : Trivia behind)
      (later : Relaid lines lines') : Relaid (line :: lines) ((before ++ line ++ behind) :: lines')
  | inserted {line : List Char} {lines lines' : List (List Char)} (trivia : Trivia line)
      (later : Relaid lines lines') : Relaid lines (line :: lines')

def SourceUnit.lines (unit : SourceUnit) : List (List Char) := unit.text.toList.splitOn '\n'

section Lines

variable {c d : Char} {before line behind rest : List Char} {lines lines' : List (List Char)}

theorem significant_blanks (blanks : ∀ c ∈ before, isBlank c = true) (rest : List Char) :
    significant (before ++ rest) = significant rest := by
  induction before with
  | nil => rfl
  | cons c before ih =>
    obtain ⟨first, later⟩ := List.forall_mem_cons.mp blanks
    rw [List.cons_append, significant_blank first, ih later]

theorem significant_nil : significant [] = [] := by
  rw [significant, lexemes, List.filter_nil]

theorem significant_comment (plain : '\n' ∉ rest) : significant (';' :: rest) = [] := by
  have all : rest.takeWhile (· ≠ '\n') = rest := by
    rw [List.takeWhile_eq_self_iff]
    intro d member
    have other : d ≠ '\n' := fun same => plain (same ▸ member)
    simpa using other
  have whole : lexeme ';' (rest ++ []) = ⟨';' :: rest, .trivia⟩ := by
    rw [List.append_nil]
    exact congrArg (fun cs => (⟨';' :: cs, .trivia⟩ : Lexeme)) all
  have cut := significant_cons whole
  rwa [List.append_nil, significant_nil] at cut

theorem Trivia.significant (trivia : Trivia behind) : significant behind = [] := by
  induction trivia with
  | nil => exact significant_nil
  | comment plain => exact significant_comment plain
  | blank blank _ ih => rw [significant_blank blank, ih]

theorem Trivia.plain (trivia : Trivia behind) : '\n' ∉ behind := by
  induction trivia with
  | nil => exact List.not_mem_nil
  | comment plain => exact List.not_mem_cons_of_ne_of_not_mem (by decide) plain
  | blank blank _ ih =>
    refine List.not_mem_cons_of_ne_of_not_mem ?_ ih
    rintro rfl
    cases blank

theorem goesOn_stops (solid : isBlank c = false) (other : c ≠ ';')
    (stop : isBlank d = true ∨ d = ';') : goesOn c d = false := by
  have parts : isWordPart d = false ∧ d.isDigit = false := by
    rcases stop with blank | rfl
    · rcases isBlank_iff.mp blank with rfl | rfl | rfl <;> exact ⟨rfl, rfl⟩
    · exact ⟨rfl, rfl⟩
  rw [goesOn, solid, if_neg (by simp), if_neg other]
  split_ifs
  · exact parts.1
  · exact parts.2
  · rfl

-- A lexeme that counts ends where trivia begin.
theorem lexeme_append_trivia (solid : isBlank c = false) (other : c ≠ ';')
    (trivia : Trivia behind) (rest : List Char) : lexeme c (rest ++ behind) = lexeme c rest := by
  have taken : (rest ++ behind).takeWhile (goesOn c) = rest.takeWhile (goesOn c) := by
    cases trivia with
    | nil => rw [List.append_nil]
    | comment => exact takeWhile_stop (goesOn_stops solid other (.inr rfl)) _ _
    | blank blank => exact takeWhile_stop (goesOn_stops solid other (.inl blank)) _ _
  rw [← lexeme_takeWhile c (rest ++ behind), taken, lexeme_takeWhile]

theorem significant_append_trivia (trivia : Trivia behind) (plain : '\n' ∉ line) :
    significant (line ++ behind) = significant line := by
  -- By induction on how much there is left of the line behind a lexeme.
  induction size : line.length using Nat.strong_induction_on generalizing line with
  | _ n ih =>
    cases line with
    | nil => rw [List.nil_append, trivia.significant, significant_nil]
    | cons c rest =>
      have plain := List.not_mem_of_not_mem_cons plain
      rw [List.length_cons] at size
      by_cases blank : isBlank c = true
      · rw [List.cons_append, significant_blank blank, significant_blank blank,
          ih rest.length (by omega) plain rfl]
      by_cases comment : c = ';'
      -- What is behind a comment is a part of it.
      · have plain' : '\n' ∉ rest ++ behind := by simp [plain, trivia.plain]
        rw [comment, List.cons_append, significant_comment plain', significant_comment plain]
      · obtain ⟨taken, text, later, rfl⟩ := lexeme_text c rest
        have solid := Bool.eq_false_of_not_eq_true blank
        have whole : lexeme c (taken ++ later) =
            ⟨c :: taken, (lexeme c (taken ++ later)).reading⟩ := congrArg (Lexeme.mk · _) text
        have whole' := lexeme_append_trivia solid comment trivia (taken ++ later)
        rw [List.append_assoc] at whole'
        rw [List.cons_append, List.append_assoc, significant_cons (whole'.trans whole),
          significant_cons whole, ih later.length ?_ ?_ rfl]
        · rw [List.length_append] at size
          omega
        · exact fun member => plain (List.mem_append_right taken member)

theorem Relaid.kept_significant (blanks : ∀ c ∈ before, isBlank c = true) (trivia : Trivia behind)
    (plain : '\n' ∉ line) : significant (before ++ line ++ behind) = significant line := by
  rw [List.append_assoc, significant_blanks blanks, significant_append_trivia trivia plain]

theorem substance_congr {text text' : List Char} (same : significant text = significant text') :
    substance text = substance text' := by
  rw [substance, substance, same]

theorem substance_append_newline (a b : List Char) :
    substance (a ++ '\n' :: b) = substance a ++ substance b := by
  rw [substance, significant_append_newline, List.splitOnP_append_cons _ _ (by rfl),
    List.filter_append, substance, substance]

theorem substance_eq_flatMap (text : List Char) :
    substance text = (text.splitOn '\n').flatMap substance := by
  induction size : text.length using Nat.strong_induction_on generalizing text with
  | _ n ih =>
    by_cases broken : '\n' ∈ text
    · obtain ⟨a, b, rfl⟩ := List.append_of_mem broken
      rw [List.length_append, List.length_cons] at size
      rw [substance_append_newline, List.splitOn_append_cons_self, List.flatMap_append,
        ih a.length (by omega) a rfl, ih b.length (by omega) b rfl]
    · rw [List.splitOn_eq_singleton broken, List.flatMap_singleton]

theorem plain_of_mem_splitOn {text : List Char} (member : line ∈ text.splitOn '\n') :
    '\n' ∉ line := by
  induction size : text.length using Nat.strong_induction_on generalizing text with
  | _ n ih =>
    by_cases broken : '\n' ∈ text
    · obtain ⟨a, b, rfl⟩ := List.append_of_mem broken
      rw [List.length_append, List.length_cons] at size
      rw [List.splitOn_append_cons_self] at member
      rcases List.mem_append.mp member with here | later
      · exact ih a.length (by omega) here rfl
      · exact ih b.length (by omega) later rfl
    · rw [List.splitOn_eq_singleton broken, List.mem_singleton] at member
      rwa [member]

theorem Relaid.flatMap_substance (relaid : Relaid lines lines')
    (plain : ∀ line ∈ lines, '\n' ∉ line) :
    lines.flatMap substance = lines'.flatMap substance := by
  induction relaid with
  | nil => rfl
  | kept blanks trivia _ ih =>
    obtain ⟨first, later⟩ := List.forall_mem_cons.mp plain
    rw [List.flatMap_cons, List.flatMap_cons, ih later,
      substance_congr (kept_significant blanks trivia first)]
  | inserted trivia _ ih =>
    have blank := substance_congr (trivia.significant.trans significant_nil.symm)
    rw [List.flatMap_cons, ih plain, blank]
    simp [substance, significant_nil]

theorem Relaid.substance_eq {unit unit' : SourceUnit} (relaid : Relaid unit.lines unit'.lines) :
    substance unit.text.toList = substance unit'.text.toList := by
  rw [substance_eq_flatMap, substance_eq_flatMap]
  exact relaid.flatMap_substance fun _ => plain_of_mem_splitOn

end Lines

section Units

variable {units units' : List SourceUnit} {hw : Hardware}
  {results results' : List (Diagnosed ParsedUnit)} {parsed parsed' : List ParsedUnit}

theorem exists_alike (count : units.length ≤ SourceMap.maxFiles)
    (fits : ∀ unit ∈ units, unit.Fits) (fits' : ∀ unit ∈ units', unit.Fits)
    (same : List.Forall₂ (fun unit unit' => substance unit.text.toList =
      substance unit'.text.toList) units units') :
    ∃ results results',
      List.Forall₂ (SourceMap.ofUnits units).Reads (SourceMap.ofUnits units).ids results ∧
      List.Forall₂ (SourceMap.ofUnits units').Reads (SourceMap.ofUnits units').ids results' ∧
      List.Forall₂ ParsedAlike results results' := by
  have ids : (SourceMap.ofUnits units').ids = (SourceMap.ofUnits units).ids := by
    rw [SourceMap.ids, SourceMap.ids, size_ofUnits, size_ofUnits, same.length_eq]
  -- Both lists of results at once, as what they have to do with each other is told file by file.
  have each : ∀ id ∈ (SourceMap.ofUnits units).ids, ∃ pair : Diagnosed _ × Diagnosed _,
      (SourceMap.ofUnits units).Reads id pair.1 ∧ (SourceMap.ofUnits units').Reads id pair.2 ∧
        ParsedAlike pair.1 pair.2 := by
    intro id member
    obtain ⟨_, -, found⟩ := exists_related (located_units count).flip member
    rw [get?_ofUnits, Option.map_eq_some_iff] at found
    obtain ⟨unit, there, -⟩ := found
    obtain ⟨unit', there', same⟩ := related_getElem? same there
    have here := fits unit (List.mem_of_getElem? there)
    have here' := fits' unit' (List.mem_of_getElem? there')
    have found : (SourceMap.ofUnits units).get? id = some (.ofUnit unit) := by
      rw [get?_ofUnits, there, Option.map_some]
    have found' : (SourceMap.ofUnits units').get? id = some (.ofUnit unit') := by
      rw [get?_ofUnits, there', Option.map_some]
    obtain ⟨r, parsed⟩ := exists_parse found here
    obtain ⟨r', parsed'⟩ := exists_parse found' here'
    exact ⟨(r, r'), ⟨unit, here, found, parsed⟩, ⟨unit', here', found', parsed'⟩,
      parse_alike found found' here here' same parsed parsed'⟩
  obtain ⟨pairs, related⟩ := exists_related_to_each each
  refine ⟨pairs.map Prod.fst, pairs.map Prod.snd, ?_, ?_, ?_⟩
  · exact List.forall₂_map_right_iff.mpr (related.imp fun _ _ here => here.1)
  · rw [ids]
    exact List.forall₂_map_right_iff.mpr (related.imp fun _ _ here => here.2.1)
  · rw [List.forall₂_map_left_iff, List.forall₂_map_right_iff, List.forall₂_same]
    intro pair member
    obtain ⟨_, -, -, -, alike⟩ := exists_related related member
    exact alike

theorem failures_alike (alike : List.Forall₂ ParsedAlike results results') :
    (failures results = [] ↔ failures results' = []) ∧
      (failures results).flatten.map Diagnostic.bare =
        (failures results').flatten.map Diagnostic.bare := by
  induction alike with
  | nil => exact ⟨Iff.rfl, rfl⟩
  | cons here _ ih =>
    cases here with
    | error same => simp [same, ih.2]
    | ok => exact ih

theorem statements_alike
    (alike : List.Forall₂ ParsedAlike (parsed.map .ok) (parsed'.map .ok)) :
    (parsed.flatMap ParsedUnit.statements).map Statement.bare =
      (parsed'.flatMap ParsedUnit.statements).map Statement.bare := by
  rw [List.forall₂_map_left_iff, List.forall₂_map_right_iff] at alike
  induction alike with
  | nil => rfl
  | cons here _ ih =>
    cases here with
    | ok same =>
      rw [List.flatMap_cons, List.flatMap_cons, List.map_append, List.map_append, same, ih]

theorem outcome_alike (count : units.length ≤ SourceMap.maxFiles)
    (fits : ∀ unit ∈ units, unit.Fits) (fits' : ∀ unit ∈ units', unit.Fits)
    (checked : hw.check = .ok ())
    (same : List.Forall₂ (fun unit unit' => substance unit.text.toList =
      substance unit'.text.toList) units units') :
    (∃ p p', outcome units hw = .ok (.ok p) ∧ outcome units' hw = .ok (.ok p') ∧
        p.code.instructions = p'.code.instructions) ∨
      ∃ ds ds', outcome units hw = .ok (.error ds) ∧ outcome units' hw = .ok (.error ds') ∧
        ds.map Diagnostic.bare = ds'.map Diagnostic.bare := by
  have count' : units'.length ≤ SourceMap.maxFiles := same.length_eq ▸ count
  have size := count
  have size' := count'
  rw [← size_ofUnits] at size size'
  obtain ⟨results, results', reads, reads', alike⟩ := exists_alike count fits fits' same
  obtain ⟨failed, told⟩ := failures_alike alike
  by_cases none : failures results = []
  · obtain ⟨parsed, rfl⟩ := exists_values_of_failures none
    obtain ⟨parsed', rfl⟩ := exists_values_of_failures (failed.mp none)
    have same := statements_alike alike
    rw [outcome_of_parsed count checked reads, outcome_of_parsed count' checked reads']
    rcases @validate_alike hw _ _ (fromSmallText_of_reads reads) (files_of_reads size reads)
      (fromSmallText_of_reads reads') (files_of_reads size' reads') same with
      ⟨p, p', valid, valid'⟩ | told
    · exact .inl ⟨p, p', valid, valid', (code_eq_of_bare valid valid' same).1⟩
    · exact .inr told
  · exact .inr ⟨_, _, outcome_of_failures count checked reads none,
      outcome_of_failures count' checked reads' fun empty => none (failed.mpr empty), told⟩

end Units

/-- Units that are laid out in another way compile to the same code, or the same is wrong with them,
as long as the ends of their lines have columns. -/
theorem relaid_units_compile_alike {units units' : List SourceUnit} {hw : Hardware}
    (fits : ∀ unit ∈ units, unit.Fits) (fits' : ∀ unit ∈ units', unit.Fits)
    (relaid : List.Forall₂ (fun unit unit' => Relaid unit.lines unit'.lines) units units') :
    (∃ p p', outcome units hw = .ok (.ok p) ∧ outcome units' hw = .ok (.ok p') ∧
        p.code.instructions = p'.code.instructions) ∨
      ∃ ds ds', outcome units hw = .ok (.error ds) ∧ outcome units' hw = .ok (.error ds') ∧
        ds.map Diagnostic.bare = ds'.map Diagnostic.bare := by
  have same := relaid.imp fun unit unit' here => here.substance_eq
  by_cases count : units.length ≤ SourceMap.maxFiles
  · cases checked : hw.check with
    -- The hardware is looked at before the units are, and so is their count.
    | error e =>
      have count' : units'.length ≤ SourceMap.maxFiles := relaid.length_eq ▸ count
      exact .inr ⟨_, _, outcome_of_refused count checked, outcome_of_refused count' checked, rfl⟩
    | ok => exact outcome_alike count fits fits' checked same
  · have many := Nat.lt_of_not_le count
    have many' : SourceMap.maxFiles < units'.length := relaid.length_eq ▸ many
    refine .inr ⟨_, _, outcome_of_compile (compile_of_many many),
      outcome_of_compile (compile_of_many many'), ?_⟩
    rw [relaid.length_eq]

def cramped : List SourceUnit := [⟨"main", "L:JMP L\nWRITE 5;five"⟩]

def airy : List SourceUnit := [⟨"main", "; start\n\tL:JMP L \r\n  \n WRITE 5;five;\n"⟩]

theorem relaid_cramped :
    List.Forall₂ (fun unit unit' => Relaid unit.lines unit'.lines) cramped airy := by
  have lines : SourceUnit.lines ⟨"main", "L:JMP L\nWRITE 5;five"⟩ =
      ["L:JMP L".toList, "WRITE 5;five".toList] := by decide
  have lines' : SourceUnit.lines ⟨"main", "; start\n\tL:JMP L \r\n  \n WRITE 5;five;\n"⟩ =
      ["; start".toList, ['\t'] ++ "L:JMP L".toList ++ [' ', '\r'], [' ', ' '],
        [' '] ++ "WRITE 5;five".toList ++ [';'], []] := by decide
  have comment : Trivia "; start".toList := .comment (by decide)
  have closing : Trivia [';'] := .comment List.not_mem_nil
  have blanks {c d : Char} (first : isBlank c = true) (second : isBlank d = true) : Trivia [c, d] :=
    .blank first (.blank second .nil)
  refine .cons ?_ .nil
  rw [lines, lines']
  exact .inserted comment (.kept (by simp [isBlank]) (blanks rfl rfl) (.inserted (blanks rfl rfl)
    (.kept (by simp [isBlank]) closing (.inserted .nil .nil))))

theorem airy_as_cramped :
    (∃ p p', outcome cramped .default = .ok (.ok p) ∧ outcome airy .default = .ok (.ok p') ∧
        p.code.instructions = #[.jump 0, .write (.literal 5)] ∧
        p.code.instructions = p'.code.instructions) ∧
      ∃ ds ds', outcome cramped (.without .write) = .ok (.error ds) ∧
        outcome airy (.without .write) = .ok (.error ds') ∧
        ds.map Diagnostic.kind = [.opcodeNotPermitted] ∧
        ds.map Diagnostic.bare = ds'.map Diagnostic.bare := by
  have fits : ∀ unit ∈ cramped, unit.Fits := by decide +kernel
  have fits' : ∀ unit ∈ airy, unit.Fits := by decide +kernel
  constructor
  · obtain ⟨p, accepted, code⟩ := @accepted_of_any cramped .default
      (·.code.instructions = #[.jump 0, .write (.literal 5)]) _ (by decide +kernel)
    rcases @relaid_units_compile_alike _ _ .default fits fits' relaid_cramped with
      ⟨_, p', here, there, same⟩ | ⟨_, _, here, -⟩ <;> cases accepted.symm.trans here
    exact ⟨p, p', accepted, there, code, same⟩
  · obtain ⟨c, ds, compiled, failed, kinds⟩ := @refused_of_any cramped (.without .write)
      (fun ds => ds.map Diagnostic.kind = [.opcodeNotPermitted]) _ (by decide +kernel)
    have rejected := outcome_of_compile compiled
    rw [failed] at rejected
    rcases @relaid_units_compile_alike _ _ (.without .write) fits fits' relaid_cramped with
      ⟨_, _, here, -⟩ | ⟨_, ds', here, there, same⟩ <;> cases rejected.symm.trans here
    exact ⟨ds, ds', rejected, there, kinds, same⟩

theorem relaid_padded (n : Nat) : Relaid (padded 0).lines (padded n).lines := by
  have plain (n : Nat) : '\n' ∉ List.replicate n ' ' ++ ['W', 'R', 'I', 'T', 'E'] := by
    simp
  have lines (n : Nat) :
      (padded n).lines = [List.replicate n ' ' ++ ['W', 'R', 'I', 'T', 'E']] := by
    rw [SourceUnit.lines, padded, String.toList_ofList, List.splitOn_eq_singleton (plain n)]
  have blanks : ∀ c ∈ List.replicate n ' ', isBlank c = true := by
    intro c member
    rw [List.eq_of_mem_replicate member]
    rfl
  have moved := @Relaid.kept _ ['W', 'R', 'I', 'T', 'E'] _ _ _ blanks .nil .nil
  rw [lines, lines]
  rwa [List.append_nil] at moved

-- What is wrong with a line can be told, but not when it is moved so far that its end has no
-- column.
theorem padded_tells_less :
    (∀ unit ∈ [padded 0, padded 4294967290], unit.text.utf8ByteSize < UInt32.size) ∧
      Hardware.default.check = .ok () ∧
      Relaid (padded 0).lines (padded 4294967290).lines ∧
      (∃ ds, outcome [padded 0] .default = .ok (.error ds) ∧
        ds.map Diagnostic.kind = [.statement]) ∧
      outcome [padded 4294967290] .default = .error .outOfRange := by
  refine ⟨?_, rfl, relaid_padded _, ?_,
    map_error_iff.mpr (compile_padded 4294967289 (by decide) (by decide) rfl)⟩
  · rw [List.forall_mem_cons, List.forall_mem_singleton, padded_size, padded_size]
    decide
  · obtain ⟨c, ds, compiled, failed, kinds⟩ := @refused_of_any [padded 0] .default
      (fun ds => ds.map Diagnostic.kind = [.statement]) _ (by decide +kernel)
    have rejected := outcome_of_compile compiled
    rw [failed] at rejected
    exact ⟨ds, rejected, kinds⟩

end PuzzleMachine
