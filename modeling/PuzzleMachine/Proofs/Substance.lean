import PuzzleMachine.Proofs.ErrorPlaces
import PuzzleMachine.Proofs.LineFaults
import PuzzleMachine.Proofs.Moved
import PuzzleMachine.Proofs.TextReads

set_option autoImplicit false

namespace PuzzleMachine

def Lexeme.isNewline (l : Lexeme) : Bool := l.reading = .token .newline

/-- The lines of a text, without trivia and only if there is anything else. -/
def substance (text : List Char) : List (List Lexeme) :=
  ((significant text).splitOnP Lexeme.isNewline).filter (· ≠ [])

def Lexeme.bareToken? (l : Lexeme) : Option (Located Token) :=
  match l.reading with
  | .token t => some ⟨t, .zero 0⟩
  | .trivia | .invalid => none

def Lexeme.fault? (l : Lexeme) : Option Diagnostic :=
  match l.reading with
  | .invalid => some { kind := .token, span := .zero 0, message := invalidMessage l.text }
  | .trivia | .token _ => none

def lineTokens (ls : List Lexeme) : List (Located Token) := ls.filterMap Lexeme.bareToken?

def faults (lines : List (List Lexeme)) : List Diagnostic := lines.flatten.filterMap Lexeme.fault?

def misreadings (lines : List (List Lexeme)) : List Diagnostic :=
  lines.filterMap fun ls => (lineFault? (.zero 0) (lineTokens ls)).map fun e => e.diagnostic.bare

-- What there is to say of lines. They are read only if each lexeme is a token.
def complaints (lines : List (List Lexeme)) : List Diagnostic :=
  if faults lines = [] then misreadings lines else faults lines

section Lines

variable {text : List Char} {ls : List Lexeme} {ts : List Token} {program : List Statement}

theorem flatten_splitOnP {α : Type} (p : α → Bool) (xs : List α) :
    (xs.splitOnP p).flatten = xs.filter (!p ·) := by
  induction xs with
  | nil => simp
  | cons x xs ih =>
    rw [List.splitOnP_cons_eq_if_modifyHead]
    obtain ⟨first, later, split⟩ := List.exists_cons_of_ne_nil (List.splitOnP_ne_nil p xs)
    rw [split] at ih ⊢
    cases stop : p x <;> simpa [stop] using ih

theorem faults_substance (text : List Char) :
    faults (substance text) = (significant text).filterMap Lexeme.fault? := by
  rw [faults, substance, List.flatten_filter_ne_nil, flatten_splitOnP, List.filterMap_filter]
  -- Splitting at newlines loses these, but nothing is wrong with them.
  refine List.filterMap_congr fun l _ => ?_
  split
  next => rfl
  next newline =>
    have read : l.reading = .token .newline := by simpa [Lexeme.isNewline] using newline
    rw [Lexeme.fault?, read]

theorem fault?_eq_none_iff {l : Lexeme} : l.fault? = none ↔ l.reading ≠ .invalid := by
  rw [Lexeme.fault?]
  cases l.reading <;> simp

theorem faults_eq_nil_iff :
    faults (substance text) = [] ↔ ∃ ts : List Token, readings text = ts.map .token := by
  rw [faults_substance, readings_eq, List.filterMap_eq_nil_iff]
  constructor
  · intro valid
    have each : ∀ l ∈ significant text, ∃ t, l.reading = .token t := by
      intro l member
      have valid := fault?_eq_none_iff.mp (valid l member)
      have kept := List.of_mem_filter member
      cases read : l.reading with
      | trivia => simp [read, Reading.isTrivia] at kept
      | token t => exact ⟨t, rfl⟩
      | invalid => exact absurd read valid
    obtain ⟨ts, related⟩ := exists_related_to_each each
    exact ⟨ts, by rwa [← List.forall₂_eq_eq_eq, List.forall₂_map_left_iff,
      List.forall₂_map_right_iff]⟩
  · rintro ⟨ts, lexed⟩ l member
    have read := List.mem_map_of_mem (f := Lexeme.reading) member
    rw [lexed] at read
    obtain ⟨t, -, same⟩ := List.mem_map.mp read
    rw [Lexeme.fault?, ← same]

theorem segments_bareTokens (lexed : ls.map Lexeme.reading = ts.map .token) :
    segments (bareTokens ts) = (ls.splitOnP Lexeme.isNewline).map lineTokens := by
  induction ls generalizing ts with
  | nil =>
    cases ts with
    | nil => rfl
    | cons => cases lexed
  | cons l ls ih =>
    cases ts with
    | nil => cases lexed
    | cons t ts =>
      obtain ⟨read, later⟩ := List.cons.inj lexed
      rw [bareTokens, List.map_cons, segments_cons, ← bareTokens, ih later,
        List.splitOnP_cons_eq_if_modifyHead]
      obtain ⟨first, rest, split⟩ :=
        List.exists_cons_of_ne_nil (List.splitOnP_ne_nil Lexeme.isNewline ls)
      by_cases newline : t = .newline
      · simp [newline, Lexeme.isNewline, read, lineTokens]
      · simp [newline, Lexeme.isNewline, read, split, lineTokens, Lexeme.bareToken?]

theorem unitReads_filter {lines : List (List Lexeme)} :
    UnitReads ((lines.filter (· ≠ [])).map lineTokens) program ↔
      UnitReads (lines.map lineTokens) program := by
  induction lines generalizing program with
  | nil => rfl
  | cons ls lines ih =>
    by_cases blank : ls = []
    · have nothing : UnitReads ([] :: lines.map lineTokens) program ↔
          UnitReads (lines.map lineTokens) program := by
        rw [← List.singleton_append, unitReads_append_iff]
        simp [unitReads_blank_iff]
      rw [List.filter_cons_of_neg (by simp [blank]), ih, blank]
      exact nothing.symm
    · rw [List.filter_cons_of_pos (by simp [blank]), List.map_cons, List.map_cons,
        unitReads_cons_iff, unitReads_cons_iff]
      simp only [ih]

theorem textReads_iff :
    TextReads text program ↔
      faults (substance text) = [] ∧ UnitReads ((substance text).map lineTokens) program := by
  rw [faults_eq_nil_iff, substance, unitReads_filter]
  constructor
  · rintro ⟨lexed, reads⟩
    have lines := segments_bareTokens ((readings_eq text).symm.trans lexed)
    exact ⟨⟨_, lexed⟩, lines ▸ reads⟩
  · rintro ⟨⟨ts, lexed⟩, reads⟩
    have lines := segments_bareTokens ((readings_eq text).symm.trans lexed)
    exact ⟨lexed, lines ▸ reads⟩

end Lines

section Relocated

variable {f : Span → Span} {tokens ts : List (Located Token)} {last ended : Span}

def ParseError.relocate (f : Span → Span) (e : ParseError) : ParseError := ⟨e.cause, f e.span⟩

theorem Fit.relocate {kinds : List OperandKind} (fit : Fit kinds ts) :
    Fit kinds (ts.map (.relocate f)) :=
  List.forall₂_map_right_iff.mpr fit

theorem operandsFault?_relocate (op : Opcode) :
    operandsFault? op (f ended) (ts.map (.relocate f)) =
      (operandsFault? op ended ts).map (.relocate f) := by
  -- How far tokens fit the kinds of operands is a matter of their values.
  cases judged op.signature ts with
  | fit fit => rw [operandsFault?_of_fit fit, operandsFault?_of_fit fit.relocate, Option.map_none]
  | @misfit first more kind taken rest t same fit misfit =>
    have misfit' : kind.admits (t.relocate f).value = false := misfit
    rw [List.map_append, List.map_cons, operandsFault?_of_misfit same fit misfit,
      operandsFault?_of_misfit same fit.relocate misfit']
    rfl
  | few same fit =>
    rw [operandsFault?_of_few same fit, operandsFault?_of_few same fit.relocate, List.length_map]
    rfl
  | surplus fit =>
    rw [List.map_append, List.map_cons, operandsFault?_of_surplus fit,
      operandsFault?_of_surplus fit.relocate, ← List.map_cons, ← List.map_append, List.length_map]
    rfl

theorem bodyFault?_relocate :
    bodyFault? (f ended) (ts.map (.relocate f)) = (bodyFault? ended ts).map (.relocate f) := by
  cases ts with
  | nil => rfl
  | cons t ts =>
    obtain ⟨value, span⟩ := t
    cases value with
    | opcode op => exact operandsFault?_relocate op
    | _ => rfl

theorem lineFault?_relocate :
    lineFault? (f ended) (ts.map (.relocate f)) = (lineFault? ended ts).map (.relocate f) := by
  by_cases labelled : ∃ name span colon rest, ts = ⟨.word name, span⟩ :: ⟨.colon, colon⟩ :: rest
  · obtain ⟨name, span, colon, rest, rfl⟩ := labelled
    exact bodyFault?_relocate
  · have unlabelled : Unlabelled ts := fun name span colon rest same =>
      labelled ⟨name, span, colon, rest, same⟩
    have unlabelled' : Unlabelled (ts.map (.relocate f)) := by
      intro name span colon rest same
      obtain ⟨⟨_, start⟩, _, rfl, here, same⟩ := List.map_eq_cons_iff.mp same
      obtain ⟨⟨_, next⟩, later, rfl, there, -⟩ := List.map_eq_cons_iff.mp same
      cases here
      cases there
      exact unlabelled name start next later rfl
    rw [lineFault?_of_unlabelled unlabelled, lineFault?_of_unlabelled unlabelled',
      bodyFault?_relocate]

theorem lineFaults_bare (last : Span) (tokens : List (Located Token)) :
    (lineFaults last tokens).map (fun e => e.diagnostic.bare) =
      (segments (bareTokens (tokens.map Located.value))).filterMap fun ts =>
        (lineFault? (.zero 0) ts).map fun e => e.diagnostic.bare := by
  have bare (line : List (Located Token) × Span) :
      (lineFault? line.2 line.1).map (fun e => e.diagnostic.bare) =
        (lineFault? (.zero 0) (line.1.map (.relocate fun _ => .zero 0))).map
          fun e => e.diagnostic.bare := by
    rw [@lineFault?_relocate (fun _ => .zero 0) line.1 line.2, Option.map_map]
    rfl
  have length := length_segments last tokens
  have lines := List.map_fst_zip length.le
  rw [bareTokens_map_value, segments_relocate, List.filterMap_map, lineFaults, List.map_filterMap,
    ← lines, List.filterMap_map, lines]
  exact List.filterMap_congr fun line _ => bare line

end Relocated

section Files

variable {sources sources' : SourceMap} {id id' : UInt16} {unit unit' : SourceUnit}
  {ds : List Diagnostic} {tokens : List (Located Token)}

theorem failures_located {ranges : List Placed}
    {results : List (Option (Except Diagnostic (Located Token)))}
    (located : List.Forall₂ (fun p r => Lexeme.locate sources id p = .ok r) ranges results) :
    (failures (results.filterMap fun r => r)).map Diagnostic.bare =
      (ranges.map Prod.fst).filterMap Lexeme.fault? := by
  induction located with
  | nil => rfl
  | @cons p r ranges results here _ ih =>
    cases locate_ok_iff.mp here with
    | nothing read => simpa [Lexeme.fault?, read] using ih
    | token read => simpa [Lexeme.fault?, read] using ih
    | @fault d read _ told =>
      have said : d.bare =
          { kind := .token, span := .zero 0, message := invalidMessage p.1.text } := by
        rw [told]
        rfl
      simpa [Lexeme.fault?, read, said] using ih

theorem filterMap_fault?_lexemes (text : List Char) :
    (lexemes text).filterMap Lexeme.fault? = (significant text).filterMap Lexeme.fault? := by
  rw [significant, List.filterMap_filter]
  refine List.filterMap_congr fun l _ => ?_
  rw [Lexeme.fault?]
  cases l.reading <;> rfl

theorem scan_error_bare (found : sources.get? id = some (.ofUnit unit))
    (scanned : scan sources id = .ok (.error ds)) :
    ds ≠ [] ∧ ds.map Diagnostic.bare = faults (substance unit.text.toList) := by
  obtain ⟨results, located, collected⟩ := (scan_results_iff found).mp scanned
  obtain ⟨rfl, some⟩ := collect_error collected.symm
  have told := failures_located located
  rw [map_fst_withRanges] at told
  exact ⟨some, by rw [told, faults_substance, ← filterMap_fault?_lexemes]; rfl⟩

theorem misreadings_substance (text : List Char) :
    misreadings (substance text) =
      ((significant text).splitOnP Lexeme.isNewline).filterMap fun ls =>
        (lineFault? (.zero 0) (lineTokens ls)).map fun e => e.diagnostic.bare := by
  rw [misreadings, substance, List.filterMap_filter]
  refine List.filterMap_congr fun ls _ => ?_
  by_cases blank : ls = []
  · simp [blank, lineTokens, lineFault?, bodyFault?]
  · simp [blank]

theorem exists_closes (placed : HasRoom tokens) (file : UInt16) :
    ∃ last, Closes last (.ofTokens file tokens) := by
  by_cases inLine : ∃ t, tokens.getLast? = some t ∧ t.value ≠ .newline
  · obtain ⟨t, ends, inLine⟩ := inLine
    obtain ⟨last, next⟩ := placed t (List.mem_of_getLast? ends) inLine file
    refine ⟨last, fun t' ends' _ => ?_⟩
    cases ends.symm.trans ends'
    exact next
  · exact ⟨.zero file, fun t ends other => absurd ⟨t, ends, other⟩ inLine⟩

theorem parse_error_bare (found : sources.get? id = some (.ofUnit unit)) (fits : unit.Fits)
    (parsed : parse sources id = .ok (.error ds)) :
    ds.map Diagnostic.bare = complaints (substance unit.text.toList) := by
  rcases parse_error parsed with scanned | ⟨tokens, results, scanned, lines, -, rfl⟩
  · obtain ⟨some, told⟩ := scan_error_bare found scanned
    rw [complaints, ← told, if_neg (by simpa using some)]
  · have lexed := (scan_ok_iff found fits.bytes).mp ⟨tokens, scanned, rfl⟩
    have valid := faults_eq_nil_iff.mpr ⟨_, lexed⟩
    have segmented := segments_bareTokens ((readings_eq _).symm.trans lexed)
    obtain ⟨last, closes⟩ :=
      exists_closes (hasRoom_of_scan fits (scan_stands found fits.bytes scanned)) id
    obtain ⟨results', lines', told⟩ := @parseLines_failures _ (.ofTokens id tokens)
      (scan_laid found fits.bytes scanned).inOrder closes
    cases lines.symm.trans lines'
    rw [complaints, if_pos valid, misreadings_substance, told, List.map_map]
    refine (lineFaults_bare last tokens).trans ?_
    rw [segmented, List.filterMap_map]
    rfl

inductive ParsedAlike : Diagnosed ParsedUnit → Diagnosed ParsedUnit → Prop where
  | error {ds ds' : List Diagnostic} (same : ds.map Diagnostic.bare = ds'.map Diagnostic.bare) :
      ParsedAlike (.error ds) (.error ds')
  | ok {u u' : ParsedUnit}
      (same : u.statements.map Statement.bare = u'.statements.map Statement.bare) :
      ParsedAlike (.ok u) (.ok u')

theorem parse_carried {u : ParsedUnit} (found : sources.get? id = some (.ofUnit unit))
    (found' : sources'.get? id' = some (.ofUnit unit'))
    (bound : unit.text.utf8ByteSize < UInt32.size) (bound' : unit'.text.utf8ByteSize < UInt32.size)
    (same : substance unit.text.toList = substance unit'.text.toList)
    (parsed : parse sources id = .ok (.ok u)) :
    ∃ u', parse sources' id' = .ok (.ok u') ∧
      u'.statements.map Statement.bare = u.statements.map Statement.bare := by
  have reads := textReads_iff.mp ((parse_ok_iff found bound).mp ⟨u, parsed, rfl⟩)
  rw [same] at reads
  exact (parse_ok_iff found' bound').mpr (textReads_iff.mpr reads)

theorem parse_alike {r r' : Diagnosed ParsedUnit} (found : sources.get? id = some (.ofUnit unit))
    (found' : sources'.get? id' = some (.ofUnit unit')) (fits : unit.Fits) (fits' : unit'.Fits)
    (same : substance unit.text.toList = substance unit'.text.toList)
    (parsed : parse sources id = .ok r) (parsed' : parse sources' id' = .ok r') :
    ParsedAlike r r' := by
  cases r with
  | ok u =>
    obtain ⟨u', there, bare⟩ := parse_carried found found' fits.bytes fits'.bytes same parsed
    cases parsed'.symm.trans there
    exact .ok bare.symm
  | error ds =>
    cases r' with
    | ok u' =>
      obtain ⟨u, here, -⟩ := parse_carried found' found fits'.bytes fits.bytes same.symm parsed'
      cases parsed.symm.trans here
    | error ds' =>
      refine .error ?_
      rw [parse_error_bare found fits parsed, parse_error_bare found' fits' parsed', same]

end Files

end PuzzleMachine
