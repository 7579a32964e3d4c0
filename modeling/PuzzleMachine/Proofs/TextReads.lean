import PuzzleMachine.Proofs.Located
import PuzzleMachine.Proofs.Parse
import PuzzleMachine.Proofs.Relocation

set_option autoImplicit false

namespace PuzzleMachine

def Reading.isTrivia : Reading → Bool
  | .trivia => true
  | .token _ | .invalid => false

def readings (text : List Char) : List Reading :=
  ((lexemes text).map Lexeme.reading).filter (!·.isTrivia)

def significant (text : List Char) : List Lexeme :=
  (lexemes text).filter fun l => !l.reading.isTrivia

theorem readings_eq (text : List Char) : readings text = (significant text).map Lexeme.reading := by
  rw [readings, significant, List.filter_map]
  rfl

def bareTokens (ts : List Token) : List (Located Token) := ts.map fun t => ⟨t, .zero 0⟩

def Statement.bare (s : Statement) : Statement := s.relocate fun _ => .zero 0

/-- What a text says. No lexeme of it is invalid, and its lines have these statements. -/
inductive TextReads (text : List Char) (program : List Statement) : Prop where
  | intro {ts : List Token} (lexed : readings text = ts.map .token)
      (reads : UnitReads (segments (bareTokens ts)) program)

section Scan

variable {sources : SourceMap} {id : UInt16} {unit : SourceUnit} {tokens : List (Located Token)}

theorem map_fst_withRanges (offset : Nat) (ls : List Lexeme) :
    (withRanges offset ls).map Prod.fst = ls := by
  induction ls generalizing offset with
  | nil => rfl
  | cons l ls ih => rw [withRanges, List.map_cons, ih]

theorem readings_located {ranges : List Placed} {ts : List Token}
    {results : List (Option (Except Diagnostic (Located Token)))}
    (located : List.Forall₂ (fun p r => Lexeme.locate sources id p = .ok r) ranges results) :
    (ranges.map fun p => p.1.reading).filter (!·.isTrivia) = ts.map .token ↔
      ∃ tokens : List (Located Token), tokens.map Located.value = ts ∧
        results.filterMap (fun result => result) = tokens.map .ok := by
  induction located generalizing ts with
  | nil => cases ts <;> simp
  | @cons p r ranges results here _ ih =>
    obtain ⟨⟨text, reading⟩, start, stop⟩ := p
    cases reading with
    | trivia =>
      cases here
      simpa [Reading.isTrivia] using ih
    | token t =>
      obtain ⟨span, -, same⟩ := bind_ok_iff.mp here
      cases same
      constructor
      next =>
        intro lexed
        cases ts with
        | nil => simp [Reading.isTrivia] at lexed
        | cons t' ts =>
          obtain ⟨same, later⟩ : t = t' ∧ _ := by simpa [Reading.isTrivia] using lexed
          obtain ⟨tokens, values, collected⟩ := ih.mp later
          exact ⟨⟨t, span⟩ :: tokens, by simp [same, values], by simp [collected]⟩
      next =>
        intro ⟨tokens, values, collected⟩
        cases tokens with
        | nil => simp at collected
        | cons t' tokens =>
          obtain ⟨same, later⟩ : ⟨t, span⟩ = t' ∧ _ := by simpa using collected
          have lexed := ih.mpr ⟨tokens, rfl, later⟩
          simp [← values, ← same, ← lexed, Reading.isTrivia]
    | invalid =>
      obtain ⟨span, -, same⟩ := bind_ok_iff.mp here
      cases same
      constructor
      next =>
        intro lexed
        cases ts <;> simp [Reading.isTrivia] at lexed
      next =>
        intro ⟨tokens, _, collected⟩
        cases tokens <;> simp at collected

theorem scan_ok_iff (found : sources.get? id = some (.ofUnit unit))
    (bound : unit.text.utf8ByteSize < UInt32.size) {ts : List Token} :
    (∃ tokens, scan sources id = .ok (.ok tokens) ∧ tokens.map Located.value = ts) ↔
      readings unit.text.toList = ts.map .token := by
  obtain ⟨results, located⟩ := exists_locate found bound
  have scanned := (scan_results_iff found).mpr ⟨results, located, rfl⟩
  have placed : (withRanges 0 (lexemes unit.text.toList)).map (fun p => p.1.reading) =
      (lexemes unit.text.toList).map Lexeme.reading := by
    rw [← map_fst_withRanges 0 (lexemes unit.text.toList), List.map_map, map_fst_withRanges]
    rfl
  rw [readings, ← placed, readings_located located, scanned]
  constructor
  next =>
    rintro ⟨tokens, collected, values⟩
    exact ⟨tokens, values, collect_ok (Except.ok.inj collected)⟩
  next =>
    rintro ⟨tokens, values, collected⟩
    rw [collected, collect_map_ok]
    exact ⟨tokens, rfl, values⟩

end Scan

section Parse

variable {sources : SourceMap} {id : UInt16} {unit : SourceUnit} {program : List Statement}

theorem bareTokens_map_value (tokens : List (Located Token)) :
    bareTokens (tokens.map Located.value) = tokens.map (.relocate fun _ => .zero 0) :=
  List.map_map

theorem inOrder_bareTokens (ts : List Token) : InOrder (bareTokens ts) := by
  have zero : ∀ t ∈ bareTokens ts, t.span = .zero 0 := by simp [bareTokens]
  constructor
  next =>
    intro t member t' member'
    rw [zero t member, zero t' member']
  next =>
    refine List.pairwise_map.mpr (List.pairwise_of_forall ?_)
    simp

-- Tokens without places have at most one reading.
theorem unitReads_bare_unique {ts : List Token} {program' : List Statement}
    (reads : UnitReads (segments (bareTokens ts)) program)
    (reads' : UnitReads (segments (bareTokens ts)) program') : program = program' := by
  have accepted {statements : List Statement} :=
    @parseTokens_ok_iff _ 0 (inOrder_bareTokens ts) ⟨0, statements⟩
  have same := (accepted.mpr ⟨rfl, reads⟩).symm.trans (accepted.mpr ⟨rfl, reads'⟩)
  cases same
  rfl

theorem segments_cons (t : Located Token) (ts : List (Located Token)) :
    segments (t :: ts) =
      if t.value = .newline then [] :: segments ts else (segments ts).modifyHead (t :: ·) := by
  simp [segments, List.splitOnP_cons_eq_if_modifyHead]

theorem segments_relocate (f : Span → Span) (tokens : List (Located Token)) :
    segments (tokens.map (.relocate f)) = (segments tokens).map (List.map (.relocate f)) := by
  induction tokens with
  | nil => rfl
  | cons t ts ih =>
    rw [List.map_cons, segments_cons, segments_cons, ih, Located.value_relocate]
    by_cases newline : t.value = .newline
    next => simp [newline]
    next => cases segments ts <;> simp [newline]

theorem parseTokens_bare {tokens : List (Located Token)} {u : ParsedUnit}
    (parsed : parseTokens tokens id = .ok (.ok u)) :
    UnitReads (segments (bareTokens (tokens.map Located.value))) (u.statements.map .bare) := by
  have moved := @parseTokens_relocate _ (Span.moves_zero 0) _ _ 0 _ parsed
  rw [← bareTokens_map_value] at moved
  exact ((parseTokens_ok_iff (inOrder_bareTokens _)).mp moved).2

theorem exists_unitReads {tokens : List (Located Token)}
    (reads : UnitReads (segments (bareTokens (tokens.map Located.value))) program) :
    ∃ statements, UnitReads (segments tokens) statements := by
  rw [bareTokens_map_value, segments_relocate] at reads
  have lines := exists_unitReads_iff.mp ⟨program, reads⟩
  refine exists_unitReads_iff.mpr fun segment member => ?_
  simpa [Function.comp_def] using lines _ (List.mem_map_of_mem member)

theorem parse_ok_iff (found : sources.get? id = some (.ofUnit unit))
    (bound : unit.text.utf8ByteSize < UInt32.size) :
    (∃ u, parse sources id = .ok (.ok u) ∧ u.statements.map .bare = program) ↔
      TextReads unit.text.toList program := by
  constructor
  next =>
    intro ⟨u, parsed, same⟩
    obtain ⟨tokens, scanned, parsed⟩ := parse_ok parsed
    have lexed := (scan_ok_iff found bound).mp ⟨tokens, scanned, rfl⟩
    exact ⟨lexed, same ▸ parseTokens_bare parsed⟩
  next =>
    intro ⟨lexed, reads⟩
    obtain ⟨tokens, scanned, rfl⟩ := (scan_ok_iff found bound).mpr lexed
    have inOrder := (scan_laid found bound scanned).inOrder
    obtain ⟨statements, there⟩ := exists_unitReads reads
    have parsed := (@parseTokens_ok_iff _ id inOrder ⟨id, statements⟩).mpr ⟨rfl, there⟩
    refine ⟨⟨id, statements⟩, ?_, unitReads_bare_unique (parseTokens_bare parsed) reads⟩
    rw [parse, scanned, ok_bind]
    simp only [parsed, ok_bind]
    rfl

end Parse

section Newline

variable {a b : List Char} {program : List Statement}

theorem takeWhile_stop {α : Type} {p : α → Bool} {c : α} (stop : p c = false) (xs ys : List α) :
    (xs ++ c :: ys).takeWhile p = xs.takeWhile p := by
  induction xs with
  | nil => simp [stop]
  | cons x xs ih => simp only [List.cons_append, List.takeWhile_cons, ih]

-- Every lexeme that is longer than a character stops at the end of its line.
theorem lexeme_append_newline (c : Char) (rest b : List Char) :
    lexeme c (rest ++ '\n' :: b) = lexeme c rest := by
  have head : (rest ++ '\n' :: b).head?.any Char.isDigit = rest.head?.any Char.isDigit := by
    cases rest <;> rfl
  have blank := @takeWhile_stop _ isBlank '\n' rfl rest b
  have comment := @takeWhile_stop _ (fun c => decide (c ≠ '\n')) '\n' rfl rest b
  have word := @takeWhile_stop _ isWordPart '\n' rfl rest b
  have number := @takeWhile_stop _ Char.isDigit '\n' rfl rest b
  simp only [lexeme, blank, comment, word, number, head]

theorem lexemes_newline (b : List Char) :
    lexemes ('\n' :: b) = ⟨['\n'], .token .newline⟩ :: lexemes b := by
  rw [lexemes]
  rfl

theorem lexemes_append_newline (a b : List Char) :
    lexemes (a ++ '\n' :: b) = lexemes a ++ ⟨['\n'], .token .newline⟩ :: lexemes b := by
  induction a using lexemes.induct with
  | case1 => simp [lexemes_newline, lexemes]
  | case2 c rest l ih =>
    obtain ⟨taken, text, whole⟩ := lexeme_text c rest
    have within : (lexeme c rest).text.length - 1 ≤ rest.length := by
      simpa [text] using whole.length_le
    rw [List.cons_append, lexemes, lexemes, lexeme_append_newline]
    simp only [List.drop_append_of_le_length within, List.cons_append, ← ih, l]

theorem significant_append_newline (a b : List Char) :
    significant (a ++ '\n' :: b) =
      significant a ++ ⟨['\n'], .token .newline⟩ :: significant b := by
  simp [significant, lexemes_append_newline, Reading.isTrivia]

theorem readings_append_newline (a b : List Char) :
    readings (a ++ '\n' :: b) = readings a ++ .token .newline :: readings b := by
  simp [readings_eq, significant_append_newline]

theorem unitReads_append_iff {cut cut' : List (List (Located Token))} :
    UnitReads (cut ++ cut') program ↔
      ∃ first second, UnitReads cut first ∧ UnitReads cut' second ∧ program = first ++ second := by
  induction cut generalizing program with
  | nil =>
    constructor
    next => exact fun reads => ⟨[], program, .nil, reads, rfl⟩
    next =>
      intro ⟨first, second, empty, reads, same⟩
      cases empty
      rwa [same]
  | cons segment cut ih =>
    simp only [List.cons_append, unitReads_cons_iff, ih]
    constructor
    next =>
      intro ⟨part, _, line, ⟨first, second, reads, reads', rfl⟩, same⟩
      exact ⟨_, second, ⟨part, first, line, reads, rfl⟩, reads', by simp [same]⟩
    next =>
      intro ⟨_, second, ⟨part, first, line, reads, rfl⟩, reads', same⟩
      exact ⟨part, _, line, ⟨first, second, reads, reads', rfl⟩, by simp [same]⟩

theorem segments_append_newline (ts ts' : List Token) :
    segments (bareTokens (ts ++ .newline :: ts')) =
      segments (bareTokens ts) ++ segments (bareTokens ts') := by
  rw [bareTokens, List.map_append, List.map_cons]
  exact List.splitOnP_append_cons _ _ (by simp)

@[simp] theorem readings_nil : readings [] = [] := by
  simp [readings, lexemes]

theorem textReads_nil_iff : TextReads [] program ↔ program = [] := by
  constructor
  next =>
    intro ⟨lexed, reads⟩
    rw [readings_nil, eq_comm, List.map_eq_nil_iff] at lexed
    cases lexed
    exact unitReads_blank_iff.mp reads
  next =>
    intro empty
    have lexed : readings [] = ([] : List Token).map .token := readings_nil
    exact ⟨lexed, unitReads_blank_iff.mpr empty⟩

theorem textReads_append_newline_iff :
    TextReads (a ++ '\n' :: b) program ↔
      ∃ first second, TextReads a first ∧ TextReads b second ∧ program = first ++ second := by
  constructor
  next =>
    intro ⟨lexed, reads⟩
    rw [readings_append_newline] at lexed
    obtain ⟨ts, _, rfl, first, rest⟩ := List.map_eq_append_iff.mp lexed.symm
    obtain ⟨_, ts', rfl, newline, second⟩ := List.map_eq_cons_iff.mp rest
    cases newline
    rw [segments_append_newline, unitReads_append_iff] at reads
    obtain ⟨program, program', here, there, same⟩ := reads
    exact ⟨program, program', ⟨first.symm, here⟩, ⟨second.symm, there⟩, same⟩
  next =>
    intro ⟨first, second, ⟨lexed, reads⟩, ⟨lexed', reads'⟩, same⟩
    have lines := unitReads_append_iff.mpr ⟨first, second, reads, reads', same⟩
    rw [← segments_append_newline] at lines
    exact ⟨by simp [readings_append_newline, lexed, lexed'], lines⟩

end Newline
end PuzzleMachine
