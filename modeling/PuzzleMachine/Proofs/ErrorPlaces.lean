import PuzzleMachine.Proofs.Located
import PuzzleMachine.Proofs.Parse

set_option autoImplicit false

namespace PuzzleMachine

namespace TokenReader

variable {α β : Type}

def FailsHere (p : TokenReader α) : Prop :=
  ∀ s e later, p.on s = .ok (.error e, later) → ∃ s', s.SameLine s' ∧ s'.here = .ok e.span

namespace FailsHere

variable {p : TokenReader α} {f : α → TokenReader β}

theorem pure (a : α) : FailsHere (pure a : TokenReader α) := by
  intro s e later failed
  cases failed

theorem bind (first : p.FailsHere) (stays : p.StaysInLine) (next : ∀ a, (f a).FailsHere) :
    (p >>= f).FailsHere := by
  intro s e later failed
  rw [on_bind] at failed
  cases taken : p.on s with
  | error => simp [taken, Except.bind] at failed
  | ok middle =>
    obtain ⟨reached, s'⟩ := middle
    rw [taken] at failed
    cases reached with
    | error =>
      cases failed
      exact first s _ _ taken
    | ok a =>
      obtain ⟨there, same, place⟩ := next a s' e later failed
      exact ⟨there, (stays s _ s' taken).trans same, place⟩

end FailsHere
end TokenReader

section Readers

variable {α : Type} {op : Opcode} {kind : OperandKind} {read? : Token → Option α} {n : Nat}
  {start : Span} {i : SourceInstruction} {s later : TokenStream} {t : Located Token}
  {e : ParseError}

open TokenReader TokenStream

theorem here_of_next? (next : s.next? = some t) : s.here = .ok t.span := by
  obtain ⟨-, rest, same⟩ := next?_eq_some_iff.mp next
  rw [here, same]

theorem takeOperand_failsHere : FailsHere ((takeOperand op kind read?).run n) := by
  intro s e later failed
  refine ⟨s, .start s, ?_⟩
  cases next : s.next? with
  | none =>
    rw [takeOperand_at_end next] at failed
    obtain ⟨span, here, same⟩ := map_ok_iff.mp failed
    cases same
    exact here
  | some t =>
    rw [takeOperand_of_next? next] at failed
    split at failed <;> cases failed
    exact here_of_next? next

theorem takeInstruction_failsHere : FailsHere ((takeInstruction op).run n) := by
  cases op <;>
    simp only [takeInstruction, seq_eq_bind_map, map_eq_pure_bind, bind_assoc, pure_bind,
      StateT.run_bind, StateT.run_pure] <;>
    repeat' first
      | exact .pure _
      | refine .bind takeOperand_failsHere takeOperand_staysInLine fun _ => ?_

theorem endInstruction_failsHere : FailsHere (endInstruction op start i) := by
  intro s e later failed
  refine ⟨s, .start s, ?_⟩
  cases next : s.next? with
  | none =>
    rw [endInstruction_at_end next] at failed
    obtain ⟨span, -, same⟩ := map_ok_iff.mp failed
    cases same
  | some t =>
    rw [endInstruction_of_next? next] at failed
    cases failed
    exact here_of_next? next

theorem parseInstruction_failsHere : FailsHere (parseInstruction op start) :=
  .bind takeInstruction_failsHere takeInstruction_staysInLine fun _ => endInstruction_failsHere

theorem parseBody_failsHere : FailsHere parseBody := by
  intro s e later failed
  simp only [parseBody, on_bind, on_get, Except.bind] at failed
  split at failed
  next => cases failed
  next => cases failed
  next op start rest same =>
    obtain ⟨file, taken?, _⟩ := s
    cases same
    have later := (parseInstruction_failsHere.bind parseInstruction_staysInLine fun i =>
      .pure [Statement.instruction i]) _ _ _ failed
    obtain ⟨s', same, place⟩ := later
    exact ⟨s', .take (by simp) same, place⟩
  next same =>
    cases failed
    exact ⟨s, .start s, by rw [here, same]⟩
  next same =>
    cases failed
    exact ⟨s, .start s, by rw [here, same]⟩

theorem parseLine_failsHere : FailsHere parseLine := by
  refine .bind ?_ parseLabel_staysInLine fun _ =>
    .bind parseBody_failsHere parseBody_staysInLine fun _ => .pure _
  intro s e later failed
  simp only [parseLabel, on_bind, on_get, Except.bind] at failed
  split at failed <;> cases failed

end Readers

inductive PlaceAmong (file : UInt16) (tokens : List (Located Token)) : Span → Prop where
  | token {t : Located Token} (member : t ∈ tokens) : PlaceAmong file tokens t.span
  | behind {t : Located Token} {span : Span} (member : t ∈ tokens) (inLine : t.value ≠ .newline)
      (next : t.span.justAfter file = .ok span) : PlaceAmong file tokens span

theorem justAfter_start {s span : Span} {file : UInt16} (next : s.justAfter file = .ok span) :
    span.start = s.stop := by
  obtain ⟨length, -, next⟩ := bind_ok_iff.mp next
  obtain ⟨column, -, same⟩ := bind_ok_iff.mp next
  cases same
  rfl

namespace PlaceAmong

variable {file : UInt16} {tokens ts : List (Located Token)} {span : Span}

theorem mono (place : PlaceAmong file ts span) (sub : ts.Sublist tokens) :
    PlaceAmong file tokens span := by
  cases place with
  | token member => exact .token (sub.subset member)
  | behind member inLine next => exact .behind (sub.subset member) inLine next

theorem exists_start_le (place : PlaceAmong file tokens span) (laid : Laid file tokens) :
    ∃ t ∈ tokens, t.span.start.toNat ≤ span.start.toNat := by
  cases place with
  | token member => exact ⟨_, member, Nat.le_refl _⟩
  | behind member _ next =>
    rw [justAfter_start next]
    exact ⟨_, member, Nat.le_of_lt (laid.nonempty _ member)⟩

end PlaceAmong

section Lines

variable {s later : TokenStream} {e : ParseError}

theorem parseLine_error_place (more : s.rest ≠ [])
    (failed : parseLine.on s = .ok (.error e, later)) :
    (∃ line, s.rest = line ++ s.skipLine.rest ∧ ∃ t ∈ line, e.span = t.span) ∨
      s.skipLine.rest = [] ∧ PlaceAmong s.file s.rest e.span := by
  -- A reader comes to the end of the tokens only on the last line.
  obtain ⟨s', same, here⟩ := parseLine_failsHere s e later failed
  rcases same.here_cases more with ⟨line, cut, t, member, there⟩ | ⟨last, t, member, inLine, there⟩
  · exact .inl ⟨line, cut, t, member, Except.ok.inj (here.symm.trans there)⟩
  · exact .inr ⟨last, .behind member inLine (there.symm.trans here)⟩

-- Errors are at places among the tokens, each one before those of later lines.
theorem parseLines_errors {results : List (Except ParseError (List Statement))}
    (laid : Laid s.file s.rest) (read : parseLines s = .ok results) :
    (∀ e ∈ failures results, PlaceAmong s.file s.rest e.span) ∧
      (failures results).Pairwise fun a b => a.span.start < b.span.start := by
  induction s using TokenStream.by_lines generalizing results with
  | ended s ended =>
    rw [parseLines_of_nil ended] at read
    cases read
    simp
  | line s more ih =>
    obtain ⟨result, later, rest, line, lines, rfl⟩ := (parseLines_cons_ok_iff more).mp read
    have laid' := laid.sublist s.skipLine_sublist
    rw [← s.skipLine_file] at laid'
    obtain ⟨places, ordered⟩ := ih laid' lines
    rw [s.skipLine_file] at places laid'
    have among : ∀ e ∈ failures rest, PlaceAmong s.file s.rest e.span :=
      fun e member => (places e member).mono s.skipLine_sublist
    cases result with
    | ok => exact ⟨among, ordered⟩
    | error e =>
      rw [failures_error, List.forall_mem_cons, List.pairwise_cons]
      rcases parseLine_error_place more line with ⟨first, cut, t, member, place⟩ | ⟨last, place⟩
      -- Tokens of later lines start where this one stops, or further on.
      · have inside : t ∈ s.rest := by simp [cut, member]
        refine ⟨⟨place ▸ .token inside, among⟩, fun e' member' => ?_, ordered⟩
        obtain ⟨t', member', start⟩ := (places e' member').exists_start_le laid'
        have after := laid.ordered
        rw [cut, List.pairwise_append] at after
        have after := after.2.2 t member t' member'
        have filled := laid.nonempty t inside
        rw [place, UInt32.lt_iff_toNat_lt]
        omega
      -- No token is left for the errors of later lines.
      · refine ⟨⟨place, among⟩, fun e' member' => ?_, ordered⟩
        obtain ⟨t', member', -⟩ := (places e' member').exists_start_le laid'
        simp [last] at member'

end Lines

section Files

variable {sources : SourceMap} {id : UInt16} {unit : SourceUnit} {ds : List Diagnostic}

theorem hasRoom_of_scan {tokens : List (Located Token)} (fits : unit.Fits)
    (stands : ∀ t ∈ tokens, t.Stands unit.text.toList) : HasRoom tokens := by
  intro t member inLine file
  exact (stands t member).exists_justAfter fits inLine file

theorem exists_parse (found : sources.get? id = some (.ofUnit unit)) (fits : unit.Fits) :
    ∃ result, parse sources id = .ok result := by
  obtain ⟨result, scanned⟩ := exists_scan found fits.bytes
  rw [parse, scanned, ok_bind]
  cases result with
  | error wrong => exact ⟨_, rfl⟩
  | ok tokens =>
    have inOrder := (scan_laid found fits.bytes scanned).inOrder
    have room := hasRoom_of_scan fits (scan_stands found fits.bytes scanned)
    obtain ⟨result, parsed⟩ := exists_parseTokens inOrder room id
    exact ⟨_, bind_ok_iff.mpr ⟨result, parsed, rfl⟩⟩

theorem PlaceAmong.accurate {tokens : List (Located Token)} {span : Span}
    (bound : unit.text.utf8ByteSize < UInt32.size) (laid : Laid id tokens)
    (stands : ∀ t ∈ tokens, t.Stands unit.text.toList)
    (place : PlaceAmong id tokens span) : span.file = id ∧ span.Accurate (.ofUnit unit) := by
  cases place with
  | token member => exact ⟨laid.file _ member, (stands _ member).accurate bound⟩
  | behind member inLine next => exact (stands _ member).accurate_justAfter bound inLine next

-- What is wrong with a file is all of one stage, and told in the order of the text.
theorem parse_error_told (found : sources.get? id = some (.ofUnit unit))
    (bound : unit.text.utf8ByteSize < UInt32.size) (parsed : parse sources id = .ok (.error ds)) :
    Told id unit ds ∧ (∀ d ∈ ds, d.notes = []) ∧
      ((∀ d ∈ ds, d.kind = .token) ∨ ∀ d ∈ ds, d.kind = .statement) := by
  rcases parse_error parsed with scanned | ⟨tokens, results, scanned, lines, -, rfl⟩
  · obtain ⟨told, plain⟩ := scan_told found bound scanned
    exact ⟨told, fun d member => (plain d member).2, .inl fun d member => (plain d member).1⟩
  · have laid := scan_laid found bound scanned
    have stands := scan_stands found bound scanned
    obtain ⟨places, ordered⟩ := @parseLines_errors (.ofTokens id tokens) _ laid lines
    have accurate (e : ParseError) (member : e ∈ failures results) :=
      (places e member).accurate bound laid stands
    refine ⟨⟨?_, ?_, List.pairwise_map.mpr ordered⟩, ?_, .inr ?_⟩ <;>
      refine List.forall_mem_map.mpr fun e member => ?_
    · exact (accurate e member).1
    · exact (accurate e member).2
    · rfl
    · rfl

theorem parse_told (found : sources.get? id = some (.ofUnit unit)) (fits : unit.Fits)
    (parsed : parse sources id = .ok (.error ds)) :
    Told id unit ds ∧ (∀ d ∈ ds, d.notes = []) ∧
      ((∀ d ∈ ds, d.kind = .token) ∨ ∀ d ∈ ds, d.kind = .statement) :=
  parse_error_told found fits.bytes parsed

end Files

section Padded

variable {sources : SourceMap} {id file : UInt16} {n : Nat}

def padded (n : Nat) : SourceUnit :=
  ⟨"padded", String.ofList (List.replicate n ' ' ++ ['W', 'R', 'I', 'T', 'E'])⟩

theorem byteLength_replicate (n : Nat) : Text.byteLength (List.replicate n ' ') = n := by
  induction n with
  | zero => rfl
  | succ n ih =>
    rw [List.replicate_succ, Text.byteLength, ih, Nat.add_comm]
    rfl

theorem padded_size (n : Nat) : (padded n).text.utf8ByteSize = n + 5 := by
  rw [padded, ← Text.byteLength_eq_utf8ByteSize, String.toList_ofList, Text.byteLength_append,
    byteLength_replicate]
  rfl

theorem lexemes_padded (n : Nat) :
    lexemes (padded (n + 1)).text.toList =
      [⟨List.replicate (n + 1) ' ', .trivia⟩,
        ⟨['W', 'R', 'I', 'T', 'E'], .token (.opcode .write)⟩] := by
  have blanks : (List.replicate n ' ' ++ ['W', 'R', 'I', 'T', 'E']).takeWhile isBlank =
      List.replicate n ' ' := by
    rw [List.takeWhile_append_of_pos fun c member => by rw [List.eq_of_mem_replicate member]; rfl]
    exact List.append_nil _
  have first : lexeme ' ' (List.replicate n ' ' ++ ['W', 'R', 'I', 'T', 'E']) =
      ⟨List.replicate (n + 1) ' ', .trivia⟩ := by
    have blank : isBlank ' ' = true := rfl
    simp only [lexeme, blank, if_true, blanks, List.replicate_succ]
  have second : lexeme 'W' ['R', 'I', 'T', 'E'] =
      ⟨['W', 'R', 'I', 'T', 'E'], .token (.opcode .write)⟩ := by decide
  rw [padded, String.toList_ofList, List.replicate_succ, List.cons_append, lexemes, first]
  simp only [List.length_replicate, Nat.add_sub_cancel]
  rw [List.drop_left' List.length_replicate, lexemes, second]
  simp [lexemes, List.replicate_succ]

theorem parseTokens_keyword {op : Opcode} {span : Span} {b : Breach}
    (unplaced : span.justAfter file = .error b) :
    parseTokens [⟨.opcode op, span⟩] file = .error b := by
  have next : (TokenStream.ofTokens file [⟨.opcode op, span⟩]).next? = some ⟨.opcode op, span⟩ :=
    rfl
  have ended : (TokenStream.ofTokens file [⟨.opcode op, span⟩]).advance.next? = none := rfl
  have here : (TokenStream.ofTokens file [⟨.opcode op, span⟩]).advance.here = .error b := unplaced
  -- Every opcode has an operand, which is missing behind the keyword.
  have taken : ((takeInstruction op).run 0).on
      (TokenStream.ofTokens file [⟨.opcode op, span⟩]).advance = .error b := by
    obtain ⟨kind, kinds, signature⟩ : ∃ kind kinds, op.signature = kind :: kinds := by
      cases op <;> exact ⟨_, _, rfl⟩
    have same := @takeInstruction_on op 0 (TokenStream.ofTokens file [⟨.opcode op, span⟩]).advance
    rw [signature, takeKinds_cons_at_end ended, here] at same
    exact map_error_iff.mp same
  have body := parseBody_on_opcode next
  rw [TokenReader.on_bind, parseInstruction, TokenReader.on_bind, taken] at body
  rcases parseLine_cases (.ofTokens file [⟨.opcode op, span⟩]) with
    ⟨name, _, _, _, line, -⟩ | ⟨-, line⟩
  · rw [TokenStream.restOfLine_of_next? next] at line
    cases line
  · rw [body] at line
    rw [parseTokens, parseLines_of_ne_nil (List.cons_ne_nil _ _), line]
    rfl

theorem scan_padded (found : sources.get? id = some (.ofUnit (padded (n + 1))))
    (bound : n + 6 < UInt32.size) :
    ∃ span, scan sources id = .ok (.ok [⟨.opcode .write, span⟩]) ∧
      span.column.toNat + (span.stop - span.start).toNat = n + 7 ∧ span.start ≤ span.stop := by
  have fits : (padded (n + 1)).text.utf8ByteSize < UInt32.size := by
    rw [padded_size]
    omega
  let blank : Placed := (⟨List.replicate (n + 1) ' ', .trivia⟩, .ofNat 0, .ofNat (n + 1))
  let word : Placed :=
    (⟨['W', 'R', 'I', 'T', 'E'], .token (.opcode .write)⟩, .ofNat (n + 1), .ofNat (n + 6))
  have ranges : withRanges 0 (lexemes (padded (n + 1)).text.toList) = [blank, word] := by
    rw [lexemes_padded, withRanges, withRanges, withRanges, byteLength_replicate, Nat.zero_add]
    rfl
  have last : word ∈ withRanges 0 (lexemes (padded (n + 1)).text.toList) := by
    rw [ranges]
    exact List.mem_cons_of_mem _ List.mem_cons_self
  obtain ⟨span, before, after, spanned, whole, marks⟩ := exists_span found fits last
  have plain : '\n' ∉ before := by
    intro member
    have member : '\n' ∈ (padded (n + 1)).text.toList := by
      rw [whole]
      exact List.mem_append_left _ member
    simp [padded] at member
  have start : span.start.toNat = n + 1 := by
    rw [(span_ok spanned).2.1]
    exact UInt32.toNat_ofNat_of_lt' (by omega)
  have stop : span.stop.toNat = n + 6 := by
    rw [(span_ok spanned).2.2]
    exact UInt32.toNat_ofNat_of_lt' bound
  have column := marks.column
  rw [Text.columnAfter, Text.lastLine_of_plain plain, ← marks.start, start] at column
  have forward : span.start ≤ span.stop := by
    rw [UInt32.le_iff_toNat_le]
    omega
  refine ⟨span, ?_, by rw [UInt32.toNat_sub_of_le _ _ forward]; omega, forward⟩
  have trivia : Lexeme.locate sources id blank = .ok none := rfl
  have token : Lexeme.locate sources id word = .ok (some (.ok ⟨.opcode .write, span⟩)) := by
    simp only [Lexeme.locate, word] at spanned ⊢
    rw [spanned]
    rfl
  simp only [scan, found, SourceFile.ofUnit, ranges, List.mapM_cons, List.mapM_nil, trivia, token,
    ok_bind]
  rfl

-- The end of a single line of so many bytes has no column, so nothing can be said of it.
theorem parse_padded (found : sources.get? id = some (.ofUnit (padded (n + 1))))
    (full : n + 7 = UInt32.size) : parse sources id = .error .outOfRange := by
  obtain ⟨span, scanned, column, forward⟩ := scan_padded found (by omega)
  have unplaced : span.justAfter id = .error .outOfRange := by
    simp only [Span.justAfter, Span.length, if_pos forward, ok_bind, addWords]
    rw [if_neg (by omega)]
    rfl
  rw [parse, scanned, ok_bind]
  simp only [parseTokens_keyword unplaced]
  rfl

end Padded
end PuzzleMachine
