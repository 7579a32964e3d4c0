import PuzzleMachine.Proofs.Reading

set_option autoImplicit false

namespace PuzzleMachine

section Spec

/-- The first operand that does not fit its place or else, where the count of operands is wrong, the
first one too many or the end of the line. -/
def operandsFault? (op : Opcode) (ended : Span) (ts : List (Located Token)) : Option ParseError :=
  match (op.signature.zip ts).zipIdx.find? fun ((kind, t), _) => !kind.admits t.value with
  | some ((kind, t), index) => some ⟨.wrongOperand op index kind t.value, t.span⟩
  | none =>
      if ts.length = op.signature.length then none
      else some ⟨.operandCount op ts.length, (ts[op.signature.length]?.map Located.span).getD ended⟩

def bodyFault? (ended : Span) : List (Located Token) → Option ParseError
  | [] => none
  | ⟨.opcode op, _⟩ :: ts => operandsFault? op ended ts
  | ⟨.word name, span⟩ :: _ => some ⟨.unknownOpcode name, span⟩
  | t :: _ => some ⟨.unexpectedToken t.value "at start of statement", t.span⟩

def lineFault? (ended : Span) : List (Located Token) → Option ParseError
  | ⟨.word _, _⟩ :: ⟨.colon, _⟩ :: ts => bodyFault? ended ts
  | ts => bodyFault? ended ts

def pastLast (file : UInt16) (tokens : List (Located Token)) : Span :=
  match tokens.getLast? with
  | none => .zero file
  | some ⟨_, s⟩ => ⟨file, s.stop, s.stop, s.line, s.column + (s.stop - s.start)⟩

def lineEnds (last : Span) (tokens : List (Located Token)) : List Span :=
  (tokens.filter fun t => t.value = .newline).map Located.span ++ [last]

def lineFaults (last : Span) (tokens : List (Located Token)) : List ParseError :=
  ((segments tokens).zip (lineEnds last tokens)).filterMap fun (segment, ended) =>
    lineFault? ended segment

/-- How a fault is told: of which kind it is, and in which words. Operands are counted from one. -/
inductive ParseError.ToldAs : ParseError → ParseError.Kind → String → Prop where
  | unknownOpcode {name : String} {span : Span} :
      ToldAs ⟨.unknownOpcode name, span⟩ .unknownOpcode s!"unknown opcode `{name}`"
  | unexpectedToken {found : Token} {context : String} {span : Span}
      (first : context = "at start of statement") :
      ToldAs ⟨.unexpectedToken found context, span⟩ .unexpectedToken
        s!"unexpected `{found.text}` {context}"
  | wrongOperand {op : Opcode} {before after : List OperandKind} {kind : OperandKind}
      {found : Token} {span : Span} (place : op.signature = before ++ kind :: after) :
      ToldAs ⟨.wrongOperand op before.length kind found, span⟩ .unexpectedToken
        s!"expected {kind.text} for operand {before.length + 1} of {op.name}, found `{found.text}`"
  | operandCount {op : Opcode} {found : Nat} {span : Span} {ending : String}
      (plural : ending = if op.signature.length = 1 then "" else "s") :
      ToldAs ⟨.operandCount op found, span⟩ .operandCount
        s!"{op.name} expects {op.signature.length} operand{ending}, found {found}"

end Spec

abbrev Fit (kinds : List OperandKind) (ts : List (Located Token)) : Prop :=
  List.Forall₂ (fun kind t => kind.admits t.value = true) kinds ts

inductive Judged (kinds : List OperandKind) : List (Located Token) → Prop where
  | fit {ts : List (Located Token)} (fit : Fit kinds ts) : Judged kinds ts
  | misfit {first more : List OperandKind} {kind : OperandKind} {taken rest : List (Located Token)}
      {t : Located Token} (same : kinds = first ++ kind :: more) (fit : Fit first taken)
      (misfit : kind.admits t.value = false) : Judged kinds (taken ++ t :: rest)
  | few {first more : List OperandKind} {kind : OperandKind} {ts : List (Located Token)}
      (same : kinds = first ++ kind :: more) (fit : Fit first ts) : Judged kinds ts
  | surplus {taken rest : List (Located Token)} {t : Located Token} (fit : Fit kinds taken) :
      Judged kinds (taken ++ t :: rest)

section Operands

variable {op : Opcode} {ended : Span} {kind : OperandKind} {t : Located Token}
  {ts taken rest : List (Located Token)} {first more : List OperandKind}

theorem judged (kinds : List OperandKind) (ts : List (Located Token)) : Judged kinds ts := by
  induction kinds generalizing ts with
  | nil =>
    cases ts with
    | nil => exact .fit .nil
    | cons t ts => exact .surplus .nil
  | cons kind kinds ih =>
    cases ts with
    | nil => exact .few rfl .nil
    | cons t ts =>
      cases admitted : kind.admits t.value with
      | false => exact .misfit rfl .nil admitted
      | true =>
        cases ih ts with
        | fit fit => exact .fit (.cons admitted fit)
        | misfit same fit misfit => exact .misfit (congrArg (kind :: ·) same) (.cons admitted fit) misfit
        | few same fit => exact .few (congrArg (kind :: ·) same) (.cons admitted fit)
        | surplus fit => exact .surplus (.cons admitted fit)

theorem find?_misfit (fit : Fit first taken) (more : List OperandKind)
    (rest : List (Located Token)) :
    ((first ++ more).zip (taken ++ rest)).zipIdx.find? (fun ((kind, t), _) => !kind.admits t.value) =
      ((more.zip rest).zipIdx first.length).find? fun ((kind, t), _) => !kind.admits t.value := by
  have none : (first.zip taken).zipIdx.find? (fun ((kind, t), _) => !kind.admits t.value) = none := by
    rw [List.find?_eq_none]
    rintro ⟨⟨kind, t⟩, index⟩ member
    have pair := List.fst_mem_of_mem_zipIdx member
    simpa using (List.forall₂_iff_zip.mp fit).2 pair
  rw [List.zip_append fit.length_eq, List.zipIdx_append, List.find?_append, none, Option.none_or]
  simp [fit.length_eq]

theorem operandsFault?_of_misfit (kinds : op.signature = first ++ kind :: more)
    (fit : Fit first taken) (misfit : kind.admits t.value = false) :
    operandsFault? op ended (taken ++ t :: rest) =
      some ⟨.wrongOperand op first.length kind t.value, t.span⟩ := by
  rw [operandsFault?, kinds, find?_misfit fit (kind :: more), List.zip_cons_cons, List.zipIdx_cons,
    List.find?_cons_of_pos (by simpa using misfit)]

theorem operandsFault?_of_few (kinds : op.signature = first ++ kind :: more)
    (fit : Fit first taken) :
    operandsFault? op ended taken = some ⟨.operandCount op taken.length, ended⟩ := by
  have length := fit.length_eq
  have none := find?_misfit fit (kind :: more) []
  rw [List.append_nil, List.zip_nil_right, List.zipIdx_nil, List.find?_nil] at none
  rw [operandsFault?, kinds, none]
  simp [length]

theorem operandsFault?_of_surplus (fit : Fit op.signature taken) :
    operandsFault? op ended (taken ++ t :: rest) =
      some ⟨.operandCount op (taken ++ t :: rest).length, t.span⟩ := by
  have length := fit.length_eq
  have none := find?_misfit fit [] (t :: rest)
  rw [List.append_nil, List.zip_nil_left, List.zipIdx_nil, List.find?_nil] at none
  rw [operandsFault?, none]
  simp [length]

theorem operandsFault?_of_fit (fit : Fit op.signature ts) : operandsFault? op ended ts = none := by
  have none := find?_misfit fit [] []
  rw [List.append_nil, List.append_nil, List.zip_nil_left, List.zipIdx_nil, List.find?_nil] at none
  rw [operandsFault?, none]
  simp [fit.length_eq]

theorem operandsFault?_eq_none_iff : operandsFault? op ended ts = none ↔ Fit op.signature ts := by
  refine ⟨fun none => ?_, operandsFault?_of_fit⟩
  cases judged op.signature ts with
  | fit fit => exact fit
  | misfit same fit misfit => cases none.symm.trans (operandsFault?_of_misfit same fit misfit)
  | few same fit => cases none.symm.trans (operandsFault?_of_few same fit)
  | surplus fit => cases none.symm.trans (operandsFault?_of_surplus fit)

theorem operandsFault?_toldAs {e : ParseError} (fault : operandsFault? op ended ts = some e) :
    e.ToldAs e.kind e.cause.message := by
  cases judged op.signature ts with
  | fit fit => cases (operandsFault?_of_fit fit).symm.trans fault
  | misfit same fit misfit =>
    cases (operandsFault?_of_misfit same fit misfit).symm.trans fault
    exact .wrongOperand same
  | few same fit =>
    cases (operandsFault?_of_few same fit).symm.trans fault
    exact .operandCount rfl
  | surplus fit =>
    cases (operandsFault?_of_surplus fit).symm.trans fault
    exact .operandCount rfl

theorem bodyFault?_toldAs {e : ParseError} (fault : bodyFault? ended ts = some e) :
    e.ToldAs e.kind e.cause.message := by
  cases ts with
  | nil => cases fault
  | cons t ts =>
    obtain ⟨value, span⟩ := t
    cases value with
    | opcode op => exact operandsFault?_toldAs fault
    | word name =>
      cases fault
      exact .unknownOpcode
    | _ =>
      cases fault
      exact .unexpectedToken rfl

theorem lineFault?_toldAs {e : ParseError} (fault : lineFault? ended ts = some e) :
    e.ToldAs e.kind e.cause.message := by
  rw [lineFault?.eq_def] at fault
  split at fault <;> exact bodyFault?_toldAs fault

theorem bodyFault?_eq_none_iff : bodyFault? ended ts = none ↔ IsBody (ts.map Located.value) := by
  cases ts with
  | nil => exact ⟨fun _ => .blank, fun _ => rfl⟩
  | cons t ts =>
    obtain ⟨value, span⟩ := t
    cases value with
    | opcode op =>
      rw [bodyFault?, operandsFault?_eq_none_iff, List.map_cons]
      constructor
      next => exact fun fit => .instruction (List.forall₂_map_right_iff.mpr fit)
      next =>
        intro body
        cases body with
        | instruction fits => exact List.forall₂_map_right_iff.mp fits
    | _ => exact ⟨nofun, nofun⟩

theorem lineFault?_of_unlabelled (unlabelled : Unlabelled ts) :
    lineFault? ended ts = bodyFault? ended ts := by
  rw [lineFault?]
  exact fun name span colon rest same => unlabelled name span colon rest same

theorem lineFault?_eq_none_iff : lineFault? ended ts = none ↔ IsLine (ts.map Located.value) := by
  have reads {body : List (Located Token)} :
      (∃ statements, BodyReads body statements) ↔ bodyFault? ended body = none := by
    rw [bodyFault?_eq_none_iff]
    exact ⟨fun ⟨_, reads⟩ => reads.isBody, exists_bodyReads⟩
  rw [← exists_lineReads_iff]
  by_cases label : ∃ name span colon body, ts = ⟨.word name, span⟩ :: ⟨.colon, colon⟩ :: body
  next =>
    obtain ⟨name, span, colon, body, rfl⟩ := label
    simp only [lineFault?, lineReads_label_iff, ← reads]
    constructor
    next => exact fun ⟨statements, body⟩ => ⟨_, statements, body, rfl⟩
    next => exact fun ⟨_, statements, body, _⟩ => ⟨statements, body⟩
  next =>
    have unlabelled : Unlabelled ts := fun name span colon body same =>
      label ⟨name, span, colon, body, same⟩
    simp only [lineFault?_of_unlabelled unlabelled, lineReads_iff_of_unlabelled unlabelled, ← reads]

end Operands

section Reading

open TokenStream

variable {op : Opcode} {start ended : Span} {t : Located Token}
  {taken rest : List (Located Token)} {first more : List OperandKind}
  {s s' : TokenStream} {e : ParseError} {n : Nat}

def TokenStream.EndsAt (s : TokenStream) (ended : Span) : Prop :=
  ∀ later, s.SameLine later → later.next? = none → later.here = .ok ended

theorem TokenStream.EndsAt.of_sameLine (ends : s.EndsAt ended) (same : s.SameLine s') :
    s'.EndsAt ended :=
  fun last later => ends last (same.trans later)

-- Operands that fit are taken, and then the ones of the other kinds.
theorem takeKinds_of_fit (fit : Fit first taken) (line : s.restOfLine = taken ++ rest) :
    ∃ operands s', s.SameLine s' ∧ s'.restOfLine = rest ∧
      ((takeKinds op (first ++ more)).run n).on s =
        (((takeKinds op more).run (n + first.length)).on s').map fun (result, later) =>
          (result.map fun (others, n) => (operands ++ others, n), later) := by
  induction fit generalizing s n with
  | nil =>
    refine ⟨[], s, .start s, line, ?_⟩
    simp only [List.nil_append, List.length_nil, Nat.add_zero]
    rcases ((takeKinds op more).run n).on s with _ | ⟨_ | _, _⟩ <;> rfl
  | @cons kind t first taken admitted fit ih =>
    obtain ⟨next, line⟩ := exists_next?_of_restOfLine line
    obtain ⟨operand, rfl, denotes⟩ := exists_denotes admitted
    obtain ⟨operands, s', same, left, read⟩ := @ih s.advance (n + 1) line
    refine ⟨operand :: operands, s', (sameLine_advance next).trans same, left, ?_⟩
    rw [List.cons_append, takeKinds_cons_of_denotes next denotes, read, List.length_cons,
      Nat.add_assoc, Nat.add_comm 1]
    rcases ((takeKinds op more).run _).on s' with _ | ⟨_ | _, _⟩ <;> rfl

theorem takeInstruction_error
    (read : ((takeKinds op op.signature).run n).on s = .ok (.error e, s')) :
    ((takeInstruction op).run n).on s = .ok (.error e, s') := by
  have same := @takeInstruction_on op n s
  rw [read] at same
  obtain ⟨⟨result, later⟩, taken, found⟩ := map_ok_iff.mp same
  cases result <;> cases found
  exact taken

theorem exists_takeInstruction_of_fit (fit : Fit op.signature taken)
    (line : s.restOfLine = taken ++ rest) :
    ∃ found s', s.SameLine s' ∧ s'.restOfLine = rest ∧
      ((takeInstruction op).run n).on s = .ok (.ok found, s') := by
  obtain ⟨operands, s', same, left, read⟩ := @takeKinds_of_fit op _ rest _ [] s n fit line
  have same' := @takeInstruction_on op n s
  rw [List.append_nil] at read
  rw [read] at same'
  obtain ⟨⟨result, later⟩, taken, found⟩ := map_ok_iff.mp same'
  cases result with
  | error => cases found
  | ok i =>
    obtain rfl : later = s' := congrArg Prod.snd found
    exact ⟨i, later, same, left, taken⟩

theorem parseInstruction_of_fault (ends : s.EndsAt ended)
    (fault : operandsFault? op ended s.restOfLine = some e) :
    ∃ s', (parseInstruction op start).on s = .ok (.error e, s') := by
  simp only [parseInstruction, TokenReader.on_bind]
  generalize line : s.restOfLine = ts at fault
  cases judged op.signature ts with
  | fit fit => cases (operandsFault?_of_fit fit).symm.trans fault
  | misfit same fit misfit =>
    rw [operandsFault?_of_misfit same fit misfit] at fault
    cases fault
    obtain ⟨operands, s₁, -, left, read⟩ := @takeKinds_of_fit op _ _ _ (_ :: _) s 0 fit line
    have next := (exists_next?_of_restOfLine left).1
    rw [← same, Nat.zero_add, takeKinds_cons_of_not_admits next misfit] at read
    exact ⟨s₁.advance, by rw [takeInstruction_error read]; rfl⟩
  | few same fit =>
    rw [operandsFault?_of_few same fit] at fault
    cases fault
    rw [← List.append_nil ts] at line
    obtain ⟨operands, s₁, later, left, read⟩ := @takeKinds_of_fit op _ _ _ (_ :: _) s 0 fit line
    have last := next?_eq_none_of_restOfLine left
    rw [← same, Nat.zero_add, takeKinds_cons_at_end last, ends s₁ later last, fit.length_eq] at read
    exact ⟨s₁, by rw [takeInstruction_error read]; rfl⟩
  | surplus fit =>
    rw [operandsFault?_of_surplus fit] at fault
    cases fault
    obtain ⟨found, s₁, -, left, read⟩ := @exists_takeInstruction_of_fit op _ _ s 0 fit line
    have next := (exists_next?_of_restOfLine left).1
    refine ⟨s₁, ?_⟩
    rw [read]
    simp only [Except.bind, endInstruction_of_next? next, left, fit.length_eq, List.length_append]

theorem parseBody_of_fault (ends : s.EndsAt ended)
    (fault : bodyFault? ended s.restOfLine = some e) :
    ∃ s', parseBody.on s = .ok (.error e, s') := by
  cases next : s.next? with
  | none =>
    rw [restOfLine_of_next?_eq_none next] at fault
    cases fault
  | some t =>
    rw [restOfLine_of_next? next] at fault
    obtain ⟨value, start⟩ := t
    cases value with
    | opcode op =>
      have ends' := ends.of_sameLine (sameLine_advance next)
      obtain ⟨s', read⟩ := @parseInstruction_of_fault op start ended s.advance e ends' fault
      rw [parseBody_on_opcode next, TokenReader.on_bind, read]
      exact ⟨s', rfl⟩
    | newline => exact absurd rfl (next?_eq_some_iff.mp next).1
    | _ =>
      obtain ⟨file, taken?, rest⟩ := s
      obtain ⟨-, rest, rfl⟩ := next?_eq_some_iff.mp next
      cases fault
      exact ⟨_, rfl⟩

theorem parseLine_of_fault (ends : s.EndsAt ended)
    (fault : lineFault? ended s.restOfLine = some e) :
    ∃ s', parseLine.on s = .ok (.error e, s') := by
  rcases parseLine_cases s with ⟨name, span, colon, s₁, line, same, read⟩ | ⟨unlabelled, read⟩
  next =>
    rw [line] at fault
    obtain ⟨s', body⟩ := parseBody_of_fault (ends.of_sameLine same) fault
    rw [read, TokenReader.on_bind, body]
    exact ⟨s', rfl⟩
  next =>
    rw [lineFault?_of_unlabelled unlabelled] at fault
    rw [read]
    exact parseBody_of_fault ends fault

end Reading

section Lines

open TokenStream

variable {last : Span} {t : Located Token} {tokens : List (Located Token)} {s s' : TokenStream}
  {file : UInt16}

theorem length_segments (last : Span) (tokens : List (Located Token)) :
    (segments tokens).length = (lineEnds last tokens).length := by
  induction tokens with
  | nil => rfl
  | cons t ts ih =>
    simp only [segments, lineEnds, List.length_append, List.length_map] at ih ⊢
    rw [List.splitOnP_cons_eq_if_modifyHead, List.filter_cons]
    split <;> simp [ih]

theorem lineFaults_nil (last : Span) : lineFaults last [] = [] := rfl

theorem TokenStream.SameLine.rest_eq (same : s.SameLine s') (ended : s'.next? = none) :
    s.rest = s.restOfLine ++ s'.rest := by
  induction same with
  | start s => rw [restOfLine_of_next?_eq_none ended, List.nil_append]
  | take inLine _ ih => simpa [restOfLine, inLine] using ih ended

def Closes (last : Span) (s : TokenStream) : Prop :=
  ∀ t, s.rest.getLast? = some t → t.value ≠ .newline → t.span.justAfter s.file = .ok last

theorem Closes.skipLine (closes : Closes last s) : Closes last s.skipLine := by
  intro t ends inLine
  rw [skipLine_file]
  refine closes t ?_ inLine
  rcases s.skipLine_cases with ⟨-, none⟩ | ⟨t', -, cut⟩
  next =>
    rw [none] at ends
    cases ends
  next => rw [cut, List.getLast?_append, List.getLast?_cons, ends]; rfl

-- Where a line ends, and what is wrong with it and with the lines after it.
theorem exists_line_end (closes : Closes last s) (more : s.rest ≠ []) :
    ∃ ended, s.EndsAt ended ∧ lineFaults last s.rest =
      (lineFault? ended s.restOfLine).toList ++ lineFaults last s.skipLine.rest := by
  have inLine : ∀ t ∈ s.restOfLine, t.value ≠ .newline := by
    intro t member
    simpa using List.mem_takeWhile_imp member
  have plain : s.restOfLine.filter (fun t => t.value = .newline) = [] := by
    simpa [List.filter_eq_nil_iff] using inLine
  rcases segments_cases s with ⟨whole, ended, same⟩ | ⟨t, newline, cut, same⟩
  next =>
    refine ⟨last, fun s' later stops => ?_, ?_⟩
    next =>
      have rest := later.rest_eq stops
      rw [← whole, List.self_eq_append_right] at rest
      obtain ⟨t, ends⟩ := Option.ne_none_iff_exists'.mp (List.getLast?_eq_none_iff.not.mpr more)
      have taken := later.taken?_eq stops
      rw [← whole, ends, Option.some_or] at taken
      obtain ⟨-, -, -, -, file⟩ := later.exists_taken
      simp only [here, rest, taken, file]
      exact closes t ends (inLine t (whole ▸ List.mem_of_getLast? ends))
    next =>
      have only : lineEnds last s.rest = [last] := by
        rw [lineEnds, whole, plain]
        rfl
      rw [lineFaults, same, only, ended, lineFaults_nil, List.append_nil]
      cases fault : lineFault? last s.restOfLine <;> simp [fault]
  next =>
    refine ⟨t.span, fun s' later stops => ?_, ?_⟩
    next =>
      have rest := later.rest_eq stops
      rw [cut, List.append_cancel_left_eq] at rest
      simp only [here, ← rest]
    next =>
      have first : lineEnds last s.rest = t.span :: lineEnds last s.skipLine.rest := by
        rw [lineEnds, cut, List.filter_append, plain, List.nil_append,
          List.filter_cons_of_pos (by simpa using newline)]
        rfl
      rw [lineFaults, same, first, List.zip_cons_cons]
      cases fault : lineFault? t.span s.restOfLine <;> simp [fault, lineFaults]

theorem parseLine_failure {ended : Span} (inOrder : InOrder s.restOfLine) (ends : s.EndsAt ended) :
    ∃ result later, parseLine.on s = .ok (result, later) ∧
      failures [result] = (lineFault? ended s.restOfLine).toList := by
  cases fault : lineFault? ended s.restOfLine with
  | none =>
    obtain ⟨statements, reads⟩ := exists_lineReads_iff.mpr (lineFault?_eq_none_iff.mp fault)
    obtain ⟨later, read⟩ := (parseLine_ok_iff inOrder).mpr reads
    exact ⟨_, later, read, rfl⟩
  | some e =>
    obtain ⟨later, read⟩ := parseLine_of_fault ends fault
    exact ⟨_, later, read, rfl⟩

theorem parseLines_failures (inOrder : InOrder s.rest) (closes : Closes last s) :
    ∃ results, parseLines s = .ok results ∧ failures results = lineFaults last s.rest := by
  -- By induction on the lines. What is reported of one of them has nothing to do with the others.
  induction s using TokenStream.by_lines with
  | ended s ended => exact ⟨[], parseLines_of_nil ended, by rw [ended]; rfl⟩
  | line s more ih =>
    obtain ⟨rest, lines, later⟩ := ih (inOrder.sublist s.skipLine_sublist) closes.skipLine
    obtain ⟨ended, ends, faults⟩ := exists_line_end closes more
    obtain ⟨result, s', line, fault⟩ := parseLine_failure (inOrder.sublist s.restOfLine_sublist) ends
    refine ⟨_, (parseLines_cons_ok_iff more).mpr ⟨result, s', rest, line, lines, rfl⟩, ?_⟩
    rw [faults, ← fault, ← later]
    cases result <;> rfl

theorem Arranged.closes (arranged : Arranged tokens) (file : UInt16) :
    Closes (pastLast file tokens) (.ofTokens file tokens) := by
  intro t ends _
  have member := List.mem_of_getLast? ends
  have forward := arranged.forward t member
  have columns := arranged.columns t member
  rw [← UInt32.toNat_sub_of_le _ _ forward] at columns
  rw [TokenStream.ofTokens] at ends
  simp only [pastLast, ends, Span.justAfter, Span.length, if_pos forward, ok_bind, addWords,
    if_pos columns]
  rfl

/-- Whatever the tokens are, each line that the grammar does not admit is reported by one error that
tells what is wrong with it, in order, and no other line is. -/
theorem faulty_lines_reported (arranged : Arranged tokens) (file : UInt16) :
    (segments tokens).length = (lineEnds (pastLast file tokens) tokens).length ∧
      (∀ segment ended, lineFault? ended segment = none ↔ IsLine (segment.map Located.value)) ∧
      (∀ e ∈ lineFaults (pastLast file tokens) tokens, e.ToldAs e.kind e.cause.message) ∧
      ∃ result, parseTokens tokens file = .ok result ∧ ∀ errors, result = .error errors ↔
        errors ≠ [] ∧ errors = lineFaults (pastLast file tokens) tokens := by
  obtain ⟨results, lines, faults⟩ :=
    @parseLines_failures _ (.ofTokens file tokens) arranged.toInOrder (arranged.closes file)
  have told : ∀ e ∈ lineFaults (pastLast file tokens) tokens,
      e.ToldAs e.kind e.cause.message := by
    intro e member
    obtain ⟨line, -, fault⟩ := List.mem_filterMap.mp member
    exact lineFault?_toldAs fault
  refine ⟨length_segments _ tokens, fun segment ended => lineFault?_eq_none_iff, told, _,
    bind_ok_iff.mpr ⟨results, lines, rfl⟩, fun errors => ?_⟩
  rw [TokenStream.ofTokens] at faults
  rw [← faults, map_error_iff, collect_eq]
  cases failed : failures results with
  | nil => simp
  | cons e es =>
    constructor
    next =>
      rintro ⟨⟩
      exact ⟨List.cons_ne_nil e es, rfl⟩
    next =>
      rintro ⟨-, rfl⟩
      rfl

def muddle : List (Located Token) := [
  ⟨.opcode .write, ⟨0, 0, 5, 1, 1⟩⟩, ⟨.integer 5, ⟨0, 6, 7, 1, 7⟩⟩, ⟨.newline, ⟨0, 7, 8, 1, 8⟩⟩,
  ⟨.word "FOO", ⟨0, 8, 11, 2, 1⟩⟩, ⟨.newline, ⟨0, 11, 12, 2, 4⟩⟩, ⟨.word "L", ⟨0, 12, 13, 3, 1⟩⟩,
  ⟨.colon, ⟨0, 13, 14, 3, 2⟩⟩, ⟨.opcode .push, ⟨0, 15, 19, 3, 4⟩⟩, ⟨.stack 0, ⟨0, 20, 22, 3, 9⟩⟩,
  ⟨.register (.user 0), ⟨0, 23, 26, 3, 12⟩⟩, ⟨.newline, ⟨0, 26, 27, 3, 15⟩⟩,
  ⟨.integer 3, ⟨0, 27, 28, 4, 1⟩⟩, ⟨.newline, ⟨0, 28, 29, 4, 2⟩⟩,
  ⟨.opcode .set, ⟨0, 29, 32, 5, 1⟩⟩, ⟨.register (.user 0), ⟨0, 33, 36, 5, 5⟩⟩,
  ⟨.integer 1, ⟨0, 37, 38, 5, 9⟩⟩, ⟨.integer 2, ⟨0, 39, 40, 5, 11⟩⟩,
  ⟨.newline, ⟨0, 40, 41, 5, 12⟩⟩, ⟨.opcode (.arith .add), ⟨0, 41, 44, 6, 1⟩⟩,
  ⟨.register (.user 0), ⟨0, 45, 48, 6, 5⟩⟩, ⟨.newline, ⟨0, 48, 49, 6, 8⟩⟩,
  ⟨.opcode .jump, ⟨0, 49, 52, 7, 1⟩⟩]

theorem muddle_reported :
    Arranged muddle ∧ ∃ errors, parseTokens muddle 0 = .ok (.error errors) ∧
      errors.map ParseError.kind = [.unknownOpcode, .unexpectedToken, .unexpectedToken,
        .operandCount, .operandCount, .operandCount] ∧
      errors.map ParseError.text =
        ["unknown opcode `FOO` at 2:1",
          "expected register or integer for operand 1 of PUSH, found `S0` at 3:9",
          "unexpected `3` at start of statement at 4:1",
          "SET expects 2 operands, found 3 at 5:11",
          "ADD expects 2 operands, found 1 at 6:8",
          "JMP expects 1 operand, found 0 at 7:4"] := by
  have arranged : Arranged muddle := {
    file := by decide
    ordered := by decide
    forward := by decide
    columns := by decide }
  obtain ⟨-, -, -, result, parsed, failed⟩ := faulty_lines_reported arranged 0
  have faults := (failed _).mpr ⟨by decide, rfl⟩
  exact ⟨arranged, _, faults ▸ parsed, by decide +kernel, by decide +kernel⟩

end Lines

end PuzzleMachine
