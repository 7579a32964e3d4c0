import PuzzleMachine.Proofs.Grammar
import PuzzleMachine.Proofs.Scan

set_option autoImplicit false

namespace PuzzleMachine

-- Tokens of one file, none of which starts or stops before one that precedes it.
structure InOrder (tokens : List (Located Token)) : Prop where
  file : ∀ t ∈ tokens, ∀ t' ∈ tokens, t.span.file = t'.span.file
  ordered : tokens.Pairwise fun a b => a.span.start ≤ b.span.start ∧ a.span.stop ≤ b.span.stop

/-- Tokens as they are arranged in a file. -/
structure Arranged (tokens : List (Located Token)) : Prop extends InOrder tokens where
  forward : ∀ t ∈ tokens, t.span.start ≤ t.span.stop
  columns : ∀ t ∈ tokens,
    t.span.column.toNat + (t.span.stop.toNat - t.span.start.toNat) < UInt32.size

namespace InOrder

variable {tokens ts : List (Located Token)} {t last : Located Token}

theorem sublist (inOrder : InOrder tokens) (sub : ts.Sublist tokens) : InOrder ts := by
  refine ⟨fun t member t' member' => ?_, inOrder.ordered.sublist sub⟩
  exact inOrder.file t (sub.subset member) t' (sub.subset member')

theorem tail (inOrder : InOrder (t :: ts)) : InOrder ts :=
  inOrder.sublist (List.sublist_cons_self t ts)

theorem merge_last (inOrder : InOrder (t :: ts)) (ends : ts.getLast? = some last) :
    t.span.merge (lastSpan t.span ts) = .ok { t.span with stop := last.span.stop } := by
  have member := List.mem_of_getLast? ends
  have same := inOrder.file t List.mem_cons_self last (List.mem_cons_of_mem t member)
  obtain ⟨start, stop⟩ := (List.pairwise_cons.mp inOrder.ordered).1 last member
  have stops : max t.span.stop last.span.stop = last.span.stop := if_pos stop
  simp only [lastSpan, ends, Option.map_some, Option.getD_some, Span.merge, if_pos same,
    Span.cover, if_pos start, stops]

theorem exists_merge (inOrder : InOrder (t :: ts)) :
    ∃ span, t.span.merge (lastSpan t.span ts) = .ok span := by
  cases ends : ts.getLast? with
  | none =>
    simp only [lastSpan, ends, Option.map_none, Option.getD_none, Span.merge, if_true]
    exact ⟨_, rfl⟩
  | some last => exact ⟨_, inOrder.merge_last ends⟩

end InOrder

namespace Arranged

variable {tokens : List (Located Token)} {t : Located Token}

theorem justAfter (arranged : Arranged tokens) (member : t ∈ tokens) (file : UInt16) :
    ∃ span, t.span.justAfter file = .ok span := by
  have forward := arranged.forward t member
  have column := arranged.columns t member
  have length : (t.span.stop - t.span.start).toNat = t.span.stop.toNat - t.span.start.toNat :=
    UInt32.toNat_sub_of_le _ _ forward
  rw [← length] at column
  simp only [Span.justAfter, Span.length, if_pos forward, ok_bind, addWords, if_pos column]
  exact ⟨_, rfl⟩

end Arranged

section Bodies

variable {s : TokenStream} {statements : List Statement} {op : Opcode} {start : Span}
  {t : Located Token}

theorem parseBody_on_end (ended : s.next? = none) : parseBody.on s = .ok (.ok [], s) := by
  obtain ⟨file, taken?, rest⟩ := s
  cases rest with
  | nil => rfl
  | cons t rest =>
    obtain ⟨value, span⟩ := t
    cases value <;> first | rfl | cases ended

theorem parseBody_on_opcode (next : s.next? = some ⟨.opcode op, start⟩) :
    parseBody.on s =
      (parseInstruction op start >>= fun i => pure [Statement.instruction i]).on s.advance := by
  obtain ⟨file, taken?, rest⟩ := s
  obtain ⟨-, rest, rfl⟩ := TokenStream.next?_eq_some_iff.mp next
  rfl

theorem parseBody_on_other (next : s.next? = some t) (other : ∀ op, t.value ≠ .opcode op) :
    ∃ e, parseBody.on s = .ok (.error e, s) := by
  obtain ⟨file, taken?, rest⟩ := s
  obtain ⟨inLine, rest, rfl⟩ := TokenStream.next?_eq_some_iff.mp next
  obtain ⟨value, span⟩ := t
  cases value with
  | opcode op => exact absurd rfl (other op)
  | newline => exact absurd rfl inLine
  | _ => exact ⟨_, rfl⟩

theorem parseBody_ok_iff (inOrder : InOrder s.restOfLine) :
    (∃ later, parseBody.on s = .ok (.ok statements, later)) ↔
      BodyReads s.restOfLine statements := by
  cases next : s.next? with
  | none =>
    rw [parseBody_on_end next, TokenStream.restOfLine_of_next?_eq_none next]
    constructor
    · rintro ⟨later, read⟩
      cases read
      exact .blank
    · intro reads
      cases reads
      exact ⟨s, rfl⟩
  | some t =>
    have line := TokenStream.restOfLine_of_next? next
    obtain ⟨value, start⟩ := t
    by_cases keyword : ∃ op, value = .opcode op
    · obtain ⟨op, rfl⟩ := keyword
      have opened := TokenStream.taken?_of_next? next
      rw [line] at inOrder
      rw [parseBody_on_opcode next, line]
      constructor
      · rintro ⟨later, read⟩
        obtain ⟨⟨i, span⟩, s', read, same⟩ := TokenReader.bind_on_ok_iff.mp read
        cases same
        obtain ⟨rfl, denotes, merged⟩ := (parseInstruction_ok_iff opened).mp ⟨_, read⟩
        obtain ⟨last, ends⟩ := exists_last_of_denotes denotes
        have place : span = { start with stop := last.span.stop } :=
          Except.ok.inj (merged.symm.trans (inOrder.merge_last ends))
        rw [place]
        exact .instruction denotes ends
      · intro reads
        cases reads with
        | @instruction i _ _ last denotes ends =>
          have place : start.merge (lastSpan start s.advance.restOfLine) =
            .ok { start with stop := last.span.stop } := inOrder.merge_last ends
          have parsed := @parseInstruction_ok_iff _ start s.advance
            ⟨i, { start with stop := last.span.stop }⟩ opened
          obtain ⟨s', read⟩ := parsed.mpr ⟨rfl, denotes, place⟩
          exact ⟨s', TokenReader.bind_on_ok_iff.mpr ⟨_, s', read, rfl⟩⟩
    · obtain ⟨e, unread⟩ := parseBody_on_other next fun op same => keyword ⟨op, same⟩
      rw [unread, line]
      constructor
      · rintro ⟨later, read⟩
        cases read
      · intro reads
        cases reads
        exact absurd ⟨_, rfl⟩ keyword

theorem exists_parseBody (inOrder : InOrder s.restOfLine)
    (placed : ∀ later, s.SameLine later → ∃ span, later.here = .ok span) :
    ∃ outcome, parseBody.on s = .ok outcome := by
  cases next : s.next? with
  | none => exact ⟨_, parseBody_on_end next⟩
  | some t =>
    obtain ⟨value, start⟩ := t
    by_cases keyword : ∃ op, value = .opcode op
    · obtain ⟨op, rfl⟩ := keyword
      rw [TokenStream.restOfLine_of_next? next] at inOrder
      obtain ⟨span, merged⟩ := inOrder.exists_merge
      have later : ∀ later, s.advance.SameLine later → ∃ span, later.here = .ok span :=
        fun later same => placed later ((TokenStream.sameLine_advance next).trans same)
      obtain ⟨⟨result, s'⟩, read⟩ :=
        exists_parseInstruction (TokenStream.taken?_of_next? next) later merged
      rw [parseBody_on_opcode next, TokenReader.on_bind, read]
      cases result <;> exact ⟨_, rfl⟩
    · obtain ⟨e, unread⟩ := parseBody_on_other next fun op same => keyword ⟨op, same⟩
      exact ⟨_, unread⟩

end Bodies

section Lines

variable {s : TokenStream} {statements : List Statement}

theorem parseLine_cases (s : TokenStream) :
    (∃ name span colon s', s.restOfLine = ⟨.word name, span⟩ :: ⟨.colon, colon⟩ :: s'.restOfLine ∧
      s.SameLine s' ∧
      parseLine.on s = (parseBody >>= fun body => pure (.label ⟨name, span⟩ :: body)).on s') ∨
    Unlabelled s.restOfLine ∧ parseLine.on s = parseBody.on s := by
  by_cases label : ∃ name span colon tail, s.rest = ⟨.word name, span⟩ :: ⟨.colon, colon⟩ :: tail
  · obtain ⟨name, span, colon, tail, same⟩ := label
    obtain ⟨file, taken?, _⟩ := s
    cases same
    refine .inl ⟨name, span, colon, ⟨file, some ⟨.colon, colon⟩, tail⟩, ?_, ?_, rfl⟩
    · simp [TokenStream.restOfLine]
    · exact .take (by simp) (.take (by simp) (.start _))
  · have unlabelled : parseLabel.on s = .ok (.ok [], s) := by
      simp only [parseLabel, TokenReader.on_bind, TokenReader.on_get, Except.bind]
      split
      next same => exact absurd ⟨_, _, _, _, same⟩ label
      next => rfl
    refine .inr ⟨fun name span colon rest same => label ?_, ?_⟩
    · have taken : s.restOfLine <+: s.rest := List.takeWhile_prefix _
      obtain ⟨tail, whole⟩ := taken
      rw [same] at whole
      exact ⟨name, span, colon, rest ++ tail, whole.symm⟩
    · simp only [parseLine, TokenReader.on_bind, unlabelled, Except.bind, List.nil_append]
      rcases parseBody.on s with _ | ⟨_ | _, s'⟩ <;> rfl

theorem parseLine_ok_iff (inOrder : InOrder s.restOfLine) :
    (∃ later, parseLine.on s = .ok (.ok statements, later)) ↔
      LineReads s.restOfLine statements := by
  rcases parseLine_cases s with ⟨name, span, colon, s', line, -, read⟩ | ⟨unlabelled, read⟩
  · rw [line] at inOrder
    rw [line, read, lineReads_label_iff]
    simp only [TokenReader.bind_on_ok_iff, ← parseBody_ok_iff inOrder.tail.tail]
    constructor
    · rintro ⟨later, body, s'', read, same⟩
      cases same
      exact ⟨body, ⟨_, read⟩, rfl⟩
    · rintro ⟨body, ⟨later, read⟩, rfl⟩
      exact ⟨later, body, later, read, rfl⟩
  · rw [read, lineReads_iff_of_unlabelled unlabelled]
    exact parseBody_ok_iff inOrder

theorem exists_parseLine (inOrder : InOrder s.restOfLine)
    (placed : ∀ later, s.SameLine later → ∃ span, later.here = .ok span) :
    ∃ outcome, parseLine.on s = .ok outcome := by
  rcases parseLine_cases s with ⟨name, span, colon, s', line, same, read⟩ | ⟨-, read⟩
  · rw [line] at inOrder
    obtain ⟨⟨result, s''⟩, body⟩ := exists_parseBody inOrder.tail.tail
      fun later same' => placed later (same.trans same')
    rw [read, TokenReader.on_bind, body]
    cases result <;> exact ⟨_, rfl⟩
  · rw [read]
    exact exists_parseBody inOrder placed

end Lines

section Units

variable {s : TokenStream} {tokens : List (Located Token)} {file : UInt16}

theorem parseLines_of_nil (ended : s.rest = []) : parseLines s = .ok [] := by
  rw [parseLines, dif_pos ended]

theorem parseLines_of_ne_nil (more : s.rest ≠ []) :
    parseLines s = (parseLine.on s).bind fun (result, _) =>
      (parseLines s.skipLine).map (result :: ·) := by
  rw [parseLines, dif_neg more]
  split
  next b unread =>
    rw [nextLine_eq] at unread
    rw [map_error_iff.mp unread]
    rfl
  next result later taken =>
    cases skipLine_of_nextLine taken
    rw [nextLine_eq] at taken
    obtain ⟨⟨_, _⟩, taken, same⟩ := map_ok_iff.mp taken
    cases same
    rw [taken]
    cases parseLines s.skipLine <;> rfl

theorem parseLines_cons_ok_iff {results : List (Except ParseError (List Statement))}
    (more : s.rest ≠ []) :
    parseLines s = .ok results ↔ ∃ result later rest, parseLine.on s = .ok (result, later) ∧
      parseLines s.skipLine = .ok rest ∧ results = result :: rest := by
  rw [parseLines_of_ne_nil more]
  cases parseLine.on s with
  | error => simp [Except.bind]
  | ok reached =>
    obtain ⟨result, later⟩ := reached
    simp only [Except.bind, map_ok_iff]
    constructor
    · rintro ⟨rest, lines, rfl⟩
      exact ⟨result, later, rest, rfl, lines, rfl⟩
    · rintro ⟨_, _, rest, same, lines, rfl⟩
      cases same
      exact ⟨rest, lines, rfl⟩

theorem parseLines_ok_iff {statements : List Statement} (inOrder : InOrder s.rest) :
    (∃ parts : List (List Statement),
        parseLines s = .ok (parts.map .ok) ∧ statements = parts.flatten) ↔
      UnitReads (segments s.rest) statements := by
  induction s using TokenStream.by_lines generalizing statements with
  | ended s ended =>
    rw [ended, segments, List.splitOnP_nil, unitReads_blank_iff, parseLines_of_nil ended]
    constructor
    · rintro ⟨parts, same, rfl⟩
      rw [List.map_eq_nil_iff.mp (Except.ok.inj same).symm, List.flatten_nil]
    · rintro rfl
      exact ⟨[], rfl, rfl⟩
  | line s more ih =>
    have here {part : List Statement} :=
      @parseLine_ok_iff s part (inOrder.sublist s.restOfLine_sublist)
    have later {statements : List Statement} :=
      @ih statements (inOrder.sublist s.skipLine_sublist)
    rw [unitReads_segments_iff]
    constructor
    · rintro ⟨parts, read, rfl⟩
      obtain ⟨result, s', rest, line, lines, same⟩ := (parseLines_cons_ok_iff more).mp read
      obtain ⟨part, parts, rfl, rfl, rfl⟩ := List.map_eq_cons_iff.mp same
      exact ⟨part, parts.flatten, here.mp ⟨s', line⟩, later.mp ⟨parts, lines, rfl⟩, rfl⟩
    · rintro ⟨part, statements, line, lines, rfl⟩
      obtain ⟨s', read⟩ := here.mpr line
      obtain ⟨parts, rest, rfl⟩ := later.mpr lines
      exact ⟨part :: parts, (parseLines_cons_ok_iff more).mpr ⟨_, s', _, read, rest, rfl⟩, rfl⟩

-- Behind a token of a line there is a place that can be told.
def HasRoom (tokens : List (Located Token)) : Prop :=
  ∀ t ∈ tokens, t.value ≠ .newline → ∀ file, ∃ span, t.span.justAfter file = .ok span

theorem Arranged.hasRoom (arranged : Arranged tokens) : HasRoom tokens :=
  fun _ member _ => arranged.justAfter member

theorem exists_here (placed : HasRoom s.rest) (more : s.rest ≠ []) (later : TokenStream)
    (same : s.SameLine later) : ∃ span, later.here = .ok span := by
  rcases same.here_cases more with ⟨line, -, t, -, here⟩ | ⟨-, t, member, inLine, here⟩
  · exact ⟨t.span, here⟩
  · rw [here]
    exact placed t member inLine s.file

theorem exists_parseLines (inOrder : InOrder s.rest) (placed : HasRoom s.rest) :
    ∃ results, parseLines s = .ok results := by
  induction s using TokenStream.by_lines with
  | ended s ended => exact ⟨[], parseLines_of_nil ended⟩
  | line s more ih =>
    obtain ⟨⟨result, later⟩, line⟩ :=
      exists_parseLine (inOrder.sublist s.restOfLine_sublist) (exists_here placed more)
    obtain ⟨rest, lines⟩ := ih (inOrder.sublist s.skipLine_sublist) fun t member =>
      placed t (s.skipLine_sublist.subset member)
    exact ⟨_, (parseLines_cons_ok_iff more).mpr ⟨result, later, rest, line, lines, rfl⟩⟩

theorem parseTokens_ok_iff (inOrder : InOrder tokens) {u : ParsedUnit} :
    parseTokens tokens file = .ok (.ok u) ↔
      u.file = file ∧ UnitReads (segments tokens) u.statements := by
  have reads := @parseLines_ok_iff (.ofTokens file tokens) u.statements inOrder
  rw [TokenStream.ofTokens] at reads
  rw [← reads, parseTokens, bind_ok_iff]
  constructor
  · rintro ⟨results, lines, same⟩
    obtain ⟨parts, collected, rfl⟩ := map_ok_iff.mp (Except.ok.inj same)
    cases collect_ok collected
    exact ⟨rfl, parts, lines, rfl⟩
  · rintro ⟨rfl, parts, lines, statements⟩
    refine ⟨_, lines, ?_⟩
    obtain ⟨file, _⟩ := u
    cases statements
    rw [collect_map_ok]
    rfl

theorem exists_parseTokens (inOrder : InOrder tokens) (placed : HasRoom tokens) (file : UInt16) :
    ∃ result, parseTokens tokens file = .ok result := by
  obtain ⟨results, lines⟩ := @exists_parseLines (.ofTokens file tokens) inOrder placed
  exact ⟨_, bind_ok_iff.mpr ⟨results, lines, rfl⟩⟩

/-- Tokens are always read to an end, without error if they are lines of the grammar, and then as
the statements of these lines, one after the other. -/
theorem parse_accepts_grammar (arranged : Arranged tokens) (file : UInt16) :
    ∃ result, parseTokens tokens file = .ok result ∧
      ((∃ u, result = .ok u) ↔
        ∀ segment ∈ segments tokens, IsLine (segment.map Located.value)) ∧
      ∀ u, result = .ok u ↔ u.file = file ∧ UnitReads (segments tokens) u.statements := by
  obtain ⟨result, parsed⟩ := exists_parseTokens arranged.toInOrder arranged.hasRoom file
  have reads (u : ParsedUnit) :
      result = .ok u ↔ u.file = file ∧ UnitReads (segments tokens) u.statements := by
    rw [← parseTokens_ok_iff arranged.toInOrder, parsed, Except.ok.injEq]
  refine ⟨result, parsed, ?_, reads⟩
  rw [← exists_unitReads_iff]
  constructor
  · rintro ⟨u, read⟩
    exact ⟨u.statements, ((reads u).mp read).2⟩
  · rintro ⟨statements, related⟩
    exact ⟨⟨file, statements⟩, (reads _).mpr ⟨rfl, related⟩⟩

def pusher : List (Located Token) :=
  [⟨.word "loop", ⟨0, 0, 4, 1, 1⟩⟩, ⟨.colon, ⟨0, 4, 5, 1, 5⟩⟩, ⟨.opcode .push, ⟨0, 6, 10, 1, 7⟩⟩,
    ⟨.register .inputLength, ⟨0, 11, 14, 1, 12⟩⟩, ⟨.stack 0, ⟨0, 15, 17, 1, 16⟩⟩,
    ⟨.newline, ⟨0, 17, 18, 1, 18⟩⟩, ⟨.opcode .jump, ⟨0, 18, 21, 2, 1⟩⟩,
    ⟨.word "loop", ⟨0, 22, 26, 2, 5⟩⟩]

theorem pusher_accepted :
    ∃ u, parseTokens pusher 0 = .ok (.ok u) ∧ UnitReads (segments pusher) u.statements := by
  have arranged : Arranged pusher := ⟨⟨by decide, by decide⟩, by decide, by decide⟩
  have cut : segments pusher = [pusher.take 5, pusher.drop 6] := by decide
  have lines : ∀ segment ∈ segments pusher, IsLine (segment.map Located.value) := by
    rw [cut]
    refine List.forall_mem_cons.mpr ⟨?_, List.forall_mem_singleton.mpr ?_⟩
    · exact .labelled "loop" (.instruction (.cons rfl (.cons rfl .nil)))
    · exact .unlabelled (.instruction (.cons rfl .nil))
  obtain ⟨result, parsed, accepted, reads⟩ := parse_accepts_grammar arranged 0
  obtain ⟨u, rfl⟩ := accepted.mpr lines
  exact ⟨u, parsed, ((reads u).mp rfl).2⟩

end Units
end PuzzleMachine
