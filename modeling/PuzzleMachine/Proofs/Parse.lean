import PuzzleMachine.Proofs.Labels
import PuzzleMachine.Proofs.Reading

set_option autoImplicit false

namespace PuzzleMachine

open Statement

structure Written (tokens : List (Located Token)) (statements : List Statement) : Prop where
  labels : ((labels statements).map Located.span).Sublist (tokens.map Located.span)
  keywords : ∀ i, .instruction i ∈ statements →
    ∃ t ∈ tokens, t.value = .opcode i.value.opcode ∧ i.span.start ≤ t.span.start

namespace Written

variable {tokens tokens' : List (Located Token)} {statements statements' : List Statement}

theorem nil : Written tokens [] :=
  ⟨List.nil_sublist _, fun _ member => by simp at member⟩

theorem append (first : Written tokens statements) (second : Written tokens' statements') :
    Written (tokens ++ tokens') (statements ++ statements') := by
  refine ⟨?_, fun i member => ?_⟩
  · rw [labels_append, List.map_append, List.map_append]
    exact first.labels.append second.labels
  · rcases List.mem_append.mp member with left | right
    · obtain ⟨t, inside, keyword⟩ := first.keywords i left
      exact ⟨t, List.mem_append_left _ inside, keyword⟩
    · obtain ⟨t, inside, keyword⟩ := second.keywords i right
      exact ⟨t, List.mem_append_right _ inside, keyword⟩

theorem mono (written : Written tokens statements) (sub : tokens.Sublist tokens') :
    Written tokens' statements := by
  refine ⟨written.labels.trans (sub.map _), fun i member => ?_⟩
  obtain ⟨t, inside, keyword⟩ := written.keywords i member
  exact ⟨t, sub.subset inside, keyword⟩

theorem label {name : String} {span : Span} (written : Written tokens statements) :
    Written (⟨.word name, span⟩ :: tokens) (.label ⟨name, span⟩ :: statements) := by
  refine ⟨?_, fun i member => ?_⟩
  · exact written.labels.cons_cons span
  · obtain ⟨t, inside, keyword⟩ := written.keywords i (by simpa using member)
    exact ⟨t, List.mem_cons_of_mem _ inside, keyword⟩

end Written

section Reads

variable {ts : List (Located Token)} {statements : List Statement}

theorem BodyReads.written (reads : BodyReads ts statements) : Written ts statements := by
  cases reads with
  | blank => exact .nil
  | instruction =>
    refine ⟨List.nil_sublist _, fun i member => ?_⟩
    cases List.mem_singleton.mp member
    exact ⟨_, List.mem_cons_self, rfl, UInt32.le_refl _⟩

theorem LineReads.written (reads : LineReads ts statements) : Written ts statements := by
  cases reads with
  | unlabelled body => exact body.written
  | labelled name span colon body =>
    exact (body.written.mono (List.sublist_cons_self _ _)).label

theorem UnitReads.written {cut : List (List (Located Token))} (reads : UnitReads cut statements) :
    Written cut.flatten statements := by
  induction reads with
  | nil => exact .nil
  | cons line _ ih => exact line.written.append ih

theorem segments_sublist (tokens : List (Located Token)) :
    (segments tokens).flatten.Sublist tokens := by
  induction tokens with
  | nil => exact List.Sublist.refl _
  | cons t ts ih =>
    rw [segments, List.splitOnP_cons_eq_if_modifyHead, ← segments]
    split_ifs
    · exact ih.cons t
    · cases cut : segments ts with
      | nil => exact absurd cut (List.splitOnP_ne_nil _ ts)
      | cons segment rest =>
        rw [cut] at ih
        exact ih.cons_cons t

end Reads

theorem parse_ok {sources : SourceMap} {id : UInt16} {u : ParsedUnit}
    (parsed : parse sources id = .ok (.ok u)) :
    ∃ tokens, scan sources id = .ok (.ok tokens) ∧ parseTokens tokens id = .ok (.ok u) := by
  obtain ⟨scanned, scan_eq, rest⟩ := bind_ok_iff.mp parsed
  cases scanned with
  | error ds => cases rest
  | ok tokens =>
    obtain ⟨result, parsed, same⟩ := bind_ok_iff.mp rest
    cases result with
    | error es => cases same
    | ok u' =>
      cases same
      exact ⟨tokens, scan_eq, parsed⟩

theorem parse_error {sources : SourceMap} {id : UInt16} {ds : List Diagnostic}
    (parsed : parse sources id = .ok (.error ds)) :
    scan sources id = .ok (.error ds) ∨ ∃ tokens results, scan sources id = .ok (.ok tokens) ∧
      parseLines (.ofTokens id tokens) = .ok results ∧ failures results ≠ [] ∧
        ds = (failures results).map ParseError.diagnostic := by
  obtain ⟨scanned, scan_eq, rest⟩ := bind_ok_iff.mp parsed
  cases scanned with
  | error ds =>
    cases rest
    exact .inl scan_eq
  | ok tokens =>
    obtain ⟨result, read, same⟩ := bind_ok_iff.mp rest
    obtain ⟨results, lines, collected⟩ := bind_ok_iff.mp read
    cases result with
    | ok => cases same
    | error es =>
      cases same
      obtain ⟨rfl, some⟩ := collect_error (map_error_iff.mp (Except.ok.inj collected))
      exact .inr ⟨tokens, results, scan_eq, lines, some, rfl⟩

theorem parse_congr {sources sources' : SourceMap} {id : UInt16}
    (same : sources.get? id = sources'.get? id) : parse sources id = parse sources' id := by
  have spans : sources.span id = sources'.span id := by
    funext start stop
    simp only [SourceMap.span, SourceMap.file, same]
  have located : Lexeme.locate sources id = Lexeme.locate sources' id := by
    funext p
    obtain ⟨l, start, stop⟩ := p
    simp only [Lexeme.locate, spans]
  simp only [parse, scan, same, located]

theorem Laid.inOrder {id : UInt16} {tokens : List (Located Token)} (laid : Laid id tokens) :
    InOrder tokens := by
  refine ⟨fun t member t' member' => (laid.file t member).trans (laid.file t' member').symm, ?_⟩
  refine laid.ordered.imp_of_mem ?_
  intro a b inside inside' after
  have first := laid.nonempty a inside
  have second := laid.nonempty b inside'
  rw [UInt32.le_iff_toNat_le, UInt32.le_iff_toNat_le]
  omega

theorem Laid.starts_lt {id : UInt16} {tokens : List (Located Token)} (laid : Laid id tokens) :
    (tokens.map Located.span).Pairwise fun a b => a.start.toNat < b.start.toNat := by
  refine List.pairwise_map.mpr (laid.ordered.imp_of_mem ?_)
  intro a b inside _ after
  exact Nat.lt_of_lt_of_le (laid.nonempty a inside) after

def ParsedUnit.ReadFrom (u : ParsedUnit) (text : String) : Prop :=
  ∃ (sources : SourceMap) (file : SourceFile), sources.get? u.file = some file ∧
    file.text = text ∧ parse sources u.file = .ok (.ok u)

-- Offsets are words, so this is where those of the text are not wrapped.
def ParsedUnit.FromSmallText (u : ParsedUnit) : Prop :=
  ∃ text, u.ReadFrom text ∧ text.utf8ByteSize < UInt32.size

namespace ParsedUnit.FromSmallText

variable {u : ParsedUnit}

theorem laid (read : u.FromSmallText) : ∃ tokens, Laid u.file tokens ∧ Written tokens u.statements := by
  obtain ⟨_, ⟨sources, file, found, rfl, parsed⟩, bound⟩ := read
  obtain ⟨tokens, scanned, parsed⟩ := parse_ok parsed
  have laid := scan_laid found bound scanned
  obtain ⟨-, reads⟩ := (parseTokens_ok_iff laid.inOrder).mp parsed
  exact ⟨tokens, laid, reads.written.mono (segments_sublist tokens)⟩

theorem label_file (read : u.FromSmallText) {l : Located String} (member : l ∈ labels u.statements) :
    l.span.file = u.file := by
  obtain ⟨tokens, laid, written⟩ := read.laid
  obtain ⟨t, inside, same⟩ :=
    List.mem_map.mp (written.labels.subset (List.mem_map_of_mem member))
  rw [← same]
  exact laid.file t inside

theorem label_spans_nodup (read : u.FromSmallText) :
    ((labels u.statements).map Located.span).Nodup := by
  obtain ⟨tokens, laid, written⟩ := read.laid
  refine (laid.starts_lt.sublist written.labels).imp ?_
  rintro a _ before rfl
  exact Nat.lt_irrefl _ before

theorem keyword_fits (read : u.FromSmallText) {i : Located SourceInstruction}
    (member : .instruction i ∈ u.statements) :
    i.span.start.toNat + i.value.opcode.name.utf8ByteSize < UInt32.size := by
  obtain ⟨tokens, laid, written⟩ := read.laid
  obtain ⟨t, inside, keyword, before⟩ := written.keywords i member
  -- The instruction starts no later than its keyword, which stops within the file.
  have length := laid.keyword t inside _ keyword
  have bound := t.span.stop.toNat_lt_size
  have start : i.span.start.toNat ≤ t.span.start.toNat := before
  omega

end ParsedUnit.FromSmallText

end PuzzleMachine
