import PuzzleMachine.Proofs.Leniency
import PuzzleMachine.Proofs.Snippets

set_option autoImplicit false

namespace PuzzleMachine

open Statement Text

section Places

variable {hw : Hardware} {declared : List String} {earlier : List (Located String)}
  {program : List Statement} {p : Place} {v : Violation} {d : Diagnostic} {t : Located Token}

inductive Place.In : Place → Statement → Prop where
  | declaration {earlier : List (Located String)} {l : Located String} :
      In (.declaration earlier l) (.label l)
  | opcode {i : Located SourceInstruction} : In (.opcode i) (.instruction i)
  | operand {i : Located SourceInstruction} {o : SourceOperand} (inside : o ∈ i.value.operands) :
      In (.operand o) (.instruction i)

inductive Place.At : Place → Located Token → Prop where
  | declaration {earlier : List (Located String)} {l : Located String} :
      At (.declaration earlier l) ⟨.word l.value, l.span⟩
  | opcode {i : Located SourceInstruction} : At (.opcode i) ⟨.opcode i.value.opcode, keywordSpan i⟩
  | operand {o : SourceOperand} {t : Located Token} (denotes : Denotes t o) : At (.operand o) t

/-- The diagnostic is of a kind that is about such a token, and its message names this one. -/
inductive Diagnostic.Blames (d : Diagnostic) : Token → Prop where
  | opcode {op : Opcode} (kind : d.kind = .opcodeNotPermitted)
      (message : d.message = s!"opcode {op.name} is not permitted on this hardware") :
      d.Blames (.opcode op)
  | missingRegister {r : Register} (kind : d.kind = .invalidRegister)
      (message : d.message = s!"invalid reference to register {r.text}") : d.Blames (.register r)
  | readOnlyRegister {r : Register} (kind : d.kind = .readOnlyRegister)
      (message : d.message = s!"cannot write to read-only register {r.text}") :
      d.Blames (.register r)
  | missingStack {n : UInt64} (kind : d.kind = .invalidStack)
      (message : d.message = s!"invalid reference to stack {stackText n}") : d.Blames (.stack n)
  | unknownLabel {name : String} (kind : d.kind = .undefinedLabel)
      (message : d.message = s!"undefined label {name}") : d.Blames (.word name)
  | repeatedLabel {name : String} (kind : d.kind = .duplicateLabel)
      (message : d.message = s!"duplicate label {name}") : d.Blames (.word name)

theorem Place.At.span_eq (here : p.At t) : t.span = p.mark := by
  cases here with
  | operand denotes => exact denotes.span_eq
  | _ => rfl

theorem Place.At.blames (here : p.At t) (violated : p.violation? hw declared = some v)
    (told : v.diagnostic = .ok d) : d.Blames t.value := by
  cases here with
  | declaration =>
    obtain ⟨first, -, rfl⟩ := Option.map_eq_some_iff.mp violated
    cases told
    exact .repeatedLabel rfl rfl
  | opcode =>
    rw [Place.violation?] at violated
    split at violated <;> cases violated
    obtain ⟨span, -, same⟩ := bind_ok_iff.mp told
    cases same
    exact .opcode rfl rfl
  | operand denotes =>
    cases denotes with
    | dest r =>
      cases r <;> simp only [Place.violation?] at violated <;> (try split at violated) <;>
        cases violated <;> cases told
      all_goals first | exact .missingRegister rfl rfl | exact .readOnlyRegister rfl rfl
    | register r =>
      cases r <;> simp only [Place.violation?] at violated <;> (try split at violated) <;>
        cases violated <;> cases told
      all_goals exact .missingRegister rfl rfl
    | literal => cases violated
    | stack =>
      rw [Place.violation?] at violated
      split at violated <;> cases violated
      cases told
      exact .missingStack rfl rfl
    | target =>
      rw [Place.violation?] at violated
      split at violated <;> cases violated
      cases told
      exact .unknownLabel rfl rfl

theorem mem_places (member : p ∈ places earlier program) : ∃ s ∈ program, p.In s := by
  induction program generalizing earlier with
  | nil => cases member
  | cons s rest ih =>
    have later {earlier : List (Located String)} (member : p ∈ places earlier rest) :
        ∃ s' ∈ s :: rest, p.In s' := by
      obtain ⟨s', inside, here⟩ := ih member
      exact ⟨s', List.mem_cons_of_mem s inside, here⟩
    cases s with
    | label l =>
      rcases List.mem_cons.mp member with rfl | member
      · exact ⟨_, List.mem_cons_self, .declaration⟩
      · exact later member
    | instruction i =>
      rcases List.mem_append.mp member with here | member
      · refine ⟨_, List.mem_cons_self, ?_⟩
        rcases List.mem_cons.mp here with rfl | operand
        · exact .opcode
        · obtain ⟨o, inside, rfl⟩ := List.mem_map.mp operand
          exact .operand inside
      · exact later member

-- The labels of a program are those before a declaration, its own one and those behind it.
theorem labels_of_mem_places {before : List (Located String)} {l : Located String}
    (member : .declaration before l ∈ places earlier program) :
    ∃ after, earlier ++ labels program = before ++ l :: after := by
  induction program generalizing earlier with
  | nil => cases member
  | cons s rest ih =>
    cases s with
    | label l' =>
      rcases List.mem_cons.mp member with same | later
      · cases same
        exact ⟨labels rest, rfl⟩
      · obtain ⟨after, same⟩ := ih later
        exact ⟨after, by simpa using same⟩
    | instruction i =>
      exact ih (by simpa [places] using member)

end Places

section Tokens

variable {id : UInt16} {ts : List (Located Token)} {cut : List (List (Located Token))}
  {statements : List Statement} {l : Located String} {p : Place}

theorem LineReads.label_token (reads : LineReads ts statements) (member : .label l ∈ statements) :
    ⟨.word l.value, l.span⟩ ∈ ts := by
  have unlabelled {ts : List (Located Token)} {statements : List Statement}
      (body : BodyReads ts statements) : .label l ∉ statements := by
    cases body <;> simp
  cases reads with
  | unlabelled body => exact absurd member (unlabelled body)
  | labelled name span colon body =>
    rcases List.mem_cons.mp member with same | member
    · cases same
      exact List.mem_cons_self
    · exact absurd member (unlabelled body)

theorem UnitReads.label_token (reads : UnitReads cut statements)
    (member : .label l ∈ statements) : ⟨.word l.value, l.span⟩ ∈ cut.flatten := by
  induction reads with
  | nil => cases member
  | cons line _ ih =>
    rw [List.flatten_cons]
    rcases List.mem_append.mp member with here | later
    · exact List.mem_append_left _ (line.label_token here)
    · exact List.mem_append_right _ (ih later)

theorem UnitReads.place_token {tokens : List (Located Token)} {s : Statement}
    (reads : UnitReads (segments tokens) statements) (laid : Laid id tokens)
    (member : s ∈ statements) (here : p.In s) : ∃ t ∈ tokens, p.At t := by
  cases here with
  | declaration =>
    exact ⟨_, (segments_sublist tokens).subset (reads.label_token member), .declaration⟩
  | opcode =>
    obtain ⟨ts, inside, found⟩ := reads.instruction_tokens member
    have laid := laid.sublist inside.sublist
    cases found with
    | @intro i start ts last =>
      have opened : (⟨.opcode i.opcode, start⟩ : Located Token) ∈
          ⟨.opcode i.opcode, start⟩ :: (ts ++ [last]) := List.mem_cons_self
      have at_keyword := @Place.At.opcode ⟨i, { start with stop := last.span.stop }⟩
      rw [keywordSpan_eq laid opened] at at_keyword
      exact ⟨_, inside.subset opened, at_keyword⟩
  | operand operand =>
    obtain ⟨ts, inside, found⟩ := reads.instruction_tokens member
    cases found with
    | intro denotes =>
      obtain ⟨t, here, denotes⟩ := exists_related denotes operand
      exact ⟨t, inside.subset (List.mem_cons_of_mem _ here), .operand denotes⟩

end Tokens

/-- The span shows one token and nothing else. -/
def Span.IsToken (s : Span) (sources : SourceMap) (t : Token) : Prop :=
  ∃ inside, sources.snippet s = .ok inside ∧
    ∀ name, ∃ span, scan (.ofUnits [⟨name, .ofList inside⟩]) 0 = .ok (.ok [⟨t, span⟩])

theorem isToken_of_parse {sources : SourceMap} {id : UInt16} {unit : SourceUnit} {u : ParsedUnit}
    {s : Statement} {p : Place} (found : sources.get? id = some (.ofUnit unit))
    (bound : unit.text.utf8ByteSize < UInt32.size) (parsed : parse sources id = .ok (.ok u))
    (member : s ∈ u.statements) (here : p.In s) :
    ∃ t, p.At t ∧ p.mark.IsToken sources t.value := by
  obtain ⟨tokens, scanned, parsed⟩ := parse_ok parsed
  have covered := scan_covered found bound scanned
  obtain ⟨-, reads⟩ := (parseTokens_ok_iff covered.laid.inOrder).mp parsed
  obtain ⟨t, inside, here⟩ := reads.place_token covered.laid member here
  obtain ⟨text, snippet, alone⟩ := covered.alone t inside
  exact ⟨t, here, text, here.span_eq ▸ snippet, fun name => ⟨_, alone name⟩⟩

theorem labels_marks (program : List Statement) :
    ((labels program).map Located.span).Sublist (program.flatMap Statement.marks) := by
  induction program with
  | nil => exact List.Sublist.refl _
  | cons s rest ih =>
    cases s with
    | label l => exact ih.cons_cons l.span
    | instruction i => exact ih.trans (List.sublist_append_right _ _)

/-- No other label of this name comes before. -/
def Located.DeclaredFirst (first : Located String) (labels : List (Located String)) : Prop :=
  first ∈ labels ∧
    ∀ l ∈ labels, l.value = first.value → l = first ∨ first.span.Before l.span

section Program

variable {units : List SourceUnit} {hw : Hardware} {parsed : List ParsedUnit} {d : Diagnostic}

theorem duplicate_declared {declared : List String} {p : Place} {v : Violation}
    (violated : p.violation? hw declared = some v) (told : v.diagnostic = .ok d)
    (duplicate : d.kind = .duplicateLabel) :
    ∃ earlier l first, p = .declaration earlier l ∧ earlier.find? (·.value = l.value) = some first ∧
      d.notes = [⟨first.span, "first declared here"⟩] := by
  cases p with
  | declaration earlier l =>
    obtain ⟨first, found, rfl⟩ := Option.map_eq_some_iff.mp violated
    cases told
    exact ⟨earlier, l, first, rfl, found, rfl⟩
  | opcode i =>
    rw [Place.violation?] at violated
    split at violated <;> cases violated
    obtain ⟨span, -, same⟩ := bind_ok_iff.mp told
    cases same
    cases duplicate
  | operand o =>
    rcases o with ⟨_ | k | n, span⟩ | ⟨v | _ | k | n, span⟩ | s | l <;>
      simp only [Place.violation?] at violated <;> (try split at violated) <;>
      cases violated <;> cases told <;> cases duplicate

theorem declaredFirst_of_find? {earlier after : List (Located String)} {l first : Located String}
    (ordered : ((earlier ++ l :: after).map Located.span).Pairwise Span.Before)
    (found : earlier.find? (·.value = l.value) = some first) :
    first.value = l.value ∧ first.DeclaredFirst (earlier ++ l :: after) := by
  obtain ⟨same, before, between, rfl, others⟩ := List.find?_eq_some_iff_append.mp found
  have same : first.value = l.value := by simpa using same
  refine ⟨same, by simp, fun l' member again => ?_⟩
  rw [List.append_assoc, List.mem_append] at member
  rcases member with here | later
  · have other := others l' here
    simp [again, same] at other
  · rw [List.cons_append, List.mem_cons] at later
    refine later.imp_right fun later => ?_
    rw [List.append_assoc, List.cons_append, List.map_append, List.map_cons] at ordered
    exact (List.pairwise_cons.mp (List.pairwise_append.mp ordered).2.1).1 _
      (List.mem_map_of_mem later)

end Program

/-- Units that can be read but make up no program are refused with diagnostics each of which shows
the one token that its message names. A repeated label comes with the first one of its name. -/
theorem violations_point_at_tokens {units : List SourceUnit} {hw : Hardware}
    {parsed : List ParsedUnit} (count : units.length ≤ SourceMap.maxFiles)
    (bounds : ∀ unit ∈ units, unit.text.utf8ByteSize < UInt32.size) (checked : hw.check = .ok ())
    (read : List.Forall₂ (fun id u => parse (.ofUnits units) id = .ok (.ok u))
      (SourceMap.ofUnits units).ids parsed)
    (rejected : ¬ ∃ p, outcome units hw = .ok (.ok p)) :
    ∃ ds, compile units hw = .ok ⟨.ofUnits units, .error ds⟩ ∧ ds ≠ [] ∧
      ∀ d ∈ ds, ∃ t, d.Blames t ∧ d.span.IsToken (.ofUnits units) t ∧
        (d.kind = .duplicateLabel → ∃ first : Located String, t = .word first.value ∧
          d.notes = [⟨first.span, "first declared here"⟩] ∧
          first.span.IsToken (.ofUnits units) t ∧
          first.DeclaredFirst (labels (parsed.flatMap ParsedUnit.statements))) := by
  have all := parseAll_ok_iff.mpr read
  have units_read := exists_unit_of_parseAll count all
  have fromSmallText := fromSmallText_of_parseAll count bounds all
  have files : (parsed.map ParsedUnit.file).Nodup := by
    rw [files_of_parseAll all]
    exact ids_nodup (by rwa [size_ofUnits])
  obtain ⟨result, valid⟩ := @exists_validate hw parsed fromSmallText files
  have reached := outcome_of_parseAll count checked all
  rw [valid] at reached
  cases result with
  | ok p => exact absurd ⟨p, reached⟩ rejected
  | error ds =>
    obtain ⟨some, wrong, sub, told⟩ := validate_places fromSmallText files valid
    have ordered : ((parsed.flatMap ParsedUnit.statements).flatMap Statement.marks).Pairwise
        Span.Before := by
      refine marks_in_order (by rwa [size_ofUnits]) ?_
      rw [← files_of_parseAll all, List.forall₂_map_left_iff, List.forall₂_same]
      intro u member
      obtain ⟨unit, listed, found, read⟩ := units_read u member
      exact ⟨unit, bounds unit listed, found, read⟩
    -- Whatever place of the program it is, a token of one of the units is there.
    have token {s : Statement} {p : Place} (member : s ∈ parsed.flatMap ParsedUnit.statements)
        (here : p.In s) : ∃ t, p.At t ∧ p.mark.IsToken (.ofUnits units) t.value := by
      obtain ⟨u, among, inside⟩ := List.mem_flatMap.mp member
      obtain ⟨unit, listed, found, read⟩ := units_read u among
      exact isToken_of_parse found (bounds unit listed) read inside here
    refine ⟨ds, compile_of_outcome count reached, some, fun d member => ?_⟩
    obtain ⟨p, inside, v, violated, told⟩ := exists_related told member
    obtain ⟨s, among, here⟩ := mem_places (sub.subset inside)
    obtain ⟨t, at_token, shown⟩ := token among here
    refine ⟨t.value, at_token.blames violated told, diagnostic_span violated told ▸ shown, ?_⟩
    intro duplicate
    obtain ⟨earlier, l, first, rfl, found, notes⟩ := duplicate_declared violated told duplicate
    obtain ⟨after, split⟩ := labels_of_mem_places (sub.subset inside)
    rw [List.nil_append] at split
    have labelled := ordered.sublist (labels_marks _)
    rw [split] at labelled
    obtain ⟨same, declared⟩ := declaredFirst_of_find? labelled found
    rw [← split] at declared
    -- The earlier label is a statement of its own, and so there is a token at it as well.
    obtain ⟨t', at_first, first_shown⟩ :=
      token (mem_labels.mp declared.1) (@Place.In.declaration [] first)
    cases at_token
    cases at_first
    rw [same] at first_shown
    exact ⟨first, by rw [same], notes, first_shown, declared⟩

def blameworthy : List SourceUnit :=
  [⟨"first", "L: SET RX007 RS0001\nPOP S01 RLI"⟩, ⟨"second", "L: JMP M"⟩]

theorem blameworthy_pointed_at :
    blameworthy.length ≤ SourceMap.maxFiles ∧ (Hardware.without .jump).check = .ok () ∧
      ∃ ds, compile blameworthy (.without .jump) = .ok ⟨.ofUnits blameworthy, .error ds⟩ ∧
        ds.map Diagnostic.kind = [.invalidRegister, .invalidRegister, .invalidStack,
          .readOnlyRegister, .duplicateLabel, .opcodeNotPermitted, .undefinedLabel] ∧
        ∀ d ∈ ds, ∃ t, d.Blames t ∧ d.span.IsToken (.ofUnits blameworthy) t := by
  have count : blameworthy.length ≤ SourceMap.maxFiles := by decide
  have bounds : ∀ unit ∈ blameworthy, unit.text.utf8ByteSize < UInt32.size := by decide +kernel
  have checked : (Hardware.without .jump).check = .ok () := rfl
  obtain ⟨c, ds, compiled, failed, kinds⟩ := @refused_of_any blameworthy (.without .jump)
    (fun ds => ds.map Diagnostic.kind = [.invalidRegister, .invalidRegister, .invalidStack,
      .readOnlyRegister, .duplicateLabel, .opcodeNotPermitted, .undefinedLabel]) _
    (by decide +kernel)
  have computed : (parseAll (.ofUnits blameworthy)).toOption.any (·.isOk) := by decide +kernel
  rcases read : parseAll (.ofUnits blameworthy) with _ | _ | parsed <;> rw [read] at computed
  · cases computed
  · cases computed
  have rejected : ¬ ∃ p, outcome blameworthy (.without .jump) = .ok (.ok p) := by
    rintro ⟨p, accepted⟩
    rw [outcome_of_compile compiled, failed] at accepted
    cases accepted
  obtain ⟨ds', compiled', -, pointed⟩ :=
    violations_point_at_tokens count bounds checked (parseAll_ok_iff.mp read) rejected
  cases compiled.symm.trans compiled'
  cases failed
  exact ⟨count, checked, ds, compiled, kinds,
    fun d member => (pointed d member).imp fun _ ⟨blamed, shown, _⟩ => ⟨blamed, shown⟩⟩

theorem zero_not_token (sources : SourceMap) (id : UInt16) (t : Token) :
    ¬ (Span.zero id).IsToken sources t := by
  rintro ⟨inside, shown, alone⟩
  -- Nothing is between the first byte and itself, and nothing has no tokens.
  have empty : inside = [] := by
    obtain ⟨f, -, sliced⟩ := bind_ok_iff.mp shown
    simpa [Span.zero, SourceFile.slice, slice?, dropBytes?, Checked.ofOption] using sliced.symm
  have nothing : scan (.ofUnits [⟨"main", .ofList []⟩]) 0 = .ok (.ok []) := by decide +kernel
  obtain ⟨span, scanned⟩ := alone "main"
  rw [empty, nothing] at scanned
  cases scanned

theorem parse_replicate_empty {n : Nat} {id : UInt16} (inside : id.toNat < n) :
    ∃ u, parse (.ofUnits (List.replicate n ⟨"main", ""⟩)) id = .ok (.ok u) := by
  have found : (SourceMap.ofUnits (List.replicate n ⟨"main", ""⟩)).get? id =
      some (.ofUnit ⟨"main", ""⟩) := by
    simp [SourceMap.get?, SourceMap.ofUnits, inside]
  have nothing : TextReads "".toList [] := textReads_nil_iff.mpr rfl
  obtain ⟨u, parsed, -⟩ := (parse_ok_iff found (by decide)).mpr nothing
  exact ⟨u, parsed⟩

-- More files than there are numbers for them are refused without a look at any of them, however
-- well each can be read, and what is told then is at no token. What is wrong with a file that has
-- more bytes than there are offsets may be impossible to tell.
theorem crowd_points_at_nothing :
    Hardware.default.check = .ok () ∧ (Hardware.without .write).check = .ok () ∧
      (∀ id, ∃ u, parse (.ofUnits (List.replicate 65536 ⟨"main", ""⟩)) id = .ok (.ok u)) ∧
      (∃ d, compile (List.replicate 65536 ⟨"main", ""⟩) .default = .ok ⟨.empty, .error [d]⟩ ∧
        ∀ sources t, ¬ d.span.IsToken sources t) ∧
      (∃ u, parse (.ofUnits [spread 4294967291 4294967292]) 0 = .ok (.ok u)) ∧
      compile [spread 4294967291 4294967292] (.without .write) = .error .outOfRange := by
  refine ⟨rfl, rfl, fun id => parse_replicate_empty id.toNat_lt,
    ⟨_, compile_of_many ?_, fun sources t => zero_not_token sources 0 t⟩, ?_, ?_⟩
  · rw [List.length_replicate]
    decide
  · exact ⟨_, @parse_spread 4294967290 4294967291 _ rfl rfl rfl⟩
  · have untold : validate (.without .write) [spreadOut] = .error .outOfRange := rfl
    rw [← @outcome_spread 4294967290 4294967291 rfl rfl _ rfl] at untold
    exact map_error_iff.mp untold

end PuzzleMachine
