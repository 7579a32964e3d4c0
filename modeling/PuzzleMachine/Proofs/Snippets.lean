import PuzzleMachine.Proofs.Coherence
import PuzzleMachine.Proofs.Overrun
import PuzzleMachine.Proofs.Slices

set_option autoImplicit false

namespace PuzzleMachine

open Statement Text

section Instructions

variable {tokens ts segment : List (Located Token)} {cut : List (List (Located Token))}
  {statements : List Statement} {i : Located SourceInstruction} {id : UInt16}

/-- The tokens of an instruction, from its opcode to its last operand. -/
inductive InstructionTokens : List (Located Token) → Located SourceInstruction → Prop where
  | intro {i : SourceInstruction} {start : Span} {ts : List (Located Token)} {last : Located Token}
      (denotes : List.Forall₂ Denotes (ts ++ [last]) i.operands) :
      InstructionTokens (⟨.opcode i.opcode, start⟩ :: (ts ++ [last]))
        ⟨i, { start with stop := last.span.stop }⟩

theorem BodyReads.tokens_of_mem (reads : BodyReads ts statements)
    (member : .instruction i ∈ statements) : InstructionTokens ts i := by
  cases reads with
  | blank => cases member
  | @instruction i start ts last denotes ends =>
    cases List.mem_singleton.mp member
    obtain ⟨ts, rfl⟩ := List.getLast?_eq_some_iff.mp ends
    exact .intro denotes

theorem LineReads.tokens_of_mem (reads : LineReads ts statements)
    (member : .instruction i ∈ statements) :
    ∃ before ts', ts = before ++ ts' ∧ InstructionTokens ts' i := by
  cases reads with
  | unlabelled body => exact ⟨[], _, rfl, body.tokens_of_mem member⟩
  | labelled name span colon body =>
    exact ⟨[_, _], _, rfl, body.tokens_of_mem (by simpa using member)⟩

theorem UnitReads.tokens_of_mem (reads : UnitReads cut statements)
    (member : .instruction i ∈ statements) :
    ∃ segment ∈ cut, ∃ before ts, segment = before ++ ts ∧ InstructionTokens ts i := by
  induction reads with
  | nil => cases member
  | cons line _ ih =>
    rcases List.mem_append.mp member with here | later
    · exact ⟨_, List.mem_cons_self, line.tokens_of_mem here⟩
    · obtain ⟨segment, inside, found⟩ := ih later
      exact ⟨segment, List.mem_cons_of_mem _ inside, found⟩

-- The first segment is what the tokens begin with, and the others are behind it.
theorem segments_within (tokens : List (Located Token)) :
    ∃ first later, segments tokens = first :: later ∧ first <+: tokens ∧
      ∀ segment ∈ later, segment <:+: tokens := by
  induction tokens with
  | nil => exact ⟨[], [], rfl, List.prefix_rfl, by simp⟩
  | cons t tokens ih =>
    obtain ⟨first, later, cut, opens, inside⟩ := ih
    have inside : ∀ segment ∈ later, segment <:+: t :: tokens :=
      fun segment member => (inside segment member).trans (List.suffix_cons t tokens).isInfix
    rw [segments_cons, cut]
    by_cases newline : t.value = .newline
    next =>
      have opens := opens.isInfix.trans (List.suffix_cons t tokens).isInfix
      exact ⟨[], first :: later, if_pos newline, List.nil_prefix,
        List.forall_mem_cons.mpr ⟨opens, inside⟩⟩
    next =>
      have opens := List.cons_prefix_cons.mpr ⟨@rfl _ t, opens⟩
      exact ⟨t :: first, later, if_neg newline, opens, inside⟩

theorem infix_of_mem_segments (member : segment ∈ segments tokens) : segment <:+: tokens := by
  obtain ⟨first, later, cut, opens, inside⟩ := segments_within tokens
  rw [cut] at member
  rcases List.mem_cons.mp member with rfl | member
  · exact opens.isInfix
  · exact inside segment member

theorem UnitReads.instruction_tokens (reads : UnitReads (segments tokens) statements)
    (member : .instruction i ∈ statements) : ∃ ts, ts <:+: tokens ∧ InstructionTokens ts i := by
  obtain ⟨segment, inside, before, ts, rfl, found⟩ := reads.tokens_of_mem member
  exact ⟨ts, (List.suffix_append before ts).isInfix.trans (infix_of_mem_segments inside), found⟩

theorem InstructionTokens.body (found : InstructionTokens ts i) :
    BodyReads (bareTokens (ts.map Located.value)) [(Statement.instruction i).bare] := by
  cases found with
  | @intro i start ts last denotes =>
    rw [bareTokens_map_value]
    have moved : List.Forall₂ Denotes ((ts ++ [last]).map (.relocate fun _ => .zero 0))
        (i.relocate fun _ => .zero 0).operands := by
      rw [Instruction.operands_relocate, List.forall₂_map_left_iff, List.forall₂_map_right_iff]
      exact denotes.imp fun _ _ here => here.relocate
    have ends : ((ts ++ [last]).map (.relocate fun _ => .zero 0)).getLast? =
        some (last.relocate fun _ => .zero 0) := by simp
    have body := @BodyReads.instruction (i.relocate fun _ => .zero 0) (.zero 0) _ _ moved ends
    rw [Instruction.opcode_relocate] at body
    exact body

theorem unitReads_of_body (body : BodyReads ts statements)
    (inLine : ∀ t ∈ ts, t.value ≠ .newline) : UnitReads (segments ts) statements := by
  have line : segments ts = [ts] := List.splitOnP_eq_singleton (by simpa using inLine)
  rw [line, unitReads_cons_iff]
  exact ⟨statements, [], .unlabelled body, .nil, (List.append_nil _).symm⟩

theorem InstructionTokens.ne_newline (found : InstructionTokens ts i) :
    ∀ t ∈ ts, t.value ≠ .newline := by
  cases found with
  | intro denotes =>
    refine List.forall_mem_cons.mpr ⟨nofun, fun t member => ?_⟩
    obtain ⟨o, -, here⟩ := exists_related denotes.flip member
    cases here <;> exact nofun

end Instructions

section Shown

variable {sources : SourceMap} {id : UInt16} {unit : SourceUnit} {u : ParsedUnit}
  {i : Located SourceInstruction} {inside : List Char}

structure ShowsText (sources : SourceMap) (i : Located SourceInstruction) (inside : List Char) :
    Prop where
  snippet : sources.snippet i.span = .ok inside
  plain : '\n' ∉ inside
  small : byteLength inside < UInt32.size
  reads : TextReads inside [(Statement.instruction i).bare]

theorem exists_text (found : sources.get? id = some (.ofUnit unit))
    (bound : unit.text.utf8ByteSize < UInt32.size) (parsed : parse sources id = .ok (.ok u))
    (member : .instruction i ∈ u.statements) : ∃ inside, ShowsText sources i inside := by
  obtain ⟨tokens, scanned, parsed⟩ := parse_ok parsed
  obtain ⟨-, reads⟩ := (parseTokens_ok_iff (scan_laid found bound scanned).inOrder).mp parsed
  obtain ⟨ts, ⟨front, back, whole⟩, instruction⟩ := reads.instruction_tokens member
  have body := instruction.body
  have inLine := instruction.ne_newline
  cases instruction with
  | @intro i start ts last =>
    rw [← whole, List.append_assoc, List.cons_append, List.append_assoc] at scanned
    obtain ⟨inside, snippet, small, lexed⟩ := snippet_reads found bound scanned
    refine ⟨inside, snippet, fun broken => ?plain, small, lexed, ?reads⟩
    case plain =>
      obtain ⟨t, inside, newline⟩ := List.mem_map.mp (newline_mem_of_readings lexed broken)
      exact inLine t inside newline
    case reads =>
      refine unitReads_of_body body fun t member => ?_
      obtain ⟨_, bare, rfl⟩ := List.mem_map.mp member
      obtain ⟨t, here, rfl⟩ := List.mem_map.mp bare
      exact inLine t here

theorem ShowsText.parsed (shows : ShowsText sources i inside) (name : String) :
    ∃ i', parse (.ofUnits [⟨name, .ofList inside⟩]) 0 = .ok (.ok ⟨0, [.instruction i']⟩) ∧
      ∀ labels, resolve? labels i'.value = resolve? labels i.value := by
  have found : (SourceMap.ofUnits [⟨name, .ofList inside⟩]).get? 0 =
      some (.ofUnit ⟨name, .ofList inside⟩) := rfl
  have text : (String.ofList inside).toList = inside := String.toList_ofList
  have bound : (String.ofList inside).utf8ByteSize < UInt32.size := by
    rw [← byteLength_eq_utf8ByteSize, text]
    exact shows.small
  obtain ⟨⟨file, statements⟩, parsed, same⟩ := (parse_ok_iff found bound).mpr (text ▸ shows.reads)
  obtain rfl : file = 0 := parse_file parsed
  obtain ⟨s, rfl, bare⟩ := List.map_eq_singleton_iff.mp same
  cases s with
  | label => cases bare
  | instruction i' =>
    have moved := (Located.mk.inj (Statement.instruction.inj bare)).1
    refine ⟨i', parsed, fun labels => ?_⟩
    have meaning := Instruction.resolveWith_relocate labels.target? fun _ => .zero 0
    exact (meaning i'.value).symm.trans ((congrArg _ moved).trans (meaning i.value))

end Shown

section Order

variable {id : UInt16} {cut : List (List (Located Token))} {ts : List (Located Token)}
  {statements : List Statement} {i : Located SourceInstruction}

theorem InstructionTokens.opens (found : InstructionTokens ts i) :
    ∃ t ∈ ts, t.span.file = i.span.file ∧ t.span.start = i.span.start := by
  cases found
  exact ⟨_, List.mem_cons_self, rfl, rfl⟩

theorem InstructionTokens.ends (found : InstructionTokens ts i) :
    ∃ t ∈ ts, t.span.stop = i.span.stop := by
  cases found
  exact ⟨_, List.mem_cons_of_mem _ List.mem_concat_self, rfl⟩

theorem InstructionTokens.forward (found : InstructionTokens ts i) (laid : Laid id ts) :
    i.span.file = id ∧ i.span.start < i.span.stop := by
  cases found with
  | @intro i start ts last =>
    have ends : last ∈ (⟨.opcode i.opcode, start⟩ :: (ts ++ [last]) : List (Located Token)) :=
      List.mem_cons_of_mem _ List.mem_concat_self
    have first := laid.nonempty _ List.mem_cons_self
    have after := (List.pairwise_cons.mp laid.ordered).1 last List.mem_concat_self
    have filled := laid.nonempty last ends
    refine ⟨laid.file _ List.mem_cons_self, ?_⟩
    rw [UInt32.lt_iff_toNat_lt]
    dsimp only at first after ⊢
    omega

theorem LineReads.instructions_pairwise (reads : LineReads ts statements)
    {R : Located SourceInstruction → Located SourceInstruction → Prop} :
    (instructions statements).Pairwise R := by
  cases reads with
  | unlabelled body => cases body <;> simp
  | labelled _ _ _ body => cases body <;> simp

-- Each instruction of a unit is over before the next one begins.
theorem UnitReads.instructions_apart (reads : UnitReads cut statements)
    (laid : Laid id cut.flatten) :
    (instructions statements).Pairwise fun i j => i.span.stop ≤ j.span.start := by
  induction reads with
  | nil => exact .nil
  | @cons segment cut part statements line later ih =>
    rw [List.flatten_cons] at laid
    rw [instructions_append, List.pairwise_append]
    refine ⟨line.instructions_pairwise, ih (laid.sublist (List.sublist_append_right _ _)), ?_⟩
    intro i here j there
    -- One instruction is in this segment, and the other one in a segment behind it.
    obtain ⟨before, ts, rfl, first⟩ := line.tokens_of_mem (mem_instructions.mp here)
    obtain ⟨_, inside, before', ts', rfl, second⟩ := later.tokens_of_mem (mem_instructions.mp there)
    obtain ⟨t, member, stop⟩ := first.ends
    obtain ⟨t', member', -, start⟩ := second.opens
    rw [← stop, ← start, UInt32.le_iff_toNat_le]
    exact (List.pairwise_append.mp laid.ordered).2.2 t (List.mem_append_right before member) t'
      (List.mem_flatten_of_mem inside (List.mem_append_right before' member'))

theorem instructions_in_order {sources : SourceMap} {unit : SourceUnit} {u : ParsedUnit}
    (found : sources.get? id = some (.ofUnit unit)) (bound : unit.text.utf8ByteSize < UInt32.size)
    (parsed : parse sources id = .ok (.ok u)) :
    (∀ i ∈ instructions u.statements, i.span.file = id ∧ i.span.start < i.span.stop) ∧
      (instructions u.statements).Pairwise fun i j =>
        i.span.start < j.span.start ∧ i.span.stop ≤ j.span.start := by
  obtain ⟨tokens, scanned, parsed⟩ := parse_ok parsed
  have laid := scan_laid found bound scanned
  obtain ⟨-, reads⟩ := (parseTokens_ok_iff laid.inOrder).mp parsed
  have forward : ∀ i ∈ instructions u.statements,
      i.span.file = id ∧ i.span.start < i.span.stop := by
    intro i member
    obtain ⟨ts, inside, found⟩ := reads.instruction_tokens (mem_instructions.mp member)
    exact found.forward (laid.sublist inside.sublist)
  have apart := reads.instructions_apart (laid.sublist (segments_sublist tokens))
  refine ⟨forward, apart.imp_of_mem ?_⟩
  intro i j here _ apart
  exact ⟨UInt32.lt_of_lt_of_le (forward i here).2 apart, apart⟩

end Order

namespace Span

-- Spans by their files, and those of one file by where they start, none of which overlap.
def Precedes (a b : Span) : Prop :=
  a.file < b.file ∨ a.file = b.file ∧ a.start < b.start ∧ a.stop ≤ b.start

/-- What is at the span is on one line, reads as one instruction when it stands alone, and this is
`j` if the labels are these. -/
def Shows (s : Span) (sources : SourceMap) (labels : LabelTable) (j : MachineInstruction) : Prop :=
  ∃ inside, sources.snippet s = .ok inside ∧ '\n' ∉ inside ∧
    ∀ name, ∃ i, parse (.ofUnits [⟨name, .ofList inside⟩]) 0 = .ok (.ok ⟨0, [.instruction i]⟩) ∧
      resolve? labels i.value = some j

end Span

/-- The span is the one that code has for its instruction `pc`, and shows this instruction. -/
def Code.ShownAt (code : Code) (sources : SourceMap) (labels : LabelTable) (pc : Nat) (s : Span) :
    Prop :=
  code.spans[pc]? = some s ∧ ∃ j, code.instructions[pc]? = some j ∧ s.Shows sources labels j

namespace Machine

variable {m m' : Machine}

def Recorded (m : Machine) : Prop :=
  ∀ entries, m.trace = some entries → ∀ e ∈ entries, m.code.spans[e.pc]? = some e.span

theorem fresh_recorded (code : Code) (hw : Hardware) (input : List Int32) (ceiling : UInt64) :
    (fresh code hw input ceiling).Recorded := by
  intro entries traced
  cases traced

theorem Turn.recorded (turn : m.Turn m') (recorded : m.Recorded) : m'.Recorded := by
  cases turn with
  | execute fetched =>
    rintro _ traced e member
    obtain ⟨entries, before, rfl⟩ := Option.map_eq_some_iff.mp traced
    rcases Array.mem_push.mp member with old | rfl
    · exact recorded entries before e old
    · exact fetched.here
  | _ => exact recorded

theorem Reaches.recorded (reached : m.Reaches m') (recorded : m.Recorded) : m'.Recorded := by
  induction reached with
  | start => exact recorded
  | step _ stepped ih => exact (step?_ok_iff.mp stepped).recorded ih
  | record =>
    rintro _ traced e member
    cases traced
    simp at member

end Machine

section Program

variable {units : List SourceUnit} {parsed : List ParsedUnit} {hw : Hardware} {p : ValidProgram}

theorem ValidProgram.exists_instruction {pc : Nat} {s : Span} (here : p.code.spans[pc]? = some s) :
    ∃ i ∈ p.instructions, i.span = s ∧
      ∃ j, p.code.instructions[pc]? = some j ∧ resolve? p.labels i.value = some j := by
  rw [← Array.getElem?_toList, p.code_spans, List.getElem?_map] at here
  obtain ⟨i, there, rfl⟩ := Option.map_eq_some_iff.mp here
  have resolved := congrArg (·[pc]?) p.code_instructions
  simp only [List.getElem?_map, there, Option.map_some, Option.map_eq_some_iff,
    Array.getElem?_toList] at resolved
  obtain ⟨j, coded, same⟩ := resolved
  exact ⟨i, List.mem_of_getElem? there, rfl, j, coded, same.symm⟩

variable (count : units.length ≤ SourceMap.maxFiles)
  (bounds : ∀ unit ∈ units, unit.text.utf8ByteSize < UInt32.size)
  (all : parseAll (.ofUnits units) = .ok (.ok parsed))
  (valid : validate hw parsed = .ok (.ok p))

include count bounds all valid

theorem shownAt_of_span {pc : Nat} {s : Span} (here : p.code.spans[pc]? = some s) :
    p.code.ShownAt (.ofUnits units) p.labels pc s := by
  obtain ⟨i, member, rfl, j, coded, resolved⟩ := ValidProgram.exists_instruction here
  obtain ⟨-, instructions, -⟩ := validate_ok valid
  rw [instructions, mem_instructions] at member
  obtain ⟨u, among, inside⟩ := List.mem_flatMap.mp member
  obtain ⟨unit, listed, found, read⟩ := exists_unit_of_parseAll count all u among
  obtain ⟨text, shows⟩ := exists_text found (bounds unit listed) read inside
  refine ⟨here, j, coded, text, shows.snippet, shows.plain, fun name => ?_⟩
  obtain ⟨i', alone, same⟩ := shows.parsed name
  exact ⟨i', alone, (same p.labels).trans resolved⟩

theorem spans_in_order : (∀ s ∈ p.code.spans, s.start < s.stop) ∧
    p.code.spans.toList.Pairwise Span.Precedes := by
  obtain ⟨-, same, -⟩ := validate_ok valid
  have spans : p.code.spans.toList =
      (parsed.map ParsedUnit.instructions).flatten.map Located.span := by
    rw [p.code_spans, same, ← flatMap_instructions, List.flatMap_def]
  have each : ∀ u ∈ parsed,
      (∀ i ∈ u.instructions, i.span.file = u.file ∧ i.span.start < i.span.stop) ∧
        u.instructions.Pairwise fun i j =>
          i.span.start < j.span.start ∧ i.span.stop ≤ j.span.start := by
    intro u member
    obtain ⟨unit, listed, found, read⟩ := exists_unit_of_parseAll count all u member
    exact instructions_in_order found (bounds unit listed) read
  constructor
  · intro s member
    rw [← Array.mem_toList_iff, spans] at member
    obtain ⟨i, inside, rfl⟩ := List.mem_map.mp member
    obtain ⟨is, listed, inside⟩ := List.mem_flatten.mp inside
    obtain ⟨u, among, rfl⟩ := List.mem_map.mp listed
    exact ((each u among).1 i inside).2
  · rw [spans]
    refine List.pairwise_map.mpr
      (@pairwise_flatten_files (parsed.map ParsedUnit.file) _ _ _ _ ?_ ?_)
    · rw [List.forall₂_map_left_iff, List.forall₂_map_right_iff, List.forall₂_same]
      exact fun u member => ⟨fun i inside => ((each u member).1 i inside).1, (each u member).2⟩
    · rw [files_of_parseAll all]
      exact ids_ordered (by rwa [size_ofUnits])

omit count bounds all valid

/-- Code that is compiled has a span for each instruction, which shows it. The spans are in order,
and those of faults and traces are the ones of the instructions that these are about. -/
theorem code_spans_show_instructions {c : Compilation}
    (bounds : ∀ unit ∈ units, unit.text.utf8ByteSize < UInt32.size)
    (compiled : compile units hw = .ok c) (accepted : c.result = .ok p) :
    (∀ pc < p.code.instructions.size, ∃ s, p.code.ShownAt c.sources p.labels pc s) ∧
      p.code.spans.size = p.code.instructions.size ∧
      (∀ s ∈ p.code.spans, s.start < s.stop) ∧ p.code.spans.toList.Pairwise Span.Precedes ∧
      ∀ (hw' : Hardware) (input : List Int32) (ceiling : UInt64) (m₀ m : Machine),
        Machine.start p.code hw' input ceiling = .ok m₀ → m₀.Reaches m →
          (∀ f, m.state.status = .faulted f → p.code.ShownAt c.sources p.labels f.pc f.span) ∧
            ∀ entries, m.trace = some entries →
              ∀ e ∈ entries, p.code.ShownAt c.sources p.labels e.pc e.span := by
  have reached : outcome units hw = .ok (.ok p) := by
    rw [outcome, compiled, ← accepted]
    rfl
  obtain ⟨count, -, parsed, all, valid⟩ := outcome_ok reached
  cases compiled.symm.trans (compile_of_outcome count reached)
  have shown {pc : Nat} {s : Span} (here : p.code.spans[pc]? = some s) :
      p.code.ShownAt (.ofUnits units) p.labels pc s := shownAt_of_span count bounds all valid here
  have paired : p.code.instructions.size = p.code.spans.size := p.code_paired
  obtain ⟨filled, ordered⟩ := spans_in_order count bounds all valid
  refine ⟨fun pc inside => ?_, paired.symm, filled, ordered, ?_⟩
  · rw [paired] at inside
    exact ⟨_, shown (Array.getElem?_eq_getElem inside)⟩
  · intro hw' input ceiling m₀ m started arrived
    rw [Machine.start] at started
    split at started <;> cases started
    have code : m.code = p.code := arrived.code_eq
    have located := arrived.located (Machine.fresh_located p.code hw' input ceiling)
    have recorded := arrived.recorded (Machine.fresh_recorded p.code hw' input ceiling)
    rw [Machine.Located, code] at located
    rw [Machine.Recorded, code] at recorded
    refine ⟨fun f faulted => shown ?_, fun entries traced e member => ?_⟩
    · obtain ⟨same, here⟩ := located f faulted
      rwa [same]
    · exact shown (recorded entries traced e member)

end Program

def scattered : List SourceUnit :=
  [⟨"first", "L: \tWRITE  007 ;L\r\n\n"⟩, ⟨"second", "M:\n  READ RX00 ; x"⟩]

def scatteredCode : Code :=
  ⟨#[.write (.literal 7), .read 0], #[⟨0, 4, 14, 1, 5⟩, ⟨1, 5, 14, 2, 3⟩]⟩

theorem scattered_shown :
    ∃ c p, compile scattered .default = .ok c ∧ c.result = .ok p ∧ p.code = scatteredCode ∧
      p.code.spans.toList.Pairwise Span.Precedes ∧
      ∃ m : Machine, m.state.status = .faulted ⟨.inputExhausted, 1, ⟨1, 5, 14, 2, 3⟩⟩ ∧
        m.trace = some #[⟨1, 0, ⟨0, 4, 14, 1, 5⟩⟩] ∧
        p.code.ShownAt c.sources p.labels 1 ⟨1, 5, 14, 2, 3⟩ ∧
        p.code.ShownAt c.sources p.labels 0 ⟨0, 4, 14, 1, 5⟩ := by
  have bounds : ∀ unit ∈ scattered, unit.text.utf8ByteSize < UInt32.size := by decide +kernel
  obtain ⟨p, accepted, code⟩ := @accepted_of_any scattered .default (·.code = scatteredCode) _
    (by decide +kernel)
  have compiled := compile_of_outcome (by decide) accepted
  obtain ⟨-, -, -, ordered, shown⟩ := code_spans_show_instructions bounds compiled rfl
  let m₀ := Machine.fresh scatteredCode .default [] 10
  have first : m₀.withTrace.step? = .ok m₀.withTrace.step := by decide
  have second : m₀.withTrace.step.step? = .ok m₀.withTrace.step.step := by decide
  have reached : m₀.Reaches m₀.withTrace.step.step := .step (.step (.record .start) first) second
  have faulted : m₀.withTrace.step.step.state.status =
      .faulted ⟨.inputExhausted, 1, ⟨1, 5, 14, 2, 3⟩⟩ := by decide
  have traced : m₀.withTrace.step.step.trace = some #[⟨1, 0, ⟨0, 4, 14, 1, 5⟩⟩] := by decide
  obtain ⟨fault, entries⟩ := shown .default [] 10 m₀ _ (code ▸ rfl) reached
  exact ⟨_, p, compiled, rfl, code, ordered, _, faulted, traced, fault _ faulted,
    entries _ traced ⟨1, 0, ⟨0, 4, 14, 1, 5⟩⟩ (by simp)⟩

theorem snippet_spread {n m : Nat} {sources : SourceMap} {s : Span}
    (found : sources.get? s.file = some (.ofUnit (spread n m))) (opens : s.start.toNat = n)
    (ends : s.stop.toNat = n + 4) : sources.snippet s = .ok ['W', 'R', 'I', 'T'] := by
  have middle := slice?_middle (List.replicate n ' ') ['W', 'R', 'I', 'T']
    ('E' :: (List.replicate m ' ' ++ ['R', 'X', '1']))
  have text : (spread n m).text.toList = List.replicate n ' ' ++ (['W', 'R', 'I', 'T'] ++
      ('E' :: (List.replicate m ' ' ++ ['R', 'X', '1']))) := String.toList_ofList
  rw [byteLength_replicate, ← text] at middle
  rw [SourceMap.snippet, SourceMap.file, found]
  simp only [Checked.ofOption, ok_bind, SourceFile.slice, opens, ends]
  exact congrArg (Checked.ofOption .outOfRange) middle

theorem spread_shows_part :
    ∃ p, compile [spread 4294967291 4294967292] (.ofSizes 2 []) =
        .ok ⟨.ofUnits [spread 4294967291 4294967292], .ok p⟩ ∧
      p.code.instructions = #[.write (.register (.user 1))] ∧
      p.code.spans = #[⟨0, 4294967291, 4294967295, 1, 4294967292⟩] ∧
      ∀ labels j, ¬ Span.Shows ⟨0, 4294967291, 4294967295, 1, 4294967292⟩
        (.ofUnits [spread 4294967291 4294967292]) labels j := by
  have valid : ∃ p, validate (.ofSizes 2 []) [spreadOut] = .ok (.ok p) ∧
      p.code.instructions = #[.write (.register (.user 1))] ∧
      p.code.spans = #[⟨0, 4294967291, 4294967295, 1, 4294967292⟩] := ⟨_, rfl, rfl, rfl⟩
  obtain ⟨p, valid, instructions, spans⟩ := valid
  rw [← @outcome_spread 4294967290 4294967291 rfl rfl _ rfl] at valid
  refine ⟨p, compile_of_outcome (by decide) valid, instructions, spans, ?_⟩
  rintro labels j ⟨inside, shown, -, alone⟩
  have part := @snippet_spread 4294967291 4294967292
    (.ofUnits [spread 4294967291 4294967292]) ⟨0, 4294967291, 4294967295, 1, 4294967292⟩ rfl
    (by decide) (by decide)
  cases shown.symm.trans part
  -- The keyword without its last letter is a word like any other.
  have refused : (parse (.ofUnits [⟨"main", .ofList ['W', 'R', 'I', 'T']⟩]) 0).toOption.any
      (!·.isOk) := by decide +kernel
  obtain ⟨i, read, -⟩ := alone "main"
  rw [read] at refused
  cases refused

end PuzzleMachine
