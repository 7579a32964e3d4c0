import PuzzleMachine.Proofs.Aggregates
import PuzzleMachine.Proofs.Record
import PuzzleMachine.Report

set_option autoImplicit false

namespace PuzzleMachine

open Machine (launched)

def OneLine (s : String) : Prop := '\n' ∉ s.toList

instance (s : String) : Decidable (OneLine s) := inferInstanceAs (Decidable (_ ∉ _))

section Lines

theorem OneLine.append {s t : String} (first : OneLine s) (later : OneLine t) :
    OneLine (s ++ t) := by
  intro member
  rw [String.toList_append, List.mem_append] at member
  exact member.elim first later

theorem oneLine_natural (n : Nat) : OneLine (toString n) := by
  intro member
  rw [Nat.toString_eq_repr, Nat.toList_repr] at member
  exact absurd (Nat.isDigit_of_mem_toDigits (by decide) (by decide) member) (by decide)

theorem oneLine_integer (n : Int) : OneLine (toString n) := by
  rw [Int.toString_eq_repr, Int.repr_eq_if]
  split
  next => exact oneLine_natural n.toNat
  next => exact OneLine.append (by decide) (oneLine_natural (-n).toNat)

theorem oneLine_blanks (n : Nat) : OneLine (String.ofList (List.replicate n ' ')) := by
  simp [OneLine]

theorem oneLine_intercalate {separator : String} (separate : OneLine separator)
    {parts : List String} (each : ∀ s ∈ parts, OneLine s) :
    OneLine (separator.intercalate parts) := by
  induction parts with
  | nil =>
    rw [String.intercalate_nil]
    decide
  | cons s parts ih =>
    obtain ⟨first, later⟩ := List.forall_mem_cons.mp each
    cases parts with
    | nil => rwa [String.intercalate_singleton]
    | cons t parts =>
      rw [String.intercalate_cons_cons]
      exact (first.append separate).append (ih later)

theorem oneLine_values (vs : List Int32) : OneLine (valuesText vs) := by
  have each : ∀ s ∈ vs.map fun v => toString v.toInt, OneLine s := by
    intro s member
    obtain ⟨v, -, rfl⟩ := List.mem_map.mp member
    exact oneLine_integer v.toInt
  exact (OneLine.append (by decide) (oneLine_intercalate (by decide) each)).append (by decide)

theorem oneLine_span (s : Span) : OneLine s.text :=
  ((oneLine_natural s.line.toNat).append (by decide)).append (oneLine_natural s.column.toNat)

theorem oneLine_kind (kind : FaultKind) : OneLine kind.text := by
  have stack (k : UInt64) : OneLine (stackText k) :=
    OneLine.append (by decide) (oneLine_natural k.toNat)
  cases kind with
  | stackOverflow k capacity =>
    have room := oneLine_natural capacity.toNat
    exact ((OneLine.append (by decide) (stack k)).append (by decide)).append room
  | stackUnderflow k | invalidStack k =>
    exact (OneLine.append (by decide) (stack k)).append (by decide)
  | arithmetic error =>
    refine OneLine.append (by decide) ?_
    cases error <;> decide
  | inputExhausted => decide
  | invalidJump target =>
    exact (OneLine.append (by decide) (oneLine_natural target)).append (by decide)
  | invalidRegister r =>
    exact (OneLine.append (by decide) (oneLine_natural r.toNat)).append (by decide)
  | timeout ceiling =>
    exact (OneLine.append (by decide) (oneLine_natural ceiling.toNat)).append (by decide)

theorem oneLine_fault (f : Fault) : OneLine f.text :=
  ((oneLine_kind f.kind).append (by decide)).append (oneLine_span f.span)

theorem oneLine_result (r : CaseResult) : OneLine r.text := by
  have cycles := oneLine_natural r.cycles
  rw [CaseResult.text]
  split
  next => exact (OneLine.append (by decide) cycles).append (by decide)
  next =>
    split
    next f _ =>
      have after := (OneLine.append (s := "fault after ") (by decide) cycles)
      exact (after.append (by decide)).append (oneLine_fault f)
    next =>
      have output := OneLine.append (s := "wrong output ") (by decide) (oneLine_values r.output)
      exact (output.append (by decide)).append (oneLine_values r.expected)

theorem oneLine_entry (e : TraceEntry) : OneLine e.text := by
  have cycle : OneLine (padLeft 6 (toString e.cycle)) :=
    (oneLine_blanks _).append (oneLine_natural e.cycle)
  have pc : OneLine (padRight 4 (toString e.pc)) := (oneLine_natural e.pc).append (oneLine_blanks _)
  have front := (OneLine.append (s := "    [") (by decide) cycle).append (t := "] pc ") (by decide)
  exact ((front.append pc).append (by decide)).append (oneLine_span e.span)

theorem oneLine_score (s : Score) : OneLine s.text := by
  have cycles := (oneLine_natural s.cycles).append (t := " cycles, ") (by decide)
  have instructions := (cycles.append (oneLine_natural s.instructions)).append
    (t := " instructions, ") (by decide)
  have registers := (instructions.append (oneLine_natural s.registers)).append
    (t := " registers, ") (by decide)
  exact registers.append (OneLine.append (by decide) (oneLine_natural s.stackDepth))

theorem oneLine_lastLine (v : Verdict) : OneLine v.lastLine := by
  rw [Verdict.lastLine]
  split
  next score _ => exact OneLine.append (by decide) (oneLine_score score)
  next =>
    have count := OneLine.append (s := "failed: ") (by decide) (oneLine_natural v.passedCount)
    have total := (count.append (t := " of ") (by decide)).append (oneLine_natural v.results.length)
    exact total.append (by decide)

end Lines

section Wording

variable {i : Nat} {words text : String} {r : CaseResult} {m : Machine} {f : Fault}

def caseLine (i : Nat) (text : String) : String := s!"case {i}: {text}"

def LineSays (i : Nat) (words line : String) : Prop := (caseLine i words).toList <+: line.toList

instance (i : Nat) (words line : String) : Decidable (LineSays i words line) :=
  inferInstanceAs (Decidable (_ <+: _))

/-- What is said of a case that has taken `n` cycles, if its machine has stopped in state `s`. -/
structure Announces (i n : Nat) (c : TestCase) (s : State) (line : String) : Prop where
  pass : LineSays i "pass in " line ↔ s.status = .halted ∧ s.output.toList = c.expected
  fault : LineSays i "fault after " line ↔ ∃ f, s.status = .faulted f
  wrong : LineSays i "wrong output " line ↔ s.status = .halted ∧ s.output.toList ≠ c.expected
  passText : s.status = .halted → s.output.toList = c.expected →
    line = caseLine i s!"pass in {n} cycles"
  faultText : ∀ f, s.status = .faulted f → line = caseLine i s!"fault after {n} cycles: {f.text}"
  wrongText : s.status = .halted → s.output.toList ≠ c.expected →
    line = caseLine i
      s!"wrong output {valuesText s.output.toList}, expected {valuesText c.expected}"

def leads : List String := ["pass in ", "fault after ", "wrong output "]

theorem starts_append {lead s t : String} (begins : lead.toList <+: s.toList) :
    lead.toList <+: (s ++ t).toList := by
  rw [String.toList_append]
  exact begins.trans (List.prefix_append s.toList t.toList)

theorem lineSays_iff_of_lead {lead : String} (known : words ∈ leads) (known' : lead ∈ leads)
    (begins : lead.toList <+: text.toList) : LineSays i words (caseLine i text) ↔ words = lead := by
  have same (s : String) : (caseLine i s).toList = (s!"case {i}: ").toList ++ s.toList :=
    String.toList_append
  rw [LineSays, same, same, List.prefix_append_right_inj]
  constructor
  · intro begins'
    -- None of the words is how others begin.
    have apart : ∀ words ∈ leads, ∀ lead ∈ leads, words.toList <+: lead.toList → words = lead := by
      decide
    rcases List.prefix_or_prefix_of_prefix begins' begins with shorter | longer
    · exact apart words known lead known' shorter
    · exact (apart lead known' words known longer).symm
  · rintro rfl
    exact begins

theorem text_of_pass (passed : r.passed = true) : r.text = s!"pass in {r.cycles} cycles" :=
  if_pos passed

theorem text_of_fault (failed : ¬ r.passed = true) (faulted : r.status.fault? = some f) :
    r.text = s!"fault after {r.cycles} cycles: {f.text}" := by
  rw [CaseResult.text, if_neg failed, faulted]

theorem text_of_wrong (failed : ¬ r.passed = true) (unfaulted : r.status.fault? = none) :
    r.text = s!"wrong output {valuesText r.output}, expected {valuesText r.expected}" := by
  rw [CaseResult.text, if_neg failed, unfaulted]

theorem exists_lead (r : CaseResult) :
    ∃ lead ∈ leads, lead.toList <+: r.text.toList ∧ (lead = "pass in " ↔ r.passed = true) ∧
      (lead = "fault after " ↔ ¬ r.passed = true ∧ ∃ f, r.status.fault? = some f) ∧
      (lead = "wrong output " ↔ ¬ r.passed = true ∧ r.status.fault? = none) := by
  by_cases passed : r.passed = true
  · refine ⟨"pass in ", by decide, ?_, by simp [passed], by simp [passed], by simp [passed]⟩
    rw [text_of_pass passed]
    exact starts_append (starts_append List.prefix_rfl)
  cases faulted : r.status.fault? with
  | none =>
    refine ⟨"wrong output ", by decide, ?_, by simp [passed], by simp, by simp [passed]⟩
    rw [text_of_wrong passed faulted]
    exact starts_append (starts_append (starts_append List.prefix_rfl))
  | some f =>
    refine ⟨"fault after ", by decide, ?_, by simp [passed], by simp [passed], by simp⟩
    rw [text_of_fault passed faulted]
    exact starts_append (starts_append (starts_append List.prefix_rfl))

theorem lineSays_pass_iff : LineSays i "pass in " (caseLine i r.text) ↔ r.passed = true := by
  obtain ⟨lead, known, begins, pass, -⟩ := exists_lead r
  rw [lineSays_iff_of_lead (by decide) known begins, eq_comm, pass]

theorem Status.fault?_eq_some_iff {s : Status} : s.fault? = some f ↔ s = .faulted f := by
  cases s <;> simp [Status.fault?]

theorem Status.fault?_eq_none_iff {s : Status} (terminal : s.isTerminal = true) :
    s.fault? = none ↔ s = .halted := by
  obtain rfl | ⟨f, rfl⟩ := Status.isTerminal_iff.mp terminal <;> simp [Status.fault?]

theorem announces_of_terminal (terminal : m.state.status.isTerminal = true) (i : Nat)
    (c : TestCase) : Announces i m.state.cycles c m.state
      (caseLine i (CaseResult.ofMachine m c.expected).text) := by
  let r := CaseResult.ofMachine m c.expected
  have passed : r.passed = true ↔ m.state.status = .halted ∧ m.state.output.toList = c.expected := by
    simp [r, CaseResult.ofMachine]
  obtain ⟨lead, known, begins, pass, fault, wrong⟩ := exists_lead r
  have told {words : String} (known' : words ∈ leads) :
      LineSays i words (caseLine i r.text) ↔ lead = words :=
    (lineSays_iff_of_lead known' known begins).trans eq_comm
  have faulted {f : Fault} : r.status.fault? = some f ↔ m.state.status = .faulted f :=
    Status.fault?_eq_some_iff
  have halted : r.status.fault? = none ↔ m.state.status = .halted :=
    Status.fault?_eq_none_iff terminal
  have fails {f : Fault} (status : m.state.status = .faulted f) : ¬ r.passed = true := by
    simp [passed, status]
  exact {
    pass := by rw [told (by decide), pass, passed]
    fault := by
      rw [told (by decide), fault, exists_congr fun f => faulted, and_iff_right_iff_imp]
      rintro ⟨f, status⟩
      exact fails status
    wrong := by
      rw [told (by decide), wrong, halted, passed, and_comm]
      refine and_congr_right fun halted => ?_
      rw [not_and, forall_prop_of_true halted]
    passText := fun halted output =>
      congrArg (caseLine i) (text_of_pass (passed.mpr ⟨halted, output⟩))
    faultText := fun f status =>
      congrArg (caseLine i) (text_of_fault (fails status) (faulted.mpr status))
    wrongText := by
      intro status output
      have failed : ¬ r.passed = true := fun pass => output (passed.mp pass).2
      exact congrArg (caseLine i) (text_of_wrong failed (halted.mpr status)) }

end Wording

structure CaseReport where
  outcome : String
  cycles : List String

def CaseReport.lines (b : CaseReport) : List String := b.outcome :: b.cycles

def CaseReport.ofResult (traced : Bool) (r : CaseResult) (i : Nat) : CaseReport :=
  ⟨caseLine i r.text, (if traced then r.trace.getD [] else []).map TraceEntry.text⟩

/-- The lines tell how the case ended, and with a record every cycle that was executed. -/
structure CaseReport.Tells (b : CaseReport) (code : Code) (hw : Hardware) (config : RunConfig)
    (i : Nat) (c : TestCase) : Prop where
  outcome : ∃ k m, (Machine.fresh code hw c.input config.ceiling).Runs k m ∧
    Announces i (c.cycles code hw config.ceiling) c m.state b.outcome
  count : b.cycles.length = if config.trace then c.cycles code hw config.ceiling else 0
  each : ∀ n line, b.cycles[n]? = some line → ∃ entry : TraceEntry, entry.cycle = n + 1 ∧
    code.spans[entry.pc]? = some entry.span ∧ line = entry.text

section Cases

variable {code : Code} {hw : Hardware} {config : RunConfig} {c : TestCase} {r : CaseResult}
  {m : Machine}

theorem recorded_of_run? (paired : code.Paired) {input : List Int32} {ceiling : UInt64}
    (ran : (launched code hw input true ceiling).run? = .ok m) :
    ∃ entries, m.trace = some entries ∧ code.Accounts hw entries.toList m.state := by
  obtain ⟨m', entries, steps, -, recording, accounts, -⟩ :=
    Machine.exists_accounts paired hw input ceiling (ceiling.toNat + 1)
  have reached := Machine.launched_reached code hw input true ceiling
  obtain ⟨k, within, runs⟩ := Machine.exists_runs_of_run? reached.coherent_here ran
  cases (runs.advanceBy_eq (within.trans (Nat.sub_le _ _))).symm.trans steps
  exact ⟨entries, recording, accounts⟩

theorem caseReport_tells (paired : code.Paired) (ended : c.run code hw config = .ok r) (i : Nat) :
    (CaseReport.ofResult config.trace r i).Tells code hw config i c := by
  have cycles := TestCase.cycles_of_run ended
  obtain ⟨m, ran, rfl⟩ := TestCase.run_ok ended
  obtain ⟨k, -, runs⟩ := TestCase.launched_runs paired ran
  have outcome := announces_of_terminal (m := m.silent) runs.terminal i c
  have counted : m.silent.state.cycles = c.cycles code hw config.ceiling := cycles
  rw [counted] at outcome
  cases traced : config.trace with
  | false => exact ⟨⟨k, m.silent, runs, outcome⟩, by simp [CaseReport.ofResult, traced], nofun⟩
  | true =>
    rw [traced] at ran
    obtain ⟨entries, recording, accounts⟩ := recorded_of_run? paired ran
    have lines : (CaseReport.ofResult true (CaseResult.ofMachine m c.expected) i).cycles =
        entries.toList.map TraceEntry.text := by
      simp [CaseReport.ofResult, CaseResult.ofMachine, recording]
    refine ⟨⟨k, m.silent, runs, outcome⟩, ?_, fun n line here => ?_⟩
    · rw [lines, List.length_map, accounts.counted, traced, if_pos rfl]
      exact cycles
    · rw [lines, List.getElem?_map, Option.map_eq_some_iff] at here
      obtain ⟨entry, here, rfl⟩ := here
      obtain ⟨number, span, -⟩ := accounts.each n entry here
      exact ⟨entry, number, span, rfl⟩

end Cases

def passLines (blocks : List CaseReport) : Nat :=
  blocks.zipIdx.countP fun b => LineSays b.2 "pass in " b.1.outcome

structure ReportTells (code : Code) (hw : Hardware) (puzzle : Puzzle) (config : RunConfig)
    (report : String) (blocks : List CaseReport) (last : String) : Prop where
  text : report = String.join ((blocks.flatMap CaseReport.lines ++ [last]).map (· ++ "\n"))
  lines : ∀ line ∈ blocks.flatMap CaseReport.lines ++ [last], OneLine line
  count : blocks.length = puzzle.cases.length
  each : ∀ (i : Nat) (c : TestCase) (b : CaseReport), puzzle.cases[i]? = some c →
    blocks[i]? = some b → b.Tells code hw config i c
  passed : "passed: ".toList <+: last.toList ↔
    puzzle.cases ≠ [] ∧ ∀ (i : Nat) (b : CaseReport), blocks[i]? = some b →
      LineSays i "pass in " b.outcome
  failed : ¬ "passed: ".toList <+: last.toList →
    last = s!"failed: {passLines blocks} of {puzzle.cases.length} test cases passed"

section Report

variable {code : Code} {hw : Hardware} {puzzle : Puzzle} {config : RunConfig} {v : Verdict}

def caseReports (traced : Bool) (results : List CaseResult) (first : Nat) : List CaseReport :=
  (results.zipIdx first).map fun r => .ofResult traced r.1 r.2

theorem caseReports_cons (traced : Bool) (r : CaseResult) (rs : List CaseResult) (first : Nat) :
    caseReports traced (r :: rs) first =
      .ofResult traced r first :: caseReports traced rs (first + 1) := by
  rw [caseReports, List.zipIdx_cons, List.map_cons, caseReports]

theorem getElem?_caseReports (traced : Bool) (results : List CaseResult) (i : Nat) :
    (caseReports traced results 0)[i]? = results[i]?.map fun r => .ofResult traced r i := by
  rw [caseReports, List.getElem?_map, List.getElem?_zipIdx, Option.map_map, Nat.zero_add]
  rfl

theorem countP_caseReports (traced : Bool) (results : List CaseResult) (first : Nat) :
    ((caseReports traced results first).zipIdx first).countP
      (fun b => LineSays b.2 "pass in " b.1.outcome) = results.countP CaseResult.passed := by
  induction results generalizing first with
  | nil => rfl
  | cons r rs ih =>
    have here : LineSays first "pass in " (CaseReport.ofResult traced r first).outcome ↔
        r.passed = true := lineSays_pass_iff
    simp only [caseReports_cons, List.zipIdx_cons, List.countP_cons, here, ih, Bool.decide_eq_true]

theorem lines_eq (v : Verdict) (traced : Bool) :
    v.lines traced = (caseReports traced v.results 0).flatMap CaseReport.lines ++ [v.lastLine] := by
  rw [Verdict.lines, caseReports, List.flatMap_map]
  rfl

theorem oneLine_lines (v : Verdict) (traced : Bool) : ∀ line ∈ v.lines traced, OneLine line := by
  intro line member
  rw [lines_eq, List.mem_append, List.mem_flatMap, List.mem_singleton] at member
  obtain ⟨b, listed, inside⟩ | rfl := member
  · obtain ⟨r, -, rfl⟩ := List.mem_map.mp listed
    rcases List.mem_cons.mp inside with rfl | inside
    · have index := (OneLine.append (s := "case ") (by decide) (oneLine_natural r.2)).append
        (t := ": ") (by decide)
      exact index.append (oneLine_result r.1)
    · obtain ⟨entry, -, rfl⟩ := List.mem_map.mp inside
      exact oneLine_entry entry
  · exact oneLine_lastLine v

theorem lastLine_of_passed (passed : v.passed = true) : "passed: ".toList <+: v.lastLine.toList := by
  rw [Verdict.lastLine, Verdict.score?, if_pos passed]
  exact starts_append List.prefix_rfl

theorem lastLine_of_failed (failed : ¬ v.passed = true) :
    v.lastLine = s!"failed: {v.passedCount} of {v.results.length} test cases passed" := by
  rw [Verdict.lastLine, Verdict.score?, if_neg failed]

theorem begins_passed_iff : "passed: ".toList <+: v.lastLine.toList ↔ v.passed = true := by
  refine ⟨fun begins => ?_, lastLine_of_passed⟩
  by_contra failed
  have begins' : "failed: ".toList <+: v.lastLine.toList := by
    rw [lastLine_of_failed failed]
    exact starts_append (starts_append (starts_append (starts_append List.prefix_rfl)))
  rcases List.prefix_or_prefix_of_prefix begins begins' with same | same <;>
    exact absurd same (by decide)

theorem reportTells_of_runAll (paired : code.Paired)
    (ended : runAll code hw puzzle config = .ok v) :
    ReportTells code hw puzzle config (v.report config.trace) (caseReports config.trace v.results 0)
      v.lastLine := by
  obtain ⟨results, each, summed⟩ := runAll_ok_iff.mp ended
  have sums := sumsUp_of_ofResults summed
  have length : v.results.length = puzzle.cases.length := by
    rw [sums.results, each.length_eq]
  have none : results = [] ↔ puzzle.cases = [] := by
    rw [← List.length_eq_zero_iff, ← each.length_eq, List.length_eq_zero_iff]
  exact {
    text := by rw [Verdict.report, lines_eq]
    lines := by
      rw [← lines_eq]
      exact oneLine_lines v config.trace
    count := by rw [caseReports, List.length_map, List.length_zipIdx, length]
    each := by
      intro i c b listed block
      obtain ⟨r, result, run⟩ := related_getElem? each listed
      rw [getElem?_caseReports, sums.results, result] at block
      cases block
      exact caseReport_tells paired run i
    passed := by
      rw [begins_passed_iff, sums.passed, ne_eq, none, sums.results]
      refine and_congr_right fun _ => ?_
      constructor
      · intro passed i b block
        rw [getElem?_caseReports, Option.map_eq_some_iff] at block
        obtain ⟨r, result, rfl⟩ := block
        exact lineSays_pass_iff.mpr (passed r (List.mem_of_getElem? result))
      · intro passes r member
        obtain ⟨i, result⟩ := List.mem_iff_getElem?.mp member
        refine lineSays_pass_iff.mp (passes i (.ofResult config.trace r i) ?_)
        rw [getElem?_caseReports, result]
        rfl
    failed := by
      rw [begins_passed_iff]
      intro failed
      rw [lastLine_of_failed failed, length, Verdict.passedCount, passLines, countP_caseReports] }

/-- The report of running the cases of a puzzle has a line for each case in order, with a line for
each executed cycle under it if they are recorded, and a last line, and each of them tells what has
happened. -/
theorem report_agrees_with_runs {instructions : Array MachineInstruction} {spans : Array Span}
    {code : Code} (built : Code.ofParts instructions spans = .ok code) (hw : Hardware)
    (puzzle : Puzzle) (config : RunConfig)
    (room : puzzle.cases.length * config.ceiling.toNat < UInt64.size) :
    (Machine.addressable hw = true → ∃ v, runAll code hw puzzle config = .ok v) ∧
      ∀ v, runAll code hw puzzle config = .ok v → ∃ blocks last,
        ReportTells code hw puzzle config (v.report config.trace) blocks last := by
  have paired := Machine.paired_of_ofParts built
  exact ⟨fun addressable => exists_runAll paired addressable room,
    fun v ended => ⟨_, _, reportTells_of_runAll paired ended⟩⟩

end Report

def mixed : Puzzle := ⟨"", [⟨[3], [3]⟩, ⟨[], []⟩, ⟨[-4], [4]⟩]⟩

theorem mixed_reported :
    Code.ofParts relay.instructions relay.spans = .ok relay ∧
      mixed.cases.length * (10 : UInt64).toNat < UInt64.size ∧
      ∃ v blocks last, runAll relay (.ofSizes 2 [1]) mixed ⟨10, false, true⟩ = .ok v ∧
        ReportTells relay (.ofSizes 2 [1]) mixed ⟨10, false, true⟩ (v.report true) blocks last ∧
        v.report true =
          "case 0: pass in 4 cycles\n    [     1] pc 0    1:1\n    [     2] pc 1    2:1\n" ++
          "    [     3] pc 2    3:1\n    [     4] pc 3    4:1\n" ++
          "case 1: fault after 0 cycles: read past the end of input at 1:1\n" ++
          "case 2: wrong output [-4], expected [4]\n    [     1] pc 0    1:1\n" ++
          "    [     2] pc 1    2:1\n    [     3] pc 2    3:1\n    [     4] pc 3    4:1\n" ++
          "failed: 1 of 3 test cases passed\n" := by
  have built : Code.ofParts relay.instructions relay.spans = .ok relay := rfl
  have room : mixed.cases.length * (10 : UInt64).toNat < UInt64.size := by decide
  obtain ⟨returns, told⟩ :=
    report_agrees_with_runs built (.ofSizes 2 [1]) mixed ⟨10, false, true⟩ room
  obtain ⟨v, ended⟩ := returns rfl
  obtain ⟨blocks, last, tells⟩ := told v ended
  refine ⟨built, room, v, blocks, last, ended, tells, ?_⟩
  have text := congrArg (Except.map (Verdict.report · true)) ended
  refine Except.ok.inj (text.symm.trans ?_)
  decide +kernel

end PuzzleMachine
