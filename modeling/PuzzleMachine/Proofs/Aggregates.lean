import PuzzleMachine.Proofs.Obtained
import PuzzleMachine.Proofs.Scoring

set_option autoImplicit false

namespace PuzzleMachine

open Machine (launched)

section Results

variable {results : List CaseResult} {size : Nat} {v : Verdict} {b : Breach}

/-- What is counted comes to `n` at most, and to nothing if there are no results. -/
structure Largest (count : CaseResult → Nat) (results : List CaseResult) (n : Nat) : Prop where
  bound : ∀ r ∈ results, count r ≤ n
  attained : n = 0 ∨ ∃ r ∈ results, count r = n

structure Verdict.SumsUp (v : Verdict) (rs : List CaseResult) (size : Nat) : Prop where
  results : v.results = rs
  programSize : v.programSize = size
  passed : v.passed = true ↔ rs ≠ [] ∧ ∀ r ∈ rs, r.passed = true
  totalCycles : v.totalCycles = (rs.map CaseResult.cycles).sum
  maxCycles : Largest CaseResult.cycles rs v.maxCycles
  registersUsed : Largest CaseResult.registersUsed rs v.registersUsed
  peak : Largest CaseResult.peak rs v.peak

theorem foldl_largest (count : CaseResult → Nat) (results : List CaseResult) (most : Nat) :
    let n := results.foldl (fun most r => max most (count r)) most
    most ≤ n ∧ (∀ r ∈ results, count r ≤ n) ∧ (n = most ∨ ∃ r ∈ results, count r = n) := by
  -- By induction on what is left, where `most` is the largest count so far.
  induction results generalizing most with
  | nil => simp
  | cons r rs ih =>
    obtain ⟨more, bound, attained⟩ := ih (max most (count r))
    obtain ⟨earlier, here⟩ := Nat.max_le.mp more
    refine ⟨earlier, List.forall_mem_cons.mpr ⟨here, bound⟩, ?_⟩
    rcases attained with same | ⟨r', later, same⟩
    · rcases Nat.le_total (count r) most with smaller | larger
      · exact .inl (same.trans (Nat.max_eq_left smaller))
      · have first := same.trans (Nat.max_eq_right larger)
        exact .inr ⟨r, List.mem_cons_self, first.symm⟩
    · exact .inr ⟨r', List.mem_cons_of_mem r later, same⟩

theorem largest_of (count : CaseResult → Nat) (results : List CaseResult) :
    Largest count results (Verdict.largest results count) := by
  obtain ⟨-, bound, attained⟩ := foldl_largest count results 0
  exact ⟨bound, attained⟩

theorem foldl_cycles (results : List CaseResult) :
    results.foldl (fun sum r => sum + r.cycles) 0 = (results.map CaseResult.cycles).sum := by
  rw [List.sum_eq_foldl, List.foldl_map]

theorem exists_ofResults_iff :
    (∃ v, Verdict.ofResults results size = .ok v) ↔
      (results.map CaseResult.cycles).sum < UInt64.size := by
  rw [Verdict.ofResults, foldl_cycles]
  split
  next room => simp [room]
  next full => simp [full]

theorem sumsUp_of_ofResults (summed : Verdict.ofResults results size = .ok v) :
    v.SumsUp results size := by
  rw [Verdict.ofResults] at summed
  split at summed
  next =>
    cases summed
    have some : results.isEmpty = false ↔ results ≠ [] := by simp
    refine ⟨rfl, rfl, ?_, foldl_cycles results, largest_of _ _, largest_of _ _, largest_of _ _⟩
    rw [Bool.and_eq_true, Bool.not_eq_true', some, List.all_eq_true]
  next => cases summed

theorem ofResults_error_iff :
    Verdict.ofResults results size = .error b ↔
      b = .outOfRange ∧ UInt64.size ≤ (results.map CaseResult.cycles).sum := by
  rw [Verdict.ofResults, foldl_cycles]
  split
  next room => simp [room]
  next full => simp [Nat.le_of_not_lt full, eq_comm]

end Results

section Runs

variable {code : Code} {hw : Hardware} {config : RunConfig} {c : TestCase} {r : CaseResult}
  {m m' : Machine} {input : List Int32} {puzzle : Puzzle} {v : Verdict} {b : Breach}

-- A run that gives a result has taken no step without a span, whether or not the code has one for
-- each instruction.
theorem Machine.exists_runs_of_run?
    (coherent : m.state.Coherent m.code hw input m.ceiling) (ended : m.run? = .ok m') :
    ∃ k ≤ m.ceiling.toNat + 1 - m.state.cycles, m.Runs k m' := by
  have enough : m.ceiling.toNat + 1 ≤
      m.state.cycles + (m.ceiling.toNat + 1 - m.state.cycles) := by omega
  rcases runs_or_unspanned coherent enough with
    ⟨k, last, within, runs⟩ | ⟨k, last, within, -, steps, unspanned⟩
  · rw [run?, complete, runs.advanceBy_eq within] at ended
    cases ended
    exact ⟨k, within, runs⟩
  · rw [run?, complete, unspanned.advanceBy_eq steps within] at ended
    cases ended

namespace TestCase

def Strays (code : Code) (hw : Hardware) (config : RunConfig) (c : TestCase) : Prop :=
  ∃ n m, (launched code hw c.input config.trace config.ceiling).advanceBy n = .ok m ∧ m.Unspanned

theorem run_error_iff (addressable : Machine.addressable hw = true) :
    c.run code hw config = .error b ↔ b = .missingSpan ∧ c.Strays code hw config := by
  have reached := Machine.launched_reached code hw c.input config.trace config.ceiling
  rw [run_eq addressable, map_error_iff, Machine.run?_error_iff reached.coherent_here]
  rfl

theorem cycles_of_run (ended : c.run code hw config = .ok r) :
    r.cycles = c.cycles code hw config.ceiling := by
  obtain ⟨m, ran, rfl⟩ := run_ok ended
  have reached := Machine.launched_reached code hw c.input config.trace config.ceiling
  obtain ⟨k, enough, runs⟩ := Machine.exists_runs_of_run? reached.coherent_here ran
  rw [Machine.launched_ceiling] at enough
  have silent := silent_launched ▸ runs.silent
  exact (silent.counts (enough.trans (Nat.sub_le _ _))).1.trans (Nat.zero_add _)

theorem not_strays_of_paired (paired : code.Paired) (c : TestCase) :
    ¬ c.Strays code hw config := by
  have reached := Machine.launched_reached code hw c.input config.trace config.ceiling
  obtain ⟨-, m, -, ended⟩ :=
    Machine.exists_launched_run paired hw c.input config.trace config.ceiling
  intro strays
  have broken := (Machine.run?_error_iff reached.coherent_here).mpr ⟨rfl, strays⟩
  cases ended.symm.trans broken

end TestCase

theorem map_cycles {cases : List TestCase} {results : List CaseResult}
    (each : List.Forall₂ (fun c r => TestCase.run code hw config c = .ok r) cases results) :
    results.map CaseResult.cycles = cases.map (TestCase.cycles code hw config.ceiling) := by
  induction each with
  | nil => rfl
  | cons here _ ih => rw [List.map_cons, List.map_cons, TestCase.cycles_of_run here, ih]

theorem exists_runs_iff {cases : List TestCase} :
    (∃ results, List.Forall₂ (fun c r => TestCase.run code hw config c = .ok r) cases results) ↔
      (cases ≠ [] → Machine.addressable hw = true) ∧ ∀ c ∈ cases, ¬ c.Strays code hw config := by
  constructor
  · intro ⟨results, each⟩
    have ended : ∀ c ∈ cases, ∃ r, c.run code hw config = .ok r := by
      intro c member
      obtain ⟨r, -, ended⟩ := exists_related each.flip member
      exact ⟨r, ended⟩
    constructor
    · intro some
      obtain ⟨c, member⟩ := List.exists_mem_of_ne_nil cases some
      obtain ⟨r, ended⟩ := ended c member
      exact TestCase.addressable_of_run ended
    · intro c member strays
      obtain ⟨r, ended⟩ := ended c member
      have broken := (TestCase.run_error_iff (TestCase.addressable_of_run ended)).mpr ⟨rfl, strays⟩
      cases ended.symm.trans broken
  · intro ⟨addressable, spanned⟩
    refine exists_related_to_each fun c member => ?_
    cases ended : c.run code hw config with
    | ok r => exact ⟨r, rfl⟩
    | error b =>
      have addressable := addressable (List.ne_nil_of_mem member)
      exact absurd ((TestCase.run_error_iff addressable).mp ended).2 (spanned c member)

theorem exists_runAll_iff :
    (∃ v, runAll code hw puzzle config = .ok v) ↔
      (puzzle.cases ≠ [] → Machine.addressable hw = true) ∧
        (∀ c ∈ puzzle.cases, ¬ c.Strays code hw config) ∧
        (puzzle.cases.map (TestCase.cycles code hw config.ceiling)).sum < UInt64.size := by
  rw [← and_assoc, ← exists_runs_iff]
  constructor
  · intro ⟨v, ended⟩
    obtain ⟨results, each, summed⟩ := runAll_ok_iff.mp ended
    rw [← map_cycles each]
    exact ⟨⟨results, each⟩, exists_ofResults_iff.mp ⟨v, summed⟩⟩
  · intro ⟨⟨results, each⟩, room⟩
    rw [← map_cycles each] at room
    obtain ⟨v, summed⟩ := exists_ofResults_iff.mpr room
    exact ⟨v, runAll_ok_iff.mpr ⟨results, each, summed⟩⟩

-- Running the cases gives no verdict although each of them has a result.
theorem runAll_of_full (paired : code.Paired) (addressable : Machine.addressable hw = true)
    (full : UInt64.size ≤ (puzzle.cases.map (TestCase.cycles code hw config.ceiling)).sum) :
    runAll code hw puzzle config = .error .outOfRange := by
  obtain ⟨results, each⟩ := exists_runs paired addressable config puzzle.cases
  rw [← map_cycles each] at full
  rw [runAll, mapM_ok_iff.mpr each, ok_bind]
  exact ofResults_error_iff.mpr ⟨rfl, full⟩

end Runs

/-- A verdict is exact. There is one unless the cycles of all results are more than a word can
count, and for the cases of a puzzle unless, besides, they cannot be run. -/
theorem verdict_exact (results : List CaseResult) (size : Nat) (code : Code) (hw : Hardware)
    (puzzle : Puzzle) (config : RunConfig) :
    ((∃ v, Verdict.ofResults results size = .ok v) ↔
        (results.map CaseResult.cycles).sum < UInt64.size) ∧
      (∀ v, Verdict.ofResults results size = .ok v → v.SumsUp results size) ∧
      (∀ b, Verdict.ofResults results size = .error b → b = .outOfRange) ∧
      ((∃ v, runAll code hw puzzle config = .ok v) ↔
        (puzzle.cases ≠ [] → Machine.addressable hw = true) ∧
          (∀ c ∈ puzzle.cases, ¬ c.Strays code hw config) ∧
          (puzzle.cases.map (TestCase.cycles code hw config.ceiling)).sum < UInt64.size) ∧
      ∀ v, runAll code hw puzzle config = .ok v → ∃ results,
        List.Forall₂ (fun c r => c.run code hw config = .ok r) puzzle.cases results ∧
          v.SumsUp results code.instructions.size := by
  refine ⟨exists_ofResults_iff, fun v => sumsUp_of_ofResults,
    fun b failed => (ofResults_error_iff.mp failed).1, exists_runAll_iff, fun v ended => ?_⟩
  obtain ⟨results, each, summed⟩ := runAll_ok_iff.mp ended
  exact ⟨results, each, sumsUp_of_ofResults summed⟩

section Spinning

variable {m m' : Machine} {hw : Hardware}

structure Machine.Spinning (m : Machine) : Prop where
  code : m.code = spin.code
  stays : m.state.pc = 0
  going : m.state.status ≠ .halted
  faulted : ∀ f, m.state.status = .faulted f → f.kind.isTimeout = true

theorem Machine.Turn.spinning (turn : m.Turn m') (spinning : m.Spinning) : m'.Spinning := by
  have ⟨code, stays, going, faulted⟩ := spinning
  cases turn with
  | rest => exact spinning
  | halt working atEnd =>
    rw [stays, code] at atEnd
    cases atEnd
  | timeout => exact ⟨code, stays, nofun, fun f same => by cases same; rfl⟩
  | fault fetched fails =>
    -- The only instruction there is does not fail.
    have coded := fetched.coded
    rw [stays, code] at coded
    cases coded
    cases fails
  | execute fetched succeeds =>
    have coded := fetched.coded
    rw [stays, code] at coded
    cases coded
    rw [planned, code] at succeeds
    cases succeeds
    refine ⟨code, rfl, ?_, fun f same => absurd same executed_not_faulted⟩
    simp [executed, code, spin, fresh, Code.haltIndex]

theorem Machine.Reaches.spinning (reached : m.Reaches m') (spinning : m.Spinning) :
    m'.Spinning := by
  induction reached with
  | start => exact spinning
  | step _ stepped ih => exact (step?_ok_iff.mp stepped).spinning ih
  | record _ ih => exact ⟨ih.code, ih.stays, ih.going, ih.faulted⟩

theorem spin_cycles (addressable : Machine.addressable hw = true) (ceiling : UInt64)
    (c : TestCase) : c.cycles Machine.spin.code hw ceiling = ceiling.toNat := by
  have paired : Machine.spin.code.Paired := rfl
  obtain ⟨r, ended⟩ := TestCase.exists_run paired addressable ⟨ceiling, false, false⟩ c
  have counted := TestCase.cycles_of_run ended
  obtain ⟨m, ran, rfl⟩ := TestCase.run_ok ended
  obtain ⟨n, runs⟩ := Machine.runs_of_run? paired ran
  have reached := Machine.reached_of_run? paired ran
  have spinning := reached.spinning ⟨rfl, rfl, nofun, nofun⟩
  -- It comes to an end all the same, which can only be at its ceiling.
  obtain halted | ⟨f, faulted⟩ := Status.isTerminal_iff.mp runs.terminal
  · exact absurd halted spinning.going
  have late := (reached.timely Machine.fresh_timely).timeout ⟨f, faulted, spinning.faulted f faulted⟩
  have early := (reached.coherent (Machine.fresh_coherent ..)).early
  rw [reached.ceiling_eq] at late
  exact counted.symm.trans (Nat.le_antisymm early late)

theorem runAll_spin (addressable : Machine.addressable hw = true) {config : RunConfig}
    {c c' : TestCase} (wide : UInt64.size ≤ config.ceiling.toNat + config.ceiling.toNat) :
    runAll Machine.spin.code hw ⟨"", [c, c']⟩ config = .error .outOfRange := by
  refine runAll_of_full rfl addressable ?_
  simpa [spin_cycles addressable] using wide

def passIn (cycles : UInt64) : CaseResult :=
  ⟨true, [], [], cycles.toNat, cycles.toNat, 0, 0, .halted, none⟩

-- One cycle more than can be counted, and two cases that take all the cycles of the highest ceiling
-- there is.
theorem too_many_cycles_not_summed :
    Verdict.ofResults [passIn 0xffffffffffffffff, passIn 1] 1 = .error .outOfRange ∧
      runAll Machine.spin.code .default ⟨"", [⟨[], []⟩, ⟨[], []⟩]⟩
        ⟨0xffffffffffffffff, false, false⟩ = .error .outOfRange :=
  ⟨rfl, runAll_spin rfl (by decide)⟩

theorem most_cycles_summed :
    (∃ v, Verdict.ofResults [passIn 0xfffffffffffffffe, passIn 1] 1 = .ok v ∧
        v.SumsUp [passIn 0xfffffffffffffffe, passIn 1] 1) ∧
      ∃ v, runAll Machine.spin.code .default ⟨"", [⟨[], []⟩]⟩ ⟨0xffffffffffffffff, false, false⟩ =
        .ok v ∧ v.totalCycles = 0xffffffffffffffff := by
  let config : RunConfig := ⟨0xffffffffffffffff, false, false⟩
  let puzzle : Puzzle := ⟨"", [⟨[], []⟩]⟩
  obtain ⟨summable, sums, -, returns, exact⟩ := verdict_exact
    [passIn 0xfffffffffffffffe, passIn 1] 1 Machine.spin.code .default puzzle config
  constructor
  · obtain ⟨v, summed⟩ := summable.mpr (by decide)
    exact ⟨v, summed, sums v summed⟩
  · have cycles : puzzle.cases.map (TestCase.cycles Machine.spin.code .default config.ceiling) =
        [0xffffffffffffffff] := congrArg (fun n => [n]) (spin_cycles rfl config.ceiling ⟨[], []⟩)
    have paired : Machine.spin.code.Paired := rfl
    have room : (puzzle.cases.map
        (TestCase.cycles Machine.spin.code .default config.ceiling)).sum < UInt64.size := by
      rw [cycles]
      decide
    obtain ⟨v, ended⟩ :=
      returns.mpr ⟨fun _ => rfl, fun c _ => TestCase.not_strays_of_paired paired c, room⟩
    obtain ⟨results, each, summed⟩ := exact v ended
    refine ⟨v, ended, ?_⟩
    rw [summed.totalCycles, map_cycles each, cycles]
    rfl

end Spinning
end PuzzleMachine
