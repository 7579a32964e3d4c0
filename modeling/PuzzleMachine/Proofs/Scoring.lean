import PuzzleMachine.Proofs.Ceiling
import PuzzleMachine.Proofs.Trail
import PuzzleMachine.Verdict

set_option autoImplicit false

namespace PuzzleMachine

open Machine (launched)

def CaseResult.silent (r : CaseResult) : CaseResult := { r with trace := none }

namespace TestCase

section Spec

variable (code : Code) (hw : Hardware) (ceiling : UInt64) (c : TestCase)

def Solved : Prop :=
  ∃ m k, Machine.start code hw c.input ceiling = .ok m ∧
    (Machine.step^[k] m).state.status = .halted ∧
    (Machine.step^[k] m).state.output.toList = c.expected

def trail : List MachineInstruction :=
  (Machine.fresh code hw c.input ceiling).trail (ceiling.toNat + 1)

def cycles : Nat := (c.trail code hw ceiling).length

noncomputable def registers : Nat := {r | ∃ i ∈ c.trail code hw ceiling, i.Names r}.ncard

def depth : Nat := (Machine.fresh code hw c.input ceiling).deepest (ceiling.toNat + 1)

end Spec

def worst (measure : TestCase → Nat) (cases : List TestCase) : Nat :=
  (cases.map measure).foldr max 0

noncomputable def worstScore (code : Code) (hw : Hardware) (ceiling : UInt64)
    (cases : List TestCase) : Score where
  cycles := worst (cycles code hw ceiling) cases
  instructions := code.instructions.size
  registers := worst (registers code hw ceiling) cases
  stackDepth := worst (depth code hw ceiling) cases

/-- What a result says about its case. -/
structure Tells (code : Code) (hw : Hardware) (ceiling : UInt64) (c : TestCase) (r : CaseResult) :
    Prop where
  passed : r.passed = true ↔ c.Solved code hw ceiling
  cycles : r.cycles = c.cycles code hw ceiling
  registers : r.registersUsed = c.registers code hw ceiling
  depth : r.peak = c.depth code hw ceiling
  bound : r.cycles ≤ ceiling.toNat

section Run

variable {code : Code} {hw : Hardware} {config : RunConfig} {c : TestCase} {m : Machine}

theorem machine_eq (addressable : Machine.addressable hw = true) :
    c.machine code hw config = .ok (launched code hw c.input config.trace config.ceiling) := by
  rw [machine, Machine.start, if_pos addressable]
  rfl

theorem run_eq (addressable : Machine.addressable hw = true) :
    c.run code hw config =
      (launched code hw c.input config.trace config.ceiling).run?.map fun m =>
        .ofMachine m c.expected := by
  rw [run, machine_eq addressable, ok_bind]
  cases Machine.run? _ <;> rfl

theorem silent_launched {input : List Int32} {traced : Bool} {ceiling : UInt64} :
    (launched code hw input traced ceiling).silent = .fresh code hw input ceiling := by
  cases traced <;> rfl

theorem launched_runs (paired : code.Paired)
    (ended : (launched code hw c.input config.trace config.ceiling).run? = .ok m) :
    ∃ k ≤ config.ceiling.toNat + 1,
      (Machine.fresh code hw c.input config.ceiling).Runs k m.silent := by
  have reached := Machine.launched_reached code hw c.input config.trace config.ceiling
  obtain ⟨k, m', enough, runs, ended'⟩ :=
    Machine.exists_run (reached.code_eq ▸ paired) reached.coherent_here
  cases ended.symm.trans ended'
  rw [Machine.launched_ceiling] at enough
  exact ⟨k, enough.trans (Nat.sub_le _ _), silent_launched ▸ runs.silent⟩

theorem solved_iff {k : Nat} (addressable : Machine.addressable hw = true)
    (runs : (Machine.fresh code hw c.input config.ceiling).Runs k m) :
    c.Solved code hw config.ceiling ↔
      m.state.status = .halted ∧ m.state.output.toList = c.expected := by
  have started : Machine.start code hw c.input config.ceiling =
      .ok (.fresh code hw c.input config.ceiling) := by
    rw [Machine.start, if_pos addressable]
  constructor
  next =>
    rintro ⟨m', j, started', halted, output⟩
    cases started.symm.trans started'
    have terminal : (Machine.step^[j]
        (.fresh code hw c.input config.ceiling)).state.status.isTerminal = true := by
      rw [halted]
      rfl
    -- A machine that has halted stays as it is, so it has come to the end of the run.
    have same : Machine.step^[j] (.fresh code hw c.input config.ceiling) = m := by
      have later := Function.iterate_fixed (Machine.Turn.rest terminal).step_eq k
      rw [← later, ← Function.iterate_add_apply]
      exact runs.iterate_step (Nat.le_add_right k j)
    exact same ▸ ⟨halted, output⟩
  next =>
    intro halted
    have ended := runs.iterate_step (Nat.le_refl k)
    exact ⟨_, k, started, by rw [ended]; exact halted⟩

theorem registersUsed_eq {k : Nat} (enough : k ≤ config.ceiling.toNat + 1)
    (runs : (Machine.fresh code hw c.input config.ceiling).Runs k m) :
    m.state.registersUsed = c.registers code hw config.ceiling := by
  have fresh := Machine.fresh_coherent code hw c.input config.ceiling
  let named := (c.trail code hw config.ceiling).flatMap Instruction.userRegisters
  have marked : Marked m.state.touched (∅ ∪ named.toFinset) := by
    rw [(runs.counts enough).2]
    refine (Marked.none hw.registers.toNat).touch fun r member => ?_
    obtain ⟨i, executed, names⟩ := List.mem_flatMap.mp member
    rw [Array.size_replicate]
    exact runs.names_inside enough fresh executed names
  rw [State.registersUsed, marked.count, registers, Instruction.setOf_names_eq,
    Set.ncard_coe_finset, Finset.empty_union]

theorem run_of_not_addressable (beyond : ¬ Machine.addressable hw = true) :
    c.run code hw config = .error .outOfRange := by
  rw [run, machine, Machine.start, if_neg beyond]
  rfl

theorem addressable_of_run {r : CaseResult} (ended : c.run code hw config = .ok r) :
    Machine.addressable hw = true := by
  by_contra beyond
  cases (run_of_not_addressable beyond).symm.trans ended

theorem exists_run (paired : code.Paired) (addressable : Machine.addressable hw = true)
    (config : RunConfig) (c : TestCase) : ∃ r, c.run code hw config = .ok r := by
  obtain ⟨-, m, -, ended⟩ :=
    Machine.exists_launched_run paired hw c.input config.trace config.ceiling
  exact ⟨.ofMachine m c.expected, by rw [run_eq addressable, ended]; rfl⟩

theorem run_ok {r : CaseResult} (ended : c.run code hw config = .ok r) :
    ∃ m, (launched code hw c.input config.trace config.ceiling).run? = .ok m ∧
      r = .ofMachine m c.expected := by
  rw [run_eq (addressable_of_run ended)] at ended
  obtain ⟨m, ran, rfl⟩ := map_ok_iff.mp ended
  exact ⟨m, ran, rfl⟩

theorem tells_of_run {r : CaseResult} (paired : code.Paired)
    (ended : c.run code hw config = .ok r) : c.Tells code hw config.ceiling r := by
  have addressable := addressable_of_run ended
  obtain ⟨m, ran, rfl⟩ := run_ok ended
  obtain ⟨k, enough, runs⟩ := launched_runs paired ran
  have fresh := Machine.fresh_coherent code hw c.input config.ceiling
  refine ⟨?_, ?_, ?_, ?_, ?_⟩
  · rw [solved_iff addressable runs]
    simp [CaseResult.ofMachine, Machine.silent]
  · exact (runs.counts enough).1.trans (Nat.zero_add _)
  · exact (registersUsed_eq enough runs :)
  · exact (runs.peak_eq enough fresh).trans (Nat.zero_max _)
  · exact ((Machine.reached_of_run? paired ran).coherent fresh).early

theorem run_raised {r : CaseResult} {config' : RunConfig} (paired : code.Paired)
    (ended : c.run code hw config = .ok r) (passed : r.passed = true)
    (higher : config.ceiling ≤ config'.ceiling) (trace : config'.trace = config.trace) :
    c.run code hw config' = .ok r := by
  have addressable := addressable_of_run ended
  obtain ⟨m, ran, rfl⟩ := run_ok ended
  have halted : m.state.status = .halted := by
    simp only [CaseResult.ofMachine, Bool.and_eq_true, decide_eq_true_eq] at passed
    exact passed.1
  have untimed : ¬ m.TimedOut := by
    rintro ⟨f, faulted, -⟩
    cases halted.symm.trans faulted
  have within := (Machine.within_of_run? paired ran untimed).mono higher
  rw [run_eq addressable, trace, Machine.run?_of_within paired ran untimed within]
  rfl

theorem run_silent {config' : RunConfig} (paired : code.Paired)
    (same : config'.ceiling = config.ceiling) :
    (c.run code hw config').map CaseResult.silent =
      (c.run code hw config).map CaseResult.silent := by
  by_cases addressable : Machine.addressable hw = true
  next =>
    obtain ⟨r, ended⟩ := exists_run paired addressable config c
    obtain ⟨r', ended'⟩ := exists_run paired addressable config' c
    rw [ended, ended']
    obtain ⟨m, ran, rfl⟩ := run_ok ended
    obtain ⟨m', ran', rfl⟩ := run_ok ended'
    obtain ⟨k, _, runs⟩ := launched_runs paired ran
    obtain ⟨k', _, runs'⟩ := launched_runs paired ran'
    rw [same] at runs'
    have state : m'.state = m.state := (congrArg Machine.state (runs'.unique runs) :)
    simp only [Except.map, CaseResult.ofMachine, CaseResult.silent, state]
  next => rw [run_of_not_addressable addressable, run_of_not_addressable addressable]

end Run

section Worst

variable {measure : TestCase → Nat} {c : TestCase} {cases cases' : List TestCase}

theorem worst_perm (same : cases.Perm cases') : worst measure cases = worst measure cases' :=
  (same.map measure).foldr_eq' (fun x _ y _ z => Nat.max_left_comm y x z) 0

theorem worstScore_perm {code : Code} {hw : Hardware} {ceiling : UInt64}
    (same : cases.Perm cases') :
    worstScore code hw ceiling cases = worstScore code hw ceiling cases' := by
  simp only [worstScore, worst_perm same]

theorem worst_le_cons : worst measure cases ≤ worst measure (c :: cases) := Nat.le_max_right ..

theorem worst_eq {count : CaseResult → Nat} {results : List CaseResult}
    (each : List.Forall₂ (fun c r => count r = measure c) cases results) :
    Verdict.largest results count = worst measure cases := by
  have largest_eq (rs : List CaseResult) (most : Nat) :
      rs.foldl (fun most r => max most (count r)) most = max most ((rs.map count).foldr max 0) := by
    induction rs generalizing most with
    | nil => simp
    | cons r rs ih => rw [List.foldl_cons, ih, Nat.max_assoc]; rfl
  have same : results.map count = cases.map measure := by
    induction each with
    | nil => rfl
    | cons here _ ih => rw [List.map_cons, List.map_cons, here, ih]
  rw [Verdict.largest, largest_eq, same, Nat.zero_max, worst]

end Worst

end TestCase

theorem Score.order_ne_lt {s s' : Score} (cycles : s.cycles ≤ s'.cycles)
    (instructions : s.instructions = s'.instructions) (registers : s.registers ≤ s'.registers)
    (depth : s.stackDepth ≤ s'.stackDepth) : s'.order s ≠ .lt := by
  simp only [order, ne_eq, Ordering.then_eq_lt, Nat.compare_eq_lt, Nat.compare_eq_eq]
  omega

namespace Verdict

def silent (v : Verdict) : Verdict :=
  { v with results := v.results.map CaseResult.silent }

def standing (v : Verdict) : Bool × Option Score := (v.passed, v.score?)

end Verdict

section RunAll

variable {code : Code} {hw : Hardware} {puzzle puzzle' : Puzzle} {config config' : RunConfig}
  {v v' : Verdict}

theorem total_le {results : List CaseResult} {ceiling : Nat}
    (bound : ∀ r ∈ results, r.cycles ≤ ceiling) :
    results.foldl (fun sum r => sum + r.cycles) 0 ≤ results.length * ceiling := by
  have total_le_add (rs : List CaseResult) (bound : ∀ r ∈ rs, r.cycles ≤ ceiling) (sum : Nat) :
      rs.foldl (fun sum r => sum + r.cycles) sum ≤ sum + rs.length * ceiling := by
    induction rs generalizing sum with
    | nil => simp
    | cons r rs ih =>
      obtain ⟨first, later⟩ := List.forall_mem_cons.mp bound
      refine (ih later (sum + r.cycles)).trans ?_
      rw [List.length_cons, Nat.succ_mul]
      omega
  exact (total_le_add results bound 0).trans_eq (Nat.zero_add _)

theorem runAll_ok_iff :
    runAll code hw puzzle config = .ok v ↔
      ∃ results, List.Forall₂ (fun c r => c.run code hw config = .ok r) puzzle.cases results ∧
        Verdict.ofResults results code.instructions.size = .ok v := by
  simp only [runAll, bind_ok_iff, mapM_ok_iff]

theorem exists_runs (paired : code.Paired) (addressable : Machine.addressable hw = true)
    (config : RunConfig) (cases : List TestCase) :
    ∃ results, List.Forall₂ (fun c r => TestCase.run code hw config c = .ok r) cases results :=
  exists_related_to_each fun c _ => TestCase.exists_run paired addressable config c

theorem exists_runAll (paired : code.Paired) (addressable : Machine.addressable hw = true)
    (room : puzzle.cases.length * config.ceiling.toNat < UInt64.size) :
    ∃ v, runAll code hw puzzle config = .ok v := by
  obtain ⟨results, each⟩ := exists_runs paired addressable config puzzle.cases
  have bound : ∀ r ∈ results, r.cycles ≤ config.ceiling.toNat := by
    intro r member
    obtain ⟨c, -, ended⟩ := exists_related each member
    exact (TestCase.tells_of_run paired ended).bound
  have total := total_le bound
  rw [← each.length_eq] at total
  obtain ⟨v, summed⟩ : ∃ v, Verdict.ofResults results code.instructions.size = .ok v :=
    ⟨_, if_pos (Nat.lt_of_le_of_lt total room)⟩
  exact ⟨v, runAll_ok_iff.mpr ⟨results, each, summed⟩⟩

theorem all_passed_iff {ceiling : UInt64} {cases : List TestCase} {results : List CaseResult}
    (tells : List.Forall₂ (TestCase.Tells code hw ceiling) cases results) :
    results.all CaseResult.passed = true ↔ ∀ c ∈ cases, c.Solved code hw ceiling := by
  induction tells with
  | nil => simp
  | cons here _ ih => rw [List.all_cons, Bool.and_eq_true, here.passed, ih, List.forall_mem_cons]

theorem runAll_spec (paired : code.Paired) (ended : runAll code hw puzzle config = .ok v) :
    (v.passed = true ↔
        puzzle.cases ≠ [] ∧ ∀ c ∈ puzzle.cases, c.Solved code hw config.ceiling) ∧
      v.score? =
        if v.passed then some (TestCase.worstScore code hw config.ceiling puzzle.cases)
        else none := by
  obtain ⟨results, each, summed⟩ := runAll_ok_iff.mp ended
  have tells := each.imp fun c r ended => TestCase.tells_of_run paired ended
  rw [Verdict.ofResults] at summed
  split at summed
  next =>
    cases summed
    refine ⟨?_, ?_⟩
    · have none : results = [] ↔ puzzle.cases = [] := by
        rw [← List.length_eq_zero_iff, ← each.length_eq, List.length_eq_zero_iff]
      simp [all_passed_iff tells, none]
    · simp only [Verdict.score?, TestCase.worstScore,
        TestCase.worst_eq (tells.imp fun _ _ t => t.cycles),
        TestCase.worst_eq (tells.imp fun _ _ t => t.registers),
        TestCase.worst_eq (tells.imp fun _ _ t => t.depth)]
  next => cases summed

theorem runAll_of_not_addressable (beyond : ¬ Machine.addressable hw = true)
    (some : puzzle.cases ≠ []) : runAll code hw puzzle config = .error .outOfRange := by
  obtain ⟨c, cases, listed⟩ := List.exists_cons_of_ne_nil some
  rw [runAll, listed, List.mapM_cons, TestCase.run_of_not_addressable beyond]
  rfl

theorem score?_eq_some_iff (paired : code.Paired)
    (room : puzzle.cases.length * config.ceiling.toNat < UInt64.size) {s : Score} :
    (runAll code hw puzzle config).map Verdict.score? = .ok (some s) ↔
      puzzle.cases ≠ [] ∧ (∀ c ∈ puzzle.cases, c.Solved code hw config.ceiling) ∧
        s = TestCase.worstScore code hw config.ceiling puzzle.cases := by
  rw [map_ok_iff]
  constructor
  next =>
    rintro ⟨v, ended, score⟩
    obtain ⟨passed, standing⟩ := runAll_spec paired ended
    rw [standing] at score
    split at score
    next pass =>
      obtain ⟨some, solved⟩ := passed.mp pass
      exact ⟨some, solved, (Option.some.inj score).symm⟩
    next => cases score
  next =>
    rintro ⟨some, solved, rfl⟩
    have addressable : Machine.addressable hw = true := by
      obtain ⟨c, member⟩ := List.exists_mem_of_ne_nil _ some
      obtain ⟨m, -, started, -⟩ := solved c member
      by_contra beyond
      rw [Machine.start, if_neg beyond] at started
      cases started
    obtain ⟨v, ended⟩ := exists_runAll paired addressable room
    obtain ⟨passed, standing⟩ := runAll_spec paired ended
    exact ⟨v, ended, by rw [standing, if_pos (passed.mpr ⟨some, solved⟩)]⟩

theorem standing_perm (paired : code.Paired)
    (room : puzzle.cases.length * config.ceiling.toNat < UInt64.size)
    (same : puzzle'.cases.Perm puzzle.cases) :
    (runAll code hw puzzle' config).map Verdict.standing =
      (runAll code hw puzzle config).map Verdict.standing := by
  by_cases addressable : Machine.addressable hw = true
  next =>
    obtain ⟨v, ended⟩ := exists_runAll paired addressable room
    obtain ⟨v', ended'⟩ := exists_runAll paired addressable (same.length_eq ▸ room)
    obtain ⟨passed, score⟩ := runAll_spec paired ended
    obtain ⟨passed', score'⟩ := runAll_spec paired ended'
    have passes : v'.passed = v.passed := by
      rw [Bool.eq_iff_iff, passed, passed']
      simp only [same.mem_iff, ne_eq, ← List.length_eq_zero_iff, same.length_eq]
    rw [ended, ended', Except.map, Except.map, Verdict.standing, Verdict.standing, score, score',
      passes, TestCase.worstScore_perm same]
  next =>
    by_cases some : puzzle.cases = []
    next =>
      have none : puzzle'.cases = [] := (some ▸ same).eq_nil
      rw [runAll, runAll, some, none]
    next =>
      have some' : puzzle'.cases ≠ [] := fun none => some (none ▸ same).symm.eq_nil
      rw [runAll_of_not_addressable addressable some, runAll_of_not_addressable addressable some']

theorem never_better {c : TestCase} (paired : code.Paired)
    (added : puzzle'.cases.Perm (c :: puzzle.cases))
    (ended : runAll code hw puzzle config = .ok v)
    (ended' : runAll code hw puzzle' config = .ok v') :
    (∀ s s', v.score? = some s → v'.score? = some s' → s'.order s ≠ .lt) ∧
      (puzzle.cases ≠ [] → v.passed = false → v'.passed = false) := by
  obtain ⟨passed, standing⟩ := runAll_spec paired ended
  obtain ⟨passed', standing'⟩ := runAll_spec paired ended'
  constructor
  next =>
    intro s s' score score'
    rw [standing] at score
    rw [standing', TestCase.worstScore_perm added] at score'
    split at score <;> cases score
    split at score' <;> cases score'
    exact Score.order_ne_lt TestCase.worst_le_cons rfl TestCase.worst_le_cons
      TestCase.worst_le_cons
  next =>
    intro some failed
    rw [← Bool.not_eq_true, passed] at failed
    rw [← Bool.not_eq_true, passed']
    exact fun ⟨_, solved⟩ =>
      failed ⟨some, fun c member => solved c (added.mem_iff.mpr (List.mem_cons_of_mem _ member))⟩

theorem runAll_raised (paired : code.Paired) (higher : config.ceiling ≤ config'.ceiling)
    (trace : config'.trace = config.trace) (ended : runAll code hw puzzle config = .ok v)
    (passed : v.passed = true) : runAll code hw puzzle config' = .ok v := by
  obtain ⟨results, each, summed⟩ := runAll_ok_iff.mp ended
  refine runAll_ok_iff.mpr ⟨results, ?_, summed⟩
  have all : ∀ r ∈ results, r.passed = true := by
    rw [Verdict.ofResults] at summed
    split at summed <;> cases summed
    simp only [Bool.and_eq_true, List.all_eq_true] at passed
    exact passed.2
  have reached := ((List.forall₂_and_left _ _).mpr ⟨all, each.flip⟩).flip
  exact reached.imp fun c r ended => TestCase.run_raised paired ended.2 ended.1 higher trace

theorem ofResults_silent (results : List CaseResult) (size : Nat) :
    (Verdict.ofResults results size).map Verdict.silent =
      Verdict.ofResults (results.map CaseResult.silent) size := by
  have kept : (results.map CaseResult.silent).isEmpty = results.isEmpty := by
    cases results <;> rfl
  simp only [Verdict.ofResults, Verdict.largest, List.foldl_map, List.all_map, kept]
  -- Nothing but the results themselves is looked up in their records.
  by_cases room : results.foldl (fun sum r => sum + r.cycles) 0 < UInt64.size
  next => simp only [room, CaseResult.silent, if_true]; rfl
  next => simp only [room, CaseResult.silent, if_false]; rfl

theorem runAll_silent (paired : code.Paired) (same : config'.ceiling = config.ceiling) :
    (runAll code hw puzzle config').map Verdict.silent =
      (runAll code hw puzzle config).map Verdict.silent := by
  by_cases addressable : Machine.addressable hw = true
  next =>
    have run_all (config : RunConfig) : ∃ results,
        List.Forall₂ (fun c r => TestCase.run code hw config c = .ok r) puzzle.cases results ∧
          (runAll code hw puzzle config).map Verdict.silent =
            Verdict.ofResults (results.map CaseResult.silent) code.instructions.size := by
      obtain ⟨results, each⟩ := exists_runs paired addressable config puzzle.cases
      exact ⟨results, each, by rw [runAll, mapM_ok_iff.mpr each, ok_bind, ofResults_silent]⟩
    obtain ⟨results, each, summed⟩ := run_all config
    obtain ⟨results', each', summed'⟩ := run_all config'
    have silent : results'.map CaseResult.silent = results.map CaseResult.silent := by
      refine map_eq_of_related each' each fun c r' r ended' ended => ?_
      have kept := @TestCase.run_silent code hw config c config' paired same
      rw [ended', ended] at kept
      exact Except.ok.inj kept
    rw [summed, summed', silent]
  next =>
    by_cases some : puzzle.cases = []
    next => rw [runAll, runAll, some, List.mapM_nil, List.mapM_nil]
    next => rw [runAll_of_not_addressable addressable some, runAll_of_not_addressable addressable some]

end RunAll

/-- A score is given if there are cases and each is solved, and is the worst of what solving them
takes. So it does not depend on their order, on a higher ceiling or on the record of cycles, and
more cases never make it better. -/
theorem score_is_worst_case {instructions : Array MachineInstruction} {spans : Array Span}
    {code : Code} (built : Code.ofParts instructions spans = .ok code) (hw : Hardware)
    (puzzle : Puzzle) (config : RunConfig)
    (room : puzzle.cases.length * config.ceiling.toNat < UInt64.size) :
    (∀ s, (runAll code hw puzzle config).map Verdict.score? = .ok (some s) ↔
      puzzle.cases ≠ [] ∧ (∀ c ∈ puzzle.cases, c.Solved code hw config.ceiling) ∧
        s = TestCase.worstScore code hw config.ceiling puzzle.cases) ∧
      (Machine.addressable hw = true → ∃ v, runAll code hw puzzle config = .ok v) ∧
      (∀ puzzle' : Puzzle, puzzle'.cases.Perm puzzle.cases →
        (runAll code hw puzzle' config).map Verdict.standing =
          (runAll code hw puzzle config).map Verdict.standing) ∧
      (∀ (puzzle' : Puzzle) (c : TestCase) (v v' : Verdict),
        puzzle'.cases.Perm (c :: puzzle.cases) → runAll code hw puzzle config = .ok v →
          runAll code hw puzzle' config = .ok v' →
            (∀ s s', v.score? = some s → v'.score? = some s' → s'.order s ≠ .lt) ∧
              (puzzle.cases ≠ [] → v.passed = false → v'.passed = false)) ∧
      (∀ (config' : RunConfig) (v : Verdict), config.ceiling ≤ config'.ceiling →
        config'.trace = config.trace → runAll code hw puzzle config = .ok v → v.passed = true →
          runAll code hw puzzle config' = .ok v) ∧
      ∀ config' : RunConfig, config'.ceiling = config.ceiling →
        (runAll code hw puzzle config').map Verdict.silent =
          (runAll code hw puzzle config).map Verdict.silent := by
  have paired := Machine.paired_of_ofParts built
  exact ⟨fun s => score?_eq_some_iff paired room,
    fun addressable => exists_runAll paired addressable room,
    fun puzzle' same => standing_perm paired room same,
    fun puzzle' c v v' added ended ended' => never_better paired added ended ended',
    fun config' v higher trace ended passed => runAll_raised paired higher trace ended passed,
    fun config' same => runAll_silent paired same⟩

def relay : Code :=
  ⟨#[.read 0, .push (.register (.user 0)) 0, .pop 0 0, .write (.register (.user 0))],
    #[⟨0, 0, 8, 1, 1⟩, ⟨0, 9, 20, 2, 1⟩, ⟨0, 21, 31, 3, 1⟩, ⟨0, 32, 41, 4, 1⟩]⟩

def relayed : Puzzle := ⟨"", [⟨[3], [3]⟩, ⟨[-4, 9], [-4]⟩]⟩

theorem relay_scored :
    Code.ofParts relay.instructions relay.spans = .ok relay ∧
      relayed.cases.length * (10 : UInt64).toNat < UInt64.size ∧
      (∀ c ∈ relayed.cases, c.Solved relay (.ofSizes 2 [1]) 10) ∧
      TestCase.worstScore relay (.ofSizes 2 [1]) 10 relayed.cases = ⟨4, 4, 1, 1⟩ := by
  have built : Code.ofParts relay.instructions relay.spans = .ok relay := rfl
  have room : relayed.cases.length * (10 : UInt64).toNat < UInt64.size := by decide
  have scored : (runAll relay (.ofSizes 2 [1]) relayed ⟨10, false, true⟩).map Verdict.score? =
      .ok (some ⟨4, 4, 1, 1⟩) := by decide
  obtain ⟨-, solved, worst⟩ :=
    ((score_is_worst_case built (.ofSizes 2 [1]) relayed ⟨10, false, true⟩ room).1 _).mp scored
  exact ⟨built, room, solved, worst.symm⟩

end PuzzleMachine
