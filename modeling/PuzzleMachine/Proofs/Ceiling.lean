import PuzzleMachine.Proofs.Termination

set_option autoImplicit false

namespace PuzzleMachine

def FaultKind.isTimeout : FaultKind → Bool
  | .timeout _ => true
  | _ => false

namespace Machine

def TimedOut (m : Machine) : Prop := ∃ f, m.state.status = .faulted f ∧ f.kind.isTimeout = true

def withCeiling (m : Machine) (ceiling : UInt64) : Machine := { m with ceiling }

def Within (m : Machine) (ceiling : UInt64) : Prop :=
  m.state.cycles ≤ ceiling.toNat ∧ ∀ f, m.state.status = .faulted f → m.state.cycles < ceiling.toNat

section Steps

variable {m m' : Machine} {c : UInt64}

theorem Active.withCeiling {span : Span} (active : m.Active span) (c : UInt64) :
    (m.withCeiling c).Active span :=
  ⟨active.working, active.inside, active.here⟩

theorem Turn.withCeiling (turn : m.Turn m') (untimed : ¬ m'.TimedOut) (within : m'.Within c) :
    (m.withCeiling c).Turn (m'.withCeiling c) := by
  cases turn with
  | rest terminal => exact .rest terminal
  | halt working atEnd => exact .halt working atEnd
  | timeout => exact absurd ⟨_, rfl, rfl⟩ untimed
  | fault fetched fails =>
    have early := within.2 _ rfl
    exact .fault ⟨fetched.toActive.withCeiling c, early, fetched.coded⟩ fails
  | execute fetched succeeds cycles executed =>
    exact .execute ⟨fetched.toActive.withCeiling c, within.1, fetched.coded⟩ succeeds cycles executed

theorem Turn.cycles_le (turn : m.Turn m') : m.state.cycles ≤ m'.state.cycles := by
  cases turn with
  | execute => exact Nat.le_succ _
  | _ => exact Nat.le_refl _

theorem not_timedOut (working : m.state.status.isTerminal = false) : ¬ m.TimedOut := by
  rintro ⟨f, faulted, -⟩
  rw [faulted] at working
  cases working

theorem within_of_working (working : m.state.status.isTerminal = false)
    (bound : m.state.cycles ≤ c.toNat) : m.Within c := by
  refine ⟨bound, fun f faulted => ?_⟩
  rw [faulted] at working
  cases working

structure Timely (m : Machine) : Prop where
  timeout : m.TimedOut → m.ceiling.toNat ≤ m.state.cycles
  fault : ∀ f, m.state.status = .faulted f → f.kind.isTimeout = false →
    m.state.cycles < m.ceiling.toNat

theorem Turn.timely (turn : m.Turn m') (timely : m.Timely) : m'.Timely := by
  cases turn with
  | rest => exact timely
  | halt => exact ⟨fun ⟨f, faulted, _⟩ => (by cases faulted), fun f faulted => (by cases faulted)⟩
  | timeout active late =>
    refine ⟨fun _ => late, fun f faulted other => ?_⟩
    cases faulted
    cases other
  | @fault i span kind fetched fails =>
    refine ⟨fun timedOut => ?_, fun _ _ _ => fetched.early⟩
    -- The ceiling is never an instruction's own reason to fault.
    obtain ⟨f, faulted, isTimeout⟩ := timedOut
    cases faulted
    have refuses := Memory.refuses_of_plan fails
    cases kind <;> cases isTimeout
    exact refuses.elim
  | execute =>
    exact ⟨fun ⟨f, faulted, _⟩ => absurd faulted executed_not_faulted,
      fun f faulted => absurd faulted executed_not_faulted⟩

theorem Turn.early (turn : m.Turn m') (early : m.state.cycles ≤ m.ceiling.toNat) :
    m'.state.cycles ≤ m'.ceiling.toNat := by
  cases turn with
  | execute fetched => exact fetched.early
  | _ => exact early

theorem Reaches.timely (reached : m.Reaches m') (timely : m.Timely) : m'.Timely := by
  induction reached with
  | start => exact timely
  | step _ stepped ih => exact (step?_ok_iff.mp stepped).timely ih
  | record _ ih => exact ⟨ih.timeout, ih.fault⟩

theorem Within.mono {c' : UInt64} (within : m.Within c) (le : c ≤ c') : m.Within c' :=
  have le : c.toNat ≤ c'.toNat := le
  ⟨within.1.trans le, fun f faulted => Nat.lt_of_lt_of_le (within.2 f faulted) le⟩

end Steps

section Runs

variable {m m₁ : Machine} {n : Nat} {c : UInt64}

theorem Runs.cycles_le (runs : m.Runs n m₁) : m.state.cycles ≤ m₁.state.cycles := by
  induction runs with
  | stop => exact Nat.le_refl _
  | step _ stepped _ ih => exact (step?_ok_iff.mp stepped).cycles_le.trans ih

theorem Runs.untimed_before (runs : m.Runs n m₁) (untimed : ¬ m₁.TimedOut) : ¬ m.TimedOut := by
  rintro ⟨f, faulted, isTimeout⟩
  exact untimed ⟨f, runs.faulted faulted, isTimeout⟩

theorem Runs.within_before (runs : m.Runs n m₁) (within : m₁.Within c) : m.Within c := by
  have bound := runs.cycles_le.trans within.1
  cases runs with
  | stop => exact within
  | step working => exact within_of_working working bound

theorem Runs.withCeiling (runs : m.Runs n m₁) (untimed : ¬ m₁.TimedOut) (within : m₁.Within c) :
    (m.withCeiling c).Runs n (m₁.withCeiling c) := by
  induction runs with
  | stop terminal => exact .stop terminal
  | step working stepped later ih =>
    have turn := (step?_ok_iff.mp stepped).withCeiling (later.untimed_before untimed)
      (later.within_before within)
    exact .step working (step?_ok_iff.mpr turn) (ih untimed within)

theorem Runs.reaches {start : Machine} (runs : m.Runs n m₁) (reached : start.Reaches m) :
    start.Reaches m₁ := by
  induction runs with
  | stop => exact reached
  | step _ stepped _ ih => exact ih (reached.step stepped)

-- Before a run is cut short by its ceiling it goes as it would under a higher one.
theorem Runs.before_timeout (runs : m.Runs n m₁) (working : m.state.status.isTerminal = false)
    (early : m.state.cycles ≤ m.ceiling.toNat) (timedOut : m₁.TimedOut) (le : m.ceiling ≤ c) :
    ∃ (k : Nat) (p : Machine), Machine.step^[k] (m.withCeiling c) = p.withCeiling c ∧
      p.state.status.isTerminal = false ∧ p.state.cycles = m.state.cycles + k ∧
      m₁ = p.withStatus m₁.state.status := by
  induction runs with
  | stop terminal => simp [working] at terminal
  | @step m m' m₁ n _ stepped later ih =>
    have turn := step?_ok_iff.mp stepped
    by_cases terminal : m'.state.status.isTerminal = true
    · obtain rfl := later.unique (.stop terminal)
      obtain ⟨f, faulted, -⟩ := timedOut
      exact ⟨0, m, rfl, working, rfl, faulted ▸ turn.eq_withStatus faulted⟩
    · have working' := Bool.eq_false_iff.mpr terminal
      have counted := turn.ends_or_counts.resolve_left terminal
      rw [← turn.ceiling_eq] at le
      have within := within_of_working working' ((turn.early early).trans le)
      obtain ⟨k, p, steps, working, cycles, last⟩ :=
        ih working' (turn.early early) timedOut le
      refine ⟨k + 1, p, ?_, working, by omega, last⟩
      rw [Function.iterate_succ_apply, (turn.withCeiling (not_timedOut working') within).step_eq]
      exact steps

end Runs

def launched (code : Code) (hw : Hardware) (input : List Int32) (traced : Bool) (ceiling : UInt64) :
    Machine :=
  if traced then (fresh code hw input ceiling).withTrace else fresh code hw input ceiling

section Launched

variable {code : Code} {hw : Hardware} {input : List Int32} {traced : Bool} {c c' : UInt64}
  {m m' : Machine}

theorem launched_reached (code : Code) (hw : Hardware) (input : List Int32) (traced : Bool)
    (c : UInt64) : (fresh code hw input c).Reaches (launched code hw input traced c) := by
  cases traced
  · exact .start
  · exact .record .start

theorem launched_withCeiling :
    (launched code hw input traced c).withCeiling c' = launched code hw input traced c' := by
  cases traced <;> rfl

theorem launched_state : (launched code hw input traced c).state = State.fresh hw input := by
  cases traced <;> rfl

theorem launched_ceiling : (launched code hw input traced c).ceiling = c := by
  cases traced <;> rfl

theorem exists_launched_run (paired : code.Paired) (hw : Hardware) (input : List Int32)
    (traced : Bool) (c : UInt64) :
    ∃ n m, (launched code hw input traced c).Runs n m ∧
      (launched code hw input traced c).run? = .ok m := by
  have reached := launched_reached code hw input traced c
  obtain ⟨n, m, -, runs, ended⟩ := exists_run (reached.code_eq ▸ paired) reached.coherent_here
  exact ⟨n, m, runs, ended⟩

theorem runs_of_run? (paired : code.Paired) (ended : (launched code hw input traced c).run? = .ok m) :
    ∃ n, (launched code hw input traced c).Runs n m := by
  obtain ⟨n, m', runs, ended'⟩ := exists_launched_run paired hw input traced c
  cases ended.symm.trans ended'
  exact ⟨n, runs⟩

theorem run?_of_runs {n : Nat} (paired : code.Paired)
    (runs : (launched code hw input traced c).Runs n m) :
    (launched code hw input traced c).run? = .ok m := by
  obtain ⟨k, m', runs', ended⟩ := exists_launched_run paired hw input traced c
  rw [ended, runs'.unique runs]

theorem fresh_timely : (fresh code hw input c).Timely :=
  ⟨fun ⟨f, faulted, _⟩ => (by cases faulted), fun f faulted => (by cases faulted)⟩

theorem reached_of_run? (paired : code.Paired)
    (ended : (launched code hw input traced c).run? = .ok m) :
    (fresh code hw input c).Reaches m := by
  obtain ⟨n, runs⟩ := runs_of_run? paired ended
  exact runs.reaches (launched_reached code hw input traced c)

theorem within_of_run? (paired : code.Paired)
    (ended : (launched code hw input traced c).run? = .ok m) (untimed : ¬ m.TimedOut) :
    m.Within c := by
  have reached := reached_of_run? paired ended
  have timely := reached.timely fresh_timely
  refine ⟨(reached.coherent (fresh_coherent code hw input c)).early, fun f faulted => ?_⟩
  have other : f.kind.isTimeout = false := by
    by_contra isTimeout
    exact untimed ⟨f, faulted, by simpa using isTimeout⟩
  have early := timely.fault f faulted other
  rwa [reached.ceiling_eq] at early

-- A run that is not cut short ends the same way under every ceiling that has room for it.
theorem run?_of_within (paired : code.Paired)
    (ended : (launched code hw input traced c).run? = .ok m) (untimed : ¬ m.TimedOut)
    (within : m.Within c') :
    (launched code hw input traced c').run? = .ok (m.withCeiling c') := by
  obtain ⟨n, runs⟩ := runs_of_run? paired ended
  have moved := runs.withCeiling untimed within
  rw [launched_withCeiling] at moved
  exact run?_of_runs paired moved

theorem same_ending (paired : code.Paired)
    (ended : (launched code hw input traced c).run? = .ok m) (untimed : ¬ m.TimedOut)
    (ended' : (launched code hw input traced c').run? = .ok m') (untimed' : ¬ m'.TimedOut) :
    m'.state = m.state ∧ m'.trace = m.trace := by
  -- Both runs end the same way under the higher one of the two ceilings.
  wlog le : c ≤ c' generalizing c c' m m'
  · have swapped := this ended' untimed' ended untimed ((UInt64.le_total c c').resolve_left le)
    exact ⟨swapped.1.symm, swapped.2.symm⟩
  have raised := run?_of_within paired ended untimed ((within_of_run? paired ended untimed).mono le)
  cases raised.symm.trans ended'
  exact ⟨rfl, rfl⟩

theorem before_cut (paired : code.Paired) (le : c ≤ c')
    (ended : (launched code hw input traced c).run? = .ok m) (timedOut : m.TimedOut) :
    m.state.cycles = c.toNat ∧ m.state.pc ≠ code.haltIndex ∧
      ∃ p, step^[c.toNat] (launched code hw input traced c') = p ∧
        p.state.status.isTerminal = false ∧
        m.state = { p.state with status := m.state.status } ∧ m.trace = p.trace := by
  have reached := reached_of_run? paired ended
  have coherent := reached.coherent (fresh_coherent code hw input c)
  have late := (reached.timely fresh_timely).timeout timedOut
  rw [reached.ceiling_eq] at late
  have cycles : m.state.cycles = c.toNat := Nat.le_antisymm coherent.early late
  obtain ⟨n, runs⟩ := runs_of_run? paired ended
  obtain ⟨k, p, steps, working, counted, last⟩ := runs.before_timeout
    (by rw [launched_state]; rfl) (by rw [launched_state]; exact Nat.zero_le _) timedOut
    (by rwa [launched_ceiling])
  rw [launched_withCeiling] at steps
  have first : k = c.toNat := by
    rw [launched_state] at counted
    rw [last] at cycles
    exact (Nat.zero_add k).symm.trans (counted.symm.trans cycles)
  refine ⟨cycles, ?_, p.withCeiling c', first ▸ steps, working, ?_, ?_⟩
  · obtain ⟨f, faulted, -⟩ := timedOut
    have suits := coherent.status
    rw [faulted] at suits
    exact Nat.ne_of_lt suits.2.1
  · rw [last]
    rfl
  · rw [last]
    rfl

theorem halts_iff (paired : code.Paired)
    (ended : (launched code hw input traced c).run? = .ok m) (halted : m.state.status = .halted) :
    (∃ m', (launched code hw input traced c').run? = .ok m' ∧ m'.state.status = .halted) ↔
      m.state.cycles ≤ c'.toNat := by
  have untimed {m : Machine} (halted : m.state.status = .halted) : ¬ m.TimedOut := by
    rintro ⟨f, faulted, -⟩
    cases halted.symm.trans faulted
  constructor
  · rintro ⟨m', ended', halted'⟩
    have bound := (within_of_run? paired ended' (untimed halted')).1
    rwa [(same_ending paired ended (untimed halted) ended' (untimed halted')).1] at bound
  · intro room
    have within : m.Within c' := ⟨room, fun f faulted => by cases halted.symm.trans faulted⟩
    exact ⟨_, run?_of_within paired ended (untimed halted) within, halted⟩

theorem faults_iff {f : Fault} (paired : code.Paired)
    (ended : (launched code hw input traced c).run? = .ok m)
    (faulted : m.state.status = .faulted f) (other : f.kind.isTimeout = false) :
    (∃ m', (launched code hw input traced c').run? = .ok m' ∧ m'.state.status = .faulted f) ↔
      m.state.cycles < c'.toNat := by
  have untimed {m : Machine} (faulted : m.state.status = .faulted f) : ¬ m.TimedOut := by
    rintro ⟨f', faulted', isTimeout⟩
    cases faulted.symm.trans faulted'
    cases other.symm.trans isTimeout
  constructor
  · rintro ⟨m', ended', faulted'⟩
    have bound := (within_of_run? paired ended' (untimed faulted')).2 f faulted'
    rwa [(same_ending paired ended (untimed faulted) ended' (untimed faulted')).1] at bound
  · intro room
    have within : m.Within c' := ⟨Nat.le_of_lt room, fun _ _ => room⟩
    exact ⟨_, run?_of_within paired ended (untimed faulted) within, faulted⟩

end Launched

/-- Under two ceilings the runs end alike unless the lower one cuts its run short, which then is the
beginning of the other. So a halt needs as many cycles as it has taken, and a fault one more. -/
theorem ceiling_only_cuts_short {instructions : Array MachineInstruction} {spans : Array Span}
    {code : Code} (built : Code.ofParts instructions spans = .ok code) (hw : Hardware)
    (input : List Int32) (traced : Bool) :
    (∀ c₁ c₂ : UInt64, c₁ ≤ c₂ → ∃ m₁ m₂,
      (launched code hw input traced c₁).run? = .ok m₁ ∧
        (launched code hw input traced c₂).run? = .ok m₂ ∧
        (¬ m₁.TimedOut → m₂.state = m₁.state ∧ m₂.trace = m₁.trace) ∧
        (m₁.TimedOut → m₁.state.cycles = c₁.toNat ∧ m₁.state.pc ≠ code.haltIndex ∧
          ∃ m, step^[c₁.toNat] (launched code hw input traced c₂) = m ∧
            m.state.status.isTerminal = false ∧
            m₁.state = { m.state with status := m₁.state.status } ∧ m₁.trace = m.trace)) ∧
      ∀ (c₀ : UInt64) (m₀ : Machine), (launched code hw input traced c₀).run? = .ok m₀ →
        (m₀.state.status = .halted → ∀ c : UInt64,
          (∃ m, (launched code hw input traced c).run? = .ok m ∧ m.state.status = .halted) ↔
            m₀.state.cycles ≤ c.toNat) ∧
        ∀ f, m₀.state.status = .faulted f → f.kind.isTimeout = false → ∀ c : UInt64,
          (∃ m, (launched code hw input traced c).run? = .ok m ∧ m.state.status = .faulted f) ↔
            m₀.state.cycles < c.toNat := by
  have paired := paired_of_ofParts built
  refine ⟨fun c₁ c₂ le => ?_, fun c₀ m₀ ended => ⟨fun halted c => ?_, fun f faulted other c => ?_⟩⟩
  · obtain ⟨_, m₁, -, ended₁⟩ := exists_launched_run paired hw input traced c₁
    obtain ⟨_, m₂, -, ended₂⟩ := exists_launched_run paired hw input traced c₂
    refine ⟨m₁, m₂, ended₁, ended₂, fun untimed => ?_, before_cut paired le ended₁⟩
    have within := (within_of_run? paired ended₁ untimed).mono le
    cases ended₂.symm.trans (run?_of_within paired ended₁ untimed within)
    exact ⟨rfl, rfl⟩
  · exact halts_iff paired ended halted
  · exact faults_iff paired ended faulted other

def reader : Code := ⟨#[.read 0, .jump 0], #[⟨0, 0, 8, 1, 1⟩, ⟨0, 9, 14, 2, 1⟩]⟩

theorem reader_faults_iff :
    Code.ofParts #[.read 0, .jump 0] #[⟨0, 0, 8, 1, 1⟩, ⟨0, 9, 14, 2, 1⟩] = .ok reader ∧
      ∀ c : UInt64, (∃ m, (launched reader .default [7] true c).run? = .ok m ∧
        m.state.status = .faulted ⟨.inputExhausted, 0, ⟨0, 0, 8, 1, 1⟩⟩) ↔ 2 < c.toNat := by
  have built :
      Code.ofParts #[.read 0, .jump 0] #[⟨0, 0, 8, 1, 1⟩, ⟨0, 9, 14, 2, 1⟩] = .ok reader := rfl
  let last := step^[3] (launched reader .default [7] true 10)
  have ended : (launched reader .default [7] true 10).run? = .ok last := by decide
  have faulted : last.state.status = .faulted ⟨.inputExhausted, 0, ⟨0, 0, 8, 1, 1⟩⟩ := by decide
  have cycles : last.state.cycles = 2 := by decide
  refine ⟨built, fun c => ?_⟩
  rw [← cycles]
  exact ((ceiling_only_cuts_short built .default [7] true).2 10 last ended).2 _ faulted rfl c

end Machine
end PuzzleMachine
