import PuzzleMachine.Proofs.Planned

set_option autoImplicit false

namespace PuzzleMachine
namespace Machine

def planned (m : Machine) (i : MachineInstruction) : Except Stop (Effect × Nat) :=
  m.state.toMemory.plan m.state.pc m.code.haltIndex i

theorem execute_of_planned_ok {m : Machine} {i : MachineInstruction} {effect : Effect} {next : Nat}
    (succeeds : m.planned i = .ok (effect, next)) :
    Work.execute m.state.pc m.code.haltIndex i m.state.toMemory =
      .ok next (m.state.toMemory.apply effect) := by
  rw [Work.execute_eq, show m.state.toMemory.plan _ _ i = _ from succeeds]

theorem execute_of_planned_error {m : Machine} {i : MachineInstruction} {stop : Stop}
    (fails : m.planned i = .error stop) :
    Work.execute m.state.pc m.code.haltIndex i m.state.toMemory =
      .error stop m.state.toMemory := by
  rw [Work.execute_eq, show m.state.toMemory.plan _ _ i = _ from fails]

def executed (m : Machine) (i : MachineInstruction) (span : Span) (effect : Effect) (next : Nat) :
    Machine :=
  { m with
    state := {
      toMemory := m.state.toMemory.apply effect
      pc := next
      cycles := m.state.cycles + 1
      executed := m.state.executed + 1
      touched := State.touch m.state.touched i.userRegisters
      status := if next = m.code.haltIndex then .halted else .running }
    trace := m.trace.map (·.push ⟨m.state.cycles + 1, m.state.pc, span⟩) }

structure Active (m : Machine) (span : Span) : Prop where
  working : m.state.status.isTerminal = false
  inside : m.state.pc ≠ m.code.haltIndex
  here : m.code.spans[m.state.pc]? = some span

theorem executed_not_faulted {m : Machine} {i : MachineInstruction} {span : Span} {effect : Effect}
    {next : Nat} {f : Fault} : (m.executed i span effect next).state.status ≠ .faulted f := by
  simp only [executed]
  split <;> simp

structure Fetched (m : Machine) (i : MachineInstruction) (span : Span) : Prop
    extends Active m span where
  early : m.state.cycles < m.ceiling.toNat
  coded : m.code.instructions[m.state.pc]? = some i

inductive Turn (m : Machine) : Machine → Prop where
  | rest (terminal : m.state.status.isTerminal = true) : Turn m m
  | halt (working : m.state.status.isTerminal = false)
      (atEnd : m.state.pc = m.code.haltIndex) : Turn m (m.withStatus .halted)
  | timeout {span : Span} (active : m.Active span) (late : m.ceiling.toNat ≤ m.state.cycles) :
      Turn m (m.faulted (.timeout m.ceiling) span)
  | fault {i : MachineInstruction} {span : Span} {kind : FaultKind} (fetched : m.Fetched i span)
      (fails : m.planned i = .error (.fault kind)) : Turn m (m.faulted kind span)
  | execute {i : MachineInstruction} {span : Span} {effect : Effect} {next : Nat}
      (fetched : m.Fetched i span) (succeeds : m.planned i = .ok (effect, next))
      (cycles : m.state.cycles + 1 < UInt64.size)
      (executed : m.state.executed + 1 < UInt64.size) : Turn m (m.executed i span effect next)

theorem advance_of_terminal {m : Machine} (terminal : m.state.status.isTerminal = true) :
    m.advance = .ok m := by
  simp only [advance, terminal, if_true]

theorem advance_of_atEnd {m : Machine} (working : m.state.status.isTerminal = false)
    (atEnd : m.state.pc = m.code.haltIndex) : m.advance = .ok (m.withStatus .halted) := by
  simp only [advance, working, atEnd, if_true]
  simp

theorem advance_of_late {m : Machine} {span : Span} (active : m.Active span)
    (late : m.ceiling.toNat ≤ m.state.cycles) :
    m.advance = .ok (m.faulted (.timeout m.ceiling) span) := by
  simp [advance, active.working, active.inside, active.here, late]

theorem advance_of_fetched {m : Machine} {i : MachineInstruction} {span : Span}
    (fetched : m.Fetched i span) :
    m.advance = match m.planned i with
      | .ok (effect, next) =>
          (m.withMemory (m.state.toMemory.apply effect)).commit i span next
      | .error (.fault kind) => .ok (m.faulted kind span)
      | .error (.breach b) => .error (b, m) := by
  have early := Nat.not_le_of_lt fetched.early
  simp only [advance, fetched.working, fetched.inside, fetched.here, early, fetched.coded,
    Work.execute_eq, planned, Bool.false_eq_true, if_false]
  generalize m.state.toMemory.plan m.state.pc m.code.haltIndex i = plan
  rcases plan with (kind | b) | ⟨effect, next⟩ <;> rfl

theorem commit_eq_ok {m : Machine} {i : MachineInstruction} {span : Span} {effect : Effect}
    {next : Nat} {m' : Machine} :
    (m.withMemory (m.state.toMemory.apply effect)).commit i span next = .ok m' ↔
      m.state.cycles + 1 < UInt64.size ∧ m.state.executed + 1 < UInt64.size ∧
        m.executed i span effect next = m' := by
  by_cases cycles : m.state.cycles + 1 < UInt64.size
  · by_cases counted : m.state.executed + 1 < UInt64.size
    · have done : (m.withMemory (m.state.toMemory.apply effect)).commit i span next =
          .ok (m.executed i span effect next) := by
        simp only [commit, countOn, withMemory, cycles, counted, if_true]
        rfl
      simp [done, cycles, counted]
    · simp [commit, countOn, withMemory, cycles, counted]
  · simp [commit, countOn, withMemory, cycles]

theorem Turn.advance_eq {m m' : Machine} (turn : m.Turn m') : m.advance = .ok m' := by
  cases turn with
  | rest terminal => exact advance_of_terminal terminal
  | halt working atEnd => exact advance_of_atEnd working atEnd
  | timeout active late => exact advance_of_late active late
  | fault fetched fails => rw [advance_of_fetched fetched, fails]
  | execute fetched succeeds cycles executed =>
    rw [advance_of_fetched fetched, succeeds]
    exact commit_eq_ok.mpr ⟨cycles, executed, rfl⟩

theorem Turn.eq_of_terminal {m m' : Machine} (turn : m.Turn m')
    (terminal : m.state.status.isTerminal = true) : m' = m :=
  (Except.ok.inj ((advance_of_terminal terminal).symm.trans turn.advance_eq)).symm

theorem turn_of_advance {m m' : Machine} (stepped : m.advance = .ok m') : m.Turn m' := by
  by_cases terminal : m.state.status.isTerminal = true
  · rw [advance_of_terminal terminal] at stepped
    cases stepped
    exact .rest terminal
  have working := Bool.eq_false_iff.mpr terminal
  by_cases atEnd : m.state.pc = m.code.haltIndex
  · rw [advance_of_atEnd working atEnd] at stepped
    cases stepped
    exact .halt working atEnd
  cases here : m.code.spans[m.state.pc]? with
  | none => simp [advance, working, atEnd, here] at stepped
  | some span =>
    have active : m.Active span := ⟨working, atEnd, here⟩
    by_cases late : m.ceiling.toNat ≤ m.state.cycles
    · rw [advance_of_late active late] at stepped
      cases stepped
      exact .timeout active late
    cases coded : m.code.instructions[m.state.pc]? with
    | none => simp [advance, working, atEnd, here, late, coded] at stepped
    | some i =>
      have fetched : m.Fetched i span := ⟨active, Nat.lt_of_not_le late, coded⟩
      rw [advance_of_fetched fetched] at stepped
      rcases plan : m.planned i with (kind | b) | ⟨effect, next⟩ <;> simp only [plan] at stepped
      · cases stepped
        exact .fault fetched plan
      · cases stepped
      · obtain ⟨cycles, executed, rfl⟩ := commit_eq_ok.mp stepped
        exact .execute fetched plan cycles executed

theorem advance_ok_iff {m m' : Machine} : m.advance = .ok m' ↔ m.Turn m' :=
  ⟨turn_of_advance, Turn.advance_eq⟩

theorem step?_ok_iff {m m' : Machine} : m.step? = .ok m' ↔ m.Turn m' := by
  rw [← advance_ok_iff, step?]
  rcases m.advance with ⟨b, m⟩ | m <;> simp [Stepped.checked]

-- Nothing can break while the machine is within its code, its spans and its input.
theorem exists_turn_of_spanned {m : Machine}
    (spans : m.state.pc < m.code.haltIndex → m.state.pc < m.code.spans.size)
    (inside : m.state.pc ≤ m.code.haltIndex) (counted : m.state.executed = m.state.cycles)
    (cursor : m.state.cursor ≤ m.state.input.size) : ∃ m', m.Turn m' := by
  by_cases terminal : m.state.status.isTerminal = true
  · exact ⟨_, .rest terminal⟩
  have working := Bool.eq_false_iff.mpr terminal
  by_cases atEnd : m.state.pc = m.code.haltIndex
  · exact ⟨_, .halt working atEnd⟩
  have coded : m.state.pc < m.code.instructions.size := Nat.lt_of_le_of_ne inside atEnd
  have spanned : m.state.pc < m.code.spans.size := spans coded
  have active : m.Active m.code.spans[m.state.pc] :=
    ⟨working, atEnd, Array.getElem?_eq_getElem spanned⟩
  by_cases late : m.ceiling.toNat ≤ m.state.cycles
  · exact ⟨_, .timeout active late⟩
  have fetched : m.Fetched m.code.instructions[m.state.pc] m.code.spans[m.state.pc] :=
    ⟨active, Nat.lt_of_not_le late, Array.getElem?_eq_getElem coded⟩
  rcases plan : m.planned m.code.instructions[m.state.pc] with (kind | b) | ⟨effect, next⟩
  · exact ⟨_, .fault fetched plan⟩
  · exact absurd (Memory.refuses_of_plan plan) (Nat.not_lt.mpr cursor)
  -- Cycles are fewer than the ceiling, which is a word, so they can be counted on.
  · have bound := m.ceiling.toNat_lt_size
    exact ⟨_, .execute fetched plan (by omega) (by omega)⟩

theorem exists_turn {m : Machine} (paired : m.code.Paired)
    (inside : m.state.pc ≤ m.code.haltIndex) (counted : m.state.executed = m.state.cycles)
    (cursor : m.state.cursor ≤ m.state.input.size) : ∃ m', m.Turn m' :=
  exists_turn_of_spanned (fun coded => paired ▸ coded) inside counted cursor

theorem Turn.code_eq {m m' : Machine} (turn : m.Turn m') : m'.code = m.code := by
  cases turn <;> rfl

theorem advanceBy_of_terminal {m : Machine} (terminal : m.state.status.isTerminal = true)
    (n : Nat) : m.advanceBy n = .ok m := by
  cases n <;> simp only [advanceBy, terminal, if_true]

theorem advanceBy_succ (n : Nat) (m : Machine) : m.advanceBy (n + 1) = m.advance >>= advanceBy n := by
  by_cases terminal : m.state.status.isTerminal = true
  -- Steps of a machine that has stopped make no difference.
  · rw [advance_of_terminal terminal, advanceBy_of_terminal terminal, ok_bind,
      advanceBy_of_terminal terminal]
  · rw [advanceBy, if_neg terminal]

theorem advanceBy_add (n k : Nat) (m : Machine) :
    m.advanceBy (n + k) = m.advanceBy n >>= advanceBy k := by
  induction n generalizing m with
  | zero => rw [Nat.zero_add, advanceBy, ok_bind]
  | succ n ih =>
    rw [Nat.succ_add, advanceBy_succ, advanceBy_succ, bind_assoc]
    exact congrArg _ (funext ih)

theorem advanceBy_of_turn {start m m' : Machine} {n : Nat} (steps : start.advanceBy n = .ok m)
    (turn : m.Turn m') : start.advanceBy (n + 1) = .ok m' := by
  rw [advanceBy_add, steps, ok_bind, advanceBy_succ, turn.advance_eq]
  rfl

/-- Whatever a caller can do with a machine: steps, in any number, and new records of cycles. -/
inductive Reaches (m : Machine) : Machine → Prop where
  | start : Reaches m m
  | step {m₁ m₂ : Machine} (reached : Reaches m m₁) (stepped : m₁.step? = .ok m₂) : Reaches m m₂
  | record {m₁ : Machine} (reached : Reaches m m₁) : Reaches m m₁.withTrace

-- A fault is about the instruction that the machine has stopped at.
def Located (m : Machine) : Prop :=
  ∀ f, m.state.status = .faulted f →
    f.pc = m.state.pc ∧ m.code.spans[m.state.pc]? = some f.span

theorem Turn.located {m m' : Machine} (turn : m.Turn m') (located : m.Located) : m'.Located := by
  intro f faulted
  cases turn with
  | rest => exact located f faulted
  | halt => simp [withStatus] at faulted
  | timeout active =>
    cases faulted
    exact ⟨rfl, active.here⟩
  | fault fetched =>
    cases faulted
    exact ⟨rfl, fetched.here⟩
  | execute => exact (executed_not_faulted faulted).elim

theorem Reaches.located {m m' : Machine} (reached : m.Reaches m') (located : m.Located) :
    m'.Located := by
  induction reached with
  | start => exact located
  | step _ stepped ih => exact (step?_ok_iff.mp stepped).located ih
  | record _ ih => exact ih

theorem Turn.eq_withStatus {m m' : Machine} {f : Fault} (turn : m.Turn m')
    (faulted : m'.state.status = .faulted f) : m' = m.withStatus (.faulted f) := by
  cases turn with
  -- The machine has stopped at this fault before.
  | rest =>
    rw [← faulted]
    rfl
  | halt => simp [withStatus] at faulted
  | timeout active =>
    cases faulted
    rfl
  | fault fetched =>
    cases faulted
    rfl
  | execute => exact (executed_not_faulted faulted).elim

theorem fresh_located (code : Code) (hw : Hardware) (input : List Int32) (ceiling : UInt64) :
    (fresh code hw input ceiling).Located := by
  intro f faulted
  cases faulted

theorem faulting_step_changes_only_status {code : Code} {hw : Hardware} {input : List Int32}
    {ceiling : UInt64} {m m' : Machine} {f : Fault}
    (reached : (fresh code hw input ceiling).Reaches m) (stepped : m.step? = .ok m')
    (faulted : m'.state.status = .faulted f) :
    m' = m.withStatus (.faulted f) ∧ f.pc = m.state.pc ∧
      m.code.spans[m.state.pc]? = some f.span := by
  have turn := step?_ok_iff.mp stepped
  have unchanged := turn.eq_withStatus faulted
  have located := turn.located (reached.located (fresh_located code hw input ceiling)) f faulted
  rw [unchanged] at located
  exact ⟨unchanged, located⟩

def stray : Machine :=
  fresh ⟨#[.push (.literal 5) 0, .pop 0 4], #[⟨0, 0, 9, 1, 1⟩, ⟨0, 10, 20, 2, 1⟩]⟩
    (.ofSizes 1 [1]) [] 10

theorem stray_pop_changes_only_status :
    stray.step.step = stray.step.withStatus (.faulted ⟨.invalidRegister 4, 1, ⟨0, 10, 20, 2, 1⟩⟩) ∧
      1 = stray.step.state.pc ∧
      stray.step.code.spans[stray.step.state.pc]? = some ⟨0, 10, 20, 2, 1⟩ :=
  have first : stray.step? = .ok stray.step := by decide
  have second : stray.step.step? = .ok stray.step.step := by decide
  faulting_step_changes_only_status (.step .start first) second (by decide)

end Machine
end PuzzleMachine
