import PuzzleMachine.Proofs.Appending
import PuzzleMachine.Proofs.Termination

set_option autoImplicit false

namespace PuzzleMachine

/-- The code is a part of the whole that begins at the index `count`. -/
structure Code.Within (whole : Code) (count : Nat) (f : Span → Span) (c : Code) : Prop where
  instructions : ∀ pc i, c.instructions[pc]? = some i →
    whole.instructions[pc + count]? = some (i.offset count)
  spans : ∀ pc span, c.spans[pc]? = some span → whole.spans[pc + count]? = some (f span)
  fits : c.haltIndex + count ≤ whole.haltIndex

def Status.placed (count : Nat) (f : Span → Span) : Status → Status
  | .faulted e => .faulted ⟨e.kind, e.pc + count, f e.span⟩
  | s => s

namespace Machine

def placed (whole : Code) (count : Nat) (f : Span → Span) (m : Machine) : Machine where
  code := whole
  state := { m.state with pc := m.state.pc + count, status := m.state.status.placed count f }
  ceiling := m.ceiling
  trace := m.trace.map (·.map fun e => ⟨e.cycle, e.pc + count, f e.span⟩)

end Machine

section Step

variable {whole : Code} {count : Nat} {f : Span → Span} {hw : Hardware} {m m' : Machine}

theorem Status.placed_isTerminal (s : Status) : (s.placed count f).isTerminal = s.isTerminal := by
  cases s <;> rfl

theorem Status.placed_zero (s : Status) : s.placed 0 (fun span => span) = s := by
  cases s <;> rfl

theorem userRegisters_offset (count : Nat) (i : MachineInstruction) :
    (i.offset count).userRegisters = i.userRegisters := by
  cases i <;> rfl

theorem jump_offset {haltIndex haltIndex' target next : Nat} {taken : Bool}
    (inside : target ≤ haltIndex) (fits : haltIndex + count ≤ haltIndex') :
    Memory.jump haltIndex' (target + count) (next + count) taken =
      (Memory.jump haltIndex target next taken).map (· + count) := by
  have inside' : target + count ≤ haltIndex' := by omega
  simp only [Memory.jump, Nat.not_lt.mpr inside, Nat.not_lt.mpr inside', if_false, Except.map]
  cases taken <;> rfl

-- An instruction that is moved along with the targets of jumps plans the same.
theorem plan_offset {m : Memory} {pc haltIndex haltIndex' : Nat} {i : MachineInstruction}
    (inside : ∀ o ∈ i.operands, hw.Fits haltIndex o) (fits : haltIndex + count ≤ haltIndex') :
    m.plan (pc + count) haltIndex' (i.offset count) =
      (m.plan pc haltIndex i).map fun planned => (planned.1, planned.2 + count) := by
  have onward (planned : Except Stop Effect) :
      (do return (← planned, pc + count + 1)) =
        Except.map (fun p => (p.1, p.2 + count)) (do return (← planned, pc + 1)) := by
    rw [Nat.add_right_comm]
    cases planned <;> rfl
  have across (target : Nat) (taken : Bool) (bound : target ≤ haltIndex) :
      (do return (Effect.none, ← Memory.jump haltIndex' (target + count) (pc + count + 1) taken)) =
        Except.map (fun p => (p.1, p.2 + count))
          (do return (Effect.none, ← Memory.jump haltIndex target (pc + 1) taken)) := by
    rw [Nat.add_right_comm, jump_offset bound fits]
    cases Memory.jump haltIndex target (pc + 1) taken <;> rfl
  cases i <;> simp only [Instruction.operands, List.forall_mem_cons] at inside <;>
    simp only [Instruction.offset, Instruction.map, Memory.plan, id]
  case read r => exact onward (m.read r)
  case write v =>
    rw [Nat.add_right_comm]
    cases m.value v <;> rfl
  case set r v =>
    cases m.value v with
    | error stop => rfl
    | ok x => exact onward (m.assign r x)
  case arith op r v => exact onward (m.arith op r v)
  case cmp r a b =>
    cases m.value a with
    | error stop => rfl
    | ok x =>
      cases m.value b with
      | error stop => rfl
      | ok y => exact onward (m.assign r (compareValues x y))
  case push v k =>
    cases m.value v with
    | error stop => rfl
    | ok x => exact onward (m.push x k)
  case pop k r => exact onward (m.pop k r)
  case jump target => exact across target true inside.1
  case branch test v target =>
    cases m.value v with
    | error stop => rfl
    | ok x => exact across target (test.holds x) inside.2.1

namespace Machine

theorem Active.placed {span : Span} (active : m.Active span) (within : whole.Within count f m.code)
    (before : m.state.pc < m.code.haltIndex) : (m.placed whole count f).Active (f span) where
  working := (Status.placed_isTerminal _).trans active.working
  inside := by
    have fits := within.fits
    have later : m.state.pc + count ≠ whole.haltIndex := by omega
    exact later
  here := within.spans _ _ active.here

theorem Fetched.placed {i : MachineInstruction} {span : Span} (fetched : m.Fetched i span)
    (within : whole.Within count f m.code) (before : m.state.pc < m.code.haltIndex) :
    (m.placed whole count f).Fetched (i.offset count) (f span) where
  toActive := fetched.toActive.placed within before
  early := fetched.early
  coded := within.instructions _ _ fetched.coded

theorem planned_placed {i : MachineInstruction} {span : Span} (fetched : m.Fetched i span)
    (within : whole.Within count f m.code) (sound : m.Sound hw) :
    (m.placed whole count f).planned (i.offset count) =
      (m.planned i).map fun planned => (planned.1, planned.2 + count) :=
  plan_offset (sound.admitted i (Array.mem_of_getElem? fetched.coded)).operands within.fits

theorem executed_placed (i : MachineInstruction) (span : Span) (effect : Effect) (next : Nat) :
    (m.placed whole count f).executed (i.offset count) (f span) effect (next + count) =
      ((m.executed i span effect next).placed whole count f).withStatus
        (if next + count = whole.haltIndex then .halted else .running) := by
  simp only [executed, placed, withStatus, userRegisters_offset, Option.map_map]
  congr 2
  funext trace
  simp

theorem Turn.execute_placed {i : MachineInstruction} {span : Span} {effect : Effect} {next : Nat}
    (fetched : m.Fetched i span) (succeeds : m.planned i = .ok (effect, next))
    (cycles : m.state.cycles + 1 < UInt64.size) (counted : m.state.executed + 1 < UInt64.size)
    (within : whole.Within count f m.code) (sound : m.Sound hw) :
    (m.placed whole count f).Turn
      (((m.executed i span effect next).placed whole count f).withStatus
        (if next + count = whole.haltIndex then .halted else .running)) := by
  have before := Nat.lt_of_le_of_ne sound.inside fetched.inside
  have planned : (m.placed whole count f).planned (i.offset count) =
      .ok (effect, next + count) := by
    rw [planned_placed fetched within sound, succeeds]
    rfl
  rw [← executed_placed]
  exact .execute (fetched.placed within before) planned cycles counted

-- The machine on the whole takes the same step, unless the code ends there and the whole does not.
theorem Turn.placed (turn : m.Turn m') (within : whole.Within count f m.code)
    (sound : m.Sound hw)
    (ends : m'.state.status = .halted → m.code.haltIndex + count = whole.haltIndex) :
    (m.placed whole count f).Turn (m'.placed whole count f) := by
  have fits := within.fits
  cases turn with
  | rest terminal => exact .rest ((Status.placed_isTerminal _).trans terminal)
  | halt working atEnd =>
    have atEnd' : m.state.pc + count = whole.haltIndex := by
      rw [atEnd]
      exact ends rfl
    exact .halt ((Status.placed_isTerminal _).trans working) atEnd'
  | timeout active late =>
    exact .timeout (active.placed within (Nat.lt_of_le_of_ne sound.inside active.inside)) late
  | fault fetched fails =>
    refine .fault (fetched.placed within (Nat.lt_of_le_of_ne sound.inside fetched.inside)) ?_
    rw [planned_placed fetched within sound, fails]
    rfl
  | @execute i span effect next fetched succeeds cycles counted =>
    have before := Nat.lt_of_le_of_ne sound.inside fetched.inside
    have bound := (Memory.planned_of_plan succeeds).next_le before
    have same : ((m.executed i span effect next).placed whole count f).state.status =
        if next + count = whole.haltIndex then .halted else .running := by
      by_cases ended : next = m.code.haltIndex
      · have there := ends (if_pos ended)
        simp [Machine.placed, executed, ended, there, Status.placed]
      · have more : next + count ≠ whole.haltIndex := by omega
        simp [Machine.placed, executed, ended, more, Status.placed]
    have turn := Turn.execute_placed fetched succeeds cycles counted within sound
    rwa [← same] at turn

-- Where the code ends and the whole does not, the machine on the whole goes on.
theorem Turn.placed_onward (turn : m.Turn m') (within : whole.Within count f m.code)
    (sound : m.Sound hw) (working : m.state.status.isTerminal = false)
    (before : m.state.pc < m.code.haltIndex) (halted : m'.state.status = .halted)
    (longer : m.code.haltIndex + count < whole.haltIndex) :
    (m.placed whole count f).Turn ((m'.placed whole count f).withStatus .running) := by
  cases turn with
  | rest terminal => simp [working] at terminal
  | halt _ atEnd => omega
  | timeout => cases halted
  | fault => cases halted
  | @execute i span effect next fetched succeeds cycles counted =>
    have bound := (Memory.planned_of_plan succeeds).next_le before
    have more : next + count ≠ whole.haltIndex := by omega
    have turn := Turn.execute_placed fetched succeeds cycles counted within sound
    rwa [if_neg more] at turn

-- A part that the whole ends with runs in the whole as it does by itself.
theorem exists_placed (within : whole.Within count f m.code) (sound : m.Sound hw)
    (ends : m.code.haltIndex + count = whole.haltIndex) (n : Nat) :
    ∃ m', m.advanceBy n = .ok m' ∧
      (m.placed whole count f).advanceBy n = .ok (m'.placed whole count f) := by
  induction n generalizing m with
  | zero => exact ⟨m, rfl, rfl⟩
  | succ n ih =>
    obtain ⟨m₁, turn⟩ := sound.turn
    have turn' := turn.placed within sound fun _ => ends
    rw [advanceBy_succ, advanceBy_succ, turn.advance_eq, turn'.advance_eq]
    rw [← turn.code_eq] at within ends
    exact ih within (turn.sound sound) ends

end Machine

end Step

section Handover

variable {whole : Code} {hw : Hardware} {input : List Int32} {m m' start : Machine} {n : Nat}

def State.onward (count : Nat) (s : State) : State :=
  { s with status := if count = 0 then .ready else .running }

namespace Machine

/-- How far a machine on the whole is when the one on the first part has taken `n` steps: as far, or
at the place where that one has halted. -/
inductive Precedes (whole : Code) (start : Machine) (n : Nat) (m : Machine) : Prop where
  | along (more : m.state.status ≠ .halted)
      (counted : m.state.status.isTerminal = false → m.state.cycles = n)
      (same : start.advanceBy n = .ok { m with code := whole }) : Precedes whole start n m
  | ended (halted : m.state.status = .halted)
      (left : start.advanceBy m.state.cycles =
        .ok { m with code := whole, state := m.state.onward m.code.haltIndex }) :
      Precedes whole start n m

theorem placed_zero (whole : Code) (m : Machine) :
    m.placed whole 0 (fun span => span) = { m with code := whole } := by
  simp [placed, Status.placed_zero]

-- A machine halts by executing an instruction, or there is none.
theorem Turn.ends (turn : m.Turn m') (working : m.state.status.isTerminal = false)
    (coherent : m.state.Coherent m.code hw input m.ceiling) (halted : m'.state.status = .halted) :
    m.state.pc < m.code.haltIndex ∧ m'.state.cycles = m.state.cycles + 1 ∨
      m.code.haltIndex = 0 ∧ m.state.status = .ready ∧ m' = m.withStatus .halted := by
  cases turn with
  | rest terminal => simp [working] at terminal
  | timeout => cases halted
  | fault => cases halted
  | execute fetched => exact .inl ⟨Nat.lt_of_le_of_ne coherent.inside fetched.inside, rfl⟩
  | halt _ atEnd =>
    have suits := coherent.status
    cases status : m.state.status <;> rw [status] at suits working
    case ready => exact .inr ⟨atEnd.symm.trans suits.2, rfl, rfl⟩
    case running => exact absurd atEnd (Nat.ne_of_lt suits.2)
    case halted => cases working
    case faulted => cases working

theorem Precedes.turn (precedes : Precedes whole start n m) (turn : m.Turn m')
    (within : whole.Within 0 (fun span => span) m.code) (sound : m.Sound hw)
    (coherent : m.state.Coherent m.code hw input m.ceiling)
    (longer : m.code.haltIndex < whole.haltIndex) : Precedes whole start (n + 1) m' := by
  cases precedes with
  | ended halted left =>
    rw [turn.eq_of_terminal (Status.isTerminal_iff.mpr (.inl halted))]
    exact .ended halted left
  | along more counted same =>
    by_cases terminal : m.state.status.isTerminal = true
    · rw [turn.eq_of_terminal terminal]
      exact .along more (by simp [terminal]) (advanceBy_of_turn same (.rest terminal))
    have working := Bool.eq_false_iff.mpr terminal
    by_cases halted : m'.state.status = .halted
    next =>
      refine .ended halted ?_
      rcases turn.ends working coherent halted with ⟨before, count⟩ | ⟨none, ready, rfl⟩
      · have onward := turn.placed_onward within sound working before halted longer
        rw [placed_zero, placed_zero] at onward
        rw [count, counted working, advanceBy_of_turn same onward, State.onward, turn.code_eq,
          if_neg (by omega)]
        rfl
      · -- No step has been taken, and none is needed.
        obtain rfl := counted working
        simp only [withStatus, State.onward, none, if_true, same, ← ready]
    next =>
      have next := turn.placed within sound fun ended => absurd ended halted
      rw [placed_zero, placed_zero] at next
      refine .along halted (fun going => ?_) (advanceBy_of_turn same next)
      rcases turn.ends_or_counts with ended | count
      · simp [going] at ended
      · rw [count, counted working]

theorem Turn.untraced (turn : m.Turn m') (untraced : m.trace = none) : m'.trace = none := by
  cases turn with
  | execute => rw [executed, untraced, Option.map_none]
  | _ => exact untraced

theorem Turn.cycles_le_succ (turn : m.Turn m') : m'.state.cycles ≤ m.state.cycles + 1 := by
  cases turn with
  | execute => exact Nat.le_refl _
  | _ => exact Nat.le_succ _

theorem eq_of_terminal {k : Nat} (steps : start.advanceBy n = .ok m)
    (terminal : m.state.status.isTerminal = true) (steps' : start.advanceBy k = .ok m')
    (terminal' : m'.state.status.isTerminal = true) : m = m' := by
  have later : start.advanceBy (n + k) = .ok m := by
    rw [advanceBy_add, steps, ok_bind, advanceBy_of_terminal terminal]
  rw [Nat.add_comm, advanceBy_add, steps', ok_bind, advanceBy_of_terminal terminal'] at later
  exact (Except.ok.inj later).symm

theorem exists_precedes {first : Code} {ceiling : UInt64}
    (within : whole.Within 0 (fun span => span) first)
    (admitted : ∀ i ∈ first.instructions, hw.Admits first.haltIndex i) (paired : first.Paired)
    (longer : first.haltIndex < whole.haltIndex) (n : Nat) :
    ∃ m, (fresh first hw input ceiling).advanceBy n = .ok m ∧
      (fresh first hw input ceiling).Reaches m ∧ m.trace = none ∧ m.state.cycles ≤ n ∧
      Precedes whole (fresh whole hw input ceiling) n m := by
  induction n with
  | zero => exact ⟨_, rfl, .start, rfl, Nat.le_refl 0, .along nofun (fun _ => rfl) rfl⟩
  | succ n ih =>
    obtain ⟨m, steps, reached, untraced, cycles, precedes⟩ := ih
    have sound := reached.sound (fresh_sound admitted paired input ceiling)
    have code := reached.code_eq
    obtain ⟨m', turn⟩ := sound.turn
    refine ⟨m', advanceBy_of_turn steps turn, reached.step (step?_ok_iff.mpr turn),
      turn.untraced untraced, turn.cycles_le_succ.trans (Nat.succ_le_succ cycles), ?_⟩
    exact precedes.turn turn (code ▸ within) sound reached.coherent_here (code ▸ longer)

def resumedOn (second : Code) (m : Machine) : Machine :=
  { m with code := second, state := { m.state.onward m.code.haltIndex with pc := 0 } }

theorem Sound.resumedOn {second : Code} (sound : m.Sound hw)
    (admitted : ∀ i ∈ second.instructions, hw.Admits second.haltIndex i)
    (paired : second.Paired) : (m.resumedOn second).Sound hw where
  admitted := admitted
  paired := paired
  memory := sound.memory
  inside := Nat.zero_le _
  early := sound.early
  counted := sound.counted
  valid f faulted := by
    simp only [Machine.resumedOn, State.onward] at faulted
    split at faulted <;> cases faulted

theorem placed_resumedOn {second : Code} {f : Span → Span} (untraced : m.trace = none)
    (atEnd : m.state.pc = m.code.haltIndex) :
    (m.resumedOn second).placed whole m.code.haltIndex f =
      { m with code := whole, state := m.state.onward m.code.haltIndex } := by
  have status : (m.state.onward m.code.haltIndex).status.placed m.code.haltIndex f =
      (m.state.onward m.code.haltIndex).status := by
    simp only [State.onward]
    split <;> rfl
  simp only [placed, resumedOn, status, untraced, Nat.zero_add, Option.map_none]
  simp only [State.onward, atEnd]

end Machine

section Joins

variable {first second : Code} {f : Span → Span}

theorem Code.Joins.within_first (joins : Code.Joins f first second whole) :
    whole.Within 0 (fun span => span) first where
  instructions pc i here := by
    obtain ⟨inside, -⟩ := Array.getElem?_eq_some_iff.mp here
    rw [Nat.add_zero, joins.instructions, Array.getElem?_append_left inside, here]
    exact congrArg some i.map_self.symm
  spans pc span here := by
    obtain ⟨inside, -⟩ := Array.getElem?_eq_some_iff.mp here
    rw [Nat.add_zero, joins.spans, Array.getElem?_append_left inside, here]
  fits := by simp [Code.haltIndex, joins.instructions]

theorem Code.Joins.haltIndex_eq (joins : Code.Joins f first second whole) :
    second.haltIndex + first.haltIndex = whole.haltIndex := by
  simp [Code.haltIndex, joins.instructions, Nat.add_comm]

theorem Code.Joins.within_second (joins : Code.Joins f first second whole) (paired : first.Paired) :
    whole.Within first.haltIndex f second where
  instructions pc i here := by
    have later : first.instructions.size ≤ pc + first.haltIndex := Nat.le_add_left _ _
    rw [joins.instructions, Array.getElem?_append_right later]
    simp [Code.haltIndex, here]
  spans pc span here := by
    have size : first.haltIndex = first.spans.size := paired
    rw [size, joins.spans, Array.getElem?_append_right (Nat.le_add_left _ _)]
    simp [here]
  fits := Nat.le_of_eq joins.haltIndex_eq

-- Where the first code has halted, the second one is executed as it is by itself.
theorem Code.Joins.exists_resumed {k : Nat} (joins : Code.Joins f m.code second whole)
    (admitted : ∀ i ∈ second.instructions, hw.Admits second.haltIndex i) (paired : second.Paired)
    (sound : m.Sound hw) (untraced : m.trace = none) (atEnd : m.state.pc = m.code.haltIndex)
    (left : start.advanceBy n =
      .ok { m with code := whole, state := m.state.onward m.code.haltIndex }) :
    ∃ m', (m.resumedOn second).advanceBy k = .ok m' ∧
      start.advanceBy (n + k) = .ok (m'.placed whole m.code.haltIndex f) := by
  have begun : Machine.Sound hw (m.resumedOn second) := sound.resumedOn admitted paired
  obtain ⟨m', later, placed⟩ :=
    Machine.exists_placed (joins.within_second sound.paired) begun joins.haltIndex_eq k
  refine ⟨m', later, ?_⟩
  rw [Machine.advanceBy_add, left, ok_bind, ← placed, Machine.placed_resumedOn untraced atEnd]

end Joins

end Handover

/-- Units that are appended to other units are executed after them: the machine is in the states of
one on the first units until that halts, and from there in those of one on the second units. -/
theorem appended_units_run_in_sequence {first second : List SourceUnit} {hw : Hardware}
    {p p' whole : ValidProgram} (accepted : outcome first hw = .ok (.ok p))
    (accepted' : outcome second hw = .ok (.ok p'))
    (together : outcome (first ++ second) hw = .ok (.ok whole)) (input : List Int32)
    (ceiling : UInt64) :
    whole.code.instructions =
        p.code.instructions ++ p'.code.instructions.map (.offset p.code.haltIndex) ∧
      whole.code.spans = p.code.spans ++ p'.code.spans.map (Span.later first.length) ∧
      ∀ n, ∃ m, (Machine.fresh p.code hw input ceiling).advanceBy n = .ok m ∧
        (m.state.status ≠ .halted ∨ p'.code.haltIndex = 0 →
          (Machine.fresh whole.code hw input ceiling).advanceBy n =
            .ok { m with code := whole.code }) ∧
        (m.state.status = .halted → p'.code.haltIndex ≠ 0 →
          m.state.pc = p.code.haltIndex ∧
          (∀ k < m.state.cycles, ∃ m',
            (Machine.fresh p.code hw input ceiling).advanceBy k = .ok m' ∧
              m'.state.status ≠ .halted) ∧
          (Machine.fresh whole.code hw input ceiling).advanceBy m.state.cycles =
            .ok { m with code := whole.code, state := m.state.onward p.code.haltIndex } ∧
          ∀ k, ∃ m', (m.resumedOn p'.code).advanceBy k = .ok m' ∧
            (Machine.fresh whole.code hw input ceiling).advanceBy (m.state.cycles + k) =
              .ok (m'.placed whole.code p.code.haltIndex (Span.later first.length))) := by
  have joins := code_append accepted accepted' together
  obtain ⟨-, -, parsed, -, valid⟩ := outcome_ok accepted
  obtain ⟨-, -, parsed', -, valid'⟩ := outcome_ok accepted'
  refine ⟨joins.instructions, joins.spans, fun n => ?_⟩
  have sound := Machine.fresh_sound (admits_of_valid valid) p.code_paired input ceiling
  have ends := joins.haltIndex_eq
  by_cases none : p'.code.haltIndex = 0
  next =>
    rw [none, Nat.zero_add] at ends
    obtain ⟨m, steps, placed⟩ := Machine.exists_placed joins.within_first sound ends n
    rw [Machine.placed_zero, Machine.placed_zero] at placed
    exact ⟨m, steps, fun _ => placed, fun _ more => absurd none more⟩
  next =>
    have each := @Machine.exists_precedes whole.code hw input p.code ceiling joins.within_first
      (admits_of_valid valid) p.code_paired (by omega)
    obtain ⟨m, steps, reached, untraced, -, precedes⟩ := each n
    have code : m.code = p.code := reached.code_eq
    refine ⟨m, steps, fun alike => ?_, fun halted _ => ?_⟩
    next =>
      cases precedes with
      | along _ _ same => exact same
      | ended halted => exact absurd halted (alike.resolve_right none)
    next =>
      cases precedes with
      | along more => exact absurd halted more
      | ended _ left =>
        have atEnd : m.state.pc = m.code.haltIndex := by
          have suits := reached.coherent_here.status
          rwa [halted] at suits
        refine ⟨code ▸ atEnd, fun k before => ?_, code ▸ left, fun k => ?_⟩
        · obtain ⟨m', steps', -, -, cycles, -⟩ := each k
          refine ⟨m', steps', fun halted' => ?_⟩
          have same := Machine.eq_of_terminal steps (Status.isTerminal_iff.mpr (.inl halted)) steps'
            (Status.isTerminal_iff.mpr (.inl halted'))
          rw [same] at before
          omega
        · rw [← code] at joins ⊢
          exact joins.exists_resumed (admits_of_valid valid') p'.code_paired (reached.sound sound)
            untraced atEnd left

def opening : List SourceUnit :=
  [⟨"opening", "READ RX0\nJEZ RX0 end\nWRITE RX0\nend: ; where the other one begins"⟩]

def countUp : List SourceUnit :=
  [⟨"countUp", "more: ADD RX0 1\nWRITE RX0\nJLZ RX0 more"⟩]

theorem countUp_follows_opening :
    ∃ p p' whole, outcome opening .default = .ok (.ok p) ∧
      outcome countUp .default = .ok (.ok p') ∧
      outcome (opening ++ countUp) .default = .ok (.ok whole) ∧
      ∃ m, (Machine.fresh p.code .default [0] 10).advanceBy 2 = .ok m ∧
        m.state.status = .halted ∧ m.state.pc = 3 ∧ ∀ k, ∃ m',
          (m.resumedOn p'.code).advanceBy k = .ok m' ∧
            (Machine.fresh whole.code .default [0] 10).advanceBy (2 + k) =
              .ok (m'.placed whole.code 3 (Span.later 1)) := by
  obtain ⟨p, accepted, size, halts, cycles⟩ :=
    @accepted_of_any opening .default (fun p => p.code.haltIndex = 3 ∧
      ((Machine.fresh p.code .default [0] 10).steps 2).state.status = .halted ∧
      ((Machine.fresh p.code .default [0] 10).steps 2).state.cycles = 2) _ (by decide +kernel)
  obtain ⟨p', accepted', more⟩ :=
    @accepted_of_any countUp .default (fun p' => p'.code.haltIndex ≠ 0) _ (by decide +kernel)
  obtain ⟨whole, together, -⟩ :=
    @accepted_of_any (opening ++ countUp) .default (fun _ => True) _ (by decide +kernel)
  obtain ⟨-, -, runs⟩ := appended_units_run_in_sequence accepted accepted' together [0] 10
  obtain ⟨m, steps, -, ended⟩ := runs 2
  rw [Machine.steps, steps] at halts cycles
  obtain ⟨atEnd, -, -, follows⟩ := ended halts more
  rw [show m.state.cycles = 2 from cycles, size] at follows
  exact ⟨p, p', whole, accepted, accepted', together, m, steps, halts, atEnd.trans size, follows⟩

end PuzzleMachine
