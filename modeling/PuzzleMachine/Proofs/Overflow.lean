import Mathlib
import PuzzleMachine.Proofs.Exact
import PuzzleMachine.Proofs.Termination

set_option autoImplicit false

namespace PuzzleMachine

def Fits (n : Int) : Prop := -2 ^ 31 ≤ n ∧ n < 2 ^ 31

instance (n : Int) : Decidable (Fits n) := inferInstanceAs (Decidable (_ ∧ _))

def ExactMemory.ofWords (m : Memory) (results : List Int) : ExactMemory where
  registers := m.registers.map Int32.toInt
  contents := m.contents.map (·.map Int32.toInt)
  capacities := m.capacities
  input := m.input.map Int32.toInt
  cursor := m.cursor
  output := m.output.map Int32.toInt
  peak := m.peak
  results

def ExactMachine.ofWords (m : Machine) (results : List Int) : ExactMachine where
  code := m.code
  memory := .ofWords m.state.toMemory results
  pc := m.state.pc
  cycles := m.state.cycles
  executed := m.state.executed
  touched := m.state.touched
  status := m.state.status
  ceiling := m.ceiling

section Words

variable {a b : Int32} {n : Int}

theorem value32?_of_fits (fits : Fits n) : ∃ v, value32? n = some v ∧ v.toInt = n := by
  obtain ⟨lower, upper⟩ := fits
  have within : Int32.minValue.toInt ≤ n ∧ n ≤ Int32.maxValue.toInt := by
    rw [Int32.toInt_minValue, Int32.toInt_maxValue]
    omega
  refine ⟨.ofInt n, if_pos within, Int32.toInt_ofInt_of_le ?_ ?_⟩ <;> omega

theorem value32?_of_not_fits (large : ¬ Fits n) : value32? n = none := by
  refine if_neg fun within => large ?_
  rw [Int32.toInt_minValue, Int32.toInt_maxValue] at within
  rw [Fits]
  omega

theorem apply?_eq (op : Arith) (a b : Int32) :
    op.apply? a b = value32? (op.exact a.toInt b.toInt) := by
  cases op <;> rfl

theorem holdsExactly_toInt (test : Test) (a : Int32) :
    test.holdsExactly a.toInt = test.holds a := by
  cases test <;>
    simp [Test.holdsExactly, Test.holds, Int32.lt_iff_toInt_lt, Int32.toInt_inj.symm, bne, BEq.beq]

theorem compareIntegers_toInt (a b : Int32) :
    compareIntegers a.toInt b.toInt = (compareValues a b).toInt := by
  simp only [compareIntegers, compareValues, Int32.toInt_inj, ← Int32.lt_iff_toInt_lt]
  split_ifs <;> rfl

theorem lengthValue_toInt {n : Nat} (short : n < 2 ^ 31) : (lengthValue n).toInt = n := by
  have fits : Fits n := by
    rw [Fits]
    omega
  obtain ⟨v, held, same⟩ := value32?_of_fits fits
  rw [lengthValue, held]
  exact same

end Words

-- No length in the memory is beyond the range of words.
structure Memory.Short (m : Memory) : Prop where
  contents : ∀ (k : Nat) (vs : Array Int32), m.contents[k]? = some vs → vs.size < 2 ^ 31
  input : m.input.size < 2 ^ 31
  cursor : m.cursor ≤ m.input.size

-- The same is found in words and in integers, or nothing for the same reason, and that is no
-- overflow.
inductive Alike {α β : Type} (lift : α → β) : Except Stop α → Except FaultKind β → Prop where
  | found (a : α) : Alike lift (.ok a) (.ok (lift a))
  | missing {kind : FaultKind} (other : kind ≠ .arithmetic .overflow) :
      Alike lift (.error (.fault kind)) (.error kind)

section Lookups

variable {m : Memory} {results : List Int}

theorem register_alike (r : UInt64) :
    Alike Int32.toInt (m.register r) ((ExactMemory.ofWords m results).register r) := by
  simp only [ExactMemory.register, ExactMemory.ofWords, Memory.register, Array.getElem?_map]
  cases m.registers[r.toNat]? with
  | none => exact .missing (by simp)
  | some v => exact .found v

theorem stack_alike (k : UInt64) :
    Alike (·.map Int32.toInt) (m.stack k) ((ExactMemory.ofWords m results).stack k) := by
  simp only [ExactMemory.stack, ExactMemory.ofWords, Memory.stack, Array.getElem?_map]
  cases m.contents[k.toNat]? with
  | none => exact .missing (by simp)
  | some vs => exact .found vs

theorem length_alike {n : Nat} (short : n < 2 ^ 31) :
    Alike Int32.toInt (.ok (lengthValue n)) (.ok n) := by
  rw [← lengthValue_toInt short]
  exact .found (lengthValue n)

theorem value_alike (short : m.Short) (v : Value) :
    Alike Int32.toInt (m.value v) ((ExactMemory.ofWords m results).value v) := by
  rcases v with v | _ | k | r
  · exact .found v
  · have input := short.input
    simp only [Memory.value, Memory.inputLength, if_pos short.cursor,
      ExactMemory.value, ExactMemory.ofWords, Array.size_map]
    exact length_alike (by omega)
  · have same := @stack_alike m results k
    rw [Memory.value, ExactMemory.value]
    generalize (ExactMemory.ofWords m results).stack k = y at same ⊢
    cases found : m.stack k with
    | error stop =>
      rw [found] at same
      cases same with
      | missing other => exact .missing other
    | ok vs =>
      rw [found] at same
      cases same
      simp only [Except.map, Array.size_map]
      exact length_alike (short.contents _ vs (Memory.stack_ok found))
  · exact register_alike r

end Lookups

inductive Mirrors (m : Memory) (results : List Int) :
    Except Stop (Effect × Nat) → Except FaultKind (ExactMemory × Nat) → Prop where
  | done {effect : Effect} {next : Nat} {more : List Int} (fits : ∀ n ∈ more, Fits n) :
      Mirrors m results (.ok (effect, next))
        (.ok (.ofWords (m.apply effect) (results ++ more), next))
  | stopped {kind : FaultKind} (other : kind ≠ .arithmetic .overflow) :
      Mirrors m results (.error (.fault kind)) (.error kind)
  | overflow {u : ExactMemory} {next : Nat} {n : Int} (large : ¬ Fits n)
      (added : u.results = results ++ [n]) :
      Mirrors m results (.error (.fault (.arithmetic .overflow))) (.ok (u, next))

section Instructions

variable {m : Memory} {results : List Int} {pc haltIndex : Nat}

theorem Mirrors.bind {α β : Type} {lift : α → β} {x : Except Stop α} {y : Except FaultKind β}
    {f : α → Except Stop (Effect × Nat)} {g : β → Except FaultKind (ExactMemory × Nat)}
    (alike : Alike lift x y) (next : ∀ a, x = .ok a → Mirrors m results (f a) (g (lift a))) :
    Mirrors m results (x >>= f) (y >>= g) := by
  cases alike with
  | found a => exact next a rfl
  | missing other => exact .stopped other

theorem Mirrors.of_eq {effect : Effect} {next : Nat} {u : ExactMemory}
    (same : u = .ofWords (m.apply effect) results) :
    Mirrors m results (.ok (effect, next)) (.ok (u, next)) := by
  have done := @Mirrors.done m results effect next [] (by simp)
  rwa [List.append_nil, ← same] at done

theorem map_modify {α β : Type} {f : α → α} {h : β → β} {g : α → β}
    (same : ∀ x, g (f x) = h (g x)) (xs : Array α) (k : Nat) :
    (xs.modify k f).map g = (xs.map g).modify k h := by
  refine Array.ext_getElem? fun n => ?_
  simp only [Array.getElem?_map, Array.getElem?_modify]
  split
  · cases xs[n]? <;> simp [same]
  · rfl

theorem assign_mirrors (r : UInt64) (x : Int32) :
    Mirrors m results (do return (← m.assign r x, pc + 1))
      (do return (← (ExactMemory.ofWords m results).assign r x.toInt, pc + 1)) := by
  simp only [Memory.assign, ExactMemory.assign, bind_assoc, pure_bind]
  refine .bind (register_alike r) fun old _ => .of_eq ?_
  simp [ExactMemory.ofWords, Memory.apply]

theorem read_mirrors (r : UInt64) :
    Mirrors m results (do return (← m.read r, pc + 1))
      (do return (← (ExactMemory.ofWords m results).read r, pc + 1)) := by
  have input : (ExactMemory.ofWords m results).input[(ExactMemory.ofWords m results).cursor]? =
      m.input[m.cursor]?.map Int32.toInt := Array.getElem?_map
  rw [Memory.read, ExactMemory.read, input]
  cases m.input[m.cursor]? with
  | none => exact .stopped (by simp)
  | some x =>
    simp only [Option.map_some, ExactMemory.assign, bind_assoc, pure_bind]
    refine .bind (register_alike r) fun old _ => .of_eq ?_
    simp [ExactMemory.ofWords, Memory.apply]

theorem operate_mirrors (short : m.Short) (op : Arith) (r : UInt64) (v : Value) :
    Mirrors m results (do return (← m.operate op r v, pc + 1))
      (do return (← (ExactMemory.ofWords m results).operate op r v, pc + 1)) := by
  simp only [Memory.operate, ExactMemory.operate, bind_assoc]
  refine .bind (register_alike r) fun a dest => ?_
  refine .bind (value_alike short v) fun b _ => ?_
  -- The register exists, so the result is written to it, be it a word or not.
  have recorded (n : Int) :
      (ExactMemory.ofWords m results).record n = .ofWords m (results ++ [n]) := rfl
  have found (n : Int) : (ExactMemory.ofWords m (results ++ [n])).register r = .ok a.toInt := by
    have same := @register_alike m (results ++ [n]) r
    rw [dest] at same
    generalize (ExactMemory.ofWords m (results ++ [n])).register r = y at same
    cases same
    rfl
  simp only [recorded, ExactMemory.assign, found, apply?_eq]
  by_cases fits : Fits (op.exact a.toInt b.toInt)
  · obtain ⟨x, result, same⟩ := value32?_of_fits fits
    have done := @Mirrors.done m results (.assign r x) (pc + 1) [x.toInt] (by simpa [same])
    rw [result, ← same]
    simp only [ExactMemory.ofWords, Memory.apply, Array.map_setIfInBounds] at done
    exact done
  · rw [value32?_of_not_fits fits]
    exact .overflow fits rfl

theorem arith_mirrors (short : m.Short) (op : Arith) (r : UInt64) (v : Value) :
    Mirrors m results (do return (← m.arith op r v, pc + 1))
      (do return (← (ExactMemory.ofWords m results).arith op r v, pc + 1)) := by
  by_cases divides : op = .div
  · simp only [Memory.arith, ExactMemory.arith, divides, if_true, bind_assoc]
    refine .bind (value_alike short v) fun b _ => ?_
    have zero : b.toInt = 0 ↔ b = 0 := @Int32.toInt_inj b 0
    by_cases none : b = 0 <;> simp only [zero, none, if_true, if_false]
    · exact .stopped (by simp)
    · exact operate_mirrors short .div r v
  · simpa only [Memory.arith, ExactMemory.arith, divides, if_false] using
      operate_mirrors short op r v

theorem push_mirrors (x : Int32) (k : UInt64) :
    Mirrors m results (do return (← m.push x k, pc + 1))
      (do return (← (ExactMemory.ofWords m results).push x.toInt k, pc + 1)) := by
  simp only [Memory.push, ExactMemory.push, bind_assoc]
  refine .bind (stack_alike k) fun vs here => ?_
  rw [show (ExactMemory.ofWords m results).capacities = m.capacities from rfl, Array.size_map]
  cases m.capacities[k.toNat]? with
  | none => exact .stopped (by simp)
  | some capacity =>
    by_cases full : capacity.toNat ≤ vs.size <;> simp only [full, if_true, if_false]
    · exact .stopped (by simp)
    · refine .of_eq ?_
      have pushed := map_modify (g := (·.map Int32.toInt)) (f := (·.push x))
        (h := (·.push x.toInt)) (fun _ => Array.map_push) m.contents k.toNat
      simp [ExactMemory.ofWords, Memory.apply, pushed]

theorem pop_mirrors (k r : UInt64) :
    Mirrors m results (do return (← m.pop k r, pc + 1))
      (do return (← (ExactMemory.ofWords m results).pop k r, pc + 1)) := by
  simp only [Memory.pop, ExactMemory.pop, bind_assoc]
  refine .bind (register_alike r) fun old _ => ?_
  refine .bind (stack_alike k) fun vs _ => ?_
  rw [Array.back?_map]
  cases vs.back? with
  | none => exact .stopped (by simp)
  | some x =>
    refine .of_eq ?_
    have popped := map_modify (g := (·.map Int32.toInt)) (f := Array.pop) (h := Array.pop)
      (fun _ => Array.map_pop) m.contents k.toNat
    simp [ExactMemory.ofWords, Memory.apply, popped]

theorem jump_mirrors (target : Nat) (taken : Bool) :
    Mirrors m results
      (do return (.none, ← Memory.jump haltIndex target (pc + 1) taken))
      ((ExactMemory.ofWords m results).jump haltIndex target (pc + 1) taken) := by
  rw [Memory.jump, ExactMemory.jump]
  split
  · exact .stopped (by simp)
  · exact .of_eq rfl

theorem execute_mirrors (short : m.Short) (i : MachineInstruction) :
    Mirrors m results (m.plan pc haltIndex i)
      ((ExactMemory.ofWords m results).execute pc haltIndex i) := by
  cases i with
  | read r => exact read_mirrors r
  | write v =>
    refine .bind (value_alike short v) fun x _ => .of_eq ?_
    simp [ExactMemory.ofWords, Memory.apply]
  | set r v => exact .bind (value_alike short v) fun x _ => assign_mirrors r x
  | arith op r v => exact arith_mirrors short op r v
  | cmp r a b =>
    refine .bind (value_alike short a) fun x _ => .bind (value_alike short b) fun y _ => ?_
    rw [compareIntegers_toInt]
    exact assign_mirrors r (compareValues x y)
  | push v k => exact .bind (value_alike short v) fun x _ => push_mirrors x k
  | pop k r => exact pop_mirrors k r
  | jump target => exact jump_mirrors target true
  | branch test v target =>
    refine .bind (value_alike short v) fun x _ => ?_
    rw [holdsExactly_toInt]
    exact jump_mirrors target (test.holds x)

end Instructions

def Machine.Overflowed (m : Machine) : Prop :=
  ∃ f, m.state.status = .faulted f ∧ f.kind = .arithmetic .overflow

theorem Machine.overflowed_faulted_iff {m : Machine} {kind : FaultKind} {span : Span} :
    (m.faulted kind span).Overflowed ↔ kind = .arithmetic .overflow := by
  simp [Overflowed, faulted, withStatus]

section Steps

variable {m m' : Machine} {results : List Int}

theorem advance_of_active {i : MachineInstruction} {span : Span} (active : m.Active span)
    (coded : m.code.instructions[m.state.pc]? = some i) :
    (ExactMachine.ofWords m results).advance =
      if m.ceiling.toNat ≤ m.state.cycles then
        (ExactMachine.ofWords m results).faulted (.timeout m.ceiling) span
      else match (ExactMemory.ofWords m.state.toMemory results).execute m.state.pc
          m.code.haltIndex i with
        | .ok (memory, next) => (ExactMachine.ofWords m results).commit i memory next
        | .error kind => (ExactMachine.ofWords m results).faulted kind span := by
  simp only [ExactMachine.advance, ExactMachine.ofWords, active.working, active.inside,
    active.here, coded, Bool.false_eq_true, if_false]
  rfl

theorem exists_coded {span : Span} (active : m.Active span) (paired : m.code.Paired) :
    ∃ i, m.code.instructions[m.state.pc]? = some i := by
  obtain ⟨inside, -⟩ := Array.getElem?_eq_some_iff.mp active.here
  have inside : m.state.pc < m.code.instructions.size := paired ▸ inside
  exact ⟨_, Array.getElem?_eq_getElem inside⟩

theorem advance_of_turn (turn : m.Turn m') (short : m.state.toMemory.Short)
    (paired : m.code.Paired) :
    (∃ more, (∀ n ∈ more, Fits n) ∧
      (ExactMachine.ofWords m results).advance = .ofWords m' (results ++ more) ∧
      (m'.Overflowed → m.Overflowed)) ∨
    ∃ span n, m.Active span ∧ m' = m.faulted (.arithmetic .overflow) span ∧ ¬ Fits n ∧
      (ExactMachine.ofWords m results).advance.memory.results = results ++ [n] := by
  cases turn with
  | rest terminal =>
    refine .inl ⟨[], by simp, ?_, id⟩
    rw [List.append_nil]
    exact if_pos terminal
  | halt working atEnd =>
    refine .inl ⟨[], by simp, ?_, ?_⟩
    · simp [ExactMachine.advance, ExactMachine.ofWords, working, atEnd, Machine.withStatus]
    · simp [Machine.Overflowed, Machine.withStatus]
  | @timeout span active late =>
    obtain ⟨i, coded⟩ := exists_coded active paired
    refine .inl ⟨[], by simp, ?_, ?_⟩
    · rw [advance_of_active active coded, if_pos late, List.append_nil]
      rfl
    · simp [Machine.overflowed_faulted_iff]
  | @fault i span kind fetched fails =>
    have mirrors := @execute_mirrors _ results m.state.pc m.code.haltIndex short i
    rw [show m.state.toMemory.plan _ _ i = _ from fails] at mirrors
    rw [advance_of_active fetched.toActive fetched.coded, if_neg (Nat.not_le_of_lt fetched.early)]
    generalize (ExactMemory.ofWords m.state.toMemory results).execute _ _ i = after at mirrors ⊢
    cases mirrors with
    | stopped other =>
      refine .inl ⟨[], by simp, ?_, ?_⟩
      · rw [List.append_nil]
        rfl
      · simp [Machine.overflowed_faulted_iff, other]
    | @overflow u next n large added =>
      exact .inr ⟨span, n, fetched.toActive, rfl, large, added⟩
  | @execute i span effect next fetched succeeds =>
    have mirrors := @execute_mirrors _ results m.state.pc m.code.haltIndex short i
    rw [show m.state.toMemory.plan _ _ i = _ from succeeds] at mirrors
    rw [advance_of_active fetched.toActive fetched.coded, if_neg (Nat.not_le_of_lt fetched.early)]
    generalize (ExactMemory.ofWords m.state.toMemory results).execute _ _ i = after at mirrors ⊢
    cases mirrors with
    | @done _ _ more fits =>
      refine .inl ⟨more, fits, rfl, ?_⟩
      rintro ⟨f, faulted, -⟩
      exact absurd faulted Machine.executed_not_faulted

end Steps

section Runs

variable {code : Code} {hw : Hardware} {input : List Int32} {ceiling : UInt64}
  {m : Machine}

theorem short_of_consistent {m : Memory} (consistent : m.Consistent hw input)
    (roomy : ∀ capacity ∈ hw.capacities, capacity.toNat < 2 ^ 31) (short : input.length < 2 ^ 31) :
    m.Short := by
  refine ⟨fun k vs here => ?_, ?_, consistent.cursor⟩
  · obtain ⟨inside, -⟩ := Array.getElem?_eq_some_iff.mp here
    rw [consistent.contents, ← consistent.toSized.capacities] at inside
    have limit := Array.getElem?_eq_getElem inside
    have listed : m.capacities[k] ∈ hw.capacities := by
      rw [← consistent.limits]
      exact Array.mem_toList_iff.mpr (Array.getElem_mem inside)
    exact Nat.lt_of_le_of_lt (consistent.room k vs _ here limit) (roomy _ listed)
  · rwa [← Array.length_toList, consistent.given]

inductive Together (m : Machine) (u : ExactMachine) : Prop where
  | same (fits : ∀ n ∈ u.memory.results, Fits n) (equal : u = .ofWords m u.memory.results)
      (smooth : ¬ m.Overflowed) : Together m u
  | apart (overflowed : m.Overflowed) (large : ∃ n ∈ u.memory.results, ¬ Fits n) : Together m u

theorem Machine.Overflowed.terminal (overflowed : m.Overflowed) :
    m.state.status.isTerminal = true := by
  obtain ⟨f, faulted, -⟩ := overflowed
  rw [faulted]
  rfl

theorem Together.turn {m' : Machine} {u : ExactMachine} (together : Together m u)
    (turn : m.Turn m') (short : m.state.toMemory.Short) (paired : m.code.Paired) :
    Together m' u.advance := by
  cases together with
  | same fits equal smooth =>
    generalize u.memory.results = results at fits equal
    subst equal
    rcases advance_of_turn turn short paired with
      ⟨more, words, advanced, kept⟩ | ⟨span, n, -, rfl, large, added⟩
    · rw [advanced]
      refine .same ?_ rfl fun overflowed => smooth (kept overflowed)
      exact List.forall_mem_append.mpr ⟨fits, words⟩
    · refine .apart ⟨_, rfl, rfl⟩ ⟨n, ?_, large⟩
      rw [added]
      exact List.mem_append_right _ List.mem_cons_self
  | apart overflowed large =>
    obtain ⟨n, member, large⟩ := large
    rw [turn.eq_of_terminal overflowed.terminal]
    exact .apart overflowed ⟨n, u.advance_results.subset member, large⟩

theorem fresh_together (code : Code) (hw : Hardware) (input : List Int32) (ceiling : UInt64) :
    Together (.fresh code hw input ceiling) (.fresh code hw input ceiling) := by
  refine .same (by simp [ExactMachine.fresh, ExactMemory.fresh]) ?_ ?_
  · simp [ExactMachine.fresh, ExactMachine.ofWords, ExactMemory.fresh, ExactMemory.ofWords,
      Machine.fresh, State.fresh, Memory.fresh]
  · simp [Machine.Overflowed, Machine.fresh, State.fresh]

theorem exists_together (paired : code.Paired)
    (roomy : ∀ capacity ∈ hw.capacities, capacity.toNat < 2 ^ 31) (short : input.length < 2 ^ 31)
    (n : Nat) :
    ∃ m, (Machine.fresh code hw input ceiling).advanceBy n = .ok m ∧
      (Machine.fresh code hw input ceiling).Reaches m ∧
      Together m (ExactMachine.run code hw input ceiling n) := by
  induction n with
  | zero => exact ⟨_, rfl, .start, fresh_together code hw input ceiling⟩
  | succ n ih =>
    obtain ⟨m, steps, reached, together⟩ := ih
    have coherent := reached.coherent_here
    have paired : m.code.Paired := reached.code_eq ▸ paired
    obtain ⟨m', turn⟩ := Machine.turn_of_coherent paired coherent
    refine ⟨m', Machine.advanceBy_of_turn steps turn,
      reached.step (Machine.step?_ok_iff.mpr turn), ?_⟩
    rw [ExactMachine.run, Function.iterate_succ_apply']
    exact together.turn turn (short_of_consistent coherent.memory roomy short) paired

theorem Together.overflowed_iff {u : ExactMachine} (together : Together m u) :
    m.Overflowed ↔ ∃ n ∈ u.memory.results, ¬ Fits n := by
  cases together with
  | same fits _ smooth =>
    refine iff_of_false smooth ?_
    rintro ⟨n, member, large⟩
    exact large (fits n member)
  | apart overflowed large => exact iff_of_true overflowed large

theorem Together.equal {u : ExactMachine} (together : Together m u)
    (fits : ∀ n ∈ u.memory.results, Fits n) : u = .ofWords m u.memory.results := by
  cases together with
  | same _ equal => exact equal
  | apart _ large =>
    obtain ⟨n, member, large⟩ := large
    exact absurd (fits n member) large

theorem step?_of_overflow (reached : (Machine.fresh code hw input ceiling).Reaches m)
    (paired : m.code.Paired) (short : m.state.toMemory.Short) {results : List Int}
    (fits : ∀ n ∈ results, Fits n)
    (large : ∃ n ∈ (ExactMachine.ofWords m results).advance.memory.results, ¬ Fits n) :
    ∃ span, m.code.spans[m.state.pc]? = some span ∧
      m.step? = .ok (m.faulted (.arithmetic .overflow) span) := by
  obtain ⟨m', turn⟩ := Machine.turn_of_coherent paired reached.coherent_here
  obtain ⟨n, member, large⟩ := large
  rcases advance_of_turn turn short paired with
    ⟨more, words, advanced, -⟩ | ⟨span, -, active, rfl, -⟩
  · rw [advanced] at member
    exact absurd (List.forall_mem_append.mpr ⟨fits, words⟩ n member) large
  · exact ⟨span, active.here, Machine.step?_ok_iff.mpr turn⟩

theorem step_of_zero_divisor (short : m.state.toMemory.Short) {results : List Int} {r : UInt64}
    {v : Value} {span : Span} (fetched : m.Fetched (.arith .div r v) span)
    (zero : m.state.toMemory.value v = .ok 0) :
    m.step? = .ok (m.faulted (.arithmetic .divideByZero) span) ∧
      (ExactMachine.ofWords m results).advance =
        (ExactMachine.ofWords m results).faulted (.arithmetic .divideByZero) span := by
  constructor
  · have fails : m.planned (.arith .div r v) = .error (.fault (.arithmetic .divideByZero)) := by
      simp [Machine.planned, Memory.plan, Memory.arith, zero, throw, throwThe, MonadExceptOf.throw]
    exact Machine.step?_ok_iff.mpr (.fault fetched fails)
  · have same := @value_alike _ results short v
    rw [advance_of_active fetched.toActive fetched.coded, if_neg (Nat.not_le_of_lt fetched.early)]
    simp only [ExactMemory.execute, ExactMemory.arith, if_true]
    rw [zero] at same
    generalize (ExactMemory.ofWords m.state.toMemory results).value v = y at same ⊢
    cases same
    rfl

end Runs

/-- Up to the first result that is no word both machines are in the same state after every step.
Only there does the machine over words overflow, which leaves it as it was. Dividing by zero is the
same fault on both. -/
theorem exact_until_overflow {instructions : Array MachineInstruction} {spans : Array Span}
    {code : Code} {hw : Hardware} {input : List Int32}
    (built : Code.ofParts instructions spans = .ok code)
    (roomy : ∀ capacity ∈ hw.capacities, capacity.toNat < 2 ^ 31) (short : input.length < 2 ^ 31)
    (ceiling : UInt64) (n : Nat) :
    ∃ m u, (Machine.fresh code hw input ceiling).advanceBy n = .ok m ∧
      ExactMachine.run code hw input ceiling n = u ∧
      (m.Overflowed ↔ ∃ x ∈ u.memory.results, ¬ Fits x) ∧
      ((∀ x ∈ u.memory.results, Fits x) →
        u = .ofWords m u.memory.results ∧
        ((∃ x ∈ u.advance.memory.results, ¬ Fits x) →
          ∃ span, code.spans[m.state.pc]? = some span ∧
            m.step? = .ok (m.faulted (.arithmetic .overflow) span)) ∧
        ∀ r v span, m.Fetched (.arith .div r v) span → m.state.toMemory.value v = .ok 0 →
          m.step? = .ok (m.faulted (.arithmetic .divideByZero) span) ∧
            u.advance = u.faulted (.arithmetic .divideByZero) span) := by
  have paired := Machine.paired_of_ofParts built
  obtain ⟨m, steps, reached, together⟩ := exists_together paired roomy short n
  refine ⟨m, _, steps, rfl, together.overflowed_iff, fun fits => ?_⟩
  have equal := together.equal fits
  have short := short_of_consistent reached.coherent_here.memory roomy short
  have code_eq : m.code = code := reached.code_eq
  generalize (ExactMachine.run code hw input ceiling n).memory.results = results at fits equal
  rw [equal]
  refine ⟨rfl, fun large => ?_, fun r v span fetched zero =>
    step_of_zero_divisor short fetched zero⟩
  obtain ⟨span, here, stepped⟩ :=
    step?_of_overflow reached (code_eq ▸ paired) short fits large
  exact ⟨span, code_eq ▸ here, stepped⟩

def squarer : Code :=
  ⟨#[.set 0 (.literal 46341), .arith .mul 0 (.register (.user 0))],
    #[⟨0, 0, 13, 1, 1⟩, ⟨0, 14, 25, 2, 1⟩]⟩

theorem squarer_overflows :
    ∃ m u, (Machine.fresh squarer .default [] 10).advanceBy 1 = .ok m ∧
      ExactMachine.run squarer .default [] 10 1 = u ∧
      u = .ofWords m u.memory.results ∧ u.advance.memory.results = [2147488281] ∧
      ∃ span, squarer.spans[m.state.pc]? = some span ∧
        m.step? = .ok (m.faulted (.arithmetic .overflow) span) := by
  have built : Code.ofParts squarer.instructions squarer.spans = .ok squarer := rfl
  have roomy : ∀ capacity ∈ Hardware.default.capacities, capacity.toNat < 2 ^ 31 := nofun
  have short : ([] : List Int32).length < 2 ^ 31 := by decide
  obtain ⟨m, u, steps, rfl, -, fitting⟩ := exact_until_overflow built roomy short 10 1
  obtain ⟨same, overflow, -⟩ := fitting (by decide)
  exact ⟨m, _, steps, rfl, same, by decide, overflow (by decide)⟩

end PuzzleMachine
