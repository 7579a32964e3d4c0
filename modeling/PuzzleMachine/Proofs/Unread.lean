import PuzzleMachine.Proofs.Ceiling

set_option autoImplicit false

namespace PuzzleMachine

def Instruction.IgnoresLength (i : MachineInstruction) : Prop :=
  .value (.register .inputLength) ∉ i.operands

instance (i : MachineInstruction) : Decidable i.IgnoresLength :=
  inferInstanceAs (Decidable (_ ∉ i.operands))

def Code.IgnoresLength (c : Code) : Prop := ∀ i ∈ c.instructions, i.IgnoresLength

instance (c : Code) : Decidable c.IgnoresLength :=
  inferInstanceAs (Decidable (∀ i ∈ c.instructions, i.IgnoresLength))

namespace Memory

def withMore (m : Memory) (more : Array Int32) : Memory := { m with input := m.input ++ more }

variable {m : Memory} {more : Array Int32}

theorem value_withMore {v : Value} (ignores : v ≠ .register .inputLength) :
    (m.withMore more).value v = m.value v := by
  rcases v with x | _ | k | r
  · rfl
  · exact absurd rfl ignores
  · rfl
  · rfl

theorem read_withMore {r : UInt64} (found : m.read r ≠ .error (.fault .inputExhausted)) :
    (m.withMore more).read r = m.read r := by
  cases next : m.input[m.cursor]? with
  | none =>
    rw [read, next] at found
    exact absurd rfl found
  | some v =>
    obtain ⟨inside, -⟩ := Array.getElem?_eq_some_iff.mp next
    have there : (m.input ++ more)[m.cursor]? = some v :=
      (Array.getElem?_append_left inside).trans next
    rw [read, read, next, withMore, there]
    rfl

-- More input makes no difference to an instruction that does not want for any.
theorem plan_withMore {pc haltIndex : Nat} {i : MachineInstruction} (ignores : i.IgnoresLength)
    (found : m.plan pc haltIndex i ≠ .error (.fault .inputExhausted)) :
    (m.withMore more).plan pc haltIndex i = m.plan pc haltIndex i := by
  refine plan_congr (fun _ _ => rfl) (fun v operand => ?_) (fun _ _ => rfl) rfl fun r reads => ?_
  · exact value_withMore fun counts => ignores (counts ▸ operand)
  · subst reads
    have next : m.read r ≠ .error (.fault .inputExhausted) := by
      intro none
      rw [plan, none] at found
      exact found rfl
    exact read_withMore next

theorem apply_withMore (m : Memory) (effect : Effect) (more : Array Int32) :
    (m.withMore more).apply effect = (m.apply effect).withMore more := by
  cases effect <;> rfl

theorem remaining_withMore (read : m.cursor ≤ m.input.size) :
    (m.withMore more).remaining = m.remaining ++ more.toList := by
  rw [remaining, remaining, withMore, Array.toList_append]
  exact List.drop_append_of_le_length (by simpa using read)

end Memory

namespace Machine

def withMore (m : Machine) (more : Array Int32) : Machine :=
  m.withMemory (m.state.toMemory.withMore more)

def Exhausted (m : Machine) : Prop := ∃ f, m.state.status = .faulted f ∧ f.kind = .inputExhausted

section Turn

variable {m m' : Machine} {span : Span} {i : MachineInstruction}

theorem Active.withMore (active : m.Active span) (more : Array Int32) :
    (m.withMore more).Active span :=
  ⟨active.working, active.inside, active.here⟩

theorem Fetched.withMore (fetched : m.Fetched i span) (more : Array Int32) :
    (m.withMore more).Fetched i span :=
  ⟨fetched.toActive.withMore more, fetched.early, fetched.coded⟩

theorem Fetched.planned_withMore (fetched : m.Fetched i span) (ignores : m.code.IgnoresLength)
    (found : m.planned i ≠ .error (.fault .inputExhausted)) (more : Array Int32) :
    (m.withMore more).planned i = m.planned i :=
  Memory.plan_withMore (ignores i (Array.mem_of_getElem? fetched.coded)) found

theorem executed_withMore (m : Machine) (i : MachineInstruction) (span : Span) (effect : Effect)
    (next : Nat) (more : Array Int32) :
    (m.withMore more).executed i span effect next =
      (m.executed i span effect next).withMore more := by
  have memory := m.state.toMemory.apply_withMore effect more
  simp only [executed, Machine.withMore, withMemory, memory]
  rfl

theorem Turn.withMore (turn : m.Turn m') (ignores : m.code.IgnoresLength)
    (found : ¬ m'.Exhausted) (more : Array Int32) : (m.withMore more).Turn (m'.withMore more) := by
  cases turn with
  | rest terminal => exact .rest terminal
  | halt working atEnd => exact .halt working atEnd
  | timeout active late => exact .timeout (active.withMore more) late
  | @fault i span kind fetched fails =>
    -- The instruction does not fault for want of input, as the machine would then be exhausted.
    have other : m.planned i ≠ .error (.fault .inputExhausted) := by
      intro none
      cases fails.symm.trans none
      exact found ⟨_, rfl, rfl⟩
    have planned := fetched.planned_withMore ignores other more
    exact .fault (fetched.withMore more) (planned.trans fails)
  | execute fetched succeeds cycles executed =>
    have planned := fetched.planned_withMore ignores (by simp [succeeds]) more
    rw [← executed_withMore]
    exact .execute (fetched.withMore more) (planned.trans succeeds) cycles executed

end Turn

section Runs

variable {m m₁ : Machine} {n : Nat}

theorem Runs.found_before (runs : m.Runs n m₁) (found : ¬ m₁.Exhausted) : ¬ m.Exhausted := by
  rintro ⟨f, faulted, wants⟩
  exact found ⟨f, runs.faulted faulted, wants⟩

theorem Runs.withMore (runs : m.Runs n m₁) (ignores : m.code.IgnoresLength)
    (found : ¬ m₁.Exhausted) (more : Array Int32) :
    (m.withMore more).Runs n (m₁.withMore more) := by
  -- By induction on the run: it is not exhausted on the way, as it would have ended there.
  induction runs with
  | stop terminal => exact .stop terminal
  | step working stepped later ih =>
    have turn := step?_ok_iff.mp stepped
    have next := turn.withMore ignores (later.found_before found) more
    exact .step working (step?_ok_iff.mpr next) (ih (turn.code_eq ▸ ignores) found)

end Runs

theorem launched_withMore (code : Code) (hw : Hardware) (xs ys : List Int32) (traced : Bool)
    (c : UInt64) :
    (launched code hw xs traced c).withMore ys.toArray = launched code hw (xs ++ ys) traced c := by
  have input : xs.toArray ++ ys.toArray = (xs ++ ys).toArray := List.append_toArray xs ys
  cases traced <;>
    simp [launched, fresh, State.fresh, Memory.fresh, Machine.withMore, withMemory, withTrace,
      Memory.withMore, input]

/-- Code that does not ask how much input is left comes to the same with more of it, unless the
input was too short before. What is behind it is left over. -/
theorem unread_input_unnoticed {instructions : Array MachineInstruction} {spans : Array Span}
    {code : Code} (built : Code.ofParts instructions spans = .ok code)
    (ignores : code.IgnoresLength) (hw : Hardware) (xs ys : List Int32) (traced : Bool)
    (c : UInt64) :
    ∃ m, (launched code hw xs traced c).run? = .ok m ∧
      (¬ m.Exhausted → ∃ m', (launched code hw (xs ++ ys) traced c).run? = .ok m' ∧
        m'.state = { m.state with input := (xs ++ ys).toArray } ∧ m'.trace = m.trace ∧
        m'.state.remaining = m.state.remaining ++ ys) := by
  have paired := paired_of_ofParts built
  obtain ⟨n, m, runs, ended⟩ := exists_launched_run paired hw xs traced c
  have memory := (reached_of_run? paired ended).coherent_here.memory
  refine ⟨m, ended, fun found => ⟨m.withMore ys.toArray, ?_, ?_, rfl, ?_⟩⟩
  · have same := (launched_reached code hw xs traced c).code_eq
    have more := runs.withMore (same ▸ ignores) found ys.toArray
    rw [launched_withMore] at more
    exact run?_of_runs paired more
  · have input : m.state.input ++ ys.toArray = (xs ++ ys).toArray := by simp [← memory.given]
    rw [← input]
    rfl
  · exact Memory.remaining_withMore memory.cursor

def untilZero : Code :=
  ⟨#[.read 0, .write (.register (.user 0)), .branch .nonzero (.register (.user 0)) 0],
    #[.zero 0, .zero 0, .zero 0]⟩

theorem untilZero_leaves_rest :
    Code.ofParts untilZero.instructions untilZero.spans = .ok untilZero ∧
      untilZero.IgnoresLength ∧
      ∃ m, (launched untilZero (.ofSizes 1 []) [3, 0] true 9).run? = .ok m ∧
        m.state.output = #[3, 0] ∧ m.state.remaining = [] ∧
        ∃ m', (launched untilZero (.ofSizes 1 []) ([3, 0] ++ [7]) true 9).run? = .ok m' ∧
          m'.state = { m.state with input := #[3, 0, 7] } ∧ m'.trace = m.trace ∧
          m'.state.remaining = m.state.remaining ++ [7] := by
  have built : Code.ofParts untilZero.instructions untilZero.spans = .ok untilZero := rfl
  have ignores : untilZero.IgnoresLength := by decide
  let last := step^[7] (launched untilZero (.ofSizes 1 []) [3, 0] true 9)
  have halted : last.state.status = .halted := by decide
  obtain ⟨m, ended, more⟩ := unread_input_unnoticed built ignores (.ofSizes 1 []) [3, 0] [7] true 9
  have ended' : (launched untilZero (.ofSizes 1 []) [3, 0] true 9).run? = .ok last := by decide
  cases ended.symm.trans ended'
  have found : ¬ last.Exhausted := by
    rintro ⟨f, faulted, -⟩
    cases halted.symm.trans faulted
  exact ⟨built, ignores, last, ended', by decide, by decide, more found⟩

end Machine
end PuzzleMachine
