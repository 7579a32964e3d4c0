import PuzzleMachine.Proofs.Trail

set_option autoImplicit false

namespace PuzzleMachine
namespace Memory

def withRegisters (m : Memory) (registers : Array Int32) : Memory := { m with registers }

def KeepsOutside (rs : List UInt64) (m m' : Memory) : Prop :=
  ∀ n, (∀ r ∈ rs, r.toNat ≠ n) → m'.registers[n]? = m.registers[n]?

section Reading

variable {m : Memory} {registers : Array Int32}

theorem register_withRegisters {r : UInt64}
    (same : registers[r.toNat]? = m.registers[r.toNat]?) :
    (m.withRegisters registers).register r = m.register r := by
  simp only [register, withRegisters, same]

theorem value_withRegisters {v : Value}
    (same : ∀ r, v.user? = some r → registers[r.toNat]? = m.registers[r.toNat]?) :
    (m.withRegisters registers).value v = m.value v := by
  rcases v with x | _ | k | r
  · rfl
  · rfl
  · rfl
  · exact register_withRegisters (same r rfl)

theorem plan_withRegisters {pc haltIndex : Nat} {i : MachineInstruction}
    (same : ∀ r ∈ i.userRegisters, registers[r.toNat]? = m.registers[r.toNat]?) :
    (m.withRegisters registers).plan pc haltIndex i = m.plan pc haltIndex i := by
  refine plan_congr (fun r operand => ?_) (fun v operand => ?_) (fun _ _ => rfl) rfl fun r reads => ?_
  · exact register_withRegisters (same r (Instruction.mem_userRegisters.mpr (.inl operand)))
  · refine value_withRegisters fun r here => same r (Instruction.mem_userRegisters.mpr (.inr ?_))
    exact Value.user?_eq_some.mp here ▸ operand
  · subst reads
    simp only [read, register_withRegisters (same r List.mem_cons_self)]
    rfl

end Reading

section Writing

variable {m : Memory} {registers : Array Int32} {pc haltIndex next : Nat} {i : MachineInstruction}
  {effect : Effect}

theorem apply_withRegisters (m : Memory) (registers : Array Int32) (effect : Effect) :
    (m.withRegisters registers).apply effect =
      (m.apply effect).withRegisters ((m.withRegisters registers).apply effect).registers := by
  cases effect <;> rfl

theorem registers_apply_withRegisters (count : registers.size = m.registers.size) {n : Nat}
    (same : registers[n]? = m.registers[n]?) (effect : Effect) :
    ((m.withRegisters registers).apply effect).registers[n]? = (m.apply effect).registers[n]? := by
  have written (r : UInt64) (v : Int32) :
      (registers.setIfInBounds r.toNat v)[n]? = (m.registers.setIfInBounds r.toNat v)[n]? := by
    -- As there are as many registers, both have the one that is written or neither has.
    rw [Array.getElem?_setIfInBounds, Array.getElem?_setIfInBounds, count, same]
  cases effect with
  | consume r v | assign r v | pop k r v => exact written r v
  | _ => exact same

theorem Planned.keepsOutside (planned : m.Planned pc haltIndex i effect next) :
    m.KeepsOutside i.userRegisters (m.apply effect) := by
  intro n outside
  exact apply_registers_of_ne fun r dest => outside r (planned.dest_mem dest)

end Writing

end Memory

/-- The states have as many registers, with the same values in those among `rs`, and are otherwise
the same. -/
structure State.AlikeOn (rs : List UInt64) (s s' : State) : Prop where
  count : s'.registers.size = s.registers.size
  named : ∀ r ∈ rs, s'.registers[r.toNat]? = s.registers[r.toNat]?
  otherwise : s' = { s with registers := s'.registers }

section Alike

variable {rs : List UInt64} {s s' : State}

theorem State.AlikeOn.plan_eq {i : MachineInstruction} (alike : s.AlikeOn i.userRegisters s')
    (haltIndex : Nat) :
    s'.toMemory.plan s'.pc haltIndex i = s.toMemory.plan s.pc haltIndex i := by
  obtain ⟨registers, rfl⟩ : ∃ registers, s' = { s with registers } := ⟨_, alike.otherwise⟩
  exact Memory.plan_withRegisters alike.named

theorem State.AlikeOn.apply (alike : s.AlikeOn rs s') (effect : Effect) :
    State.AlikeOn rs { s with toMemory := s.toMemory.apply effect }
      { s' with toMemory := s'.toMemory.apply effect } := by
  obtain ⟨registers, rfl⟩ : ∃ registers, s' = { s with registers } := ⟨_, alike.otherwise⟩
  have memory := Memory.apply_withRegisters s.toMemory registers effect
  constructor
  · exact (Memory.size_registers_apply _ effect).trans
      (alike.count.trans (Memory.size_registers_apply _ effect).symm)
  · intro r named
    exact Memory.registers_apply_withRegisters alike.count (alike.named r named) effect
  · exact congrArg (fun m => { s with toMemory := m }) memory

end Alike

/-- States that differ only in registers which an instruction does not name are the same to it: they
continue at the same place or stop for the same reason, still differ only in these registers, and
keep them. It is executed only where all registers that it names exist. -/
theorem named_registers_are_footprint (i : MachineInstruction) (haltIndex : Nat) {s s' : State}
    (alike : s.AlikeOn i.userRegisters s') :
    (∀ r, r ∈ i.userRegisters ↔ i.Names r) ∧
      ((∃ next m m',
          Work.execute s.pc haltIndex i s.toMemory = .ok next m ∧
          Work.execute s'.pc haltIndex i s'.toMemory = .ok next m' ∧
          State.AlikeOn i.userRegisters { s with toMemory := m } { s' with toMemory := m' } ∧
          s.toMemory.KeepsOutside i.userRegisters m ∧
          s'.toMemory.KeepsOutside i.userRegisters m' ∧
          ∀ r ∈ i.userRegisters, r.toNat < s.registers.size) ∨
        ∃ stop, s.toMemory.Refuses stop ∧
          Work.execute s.pc haltIndex i s.toMemory = .error stop s.toMemory ∧
          Work.execute s'.pc haltIndex i s'.toMemory = .error stop s'.toMemory) := by
  refine ⟨fun r => i.mem_userRegisters, ?_⟩
  -- Both plan the same, so it is enough to compare what one effect leaves of the two.
  have same := alike.plan_eq haltIndex
  rw [Work.execute_eq, Work.execute_eq, same]
  cases plan : s.toMemory.plan s.pc haltIndex i with
  | error stop => exact .inr ⟨stop, Memory.refuses_of_plan plan, rfl, rfl⟩
  | ok planned =>
    obtain ⟨effect, next⟩ := planned
    have planned := Memory.planned_of_plan plan
    have planned' := Memory.planned_of_plan (same.trans plan)
    exact .inl ⟨next, _, _, rfl, rfl, alike.apply effect, planned.keepsOutside,
      planned'.keepsOutside, fun r named => planned.inside named⟩

def threeRegisters (x : Int32) : State :=
  { State.fresh (.ofSizes 3 []) [] with registers := #[5, x, 3] }

theorem subtraction_ignores_second :
    (threeRegisters 7).AlikeOn [0, 2] (threeRegisters 9) ∧
      ∃ m m',
        Work.execute 0 1 (.arith .sub 0 (.register (.user 2))) (threeRegisters 7).toMemory =
          .ok 1 m ∧
        Work.execute 0 1 (.arith .sub 0 (.register (.user 2))) (threeRegisters 9).toMemory =
          .ok 1 m' ∧
        m.registers = #[2, 7, 3] ∧ m'.registers = #[2, 9, 3] ∧
        (threeRegisters 7).toMemory.KeepsOutside [0, 2] m := by
  have alike : (threeRegisters 7).AlikeOn [0, 2] (threeRegisters 9) :=
    ⟨rfl, by simp [threeRegisters], rfl⟩
  obtain ⟨-, ⟨next, m, m', here, there, -, kept, -⟩ | ⟨stop, -, fails, -⟩⟩ :=
    named_registers_are_footprint (.arith .sub 0 (.register (.user 2))) 1 alike
  · cases here
    cases there
    exact ⟨alike, _, _, rfl, rfl, by decide, by decide, kept⟩
  · cases fails

end PuzzleMachine
