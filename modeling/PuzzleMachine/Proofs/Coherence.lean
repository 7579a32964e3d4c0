import Mathlib.Data.List.MinMax
import Mathlib.Order.Nat
import PuzzleMachine.Proofs.Planned
import PuzzleMachine.Proofs.Safety

set_option autoImplicit false

namespace PuzzleMachine

def Hardware.largestCapacity (hw : Hardware) : Nat := (hw.capacities.map UInt64.toNat).foldr max 0

theorem Hardware.le_largestCapacity {hw : Hardware} {k : Nat} {capacity : UInt64}
    (listed : hw.capacities[k]? = some capacity) : capacity.toNat ≤ hw.largestCapacity :=
  List.le_max_of_le (List.mem_map_of_mem (List.mem_of_getElem? listed)) (Nat.le_refl _)

namespace Memory

structure Consistent (hw : Hardware) (input : List Int32) (m : Memory) : Prop
    extends m.Sized hw where
  limits : m.capacities.toList = hw.capacities
  given : m.input.toList = input
  room : ∀ (k : Nat) (vs : Array Int32) (capacity : UInt64), m.contents[k]? = some vs →
    m.capacities[k]? = some capacity → vs.size ≤ capacity.toNat
  covered : ∀ (k : Nat) (vs : Array Int32), m.contents[k]? = some vs → vs.size ≤ m.peak
  peak : m.peak ≤ hw.largestCapacity

theorem fresh_consistent (hw : Hardware) (input : List Int32) :
    (fresh hw input).Consistent hw input where
  toSized := fresh_sized hw input
  limits := rfl
  given := rfl
  room k vs capacity here _ := by
    obtain ⟨_, rfl⟩ := by simpa [fresh, Array.getElem?_replicate] using here
    exact Nat.zero_le _
  covered k vs here := by
    obtain ⟨_, rfl⟩ := by simpa [fresh, Array.getElem?_replicate] using here
    exact Nat.le_refl 0
  peak := Nat.zero_le _

section Consistent

variable {hw : Hardware} {input : List Int32} {m : Memory} {pc haltIndex next : Nat}
  {i : MachineInstruction} {effect : Effect}

theorem Planned.sized (planned : m.Planned pc haltIndex i effect next) (sized : m.Sized hw) :
    (m.apply effect).Sized hw := by
  refine sized.apply ?_
  rintro r v rfl
  cases planned with
  | read _ unread =>
    obtain ⟨inside, -⟩ := Array.getElem?_eq_some_iff.mp unread
    exact inside

theorem of_getElem?_modify {α : Type} {xs : Array α} {k j : Nat} {f : α → α} {x y : α}
    (here : xs[k]? = some x) (there : (xs.modify k f)[j]? = some y) :
    j = k ∧ y = f x ∨ xs[j]? = some y := by
  rw [Array.getElem?_modify] at there
  split at there
  next same =>
    subst same
    rw [here] at there
    exact .inl ⟨rfl, (Option.some.inj there).symm⟩
  next => exact .inr there

theorem Planned.consistent (planned : m.Planned pc haltIndex i effect next)
    (consistent : m.Consistent hw input) : (m.apply effect).Consistent hw input := by
  have sized := planned.sized consistent.toSized
  have ⟨_, limits, given, fits, covered, peak⟩ := consistent
  cases planned with
  | @push v k capacity x vs source here limit room =>
    -- The stack gets no longer than its capacity, which is one of the hardware's.
    have listed : hw.capacities[k.toNat]? = some capacity := by
      rw [← limits, Array.getElem?_toList, limit]
    have bounded := Hardware.le_largestCapacity listed
    refine ⟨sized, limits, given, fun j ws c there bound => ?_, fun j ws there => ?_,
      Nat.max_le.mpr ⟨peak, by omega⟩⟩
    · rcases of_getElem?_modify here there with ⟨rfl, rfl⟩ | other
      · cases limit.symm.trans bound
        rw [Array.size_push]
        exact room
      · exact fits j ws c other bound
    · rcases of_getElem?_modify here there with ⟨rfl, rfl⟩ | other
      · simp [Memory.apply]
      · exact Nat.le_trans (covered j ws other) (Nat.le_max_left ..)
  | @pop k r old x vs dest here last =>
    refine ⟨sized, limits, given, fun j ws c there bound => ?_, fun j ws there => ?_, peak⟩
    · rcases of_getElem?_modify here there with ⟨rfl, rfl⟩ | other
      · exact Nat.le_trans (by simp) (fits _ vs c here bound)
      · exact fits j ws c other bound
    · rcases of_getElem?_modify here there with ⟨rfl, rfl⟩ | other
      · exact Nat.le_trans (by simp) (covered _ vs here)
      · exact covered j ws other
  | _ => exact ⟨sized, limits, given, fits, covered, peak⟩

end Consistent

structure Continues (m m' : Memory) : Prop where
  cursor : m.cursor ≤ m'.cursor
  peak : m.peak ≤ m'.peak
  output : m.output.toList <+: m'.output.toList

namespace Continues

theorem refl (m : Memory) : m.Continues m := ⟨Nat.le_refl _, Nat.le_refl _, List.prefix_rfl⟩

theorem trans {m m' m'' : Memory} (first : m.Continues m') (second : m'.Continues m'') :
    m.Continues m'' :=
  ⟨first.cursor.trans second.cursor, first.peak.trans second.peak,
    first.output.trans second.output⟩

theorem apply (m : Memory) (effect : Effect) : m.Continues (m.apply effect) := by
  cases effect with
  | consume r v => exact ⟨Nat.le_succ _, Nat.le_refl _, List.prefix_rfl⟩
  | emit v => exact ⟨Nat.le_refl _, Nat.le_refl _, by simp [Memory.apply]⟩
  | push k v depth => exact ⟨Nat.le_refl _, Nat.le_max_left _ _, List.prefix_rfl⟩
  | _ => exact ⟨Nat.le_refl _, Nat.le_refl _, List.prefix_rfl⟩

end Continues
end Memory

section Registers

def Effect.dest? : Effect → Option UInt64
  | .consume r _ | .assign r _ | .pop _ r _ => some r
  | .none | .emit _ | .push _ _ _ => Option.none

theorem Memory.Planned.dest_mem {m : Memory} {pc haltIndex next : Nat} {i : MachineInstruction}
    {effect : Effect} (planned : m.Planned pc haltIndex i effect next) {r : UInt64}
    (dest : effect.dest? = some r) : r ∈ i.userRegisters := by
  cases planned <;> cases dest <;> simp [Instruction.userRegisters]

theorem Memory.size_registers_apply (m : Memory) (effect : Effect) :
    (m.apply effect).registers.size = m.registers.size := by
  cases effect <;> simp [Memory.apply]

theorem Memory.apply_registers_of_ne {m : Memory} {effect : Effect} {n : Nat}
    (other : ∀ r, effect.dest? = some r → r.toNat ≠ n) :
    (m.apply effect).registers[n]? = m.registers[n]? := by
  cases effect with
  | consume r v | assign r v | pop k r v => exact Array.getElem?_setIfInBounds_ne (other r rfl)
  | _ => rfl

theorem State.touch_size (touched : Array Bool) (rs : List UInt64) :
    (touch touched rs).size = touched.size := by
  induction rs generalizing touched with
  | nil => rfl
  | cons r rs ih => exact (ih _).trans Array.size_setIfInBounds

theorem State.touch_eq_false {touched : Array Bool} {rs : List UInt64} {n : Nat}
    (clear : (touch touched rs)[n]? = some false) :
    touched[n]? = some false ∧ ∀ r ∈ rs, r.toNat ≠ n := by
  induction rs generalizing touched with
  | nil => exact ⟨clear, by simp⟩
  | cons r rs ih =>
    obtain ⟨first, later⟩ := ih clear
    rw [Array.getElem?_setIfInBounds] at first
    split at first
    next => split at first <;> cases first
    next other => exact ⟨first, List.forall_mem_cons.mpr ⟨other, later⟩⟩

end Registers

/-- Where a machine is and what it has counted, for each thing that its status can be. -/
def Status.Suits (code : Code) (s : State) : Status → Prop
  | .ready => s.cycles = 0 ∧ s.pc = 0
  | .running => 0 < s.cycles ∧ s.pc < code.haltIndex
  | .halted => s.pc = code.haltIndex
  | .faulted f => f.pc = s.pc ∧ s.pc < code.haltIndex ∧ code.spans[s.pc]? = some f.span

structure State.Coherent (code : Code) (hw : Hardware) (input : List Int32) (ceiling : UInt64)
    (s : State) : Prop where
  memory : s.toMemory.Consistent hw input
  touched : s.touched.size = hw.registers.toNat
  -- Registers that no instruction has named still hold what they held first.
  untouched : ∀ n : Nat, s.touched[n]? = some false → s.registers[n]? = some 0
  inside : s.pc ≤ code.haltIndex
  counted : s.cycles = s.executed
  early : s.cycles ≤ ceiling.toNat
  status : s.status.Suits code s

namespace Machine

variable {code : Code} {hw : Hardware} {input : List Int32} {ceiling : UInt64} {m m' : Machine}

theorem fresh_coherent (code : Code) (hw : Hardware) (input : List Int32) (ceiling : UInt64) :
    (fresh code hw input ceiling).state.Coherent code hw input ceiling where
  memory := Memory.fresh_consistent hw input
  touched := Array.size_replicate
  untouched n clear := by
    simpa [fresh, State.fresh, Memory.fresh, Array.getElem?_replicate] using clear
  inside := Nat.zero_le _
  counted := rfl
  early := Nat.zero_le _
  status := ⟨rfl, rfl⟩

theorem Turn.ceiling_eq (turn : m.Turn m') : m'.ceiling = m.ceiling := by
  cases turn <;> rfl

theorem Active.before_end {span : Span} (active : m.Active span)
    (coherent : m.state.Coherent m.code hw input m.ceiling) : m.state.pc < m.code.haltIndex :=
  Nat.lt_of_le_of_ne coherent.inside active.inside

theorem Turn.coherent (turn : m.Turn m') (coherent : m.state.Coherent m.code hw input m.ceiling) :
    m'.state.Coherent m.code hw input m.ceiling := by
  cases turn with
  | rest => exact coherent
  | halt working atEnd => exact { coherent with status := atEnd }
  | timeout active =>
    exact { coherent with status := ⟨rfl, active.before_end coherent, active.here⟩ }
  | fault fetched =>
    exact { coherent with status := ⟨rfl, fetched.before_end coherent, fetched.here⟩ }
  | @execute i span effect next fetched succeeds =>
    have planned := Memory.planned_of_plan succeeds
    have inside := planned.next_le (fetched.before_end coherent)
    refine ⟨planned.consistent coherent.memory, ?_, fun n clear => ?_, inside,
      congrArg (· + 1) coherent.counted, fetched.early, ?_⟩
    · exact (State.touch_size ..).trans coherent.touched
    · -- What is written is named, so a register that has not been named has not been written.
      obtain ⟨before, unnamed⟩ := State.touch_eq_false clear
      have kept : (m.state.toMemory.apply effect).registers[n]? = m.state.registers[n]? :=
        Memory.apply_registers_of_ne fun r dest => unnamed r (planned.dest_mem dest)
      exact kept.trans (coherent.untouched n before)
    · by_cases ended : next = m.code.haltIndex
      · simp [executed, ended, Status.Suits]
      · simp only [executed, ended, if_false, Status.Suits]
        exact ⟨Nat.succ_pos _, Nat.lt_of_le_of_ne inside ended⟩

theorem Turn.continues (turn : m.Turn m') : m.state.toMemory.Continues m'.state.toMemory := by
  cases turn with
  | execute => exact .apply _ _
  | _ => exact .refl _

theorem Reaches.code_eq (reached : m.Reaches m') : m'.code = m.code := by
  induction reached with
  | start => rfl
  | step _ stepped ih => exact (step?_ok_iff.mp stepped).code_eq.trans ih
  | record _ ih => exact ih

theorem Reaches.ceiling_eq (reached : m.Reaches m') : m'.ceiling = m.ceiling := by
  induction reached with
  | start => rfl
  | step _ stepped ih => exact (step?_ok_iff.mp stepped).ceiling_eq.trans ih
  | record _ ih => exact ih

theorem Reaches.coherent (reached : m.Reaches m')
    (coherent : m.state.Coherent m.code hw input m.ceiling) :
    m'.state.Coherent m.code hw input m.ceiling := by
  induction reached with
  | start => exact coherent
  | step before stepped ih =>
    rw [← before.code_eq, ← before.ceiling_eq] at ih ⊢
    exact (step?_ok_iff.mp stepped).coherent ih
  | record _ ih => exact ih

theorem Reaches.coherent_here (reached : (fresh code hw input ceiling).Reaches m) :
    m.state.Coherent m.code hw input m.ceiling := by
  rw [reached.code_eq, reached.ceiling_eq]
  exact reached.coherent (fresh_coherent code hw input ceiling)

theorem Reaches.continues (reached : m.Reaches m') :
    m.state.toMemory.Continues m'.state.toMemory := by
  induction reached with
  | start => exact .refl _
  | step _ stepped ih => exact ih.trans (step?_ok_iff.mp stepped).continues
  | record _ ih => exact ih

/-- Whatever the code names, every state that a machine comes to is coherent, and what it has read,
written out and stacked up at most never becomes less. -/
theorem reached_state_coherent (reached : (fresh code hw input ceiling).Reaches m) :
    m.state.Coherent code hw input ceiling ∧
      ∀ m', m.Reaches m' → m.state.toMemory.Continues m'.state.toMemory :=
  ⟨reached.coherent (fresh_coherent code hw input ceiling), fun _ later => later.continues⟩

theorem stray_state_coherent :
    stray.Reaches stray.step.step ∧ stray.step.step.state.peak = 1 ∧
      stray.step.step.state.Coherent stray.code (.ofSizes 1 [1]) [] 10 ∧
      ∀ m', stray.step.step.Reaches m' →
        stray.step.step.state.toMemory.Continues m'.state.toMemory :=
  have first : stray.step? = .ok stray.step := by decide
  have second : stray.step.step? = .ok stray.step.step := by decide
  have reached : stray.Reaches stray.step.step := .step (.step .start first) second
  ⟨reached, by decide, reached_state_coherent reached⟩

end Machine
end PuzzleMachine
