import Mathlib.Data.Set.Card
import PuzzleMachine.Proofs.Termination

set_option autoImplicit false

namespace PuzzleMachine

def Instruction.Names (i : MachineInstruction) (r : UInt64) : Prop :=
  .dest r ∈ i.operands ∨ .value (.register (.user r)) ∈ i.operands

theorem Value.user?_eq_some {v : Value} {r : UInt64} :
    v.user? = some r ↔ v = .register (.user r) := by
  rcases v with x | _ | k | r' <;> simp [user?, Register.user?]

theorem Instruction.mem_userRegisters {i : MachineInstruction} {r : UInt64} :
    r ∈ i.userRegisters ↔ i.Names r := by
  cases i <;>
    simp [userRegisters, Names, operands, Value.user?_eq_some, eq_comm (a := r),
      eq_comm (a := Value.register _)]

theorem Instruction.setOf_names_eq (is : List MachineInstruction) :
    {r | ∃ i ∈ is, i.Names r} = ((is.flatMap userRegisters).toFinset : Set UInt64) := by
  ext r
  simp [mem_userRegisters]

namespace Memory

variable {m : Memory} {r : UInt64}

theorem inside_of_value {v : Value} {x : Int32} (source : m.value v = .ok x)
    (named : v.user? = some r) : r.toNat < m.registers.size := by
  rw [Value.user?_eq_some.mp named] at source
  exact (Array.getElem?_eq_some_iff.mp (register_ok source)).1

-- What an instruction names exists when it is executed.
theorem Planned.inside {pc haltIndex next : Nat} {i : MachineInstruction} {effect : Effect}
    (planned : m.Planned pc haltIndex i effect next) (named : r ∈ i.userRegisters) :
    r.toNat < m.registers.size := by
  have exists_of {n : UInt64} {old : Int32} (dest : m.registers[n.toNat]? = some old) :
      n.toNat < m.registers.size := (Array.getElem?_eq_some_iff.mp dest).1
  cases planned with
  | read dest => exact List.mem_singleton.mp named ▸ exists_of dest
  | pop dest => exact List.mem_singleton.mp named ▸ exists_of dest
  | write source => exact inside_of_value source (Option.mem_toList.mp named)
  | push source => exact inside_of_value source (Option.mem_toList.mp named)
  | branch source => exact inside_of_value source (Option.mem_toList.mp named)
  | set dest source =>
    rcases List.mem_cons.mp named with rfl | named
    · exact exists_of dest
    · exact inside_of_value source (Option.mem_toList.mp named)
  | arith dest source =>
    rcases List.mem_cons.mp named with rfl | named
    · exact exists_of dest
    · exact inside_of_value source (Option.mem_toList.mp named)
  | cmp dest left right =>
    rcases List.mem_cons.mp named with rfl | named
    · exact exists_of dest
    rcases List.mem_append.mp named with named | named
    · exact inside_of_value left (Option.mem_toList.mp named)
    · exact inside_of_value right (Option.mem_toList.mp named)
  | jump => simp [Instruction.userRegisters] at named

end Memory

structure Marked (touched : Array Bool) (named : Finset UInt64) : Prop where
  each : ∀ r : UInt64, touched[r.toNat]? = some true ↔ r ∈ named
  count : touched.toList.count true = named.card

namespace Marked

variable {touched : Array Bool} {named : Finset UInt64}

theorem none (size : Nat) : Marked (Array.replicate size false) ∅ where
  each r := by simp [Array.getElem?_replicate]
  count := by simp [List.count_replicate]

theorem mark (marked : Marked touched named) {r : UInt64} (inside : r.toNat < touched.size) :
    Marked (touched.setIfInBounds r.toNat true) (insert r named) where
  each r' := by
    by_cases same : r' = r
    next => simp [same, inside]
    next =>
      have apart : r.toNat ≠ r'.toNat := fun index => same (UInt64.toNat_inj.mp index).symm
      rw [Array.getElem?_setIfInBounds_ne apart, marked.each, Finset.mem_insert]
      simp [same]
  count := by
    rw [Array.toList_setIfInBounds, List.count_set (by simpa using inside), marked.count]
    by_cases before : r ∈ named
    next =>
      have set := (marked.each r).mpr before
      rw [Array.getElem?_eq_getElem inside] at set
      have positive : 0 < named.card := Finset.card_pos.mpr ⟨r, before⟩
      simp [Option.some.inj set, Finset.insert_eq_of_mem before]
      omega
    next =>
      have clear := mt (marked.each r).mp before
      rw [Array.getElem?_eq_getElem inside] at clear
      simp [Finset.card_insert_of_notMem before, show touched[r.toNat] = false by simpa using clear]

theorem touch (marked : Marked touched named) {rs : List UInt64}
    (inside : ∀ r ∈ rs, r.toNat < touched.size) :
    Marked (State.touch touched rs) (named ∪ rs.toFinset) := by
  induction rs generalizing touched named with
  | nil => simpa [State.touch] using marked
  | cons r rs ih =>
    obtain ⟨first, later⟩ := List.forall_mem_cons.mp inside
    have next := ih (marked.mark first) (by simpa using later)
    rwa [Finset.insert_union, ← Finset.union_insert, ← List.toFinset_cons] at next

end Marked

namespace Machine

variable {hw : Hardware} {input : List Int32} {m m' : Machine} {n k : Nat}

def executing? (m : Machine) : Option MachineInstruction :=
  if m.state.status.isTerminal then none
  else match m.step.state.status with
    | .faulted _ => none
    | _ => m.code.instructions[m.state.pc]?

def trail (m : Machine) : Nat → List MachineInstruction
  | 0 => []
  | n + 1 => m.executing?.toList ++ m.step.trail n

def depth (m : Machine) : Nat := (m.state.contents.toList.map Array.size).foldr max 0

def deepest (m : Machine) : Nat → Nat
  | 0 => m.depth
  | n + 1 => max m.depth (m.step.deepest n)

section Turn

theorem executing?_of_terminal (terminal : m.state.status.isTerminal = true) :
    m.executing? = none := by
  rw [executing?, if_pos terminal]

theorem Turn.executing?_of_faulted {f : Fault} (turn : m.Turn m')
    (faulted : m'.state.status = .faulted f) : m.executing? = none := by
  rw [executing?, turn.step_eq, faulted]
  split <;> rfl

theorem Turn.executing?_of_going (turn : m.Turn m') (working : m.state.status.isTerminal = false)
    (going : ∀ f, m'.state.status ≠ .faulted f) :
    m.executing? = m.code.instructions[m.state.pc]? := by
  rw [executing?, turn.step_eq, working]
  cases status : m'.state.status with
  | faulted f => exact absurd status (going f)
  | _ => rfl

theorem Turn.counts (turn : m.Turn m') :
    m'.state.cycles = m.state.cycles + m.executing?.toList.length ∧
      m'.state.touched =
        State.touch m.state.touched (m.executing?.toList.flatMap Instruction.userRegisters) := by
  have turn' := turn
  cases turn with
  | rest terminal =>
    rw [executing?_of_terminal terminal]
    exact ⟨rfl, rfl⟩
  | halt working atEnd =>
    have none : m.executing? = none := by
      rw [turn'.executing?_of_going working nofun, atEnd]
      exact Array.getElem?_size
    rw [none]
    exact ⟨rfl, rfl⟩
  | timeout | fault =>
    rw [turn'.executing?_of_faulted rfl]
    exact ⟨rfl, rfl⟩
  | execute fetched =>
    have some := turn'.executing?_of_going fetched.working fun _ => executed_not_faulted
    rw [some, fetched.coded]
    exact ⟨rfl, by simp [executed]⟩

theorem Turn.names_inside (turn : m.Turn m') {i : MachineInstruction} {r : UInt64}
    (executing : i ∈ m.executing?) (named : r ∈ i.userRegisters) :
    r.toNat < m.state.registers.size := by
  have turn' := turn
  cases turn with
  | rest terminal => simp [executing?_of_terminal terminal] at executing
  | halt working atEnd =>
    rw [turn'.executing?_of_going working nofun, atEnd] at executing
    simp [Code.haltIndex] at executing
  | timeout | fault => simp [turn'.executing?_of_faulted rfl] at executing
  | execute fetched succeeds =>
    rw [turn'.executing?_of_going fetched.working fun _ => executed_not_faulted,
      fetched.coded] at executing
    cases executing
    exact (Memory.planned_of_plan succeeds).inside named

theorem depth_le_iff {d : Nat} :
    m.depth ≤ d ↔ ∀ (k : Nat) (vs : Array Int32), m.state.contents[k]? = some vs → vs.size ≤ d := by
  constructor
  next =>
    intro bound k vs here
    have member : vs ∈ m.state.contents.toList := by
      rw [← Array.getElem?_toList] at here
      exact List.mem_of_getElem? here
    exact (List.le_max_of_le (List.mem_map_of_mem member) (Nat.le_refl _)).trans bound
  next =>
    intro each
    refine List.max_le_of_forall_le _ _ fun size member => ?_
    obtain ⟨vs, stack_mem, rfl⟩ := List.mem_map.mp member
    obtain ⟨k, here⟩ := List.mem_iff_getElem?.mp stack_mem
    exact each k vs (Array.getElem?_toList ▸ here)

theorem Turn.peak_eq (turn : m.Turn m') (coherent : m.state.Coherent m.code hw input m.ceiling) :
    m'.state.peak = max m.state.peak m'.depth := by
  have covered := (turn.coherent coherent).memory.covered
  refine Nat.le_antisymm ?_ (Nat.max_le.mpr ⟨turn.continues.peak, depth_le_iff.mpr covered⟩)
  cases turn with
  | @execute i span effect next fetched succeeds =>
    cases Memory.planned_of_plan succeeds with
    | @push v k capacity x vs source here limit room =>
      refine max_le_max_left _ ?_
      have pushed : (m.state.contents.modify k.toNat (·.push x))[k.toNat]? = some (vs.push x) := by
        simp [Array.getElem?_modify, here]
      exact Array.size_push x ▸ depth_le_iff.mp (Nat.le_refl _) k.toNat (vs.push x) pushed
    | _ => exact Nat.le_max_left _ _
  | _ => exact Nat.le_max_left _ _

end Turn

section Runs

theorem trail_of_terminal (terminal : m.state.status.isTerminal = true) (n : Nat) :
    m.trail n = [] := by
  induction n with
  | zero => rfl
  | succ n ih =>
    rw [trail, executing?_of_terminal terminal, (Turn.rest terminal).step_eq, ih]
    rfl

theorem deepest_of_terminal (terminal : m.state.status.isTerminal = true) (n : Nat) :
    m.deepest n = m.depth := by
  induction n with
  | zero => rfl
  | succ n ih => rw [deepest, (Turn.rest terminal).step_eq, ih, Nat.max_self]

theorem depth_le_deepest (m : Machine) (n : Nat) : m.depth ≤ m.deepest n := by
  cases n with
  | zero => exact Nat.le_refl _
  | succ n => exact Nat.le_max_left _ _

theorem Runs.iterate_step (runs : m.Runs k m') (enough : k ≤ n) : Machine.step^[n] m = m' := by
  induction runs generalizing n with
  | stop terminal => exact Function.iterate_fixed (Turn.rest terminal).step_eq n
  | step working stepped _ ih =>
    obtain ⟨j, rfl⟩ := Nat.exists_eq_add_of_le' enough
    rw [← Nat.add_assoc, Function.iterate_succ_apply, (step?_ok_iff.mp stepped).step_eq]
    exact ih (Nat.le_add_left _ _)

theorem Runs.counts (runs : m.Runs k m') (enough : k ≤ n) :
    m'.state.cycles = m.state.cycles + (m.trail n).length ∧
      m'.state.touched =
        State.touch m.state.touched ((m.trail n).flatMap Instruction.userRegisters) := by
  induction runs generalizing n with
  | stop terminal =>
    rw [trail_of_terminal terminal]
    exact ⟨rfl, rfl⟩
  | step working stepped _ ih =>
    obtain ⟨n, rfl⟩ := Nat.exists_eq_add_one.mpr (Nat.lt_of_lt_of_le (Nat.succ_pos _) enough)
    have turn := step?_ok_iff.mp stepped
    obtain ⟨cycles, touched⟩ := ih (Nat.le_of_succ_le_succ enough)
    rw [trail, turn.step_eq, List.length_append, List.flatMap_append]
    refine ⟨by rw [cycles, turn.counts.1, Nat.add_assoc], ?_⟩
    rw [touched, turn.counts.2]
    exact (List.foldl_append ..).symm

theorem Runs.names_inside (runs : m.Runs k m') (enough : k ≤ n)
    (coherent : m.state.Coherent m.code hw input m.ceiling) {i : MachineInstruction} {r : UInt64}
    (executed : i ∈ m.trail n) (named : r ∈ i.userRegisters) : r.toNat < hw.registers.toNat := by
  induction runs generalizing n with
  | stop terminal => simp [trail_of_terminal terminal] at executed
  | step working stepped _ ih =>
    obtain ⟨n, rfl⟩ := Nat.exists_eq_add_one.mpr (Nat.lt_of_lt_of_le (Nat.succ_pos _) enough)
    have turn := step?_ok_iff.mp stepped
    rw [trail, turn.step_eq] at executed
    rcases List.mem_append.mp executed with here | later
    · exact coherent.memory.registers ▸ turn.names_inside (Option.mem_toList.mp here) named
    · have next := turn.coherent coherent
      rw [← turn.code_eq, ← turn.ceiling_eq] at next
      exact ih (Nat.le_of_succ_le_succ enough) next later

theorem Runs.peak_eq (runs : m.Runs k m') (enough : k ≤ n)
    (coherent : m.state.Coherent m.code hw input m.ceiling) :
    m'.state.peak = max m.state.peak (m.deepest n) := by
  have covered := depth_le_iff.mpr coherent.memory.covered
  induction runs generalizing n with
  | stop terminal => rw [deepest_of_terminal terminal, Nat.max_eq_left covered]
  | @step m m₁ m' k working stepped _ ih =>
    obtain ⟨n, rfl⟩ := Nat.exists_eq_add_one.mpr (Nat.lt_of_lt_of_le (Nat.succ_pos _) enough)
    have turn := step?_ok_iff.mp stepped
    have next := turn.coherent coherent
    have peak := turn.peak_eq coherent
    rw [← turn.code_eq, ← turn.ceiling_eq] at next
    have later := ih (Nat.le_of_succ_le_succ enough) next (depth_le_iff.mpr next.memory.covered)
    rw [deepest, turn.step_eq, later, peak]
    have first := depth_le_deepest m₁ n
    omega

end Runs

section Silent

def silent (m : Machine) : Machine := { m with trace := none }

theorem Active.silent {span : Span} (active : m.Active span) : m.silent.Active span :=
  ⟨active.working, active.inside, active.here⟩

theorem Turn.silent (turn : m.Turn m') : m.silent.Turn m'.silent := by
  cases turn with
  | rest terminal => exact .rest terminal
  | halt working atEnd => exact .halt working atEnd
  | timeout active late => exact .timeout active.silent late
  | fault fetched fails =>
    exact .fault ⟨fetched.toActive.silent, fetched.early, fetched.coded⟩ fails
  | execute fetched succeeds cycles executed =>
    exact .execute ⟨fetched.toActive.silent, fetched.early, fetched.coded⟩ succeeds cycles executed

theorem Runs.silent (runs : m.Runs k m') : m.silent.Runs k m'.silent := by
  induction runs with
  | stop terminal => exact .stop terminal
  | step working stepped _ ih =>
    exact .step working (step?_ok_iff.mpr (step?_ok_iff.mp stepped).silent) ih

end Silent

end Machine
end PuzzleMachine
