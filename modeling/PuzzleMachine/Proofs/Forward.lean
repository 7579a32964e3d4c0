import PuzzleMachine.Proofs.Ceiling
import PuzzleMachine.Proofs.Record

set_option autoImplicit false

namespace PuzzleMachine
namespace Code

/-- Every jump leads behind the instruction that makes it, or out of the code. -/
def Forward (c : Code) : Prop :=
  ∀ (pc : Nat) (i : MachineInstruction), c.instructions[pc]? = some i →
    ∀ target, .target target ∈ i.operands → pc < target

theorem GoesOn.lt {c : Code} {pc next : Nat} (goes : c.GoesOn pc next) (forward : c.Forward) :
    pc < next := by
  rcases goes with rfl | ⟨i, coded, jumps⟩
  · exact Nat.lt_succ_self pc
  · exact forward pc i coded next jumps

end Code

namespace Machine

section Turn

variable {m m' : Machine}

-- What is executed takes the machine on by one index at least.
theorem Turn.climbs (turn : m.Turn m') (forward : m.code.Forward) :
    m.state.pc + m.executing?.toList.length ≤ m'.state.pc := by
  -- What does not count a cycle does not execute anything.
  have counted := turn.counts.1
  cases turn with
  | execute fetched succeeds =>
    have before := ((Memory.planned_of_plan succeeds).goesOn fetched.coded).lt forward
    simp only [executed] at counted ⊢
    omega
  | _ => exact Nat.le_of_eq (Nat.add_eq_left.mpr (Nat.left_eq_add.mp counted))

end Turn

section Reaches

variable {code : Code} {hw : Hardware} {input : List Int32} {c : UInt64} {m : Machine}

theorem Reaches.turn_step (reached : (fresh code hw input c).Reaches m) (paired : code.Paired) :
    m.Turn m.step := by
  obtain ⟨m', turn⟩ := turn_of_coherent (reached.code_eq ▸ paired) reached.coherent_here
  exact turn.step_eq ▸ turn

theorem Reaches.next (reached : (fresh code hw input c).Reaches m) (paired : code.Paired) :
    (fresh code hw input c).Reaches m.step :=
  reached.step (step?_ok_iff.mpr (reached.turn_step paired))

theorem Reaches.iterate_step (reached : (fresh code hw input c).Reaches m) (paired : code.Paired)
    (n : Nat) : (fresh code hw input c).Reaches (Machine.step^[n] m) := by
  induction n with
  | zero => exact reached
  | succ n ih =>
    rw [Function.iterate_succ_apply']
    exact ih.next paired

theorem Reaches.climbs (reached : (fresh code hw input c).Reaches m) (paired : code.Paired)
    (forward : code.Forward) : m.state.pc + m.executing?.toList.length ≤ m.step.state.pc :=
  (reached.turn_step paired).climbs (reached.code_eq ▸ forward)

theorem Reaches.cycles_le_pc (reached : (fresh code hw input c).Reaches m)
    (forward : code.Forward) : m.state.cycles ≤ m.state.pc := by
  induction reached with
  | start => exact Nat.le_refl 0
  | step before stepped ih =>
    have turn := step?_ok_iff.mp stepped
    have further := turn.climbs (before.code_eq ▸ forward)
    have counted := turn.counts.1
    omega
  | record _ ih => exact ih

theorem Reaches.pc_le_iterate (reached : (fresh code hw input c).Reaches m) (paired : code.Paired)
    (forward : code.Forward) (n : Nat) : m.state.pc ≤ (Machine.step^[n] m).state.pc := by
  induction n with
  | zero => exact Nat.le_refl _
  | succ n ih =>
    have further := (reached.iterate_step paired n).climbs paired forward
    rw [Function.iterate_succ_apply']
    omega

theorem Reaches.pc_lt_iterate (reached : (fresh code hw input c).Reaches m) (paired : code.Paired)
    (forward : code.Forward) {i : MachineInstruction} (executing : m.executing? = some i)
    (n : Nat) : m.state.pc < (Machine.step^[n + 1] m).state.pc := by
  have further := reached.climbs paired forward
  rw [executing] at further
  exact Nat.lt_of_lt_of_le further ((reached.next paired).pc_le_iterate paired forward n)

theorem Reaches.untimed (reached : (fresh code hw input c).Reaches m) (forward : code.Forward)
    (room : code.instructions.size ≤ c.toNat) : ¬ m.TimedOut := by
  intro timedOut
  have late := (reached.timely fresh_timely).timeout timedOut
  rw [reached.ceiling_eq] at late
  have far : c.toNat ≤ m.state.pc := late.trans (reached.cycles_le_pc forward)
  -- So the machine is at the end of its code, but one that has faulted is before it.
  obtain ⟨f, faulted, -⟩ := timedOut
  have suits := (reached.coherent (fresh_coherent code hw input c)).status
  rw [faulted] at suits
  exact Nat.not_le.mpr suits.2.1 (room.trans far)

end Reaches

theorem path_climbs {code : Code} {hw : Hardware} {input : List Int32} {c : UInt64} {m : Machine}
    (paired : code.Paired) (forward : code.Forward)
    (ended : (launched code hw input true c).run? = .ok m) :
    ∃ entries, m.trace = some entries ∧ (m.state.path entries.toList).Pairwise (· < ·) := by
  obtain ⟨n, runs⟩ := runs_of_run? paired ended
  obtain ⟨m', entries, steps, -, recording, accounts, -⟩ := exists_accounts paired hw input c n
  cases (runs.advanceBy_eq (Nat.le_refl n)).symm.trans steps
  have climbs := accounts.follows.imp fun _ _ goes => goes.lt forward
  exact ⟨entries, recording, List.isChain_iff_pairwise.mp climbs⟩

/-- Code that jumps forward only comes to its end, or faults, under any ceiling that allows for as
many cycles as it has instructions, and executes none of them twice. -/
theorem forward_code_finishes {instructions : Array MachineInstruction} {spans : Array Span}
    {code : Code} (built : Code.ofParts instructions spans = .ok code) (forward : code.Forward)
    (hw : Hardware) (input : List Int32) (traced : Bool) (c : UInt64)
    (room : code.instructions.size ≤ c.toNat) :
    ∃ m, (launched code hw input traced c).run? = .ok m ∧
      (m.state.status = .halted ∨ ∃ f, m.state.status = .faulted f ∧ f.kind.isTimeout = false) ∧
      m.state.cycles ≤ code.instructions.size ∧
      (∀ (j k : Nat) (i : MachineInstruction), j < k →
        (step^[j] (launched code hw input traced c)).executing? = some i →
        (step^[j] (launched code hw input traced c)).state.pc <
          (step^[k] (launched code hw input traced c)).state.pc) ∧
      (traced = true → ∃ entries, m.trace = some entries ∧
        (m.state.path entries.toList).Pairwise (· < ·)) := by
  have paired := paired_of_ofParts built
  obtain ⟨n, m, runs, ended⟩ := exists_launched_run paired hw input traced c
  have reached := reached_of_run? paired ended
  refine ⟨m, ended, ?_, ?_, fun j k i before executing => ?_, ?_⟩
  · have untimed := reached.untimed forward room
    refine (Status.isTerminal_iff.mp runs.terminal).imp_right ?_
    rintro ⟨f, faulted⟩
    exact ⟨f, faulted, Bool.eq_false_iff.mpr fun timeout => untimed ⟨f, faulted, timeout⟩⟩
  · exact (reached.cycles_le_pc forward).trans
      (reached.coherent (fresh_coherent code hw input c)).inside
  · obtain ⟨n, rfl⟩ := Nat.exists_eq_add_of_lt before
    have here := (launched_reached code hw input traced c).iterate_step paired j
    have further := here.pc_lt_iterate paired forward executing n
    rwa [← Function.iterate_add_apply, Nat.add_comm, ← Nat.add_assoc] at further
  · rintro rfl
    exact path_climbs paired forward ended

def magnitude : Code where
  instructions := #[.read 0, .branch .positive (.register (.user 0)) 4,
    .branch .zero (.register (.user 0)) 9, .arith .mul 0 (.literal (-1)),
    .write (.register (.user 0))]
  spans := #[.zero 0, .zero 0, .zero 0, .zero 0, .zero 0]

theorem magnitude_finishes :
    Code.ofParts magnitude.instructions magnitude.spans = .ok magnitude ∧ magnitude.Forward ∧
      magnitude.instructions.size ≤ (5 : UInt64).toNat ∧
      ∀ input, ∃ m, (launched magnitude (.ofSizes 1 []) input true 5).run? = .ok m ∧
        (m.state.status = .halted ∨
          ∃ f, m.state.status = .faulted f ∧ f.kind.isTimeout = false) ∧
        m.state.cycles ≤ 5 ∧
        (∀ (j k : Nat) (i : MachineInstruction), j < k →
          (step^[j] (launched magnitude (.ofSizes 1 []) input true 5)).executing? = some i →
          (step^[j] (launched magnitude (.ofSizes 1 []) input true 5)).state.pc <
            (step^[k] (launched magnitude (.ofSizes 1 []) input true 5)).state.pc) ∧
        ∃ entries, m.trace = some entries ∧ (m.state.path entries.toList).Pairwise (· < ·) := by
  have built : Code.ofParts magnitude.instructions magnitude.spans = .ok magnitude := rfl
  have forward : magnitude.Forward := by
    intro pc i coded target jumps
    rcases pc with _ | _ | _ | _ | _ | pc <;> simp [magnitude] at coded <;> subst coded <;>
      simp [Instruction.operands] at jumps <;> omega
  have room : magnitude.instructions.size ≤ (5 : UInt64).toNat := by decide
  refine ⟨built, forward, room, fun input => ?_⟩
  obtain ⟨m, ended, rest, counted, once, recorded⟩ :=
    forward_code_finishes built forward (.ofSizes 1 []) input true 5 room
  exact ⟨m, ended, rest, counted, once, recorded rfl⟩

end Machine
end PuzzleMachine
