import Mathlib.Logic.Function.Iterate
import PuzzleMachine.Proofs.Coherence

set_option autoImplicit false

namespace PuzzleMachine

theorem Status.isTerminal_iff {s : Status} :
    s.isTerminal = true ↔ s = .halted ∨ ∃ f, s = .faulted f := by
  cases s <;> simp [isTerminal]

namespace Machine

/-- Stepping a machine for as long as it has not stopped takes so many steps and leads there. -/
inductive Runs : Machine → Nat → Machine → Prop where
  | stop {m : Machine} (terminal : m.state.status.isTerminal = true) : Runs m 0 m
  | step {m m₁ m₂ : Machine} {n : Nat} (working : m.state.status.isTerminal = false)
      (stepped : m.step? = .ok m₁) (later : Runs m₁ n m₂) : Runs m (n + 1) m₂

section Runs

variable {m m₁ m₂ : Machine} {n k : Nat}

theorem Runs.terminal (runs : m.Runs n m₁) : m₁.state.status.isTerminal = true := by
  induction runs with
  | stop terminal => exact terminal
  | step _ _ _ ih => exact ih

theorem Runs.faulted {f : Fault} (runs : m.Runs n m₁) (faulted : m.state.status = .faulted f) :
    m₁.state.status = .faulted f := by
  cases runs with
  | stop => exact faulted
  | step working =>
    rw [faulted] at working
    cases working

theorem Turn.step_eq (turn : m.Turn m₁) : m.step = m₁ := by
  rw [step, turn.advance_eq, Stepped.machine]

theorem Runs.advanceBy_eq (runs : m.Runs n m₁) (enough : n ≤ k) : m.advanceBy k = .ok m₁ := by
  induction runs generalizing k with
  | stop terminal => exact advanceBy_of_terminal terminal k
  | step working stepped _ ih =>
    obtain ⟨j, rfl⟩ := Nat.exists_eq_add_of_le' enough
    rw [← Nat.add_assoc, advanceBy_succ, (step?_ok_iff.mp stepped).advance_eq]
    exact ih (Nat.le_add_left _ _)

theorem Runs.unique (first : m.Runs n m₁) (second : m.Runs k m₂) : m₁ = m₂ := by
  have here := first.advanceBy_eq (Nat.le_max_left n k)
  rw [second.advanceBy_eq (Nat.le_max_right n k)] at here
  cases here
  rfl

end Runs

section Ending

variable {hw : Hardware} {input : List Int32} {m m' : Machine}

theorem Turn.ends_or_counts (turn : m.Turn m') :
    m'.state.status.isTerminal = true ∨ m'.state.cycles = m.state.cycles + 1 := by
  cases turn with
  | rest terminal => exact .inl terminal
  | execute => exact .inr rfl
  | _ => exact .inl rfl

/-- The machine is at an instruction that has no span. -/
structure Unspanned (m : Machine) : Prop where
  working : m.state.status.isTerminal = false
  inside : m.state.pc < m.code.haltIndex
  missing : m.code.spans.size ≤ m.state.pc

theorem Unspanned.not_paired (unspanned : m.Unspanned) : ¬ m.code.Paired := by
  intro paired
  have missing := unspanned.missing
  rw [← paired] at missing
  exact Nat.not_le.mpr unspanned.inside missing

theorem turn_or_unspanned (coherent : m.state.Coherent m.code hw input m.ceiling) :
    (∃ m', m.Turn m') ∨ m.Unspanned := by
  by_cases terminal : m.state.status.isTerminal = true
  · exact .inl ⟨m, .rest terminal⟩
  by_cases spans : m.state.pc < m.code.haltIndex → m.state.pc < m.code.spans.size
  · exact .inl (exists_turn_of_spanned spans coherent.inside coherent.counted.symm
      coherent.memory.cursor)
  · obtain ⟨inside, missing⟩ := Classical.not_imp.mp spans
    exact .inr ⟨Bool.eq_false_iff.mpr terminal, inside, Nat.le_of_not_lt missing⟩

theorem turn_of_coherent (paired : m.code.Paired)
    (coherent : m.state.Coherent m.code hw input m.ceiling) : ∃ m', m.Turn m' :=
  (turn_or_unspanned coherent).resolve_right fun unspanned => unspanned.not_paired paired

theorem runs_or_unspanned (coherent : m.state.Coherent m.code hw input m.ceiling) {left : Nat}
    (enough : m.ceiling.toNat + 1 ≤ m.state.cycles + left) :
    (∃ n m', n ≤ left ∧ m.Runs n m') ∨
      ∃ n m', n < left ∧ m'.code = m.code ∧ m.advanceBy n = .ok m' ∧ m'.Unspanned := by
  -- By induction on the cycles that are left, one of which each step that is not the last takes.
  induction left generalizing m with
  | zero =>
    have := coherent.early
    omega
  | succ left ih =>
    by_cases terminal : m.state.status.isTerminal = true
    · exact .inl ⟨0, m, Nat.zero_le _, .stop terminal⟩
    have working := Bool.eq_false_iff.mpr terminal
    rcases turn_or_unspanned coherent with ⟨m₁, turn⟩ | unspanned
    next =>
      have stepped := step?_ok_iff.mpr turn
      rcases turn.ends_or_counts with ended | counted
      · exact .inl ⟨1, m₁, by omega, .step working stepped (.stop ended)⟩
      have next := turn.coherent coherent
      rw [← turn.code_eq, ← turn.ceiling_eq] at next
      rw [← turn.ceiling_eq] at enough
      rcases ih next (by omega) with ⟨n, m', bound, later⟩ | ⟨n, m', bound, same, later, unspanned⟩
      · exact .inl ⟨n + 1, m', by omega, .step working stepped later⟩
      · refine .inr ⟨n + 1, m', by omega, same.trans turn.code_eq, ?_, unspanned⟩
        rw [advanceBy_succ, turn.advance_eq, ok_bind, later]
    next => exact .inr ⟨0, m, Nat.succ_pos _, rfl, rfl, unspanned⟩

theorem exists_runs (paired : m.code.Paired)
    (coherent : m.state.Coherent m.code hw input m.ceiling) {left : Nat}
    (enough : m.ceiling.toNat + 1 ≤ m.state.cycles + left) :
    ∃ n m', n ≤ left ∧ m.Runs n m' := by
  refine (runs_or_unspanned coherent enough).resolve_right ?_
  rintro ⟨n, m', -, same, -, unspanned⟩
  exact unspanned.not_paired (same ▸ paired)

theorem exists_run (paired : m.code.Paired)
    (coherent : m.state.Coherent m.code hw input m.ceiling) :
    ∃ n m', n ≤ m.ceiling.toNat + 1 - m.state.cycles ∧ m.Runs n m' ∧ m.run? = .ok m' := by
  have enough : m.ceiling.toNat + 1 ≤
      m.state.cycles + (m.ceiling.toNat + 1 - m.state.cycles) := by omega
  obtain ⟨n, m', bound, runs⟩ := exists_runs paired coherent enough
  refine ⟨n, m', bound, runs, ?_⟩
  rw [run?, complete, runs.advanceBy_eq bound, Stepped.checked]

theorem Turn.run?_eq (turn : m.Turn m') (paired : m.code.Paired)
    (coherent : m.state.Coherent m.code hw input m.ceiling) : m'.run? = m.run? := by
  by_cases terminal : m.state.status.isTerminal = true
  · cases Except.ok.inj ((advance_of_terminal terminal).symm.trans turn.advance_eq)
    rfl
  have working := Bool.eq_false_iff.mpr terminal
  have next := turn.coherent coherent
  rw [← turn.code_eq, ← turn.ceiling_eq] at next
  obtain ⟨n, m₁, -, later, ended⟩ := exists_run (turn.code_eq ▸ paired) next
  obtain ⟨k, m₂, -, runs, ended'⟩ := exists_run paired coherent
  -- The run that is left is the rest of the whole run.
  rw [ended, ended', runs.unique (.step working (step?_ok_iff.mpr turn) later)]

theorem run?_iterate_step (paired : m.code.Paired)
    (coherent : m.state.Coherent m.code hw input m.ceiling) (k : Nat) :
    (step^[k] m).run? = m.run? := by
  induction k generalizing m with
  | zero => rfl
  | succ k ih =>
    obtain ⟨m₁, turn⟩ := turn_of_coherent paired coherent
    have next := turn.coherent coherent
    rw [← turn.code_eq, ← turn.ceiling_eq] at next
    rw [Function.iterate_succ_apply, turn.step_eq, ih (turn.code_eq ▸ paired) next,
      turn.run?_eq paired coherent]

end Ending

theorem paired_of_ofParts {instructions : Array MachineInstruction} {spans : Array Span}
    {code : Code} (built : Code.ofParts instructions spans = .ok code) : code.Paired := by
  rw [Code.ofParts] at built
  split at built
  next same =>
    cases built
    exact same
  next => cases built

/-- Wherever a machine has come to, it can take a step, the next index is within the code or at its
end, and running it stops after no more steps than the ceiling allows and one, with the same result
if some of the steps are taken before. -/
theorem running_always_ends {instructions : Array MachineInstruction} {spans : Array Span}
    {code : Code} {hw : Hardware} {input : List Int32} {ceiling : UInt64} {m : Machine}
    (built : Code.ofParts instructions spans = .ok code)
    (reached : (fresh code hw input ceiling).Reaches m) :
    (∃ m', m.step? = .ok m') ∧
      (m.state.pc ≠ code.haltIndex → m.state.pc + 1 ≤ code.haltIndex) ∧
      (∃ n m', n ≤ ceiling.toNat + 1 ∧ m.Runs n m' ∧ m.run? = .ok m' ∧
        (m'.state.status = .halted ∨ ∃ f, m'.state.status = .faulted f)) ∧
      ∀ k, (step^[k] m).run? = m.run? := by
  have paired : m.code.Paired := reached.code_eq ▸ paired_of_ofParts built
  have coherent := reached.coherent_here
  obtain ⟨m', turn⟩ := turn_of_coherent paired coherent
  obtain ⟨n, last, bound, runs, ended⟩ := exists_run paired coherent
  refine ⟨⟨m', step?_ok_iff.mpr turn⟩, fun inside => ?_, ⟨n, last, ?_, runs, ended, ?_⟩,
    run?_iterate_step paired coherent⟩
  · rw [show code = m.code from reached.code_eq.symm] at inside ⊢
    exact Nat.lt_of_le_of_ne coherent.inside inside
  · rw [reached.ceiling_eq] at bound
    exact Nat.le_trans bound (Nat.sub_le _ _)
  · exact Status.isTerminal_iff.mp runs.terminal

def spin : Machine := fresh ⟨#[.jump 0], #[⟨0, 3, 8, 1, 4⟩]⟩ .default [] 0xffffffffffffffff

theorem spin_ends :
    Code.ofParts #[.jump 0] #[⟨0, 3, 8, 1, 4⟩] = .ok spin.code ∧
      (∃ m', spin.step? = .ok m') ∧
      (spin.state.pc ≠ spin.code.haltIndex → spin.state.pc + 1 ≤ spin.code.haltIndex) ∧
      (∃ n m', n ≤ spin.ceiling.toNat + 1 ∧ spin.Runs n m' ∧ spin.run? = .ok m' ∧
        (m'.state.status = .halted ∨ ∃ f, m'.state.status = .faulted f)) ∧
      ∀ k, (step^[k] spin).run? = spin.run? :=
  have built : Code.ofParts #[.jump 0] #[⟨0, 3, 8, 1, 4⟩] = .ok spin.code := rfl
  ⟨built, running_always_ends built .start⟩

end Machine
end PuzzleMachine
