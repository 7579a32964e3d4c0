import Mathlib.Order.Bounds.Basic
import PuzzleMachine.Proofs.Trail

set_option autoImplicit false

namespace PuzzleMachine

namespace Instruction

def pushesTo (k : Nat) : MachineInstruction → Bool
  | .push _ stack => stack.toNat = k
  | _ => false

def popsFrom (k : Nat) : MachineInstruction → Bool
  | .pop stack _ => stack.toNat = k
  | _ => false

def growth (k : Nat) (i : MachineInstruction) : Int :=
  (if i.pushesTo k then 1 else 0) - if i.popsFrom k then 1 else 0

def namedBy (is : List MachineInstruction) : Set UInt64 := {r | ∃ i ∈ is, i.Names r}

theorem namedBy_eq (is : List MachineInstruction) :
    namedBy is = ((is.flatMap userRegisters).toFinset : Set UInt64) := setOf_names_eq is

end Instruction

def State.path (s : State) (entries : List TraceEntry) : List Nat :=
  entries.map TraceEntry.pc ++ [s.pc]

namespace Code

section Spec

variable (c : Code)

def recorded (entries : List TraceEntry) : List MachineInstruction :=
  entries.filterMap fun entry => c.instructions[entry.pc]?

def countOf (op : Opcode) (entries : List TraceEntry) : Nat :=
  (c.recorded entries).countP fun i => i.opcode = op

def balance (entries : List TraceEntry) (k : Nat) : Int :=
  (c.recorded entries).countP (Instruction.pushesTo k) -
    (c.recorded entries).countP (Instruction.popsFrom k)

def depths (stackCount : Nat) (entries : List TraceEntry) : Set Int :=
  {d | ∃ k < stackCount, ∃ earlier, earlier <+: entries ∧ d = c.balance earlier k}

-- The instruction at `pc` can be followed by the one at `next`.
def GoesOn (pc next : Nat) : Prop :=
  next = pc + 1 ∨ ∃ i, c.instructions[pc]? = some i ∧ .target next ∈ i.operands

structure Accounts (hw : Hardware) (entries : List TraceEntry) (s : State) : Prop where
  counted : entries.length = s.cycles
  each : ∀ (n : Nat) (entry : TraceEntry), entries[n]? = some entry →
    entry.cycle = n + 1 ∧ c.spans[entry.pc]? = some entry.span ∧ entry.pc < c.haltIndex
  first : (s.path entries).head? = some 0
  follows : (s.path entries).IsChain c.GoesOn
  cursor : s.cursor = c.countOf .read entries
  output : s.output.size = c.countOf .write entries
  contents : ∀ (k : Nat) (vs : Array Int32), s.contents[k]? = some vs →
    (vs.size : Int) = c.balance entries k
  peak : IsGreatest (insert 0 (c.depths hw.capacities.length entries)) (s.peak : Int)
  touched : ∀ r : UInt64, s.touched[r.toNat]? = some true ↔
    r ∈ Instruction.namedBy (c.recorded entries)
  used : s.registersUsed = (Instruction.namedBy (c.recorded entries)).ncard

end Spec

section Entries

variable {c : Code} {entries : List TraceEntry} {entry : TraceEntry} {i : MachineInstruction}

theorem recorded_concat (coded : c.instructions[entry.pc]? = some i) :
    c.recorded (entries ++ [entry]) = c.recorded entries ++ [i] := by
  simp [recorded, coded]

theorem countOf_concat (coded : c.instructions[entry.pc]? = some i) (op : Opcode) :
    c.countOf op (entries ++ [entry]) = c.countOf op entries + if i.opcode = op then 1 else 0 := by
  simp [countOf, recorded_concat coded, List.countP_append, List.countP_singleton]

theorem balance_concat (coded : c.instructions[entry.pc]? = some i) (k : Nat) :
    c.balance (entries ++ [entry]) k = c.balance entries k + i.growth k := by
  simp only [balance, recorded_concat coded, List.countP_append, List.countP_singleton,
    Instruction.growth]
  split <;> split <;> omega

theorem depths_concat (stackCount : Nat) :
    c.depths stackCount (entries ++ [entry]) =
      c.depths stackCount entries ∪ {d | ∃ k < stackCount, d = c.balance (entries ++ [entry]) k} := by
  ext d
  simp only [depths, List.prefix_concat_iff, Set.mem_union, Set.mem_ofPred_eq]
  constructor
  next =>
    rintro ⟨k, inside, earlier, rfl | before, same⟩
    · exact .inr ⟨k, inside, same⟩
    · exact .inl ⟨k, inside, earlier, before, same⟩
  next =>
    rintro (⟨k, inside, earlier, before, same⟩ | ⟨k, inside, same⟩)
    · exact ⟨k, inside, earlier, .inr before, same⟩
    · exact ⟨k, inside, _, .inl rfl, same⟩

theorem isGreatest_depths_concat {stackCount : Nat} {peak peak' : Int}
    (before : IsGreatest (insert 0 (c.depths stackCount entries)) peak) (kept : peak ≤ peak')
    (covered : ∀ k < stackCount, c.balance (entries ++ [entry]) k ≤ peak')
    (reached : peak' = peak ∨ ∃ k < stackCount, peak' = c.balance (entries ++ [entry]) k) :
    IsGreatest (insert 0 (c.depths stackCount (entries ++ [entry]))) peak' := by
  rw [depths_concat, ← Set.insert_union]
  constructor
  next =>
    rcases reached with rfl | new
    · exact .inl before.1
    · exact .inr new
  next =>
    rintro d (old | ⟨k, inside, rfl⟩)
    · exact (before.2 old).trans kept
    · exact covered k inside

end Entries
end Code

theorem marked_iff {touched : Array Bool} {is : List MachineInstruction} :
    Marked touched (is.flatMap Instruction.userRegisters).toFinset ↔
      (∀ r : UInt64, touched[r.toNat]? = some true ↔ r ∈ Instruction.namedBy is) ∧
        touched.toList.count true = (Instruction.namedBy is).ncard := by
  rw [Instruction.namedBy_eq, Set.ncard_coe_finset]
  exact ⟨fun marked => ⟨marked.each, marked.count⟩, fun ⟨each, count⟩ => ⟨each, count⟩⟩

namespace Memory

variable {m : Memory} {pc haltIndex next : Nat} {i : MachineInstruction} {effect : Effect}

theorem Planned.goesOn {c : Code} (planned : m.Planned pc haltIndex i effect next)
    (coded : c.instructions[pc]? = some i) : c.GoesOn pc next := by
  cases planned with
  | jump => exact .inr ⟨_, coded, List.mem_singleton.mpr rfl⟩
  | branch =>
    split
    next => exact .inr ⟨_, coded, by simp [Instruction.operands]⟩
    next => exact .inl rfl
  | _ => exact .inl rfl

theorem Planned.cursor_eq (planned : m.Planned pc haltIndex i effect next) :
    (m.apply effect).cursor = m.cursor + if i.opcode = .read then 1 else 0 := by
  cases planned <;> rfl

theorem Planned.output_size (planned : m.Planned pc haltIndex i effect next) :
    (m.apply effect).output.size = m.output.size + if i.opcode = .write then 1 else 0 := by
  cases planned with
  | write => exact Array.size_push _
  | _ => rfl

theorem exists_of_getElem?_modify {α : Type} {xs : Array α} {k j : Nat} {f : α → α} {y : α}
    (there : (xs.modify k f)[j]? = some y) :
    ∃ x, xs[j]? = some x ∧ y = if k = j then f x else x := by
  rw [Array.getElem?_modify] at there
  split at there
  next same =>
    obtain ⟨x, here, rfl⟩ := Option.map_eq_some_iff.mp there
    exact ⟨x, here, (if_pos same).symm⟩
  next other => exact ⟨y, there, (if_neg other).symm⟩

theorem Planned.contents_size (planned : m.Planned pc haltIndex i effect next) {k : Nat}
    {vs' : Array Int32} (there : (m.apply effect).contents[k]? = some vs') :
    ∃ vs, m.contents[k]? = some vs ∧ (vs'.size : Int) = vs.size + i.growth k := by
  simp only [Instruction.growth]
  cases planned with
  | @push v stack capacity x =>
    obtain ⟨vs, here, rfl⟩ := exists_of_getElem?_modify there
    refine ⟨vs, here, ?_⟩
    by_cases same : stack.toNat = k <;> simp [Instruction.pushesTo, Instruction.popsFrom, same]
  | @pop stack r old x filled dest found last =>
    obtain ⟨vs, here, rfl⟩ := exists_of_getElem?_modify there
    refine ⟨vs, here, ?_⟩
    by_cases same : stack.toNat = k
    next =>
      -- The stack is not empty, as its last value has been found.
      rw [same, here] at found
      cases found
      have size : filled.size ≠ 0 := by
        intro none
        simp [Array.back?, none] at last
      simp [Instruction.pushesTo, Instruction.popsFrom, same]
      omega
    next => simp [Instruction.pushesTo, Instruction.popsFrom, same]
  | _ => exact ⟨vs', there, by simp [Instruction.pushesTo, Instruction.popsFrom]⟩

theorem Planned.peak_cases (planned : m.Planned pc haltIndex i effect next) :
    (m.apply effect).peak = m.peak ∨
      ∃ (k : Nat) (vs : Array Int32), (m.apply effect).contents[k]? = some vs ∧
        (m.apply effect).peak = vs.size := by
  cases planned with
  | @push v stack capacity x vs source here =>
    rcases Nat.le_total (vs.size + 1) m.peak with below | above
    next => exact .inl (Nat.max_eq_left below)
    next =>
      refine .inr ⟨stack.toNat, vs.push x, ?_, ?_⟩
      · simp [Memory.apply, Array.getElem?_modify, here]
      · rw [Array.size_push]
        exact Nat.max_eq_right above
  | _ => exact .inl rfl

end Memory

namespace Code.Accounts

variable {hw : Hardware} {input : List Int32} {m : Machine} {earlier : List TraceEntry}
  {entry : TraceEntry} {i : MachineInstruction} {effect : Effect} {span : Span} {next : Nat}

theorem contents_executed (accounts : m.code.Accounts hw earlier m.state)
    (planned : m.state.Planned m.state.pc m.code.haltIndex i effect next)
    (coded : m.code.instructions[entry.pc]? = some i) {k : Nat} {vs : Array Int32}
    (there : (m.state.toMemory.apply effect).contents[k]? = some vs) :
    (vs.size : Int) = m.code.balance (earlier ++ [entry]) k := by
  obtain ⟨vs', here, size⟩ := planned.contents_size there
  rw [size, accounts.contents k vs' here, Code.balance_concat coded]

theorem peak_executed (accounts : m.code.Accounts hw earlier m.state)
    (planned : m.state.Planned m.state.pc m.code.haltIndex i effect next)
    (coded : m.code.instructions[entry.pc]? = some i) (turn : m.Turn (m.executed i span effect next))
    (coherent : m.state.Coherent m.code hw input m.ceiling) :
    IsGreatest (insert 0 (m.code.depths hw.capacities.length (earlier ++ [entry])))
      ((m.executed i span effect next).state.peak : Int) := by
  have after := (turn.coherent coherent).memory
  refine Code.isGreatest_depths_concat accounts.peak ?_ (fun k inside => ?_) ?_
  · exact Int.ofNat_le.mpr turn.continues.peak
  · rw [← after.contents] at inside
    have here := Array.getElem?_eq_getElem inside
    rw [← accounts.contents_executed planned coded here]
    exact Int.ofNat_le.mpr (after.covered k _ here)
  · rcases planned.peak_cases with same | ⟨k, vs, here, same⟩
    · exact .inl (congrArg Nat.cast same)
    · have inside := (Array.getElem?_eq_some_iff.mp here).1
      have depth := accounts.contents_executed planned coded here
      exact .inr ⟨k, after.contents ▸ inside, (congrArg Nat.cast same).trans depth⟩

theorem marked_executed (accounts : m.code.Accounts hw earlier m.state)
    (planned : m.state.Planned m.state.pc m.code.haltIndex i effect next)
    (coded : m.code.instructions[entry.pc]? = some i)
    (coherent : m.state.Coherent m.code hw input m.ceiling) :
    Marked (m.executed i span effect next).state.touched
      ((m.code.recorded (earlier ++ [entry])).flatMap Instruction.userRegisters).toFinset := by
  have before := marked_iff.mpr ⟨accounts.touched, accounts.used⟩
  rw [Code.recorded_concat coded, List.flatMap_append, List.toFinset_append, List.flatMap_singleton]
  refine before.touch fun r named => ?_
  rw [coherent.touched, ← coherent.memory.registers]
  exact planned.inside named

end Code.Accounts

namespace Machine

variable {hw : Hardware} {input : List Int32} {m m' : Machine} {entries : Array TraceEntry}

theorem fresh_accounts (code : Code) (hw : Hardware) (input : List Int32) (ceiling : UInt64) :
    code.Accounts hw [] (fresh code hw input ceiling).state := by
  have none : Instruction.namedBy (code.recorded []) = ∅ := by simp [Instruction.namedBy, Code.recorded]
  refine ⟨rfl, nofun, rfl, .singleton _, rfl, rfl, fun k vs here => ?_, ⟨.inl rfl, ?_⟩, ?_, ?_⟩
  · obtain ⟨_, rfl⟩ := by
      simpa [fresh, State.fresh, Memory.fresh, Array.getElem?_replicate] using here
    rfl
  · rintro d (rfl | ⟨k, inside, earlier, before, rfl⟩)
    · exact Int.le_refl 0
    · rw [List.prefix_nil.mp before]
      exact Int.le_refl 0
  · intro r
    simp [none, fresh, State.fresh, Array.getElem?_replicate]
  · rw [none, Set.ncard_empty]
    simp [State.registersUsed, fresh, State.fresh, List.count_replicate]

variable {earlier : List TraceEntry} {entry : TraceEntry} {i : MachineInstruction} {span : Span}
  {effect : Effect} {next : Nat}

theorem Fetched.accounts (fetched : m.Fetched i span)
    (planned : m.state.Planned m.state.pc m.code.haltIndex i effect next)
    (turn : m.Turn (m.executed i span effect next))
    (coherent : m.state.Coherent m.code hw input m.ceiling)
    (accounts : m.code.Accounts hw earlier m.state)
    (made : entry = ⟨m.state.cycles + 1, m.state.pc, span⟩) :
    m.code.Accounts hw (earlier ++ [entry]) (m.executed i span effect next).state := by
  have coded : m.code.instructions[entry.pc]? = some i := made ▸ fetched.coded
  have path : (m.executed i span effect next).state.path (earlier ++ [entry]) =
      m.state.path earlier ++ [next] := by
    rw [State.path, List.map_append, State.path, made]
    rfl
  have marked : Marked (m.executed i span effect next).state.touched _ :=
    accounts.marked_executed planned coded coherent
  exact {
    counted := by
      rw [List.length_append, accounts.counted]
      rfl
    each := by
      intro n e here
      rw [List.getElem?_append] at here
      split at here
      next => exact accounts.each n e here
      next behind =>
        rw [List.getElem?_singleton, made] at here
        split at here <;> cases here
        have counted := accounts.counted
        exact ⟨by simp only; omega, fetched.here, fetched.before_end coherent⟩
    first := by
      rw [path, List.head?_append, accounts.first]
      rfl
    follows := by
      rw [path]
      refine List.isChain_append.mpr ⟨accounts.follows, .singleton _, ?_⟩
      intro pc last pc' first
      rw [State.path, List.getLast?_concat] at last
      cases last
      cases first
      exact planned.goesOn fetched.coded
    cursor := by
      rw [Code.countOf_concat coded, ← accounts.cursor]
      exact planned.cursor_eq
    output := by
      rw [Code.countOf_concat coded, ← accounts.output]
      exact planned.output_size
    contents := fun _ _ => accounts.contents_executed planned coded
    peak := accounts.peak_executed planned coded turn coherent
    touched := (marked_iff.mp marked).1
    used := (marked_iff.mp marked).2 }

theorem Turn.accounts (turn : m.Turn m') (coherent : m.state.Coherent m.code hw input m.ceiling)
    (recording : m.trace = some entries) (accounts : m.code.Accounts hw entries.toList m.state) :
    ∃ entries', m'.trace = some entries' ∧ m'.code.Accounts hw entries'.toList m'.state := by
  have turn' := turn
  cases turn with
  | rest => exact ⟨entries, recording, accounts⟩
  | halt | timeout | fault => exact ⟨entries, recording, { accounts with }⟩
  | @execute i span effect next fetched succeeds =>
    have planned := Memory.planned_of_plan succeeds
    refine ⟨entries.push ⟨m.state.cycles + 1, m.state.pc, span⟩, by simp [executed, recording], ?_⟩
    rw [Array.toList_push]
    exact fetched.accounts planned turn' coherent accounts rfl

theorem exists_accounts {code : Code} (paired : code.Paired) (hw : Hardware) (input : List Int32)
    (ceiling : UInt64) (n : Nat) :
    ∃ m entries, (fresh code hw input ceiling).withTrace.advanceBy n = .ok m ∧
      (fresh code hw input ceiling).Reaches m ∧ m.trace = some entries ∧
      code.Accounts hw entries.toList m.state ∧
      (fresh code hw input ceiling).advanceBy n = .ok m.silent := by
  induction n with
  | zero =>
    exact ⟨_, #[], rfl, .record .start, rfl, fresh_accounts code hw input ceiling, rfl⟩
  | succ n ih =>
    obtain ⟨m, entries, steps, reached, recording, accounts, alone⟩ := ih
    have same : m.code = code := reached.code_eq
    have coherent := reached.coherent_here
    obtain ⟨m', turn⟩ := turn_of_coherent (same ▸ paired) coherent
    obtain ⟨entries', recording', accounts'⟩ :=
      turn.accounts coherent recording (same ▸ accounts)
    rw [turn.code_eq, same] at accounts'
    exact ⟨m', entries', advanceBy_of_turn steps turn, .step reached (step?_ok_iff.mpr turn),
      recording', accounts', advanceBy_of_turn alone turn.silent⟩

/-- After any number of steps, which is the end of the run if there are more of them than the
ceiling has cycles, the record that has been kept from the start accounts for the state, and the
machine without a record is in the same state. -/
theorem record_accounts_for_state {instructions : Array MachineInstruction} {spans : Array Span}
    {code : Code} (built : Code.ofParts instructions spans = .ok code) (hw : Hardware)
    (input : List Int32) (ceiling : UInt64) (n : Nat) :
    ∃ m entries, (fresh code hw input ceiling).withTrace.advanceBy n = .ok m ∧
      (ceiling.toNat < n → (fresh code hw input ceiling).withTrace.run? = .ok m) ∧
      m.trace = some entries ∧ code.Accounts hw entries.toList m.state ∧
      (fresh code hw input ceiling).advanceBy n = .ok m.silent := by
  have paired := paired_of_ofParts built
  obtain ⟨m, entries, steps, -, recording, accounts, alone⟩ :=
    exists_accounts paired hw input ceiling n
  refine ⟨m, entries, steps, fun enough => ?_, recording, accounts, alone⟩
  have started : (fresh code hw input ceiling).Reaches (fresh code hw input ceiling).withTrace :=
    .record .start
  obtain ⟨k, last, bound, runs, ended⟩ := exists_run paired started.coherent_here
  have within : k ≤ n := bound.trans ((Nat.sub_le _ _).trans enough)
  cases (runs.advanceBy_eq within).symm.trans steps
  exact ended

def countdown : Code where
  instructions := #[.read 0, .push (.register (.user 0)) 0, .arith .sub 0 (.literal 1),
    .branch .positive (.register (.user 0)) 1, .pop 0 1, .write (.register (.user 1))]
  spans := #[⟨0, 0, 8, 1, 1⟩, ⟨0, 9, 20, 2, 1⟩, ⟨0, 21, 30, 3, 1⟩, ⟨0, 31, 40, 4, 1⟩,
    ⟨0, 41, 51, 5, 1⟩, ⟨0, 52, 61, 6, 1⟩]

theorem countdown_record_accounts :
    Code.ofParts countdown.instructions countdown.spans = .ok countdown ∧
      ∃ m entries,
        (fresh countdown (.ofSizes 2 [3]) [2] 100).withTrace.advanceBy 12 = .ok m ∧
          m.trace = some entries ∧ countdown.Accounts (.ofSizes 2 [3]) entries.toList m.state ∧
          entries.toList.map TraceEntry.pc = [0, 1, 2, 3, 1, 2, 3, 4, 5] := by
  have built : Code.ofParts countdown.instructions countdown.spans = .ok countdown := rfl
  obtain ⟨m, entries, steps, -, recording, accounts, -⟩ :=
    record_accounts_for_state built (.ofSizes 2 [3]) [2] 100 12
  refine ⟨built, m, entries, steps, recording, accounts, ?_⟩
  have path : ((fresh countdown (.ofSizes 2 [3]) [2] 100).withTrace.steps 12).trace.map
      (fun entries => entries.toList.map TraceEntry.pc) = some [0, 1, 2, 3, 1, 2, 3, 4, 5] := by
    decide
  rw [Machine.steps, steps, Stepped.machine, recording] at path
  exact Option.some.inj path

end Machine

end PuzzleMachine
