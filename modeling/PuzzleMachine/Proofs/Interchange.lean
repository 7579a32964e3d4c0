import Mathlib.GroupTheory.Perm.Basic
import Mathlib.Logic.Equiv.Basic
import PuzzleMachine.Proofs.Naming

set_option autoImplicit false

namespace PuzzleMachine

open Equiv

namespace Hardware

abbrev RegisterIndex (hw : Hardware) : Type := { r : UInt64 // r.toNat < hw.registers.toNat }

abbrev StackIndex (hw : Hardware) : Type := { k : UInt64 // k.toNat < hw.capacities.length }

variable {hw : Hardware}

def permuteStacks (hw : Hardware) (q : Perm hw.StackIndex) : Hardware :=
  { hw with
    capacities := hw.capacities.mapIdx fun j c =>
      ((index64? j).bind fun k => hw.capacities[((Perm.ofSubtype q).symm k).toNat]?).getD c }

theorem length_permuteStacks (q : Perm hw.StackIndex) :
    (hw.permuteStacks q).capacities.length = hw.capacities.length :=
  List.length_mapIdx

theorem ofSubtype_inside {size : Nat} (p : Perm { i : UInt64 // i.toNat < size }) (i : UInt64) :
    (Perm.ofSubtype p i).toNat < size ↔ i.toNat < size := by
  by_cases inside : i.toNat < size
  next =>
    rw [Perm.ofSubtype_apply_of_mem p inside]
    exact ⟨fun _ => inside, fun _ => (p ⟨i, inside⟩).property⟩
  next => rw [Perm.ofSubtype_apply_of_not_mem p inside]

theorem permuteStacks_capacity (q : Perm hw.StackIndex) (k : UInt64) :
    (hw.permuteStacks q).capacities[(Perm.ofSubtype q k).toNat]? = hw.capacities[k.toNat]? := by
  have word : index64? (Perm.ofSubtype q k).toNat = some (Perm.ofSubtype q k) := by
    rw [index64?, if_pos (UInt64.toNat_lt_size _), UInt64.ofNat_toNat]
  by_cases inside : k.toNat < hw.capacities.length
  next =>
    have inside' := (ofSubtype_inside q k).mpr inside
    rw [permuteStacks, List.getElem?_mapIdx, List.getElem?_eq_getElem inside', Option.map_some,
      word, Option.bind_some, symm_apply_apply, List.getElem?_eq_getElem inside, Option.getD_some]
  next =>
    have outside := Nat.le_of_not_lt inside
    rw [Perm.ofSubtype_apply_of_not_mem q inside, List.getElem?_eq_none outside,
      List.getElem?_eq_none (by rwa [length_permuteStacks])]

end Hardware

-- Names for registers and stacks from permutations of those that there are.
def Naming.ofPerms {hw : Hardware} (p : Perm hw.RegisterIndex) (q : Perm hw.StackIndex) : Naming :=
  ⟨(Perm.ofSubtype p).toEmbedding, (Perm.ofSubtype q).toEmbedding⟩

theorem Hardware.holds_permuteStacks {hw : Hardware} (p : Perm hw.RegisterIndex)
    (q : Perm hw.StackIndex) : hw.Holds (.ofPerms p q) False (hw.permuteStacks q) where
  registers r inside := (ofSubtype_inside p r).mpr inside
  registered := .inr fun r inside => (ofSubtype_inside p r).mp inside
  limited k c limit := ⟨c, (permuteStacks_capacity q k).trans limit, UInt64.le_refl c, .inr rfl⟩
  unlimited := .inr fun k none => (permuteStacks_capacity q k).trans none

theorem Held.eq_of_full {α : Type} {name : UInt64 ↪ UInt64} {blank : α} {xs ys : Array α}
    (held : Held name False blank xs ys) (i : UInt64) : ys[(name i).toNat]? = xs[i.toNat]? := by
  rcases held.cases i with ⟨v, here, there⟩ | ⟨here, more | there⟩
  · rw [here, there]
  · exact more.elim
  · rw [here, there]

namespace Machine

variable {hw : Hardware} {input : List Int32} {m m' m₁ : Machine} {n : Nat}

theorem exists_advanceBy (paired : m.code.Paired)
    (coherent : m.state.Coherent m.code hw input m.ceiling) (n : Nat) :
    ∃ m', m.advanceBy n = .ok m' := by
  induction n generalizing m with
  | zero => exact ⟨m, rfl⟩
  | succ n ih =>
    obtain ⟨m₁, turn⟩ := turn_of_coherent paired coherent
    have next := turn.coherent coherent
    rw [← turn.code_eq, ← turn.ceiling_eq] at next
    obtain ⟨m', steps⟩ := ih (turn.code_eq ▸ paired) next
    exact ⟨m', by rw [advanceBy_succ, turn.advance_eq, ok_bind, steps]⟩

theorem Holds.advanceBy {names : Naming} (held : m.Holds names False m')
    (steps : m.advanceBy n = .ok m₁) :
    ∃ m₁', m'.advanceBy n = .ok m₁' ∧ m₁.Holds names False m₁' := by
  induction n generalizing m m' with
  | zero =>
    cases steps
    exact ⟨m', rfl, held⟩
  | succ n ih =>
    rw [advanceBy_succ] at steps
    obtain ⟨m₂, advanced, later⟩ := bind_ok_iff.mp steps
    obtain ⟨m₂', turn, held⟩ := (turn_of_advance advanced).held held False.elim
    obtain ⟨m₁', steps', last⟩ := ih held later
    exact ⟨m₁', by rw [advanceBy_succ, turn.advance_eq, ok_bind, steps'], last⟩

/-- The machines have come to the same, register `r` of the one being register `p r` of the other
and stack `k` being stack `q k`. -/
structure AlikeUnder (p : Perm hw.RegisterIndex) (q : Perm hw.StackIndex) (m m' : Machine) :
    Prop where
  pc : m'.state.pc = m.state.pc
  output : m'.state.output = m.state.output
  cycles : m'.state.cycles = m.state.cycles
  executed : m'.state.executed = m.state.executed
  registersUsed : m'.state.registersUsed = m.state.registersUsed
  peak : m'.state.peak = m.state.peak
  status : m'.state.status = (Naming.ofPerms p q).mapStatus m.state.status
  trace : m'.trace = m.trace
  registers : ∀ r : hw.RegisterIndex,
    m'.state.registers[(p r).val.toNat]? = m.state.registers[r.val.toNat]?
  contents : ∀ k : hw.StackIndex,
    m'.state.contents[(q k).val.toNat]? = m.state.contents[k.val.toNat]?

theorem Holds.alikeUnder {p : Perm hw.RegisterIndex} {q : Perm hw.StackIndex}
    (held : m.Holds (.ofPerms p q) False m') : m.AlikeUnder p q m' where
  pc := held.state.pc
  output := held.state.output
  cycles := held.state.cycles
  executed := held.state.executed
  registersUsed := held.state.registersUsed
  peak := held.state.peak
  status := held.state.status
  trace := held.trace
  registers r := Perm.ofSubtype_apply_coe p r ▸ held.state.registers.eq_of_full r
  contents k := Perm.ofSubtype_apply_coe q k ▸ held.state.contents.eq_of_full k

/-- Code that names other registers and other stacks of the same capacities does the same on them,
step by step and for as many steps. Names that nothing bears stay as they are. -/
theorem registers_and_stacks_interchangeable {instructions : Array MachineInstruction}
    {spans : Array Span} {code : Code} (built : Code.ofParts instructions spans = .ok code)
    (hw : Hardware) (p : Perm hw.RegisterIndex) (q : Perm hw.StackIndex) (input : List Int32)
    (traced : Bool) (c : UInt64) :
    ∃ code', Code.ofParts (instructions.map (Naming.ofPerms p q).mapInstruction) spans = .ok code' ∧
      (∀ n, ∃ m m', (launched code hw input traced c).advanceBy n = .ok m ∧
        (launched code' (hw.permuteStacks q) input traced c).advanceBy n = .ok m' ∧
        m.AlikeUnder p q m') ∧
      ∃ n m m', (launched code hw input traced c).Runs n m ∧
        (launched code' (hw.permuteStacks q) input traced c).Runs n m' ∧ m.AlikeUnder p q m' := by
  have paired := paired_of_ofParts built
  have held := (hw.holds_permuteStacks p q).launched code input traced c
  have reached := launched_reached code hw input traced c
  refine ⟨(Naming.ofPerms p q).mapCode code, ?_, fun n => ?_, ?_⟩
  · rw [Code.ofParts] at built ⊢
    split at built
    next sizes =>
      cases built
      rw [if_pos (by rwa [Array.size_map]), Naming.mapCode]
    next => cases built
  · obtain ⟨m, steps⟩ := exists_advanceBy (reached.code_eq ▸ paired) reached.coherent_here n
    obtain ⟨m', steps', last⟩ := held.advanceBy steps
    exact ⟨m, m', steps, steps', last.alikeUnder⟩
  · obtain ⟨n, m, runs, -⟩ := exists_launched_run paired hw input traced c
    obtain ⟨m', runs', last⟩ := runs.held held False.elim
    exact ⟨n, m, m', runs, runs', last.alikeUnder⟩

def heap : Code :=
  ⟨#[.push (.literal 5) 0, .set 1 (.register (.stackLength 0)), .push (.register (.user 1)) 0],
    #[.zero 0, .zero 0, .zero 0]⟩

def twoOfEach : Hardware := .ofSizes 2 [1, 3]

def otherRegister : Perm twoOfEach.RegisterIndex := swap ⟨0, by decide⟩ ⟨1, by decide⟩

def otherStack : Perm twoOfEach.StackIndex := swap ⟨0, by decide⟩ ⟨1, by decide⟩

theorem heap_alike_on_others :
    Code.ofParts heap.instructions heap.spans = .ok heap ∧
      (twoOfEach.permuteStacks otherStack).capacities = [3, 1] ∧
      heap.instructions.toList.map (Naming.ofPerms otherRegister otherStack).mapInstruction =
        [.push (.literal 5) 1, .set 0 (.register (.stackLength 1)),
          .push (.register (.user 0)) 1] ∧
      ∃ code',
        Code.ofParts (heap.instructions.map (Naming.ofPerms otherRegister otherStack).mapInstruction)
          heap.spans = .ok code' ∧
        (∀ n, ∃ m m', (launched heap twoOfEach [] true 9).advanceBy n = .ok m ∧
          (launched code' (twoOfEach.permuteStacks otherStack) [] true 9).advanceBy n = .ok m' ∧
          m.AlikeUnder otherRegister otherStack m') ∧
        ∃ n m m', (launched heap twoOfEach [] true 9).Runs n m ∧
          (launched code' (twoOfEach.permuteStacks otherStack) [] true 9).Runs n m' ∧
          m.AlikeUnder otherRegister otherStack m' :=
  have built : Code.ofParts heap.instructions heap.spans = .ok heap := rfl
  ⟨built, by decide, by decide,
    registers_and_stacks_interchangeable built twoOfEach otherRegister otherStack [] true 9⟩

end Machine
end PuzzleMachine
