import PuzzleMachine.Opcode

set_option autoImplicit false

namespace PuzzleMachine

structure Hardware where
  registers : UInt64
  capacities : List UInt64
  permits : Opcode → Bool

inductive LimitError where
  | registerCount (found : UInt64)
  | stackCount (found : Nat)
  | stackCapacity (stack : Nat) (found : UInt64)
  | noOpcodes
  | noTestCases
deriving DecidableEq, Repr

namespace Hardware

def maxRegisters : Nat := 16
def maxStacks : Nat := 16
def maxCapacity : Nat := 256

instance : DecidableEq Hardware := fun a b =>
  decidable_of_iff
    (a.registers = b.registers ∧ a.capacities = b.capacities ∧
      ∀ op ∈ Opcode.all, a.permits op = b.permits op) <| by
    constructor
    · intro ⟨hr, hc, hp⟩
      cases a; cases b
      simp only [mk.injEq]
      exact ⟨hr, hc, funext fun op => hp op (Opcode.mem_all op)⟩
    · rintro rfl
      exact ⟨rfl, rfl, fun _ _ => rfl⟩

def ofSizes (registers : UInt64) (capacities : List UInt64) : Hardware :=
  ⟨registers, capacities, fun _ => true⟩

def default : Hardware := ofSizes 1 []

def permitted (hw : Hardware) : List Opcode := Opcode.all.filter hw.permits

def oversized? (hw : Hardware) : Option (UInt64 × Nat) :=
  hw.capacities.zipIdx.find? fun (capacity, _) => maxCapacity < capacity.toNat

def check (hw : Hardware) : Except LimitError Unit := do
  if hw.registers.toNat = 0 ∨ maxRegisters < hw.registers.toNat then
    throw (.registerCount hw.registers)
  if maxStacks < hw.capacities.length then
    throw (.stackCount hw.capacities.length)
  if let some (capacity, stack) := hw.oversized? then
    throw (.stackCapacity stack capacity)
  if hw.permitted.isEmpty then
    throw .noOpcodes

end Hardware

def LimitError.message : LimitError → String
  | .registerCount found =>
      s!"hardware must have between 1 and {Hardware.maxRegisters} registers, got {found}"
  | .stackCount found => s!"hardware may have at most {Hardware.maxStacks} stacks, got {found}"
  | .stackCapacity stack found =>
      s!"stack S{stack} capacity {found} exceeds the maximum of {Hardware.maxCapacity}"
  | .noOpcodes => "hardware permits no opcodes"
  | .noTestCases => "program spec has no test cases"

end PuzzleMachine
