import PuzzleMachine.Proofs.Naming

set_option autoImplicit false

namespace PuzzleMachine

structure Hardware.GrowsTo (hw hw' : Hardware) : Prop where
  registers : hw.registers ≤ hw'.registers
  capacities : ∀ (k : Nat) (c : UInt64), hw.capacities[k]? = some c →
    ∃ c', hw'.capacities[k]? = some c' ∧ c ≤ c'

theorem Hardware.GrowsTo.holds {hw hw' : Hardware} (grows : hw.GrowsTo hw') :
    hw.Holds .same True hw' where
  registers _ inside := Nat.lt_of_lt_of_le inside grows.registers
  registered := .inl trivial
  limited k c limit :=
    have ⟨c', limit', le⟩ := grows.capacities k.toNat c limit
    ⟨c', limit', le, .inl trivial⟩
  unlimited := .inl trivial

section Held

variable {α : Type} {room : Prop} {blank : α} {xs ys : Array α} {i : UInt64}

end Held

namespace Machine

section Widening

variable {hw hw' : Hardware} {m m' : Machine}

end Widening

def measure : Code :=
  ⟨#[.push (.literal 5) 0, .set 0 (.register (.stackLength 0)), .write (.register (.user 0))],
    #[.zero 0, .zero 0, .zero 0]⟩

end Machine
end PuzzleMachine
