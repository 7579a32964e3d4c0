import PuzzleMachine.Machine
import PuzzleMachine.Proofs.Checked

set_option autoImplicit false

namespace PuzzleMachine

inductive Effect where
  | none
  | consume (dest : UInt64) (value : Int32)
  | assign (dest : UInt64) (value : Int32)
  | emit (value : Int32)
  -- `depth` is the length that the stack gets.
  | push (stack : UInt64) (value : Int32) (depth : Nat)
  | pop (stack : UInt64) (dest : UInt64) (value : Int32)
deriving DecidableEq, Repr

namespace Memory

def register (m : Memory) (r : UInt64) : Except Stop Int32 :=
  match m.registers[r.toNat]? with
  | some v => .ok v
  | none => .error (.fault (.invalidRegister r))

def stack (m : Memory) (k : UInt64) : Except Stop (Array Int32) :=
  match m.contents[k.toNat]? with
  | some vs => .ok vs
  | none => .error (.fault (.invalidStack k))

def inputLength (m : Memory) : Except Stop Nat :=
  if m.cursor ≤ m.input.size then .ok (m.input.size - m.cursor) else .error (.breach .outOfRange)

def value (m : Memory) : Value → Except Stop Int32
  | .literal v => .ok v
  | .register (.user r) => m.register r
  | .register .inputLength => m.inputLength.map lengthValue
  | .register (.stackLength k) => (m.stack k).map fun vs => lengthValue vs.size

def assign (m : Memory) (r : UInt64) (v : Int32) : Except Stop Effect := do
  let _ ← m.register r
  return .assign r v

def read (m : Memory) (r : UInt64) : Except Stop Effect := do
  match m.input[m.cursor]? with
  | none => throw (.fault .inputExhausted)
  | some v =>
      let _ ← m.register r
      return .consume r v

def jump (haltIndex target next : Nat) (taken : Bool) : Except Stop Nat :=
  if haltIndex < target then .error (.fault (.invalidJump target))
  else .ok (if taken then target else next)

def operate (m : Memory) (op : Arith) (r : UInt64) (v : Value) : Except Stop Effect := do
  let a ← m.register r
  let b ← m.value v
  match op.apply? a b with
  | none => throw (.fault (.arithmetic .overflow))
  | some result => return .assign r result

def arith (m : Memory) (op : Arith) (r : UInt64) (v : Value) : Except Stop Effect := do
  if op = .div then
    if (← m.value v) = 0 then throw (.fault (.arithmetic .divideByZero))
  m.operate op r v

def push (m : Memory) (v : Int32) (k : UInt64) : Except Stop Effect := do
  let vs ← m.stack k
  match m.capacities[k.toNat]? with
  | none => throw (.fault (.invalidStack k))
  | some capacity =>
      if capacity.toNat ≤ vs.size then throw (.fault (.stackOverflow k capacity))
      return .push k v (vs.size + 1)

def pop (m : Memory) (k r : UInt64) : Except Stop Effect := do
  let _ ← m.register r
  let vs ← m.stack k
  match vs.back? with
  | none => throw (.fault (.stackUnderflow k))
  | some v => return .pop k r v

/-- What an instruction writes and where it continues, or why it is not executed. -/
def plan (m : Memory) (pc haltIndex : Nat) : MachineInstruction → Except Stop (Effect × Nat)
  | .read r => do return (← m.read r, pc + 1)
  | .write v => do return (.emit (← m.value v), pc + 1)
  | .set r v => do return (← m.assign r (← m.value v), pc + 1)
  | .arith op r v => do return (← m.arith op r v, pc + 1)
  | .cmp r a b => do return (← m.assign r (compareValues (← m.value a) (← m.value b)), pc + 1)
  | .push v k => do return (← m.push (← m.value v) k, pc + 1)
  | .pop k r => do return (← m.pop k r, pc + 1)
  | .jump target => do return (.none, ← jump haltIndex target (pc + 1) true)
  | .branch test v target => do
      return (.none, ← jump haltIndex target (pc + 1) (test.holds (← m.value v)))

-- A plan comes from what is found for the operands, and for reading also from the input.
theorem plan_congr {m m' : Memory} {pc haltIndex : Nat} {i : MachineInstruction}
    (dest : ∀ r, .dest r ∈ i.operands → m'.register r = m.register r)
    (source : ∀ v, .value v ∈ i.operands → m'.value v = m.value v)
    (stacked : ∀ k, .stack k ∈ i.operands → m'.stack k = m.stack k)
    (capacities : m'.capacities = m.capacities)
    (reading : ∀ r, i = .read r → m'.read r = m.read r) :
    m'.plan pc haltIndex i = m.plan pc haltIndex i := by
  cases i with
  | read r => rw [plan, plan, reading r rfl]
  | write v => rw [plan, plan, source v (by simp [Instruction.operands])]
  | set r v =>
    simp only [plan, assign, dest r (by simp [Instruction.operands]),
      source v (by simp [Instruction.operands])]
  | arith op r v =>
    simp only [plan, arith, operate, dest r (by simp [Instruction.operands]),
      source v (by simp [Instruction.operands])]
  | cmp r a b =>
    simp only [plan, assign, dest r (by simp [Instruction.operands]),
      source a (by simp [Instruction.operands]), source b (by simp [Instruction.operands])]
  | push v k =>
    simp only [plan, push, source v (by simp [Instruction.operands]),
      stacked k (by simp [Instruction.operands]), capacities]
  | pop k r =>
    simp only [plan, pop, dest r (by simp [Instruction.operands]),
      stacked k (by simp [Instruction.operands])]
  | jump target => rfl
  | branch test v target => rw [plan, plan, source v (by simp [Instruction.operands])]

def apply (m : Memory) : Effect → Memory
  | .none => m
  | .consume r v =>
      { m with registers := m.registers.setIfInBounds r.toNat v, cursor := m.cursor + 1 }
  | .assign r v => { m with registers := m.registers.setIfInBounds r.toNat v }
  | .emit v => { m with output := m.output.push v }
  | .push k v depth =>
      { m with contents := m.contents.modify k.toNat (·.push v), peak := max m.peak depth }
  | .pop k r v =>
      { m with
        contents := m.contents.modify k.toNat Array.pop
        registers := m.registers.setIfInBounds r.toNat v }

end Memory

namespace Work

section Running

variable {α β : Type} (m : Memory)

theorem bind_apply (w : Work α) (f : α → Work β) :
    (w >>= f) m = match w m with
      | .ok a m => f a m
      | .error stop m => .error stop m := by
  simp only [bind, EStateM.bind]
  cases w m <;> rfl

theorem pure_apply (a : α) : (pure a : Work α) m = .ok a m := rfl
theorem get_apply : (get : Work Memory) m = .ok m m := rfl
theorem fault_apply (kind : FaultKind) : (fault kind : Work α) m = .error (.fault kind) m := rfl

def leave : Except Stop α → EStateM.Result Stop Memory α
  | .ok a => .ok a m
  | .error stop => .error stop m

def outcome : Except Stop Effect → EStateM.Result Stop Memory Unit
  | .ok effect => .ok () (m.apply effect)
  | .error stop => .error stop m

end Running

theorem register_eq (r : UInt64) (m : Memory) : register r m = leave m (m.register r) := by
  rw [register, bind_apply, get_apply, Memory.register]
  cases h : m.registers[r.toNat]? <;> simp [h, leave, pure_apply, fault_apply]

theorem stackLength_eq (k : UInt64) (m : Memory) :
    stackLength k m = leave m ((m.stack k).map Array.size) := by
  rw [stackLength, bind_apply, get_apply, Memory.stack]
  cases h : m.contents[k.toNat]? <;> simp [h, leave, pure_apply, fault_apply, Except.map]

theorem inputLength_eq (m : Memory) : inputLength m = leave m m.inputLength := by
  rw [inputLength, bind_apply, get_apply, Memory.inputLength]
  by_cases h : m.cursor ≤ m.input.size <;> simp only [h, if_true, if_false] <;> rfl

theorem value_eq (v : Value) (m : Memory) : value v m = leave m (m.value v) := by
  cases v with
  | literal v => rfl
  | register r =>
    cases r with
    | user r => exact register_eq r m
    | inputLength =>
      rw [value, bind_apply, inputLength_eq, Memory.value]
      cases m.inputLength <;> rfl
    | stackLength k =>
      rw [value, bind_apply, stackLength_eq, Memory.value]
      cases m.stack k <;> rfl

theorem assign_eq (r : UInt64) (v : Int32) (m : Memory) :
    assign r v m = outcome m (m.assign r v) := by
  rw [assign, bind_apply, register_eq, Memory.assign]
  cases m.register r <;> rfl

theorem read_eq (r : UInt64) (m : Memory) : read r m = outcome m (m.read r) := by
  simp only [read, bind_apply, get_apply, Memory.read]
  cases m.input[m.cursor]? with
  | none => rfl
  | some v =>
    simp only [bind_apply, assign_eq, Memory.assign]
    cases m.register r <;> rfl

theorem operate_eq (op : Arith) (r : UInt64) (v : Value) (m : Memory) :
    operate op r v m = outcome m (m.operate op r v) := by
  simp only [operate, bind_apply, register_eq, value_eq, Memory.operate]
  cases known : m.register r with
  | error stop => rfl
  | ok a =>
    simp only [leave, ok_bind]
    cases m.value v with
    | error stop => rfl
    | ok b =>
      simp only [ok_bind]
      cases op.apply? a b with
      | none => rfl
      | some result =>
        simp only [assign_eq, Memory.assign, known]
        rfl

theorem arith_eq (op : Arith) (r : UInt64) (v : Value) (m : Memory) :
    arith op r v m = outcome m (m.arith op r v) := by
  -- The divisor is read twice, and reading it leaves memory as it is.
  by_cases divides : op = .div
  · simp only [arith, divides, if_true, bind_apply, value_eq, Memory.arith]
    cases m.value v with
    | error stop => rfl
    | ok b =>
      by_cases zero : b = 0 <;> simp only [leave, ok_bind, zero, if_true, if_false]
      · rfl
      · exact operate_eq .div r v m
  · simpa only [arith, Memory.arith, divides, if_false] using operate_eq op r v m

theorem push_eq (v : Int32) (k : UInt64) (m : Memory) : push v k m = outcome m (m.push v k) := by
  simp only [push, bind_apply, get_apply, Memory.push, Memory.stack]
  cases m.contents[k.toNat]? with
  | none => rfl
  | some vs =>
    cases m.capacities[k.toNat]? with
    | none => rfl
    | some capacity =>
      by_cases full : capacity.toNat ≤ vs.size <;>
        simp only [Option.map_some, ok_bind, full, if_true, if_false] <;> rfl

theorem pop_eq (k r : UInt64) (m : Memory) : pop k r m = outcome m (m.pop k r) := by
  simp only [pop, bind_apply, register_eq, stackLength_eq, get_apply, Memory.pop, Memory.stack]
  cases m.register r with
  | error stop => rfl
  | ok v =>
    simp only [leave, ok_bind]
    cases known : m.contents[k.toNat]? with
    | none => rfl
    | some vs =>
      simp only [Except.map, ok_bind, known, Option.bind_some]
      cases vs.back? <;> rfl

theorem jump_eq (haltIndex target next : Nat) (taken : Bool) (m : Memory) :
    jump haltIndex target next taken m = leave m (Memory.jump haltIndex target next taken) := by
  rw [jump, Memory.jump]
  split <;> rfl

-- Executing an instruction in place is planning it and writing what it plans.
theorem execute_eq (pc haltIndex : Nat) (i : MachineInstruction) (m : Memory) :
    execute pc haltIndex i m = match m.plan pc haltIndex i with
      | .ok (effect, next) => .ok next (m.apply effect)
      | .error stop => .error stop m := by
  cases i with
  | read r =>
    simp only [execute, bind_apply, read_eq, Memory.plan]
    cases m.read r <;> rfl
  | write v =>
    simp only [execute, bind_apply, value_eq, Memory.plan]
    cases m.value v <;> rfl
  | set r v =>
    simp only [execute, bind_apply, value_eq, Memory.plan]
    cases m.value v with
    | error stop => rfl
    | ok v =>
      simp only [leave, assign_eq, ok_bind]
      cases m.assign r v <;> rfl
  | arith op r v =>
    simp only [execute, arith_eq, bind_apply, Memory.plan]
    cases m.arith op r v <;> rfl
  | cmp r a b =>
    simp only [execute, bind_apply, value_eq, Memory.plan]
    cases m.value a with
    | error stop => rfl
    | ok a =>
      simp only [leave, ok_bind]
      cases m.value b with
      | error stop => rfl
      | ok b =>
        simp only [assign_eq, ok_bind]
        cases m.assign r (compareValues a b) <;> rfl
  | push v k =>
    simp only [execute, bind_apply, value_eq, Memory.plan]
    cases m.value v with
    | error stop => rfl
    | ok v =>
      simp only [leave, push_eq, ok_bind]
      cases m.push v k <;> rfl
  | pop k r =>
    simp only [execute, pop_eq, bind_apply, Memory.plan]
    cases m.pop k r <;> rfl
  | jump target =>
    simp only [execute, jump_eq, Memory.plan]
    cases Memory.jump haltIndex target (pc + 1) true <;> rfl
  | branch test v target =>
    simp only [execute, bind_apply, value_eq, Memory.plan]
    cases m.value v with
    | error stop => rfl
    | ok v =>
      simp only [leave, jump_eq, ok_bind]
      cases Memory.jump haltIndex target (pc + 1) (test.holds v) <;> rfl

end Work
end PuzzleMachine
