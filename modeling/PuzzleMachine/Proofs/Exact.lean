import Mathlib.Logic.Function.Iterate
import PuzzleMachine.Machine
import PuzzleMachine.Proofs.Checked

set_option autoImplicit false

namespace PuzzleMachine

def Arith.exact : Arith → Int → Int → Int
  | .add, a, b => a + b
  | .sub, a, b => a - b
  | .mul, a, b => a * b
  | .div, a, b => a.tdiv b

def Test.holdsExactly : Test → Int → Bool
  | .zero, n => n == 0
  | .nonzero, n => n != 0
  | .negative, n => n < 0
  | .positive, n => 0 < n

def compareIntegers (a b : Int) : Int := if a < b then -1 else if a = b then 0 else 1

structure ExactMemory where
  registers : Array Int
  contents : Array (Array Int)
  capacities : Array UInt64
  input : Array Int
  cursor : Nat
  output : Array Int
  peak : Nat
  -- What arithmetic has come to, in order.
  results : List Int
deriving DecidableEq

namespace ExactMemory

def fresh (hw : Hardware) (input : List Int32) : ExactMemory where
  registers := Array.replicate hw.registers.toNat 0
  contents := Array.replicate hw.capacities.length #[]
  capacities := hw.capacities.toArray
  input := input.toArray.map Int32.toInt
  cursor := 0
  output := #[]
  peak := 0
  results := []

def register (m : ExactMemory) (r : UInt64) : Except FaultKind Int :=
  match m.registers[r.toNat]? with
  | some n => .ok n
  | none => .error (.invalidRegister r)

def stack (m : ExactMemory) (k : UInt64) : Except FaultKind (Array Int) :=
  match m.contents[k.toNat]? with
  | some ns => .ok ns
  | none => .error (.invalidStack k)

def value (m : ExactMemory) : Value → Except FaultKind Int
  | .literal v => .ok v.toInt
  | .register (.user r) => m.register r
  | .register .inputLength => .ok (m.input.size - m.cursor : Nat)
  | .register (.stackLength k) => (m.stack k).map fun ns => (ns.size : Int)

def record (m : ExactMemory) (n : Int) : ExactMemory := { m with results := m.results ++ [n] }

def assign (m : ExactMemory) (r : UInt64) (n : Int) : Except FaultKind ExactMemory := do
  let _ ← m.register r
  return { m with registers := m.registers.setIfInBounds r.toNat n }

def read (m : ExactMemory) (r : UInt64) : Except FaultKind ExactMemory := do
  match m.input[m.cursor]? with
  | none => throw .inputExhausted
  | some n => return { ← m.assign r n with cursor := m.cursor + 1 }

def operate (m : ExactMemory) (op : Arith) (r : UInt64) (v : Value) :
    Except FaultKind ExactMemory := do
  let result := op.exact (← m.register r) (← m.value v)
  (m.record result).assign r result

def arith (m : ExactMemory) (op : Arith) (r : UInt64) (v : Value) :
    Except FaultKind ExactMemory := do
  if op = .div then
    if (← m.value v) = 0 then throw (.arithmetic .divideByZero)
  m.operate op r v

def push (m : ExactMemory) (n : Int) (k : UInt64) : Except FaultKind ExactMemory := do
  let ns ← m.stack k
  match m.capacities[k.toNat]? with
  | none => throw (.invalidStack k)
  | some capacity =>
      if capacity.toNat ≤ ns.size then throw (.stackOverflow k capacity)
      return { m with
        contents := m.contents.modify k.toNat (·.push n)
        peak := max m.peak (ns.size + 1) }

def pop (m : ExactMemory) (k r : UInt64) : Except FaultKind ExactMemory := do
  let _ ← m.register r
  let ns ← m.stack k
  match ns.back? with
  | none => throw (.stackUnderflow k)
  | some n => return { m with
      contents := m.contents.modify k.toNat Array.pop
      registers := m.registers.setIfInBounds r.toNat n }

def jump (m : ExactMemory) (haltIndex target next : Nat) (taken : Bool) :
    Except FaultKind (ExactMemory × Nat) :=
  if haltIndex < target then .error (.invalidJump target)
  else .ok (m, if taken then target else next)

def execute (m : ExactMemory) (pc haltIndex : Nat) :
    MachineInstruction → Except FaultKind (ExactMemory × Nat)
  | .read r => do return (← m.read r, pc + 1)
  | .write v => do return ({ m with output := m.output.push (← m.value v) }, pc + 1)
  | .set r v => do return (← m.assign r (← m.value v), pc + 1)
  | .arith op r v => do return (← m.arith op r v, pc + 1)
  | .cmp r a b => do return (← m.assign r (compareIntegers (← m.value a) (← m.value b)), pc + 1)
  | .push v k => do return (← m.push (← m.value v) k, pc + 1)
  | .pop k r => do return (← m.pop k r, pc + 1)
  | .jump target => m.jump haltIndex target (pc + 1) true
  | .branch test v target => do m.jump haltIndex target (pc + 1) (test.holdsExactly (← m.value v))

section Results

variable {m m' : ExactMemory} {r k : UInt64} {n : Int}

theorem assign_results (done : m.assign r n = .ok m') : m'.results = m.results := by
  obtain ⟨_, -, same⟩ := bind_ok_iff.mp done
  cases same
  rfl

theorem read_results (done : m.read r = .ok m') : m'.results = m.results := by
  rw [read] at done
  split at done
  next => cases done
  next =>
    obtain ⟨m₁, assigned, same⟩ := bind_ok_iff.mp done
    cases same
    exact (assign_results assigned : m₁.results = _)

theorem operate_results {op : Arith} {v : Value} (done : m.operate op r v = .ok m') :
    m.results <+: m'.results := by
  obtain ⟨a, -, rest⟩ := bind_ok_iff.mp done
  obtain ⟨b, -, assigned⟩ := bind_ok_iff.mp rest
  rw [assign_results assigned]
  exact List.prefix_append _ _

theorem arith_results {op : Arith} {v : Value} (done : m.arith op r v = .ok m') :
    m.results <+: m'.results := by
  rw [arith] at done
  split at done
  next =>
    obtain ⟨b, -, rest⟩ := bind_ok_iff.mp done
    split at rest
    next => cases rest
    next => exact operate_results rest
  next => exact operate_results done

theorem push_results (done : m.push n k = .ok m') : m'.results = m.results := by
  obtain ⟨ns, -, rest⟩ := bind_ok_iff.mp done
  split at rest
  next => cases rest
  next =>
    split at rest <;> cases rest
    rfl

theorem pop_results (done : m.pop k r = .ok m') : m'.results = m.results := by
  obtain ⟨_, -, rest⟩ := bind_ok_iff.mp done
  obtain ⟨ns, -, rest⟩ := bind_ok_iff.mp rest
  split at rest <;> cases rest
  rfl

theorem jump_results {haltIndex target next last : Nat} {taken : Bool}
    (done : m.jump haltIndex target next taken = .ok (m', last)) : m'.results = m.results := by
  rw [jump] at done
  split at done <;> cases done
  rfl

theorem execute_results {pc haltIndex next : Nat} {i : MachineInstruction}
    (done : m.execute pc haltIndex i = .ok (m', next)) : m.results <+: m'.results := by
  -- What comes last in an instruction that is no jump only puts it together.
  have finish {x : Except FaultKind ExactMemory}
      (done : (do return (← x, pc + 1)) = .ok (m', next)) : x = .ok m' := by
    obtain ⟨m₁, first, same⟩ := bind_ok_iff.mp done
    cases same
    exact first
  have unchanged (same : m'.results = m.results) : m.results <+: m'.results :=
    same ▸ List.prefix_rfl
  cases i with
  | read r => exact unchanged (read_results (finish done))
  | write v =>
    obtain ⟨n, -, same⟩ := bind_ok_iff.mp done
    cases same
    exact List.prefix_rfl
  | set r v =>
    obtain ⟨n, -, rest⟩ := bind_ok_iff.mp done
    exact unchanged (assign_results (finish rest))
  | arith op r v => exact arith_results (finish done)
  | cmp r a b =>
    obtain ⟨x, -, rest⟩ := bind_ok_iff.mp done
    obtain ⟨y, -, rest⟩ := bind_ok_iff.mp rest
    exact unchanged (assign_results (finish rest))
  | push v k =>
    obtain ⟨n, -, rest⟩ := bind_ok_iff.mp done
    exact unchanged (push_results (finish rest))
  | pop k r => exact unchanged (pop_results (finish done))
  | jump target => exact unchanged (jump_results done)
  | branch test v target =>
    obtain ⟨n, -, rest⟩ := bind_ok_iff.mp done
    exact unchanged (jump_results rest)

end Results

end ExactMemory

structure ExactMachine where
  code : Code
  memory : ExactMemory
  pc : Nat
  cycles : Nat
  executed : Nat
  touched : Array Bool
  status : Status
  ceiling : UInt64
deriving DecidableEq

namespace ExactMachine

def fresh (code : Code) (hw : Hardware) (input : List Int32) (ceiling : UInt64) : ExactMachine where
  code
  memory := .fresh hw input
  pc := 0
  cycles := 0
  executed := 0
  touched := Array.replicate hw.registers.toNat false
  status := .ready
  ceiling

def faulted (m : ExactMachine) (kind : FaultKind) (span : Span) : ExactMachine :=
  { m with status := .faulted ⟨kind, m.pc, span⟩ }

def commit (m : ExactMachine) (i : MachineInstruction) (memory : ExactMemory) (next : Nat) :
    ExactMachine :=
  { m with
    memory
    pc := next
    cycles := m.cycles + 1
    executed := m.executed + 1
    touched := State.touch m.touched i.userRegisters
    status := if next = m.code.haltIndex then .halted else .running }

def advance (m : ExactMachine) : ExactMachine :=
  if m.status.isTerminal then m
  else if m.pc = m.code.haltIndex then { m with status := .halted }
  else match m.code.spans[m.pc]?, m.code.instructions[m.pc]? with
    | some span, some i =>
        if m.ceiling.toNat ≤ m.cycles then m.faulted (.timeout m.ceiling) span
        else match m.memory.execute m.pc m.code.haltIndex i with
          | .ok (memory, next) => m.commit i memory next
          | .error kind => m.faulted kind span
    -- Code that is put together with its spans has both wherever a machine can come to.
    | _, _ => m

theorem advance_results (m : ExactMachine) : m.memory.results <+: m.advance.memory.results := by
  rw [advance]
  split
  next => exact List.prefix_rfl
  next =>
    split
    next => exact List.prefix_rfl
    next =>
      split
      next span i _ _ =>
        split
        next => exact List.prefix_rfl
        next =>
          cases done : m.memory.execute m.pc m.code.haltIndex i with
          | error => exact List.prefix_rfl
          | ok after => exact ExactMemory.execute_results done
      next => exact List.prefix_rfl

def run (code : Code) (hw : Hardware) (input : List Int32) (ceiling : UInt64) (n : Nat) :
    ExactMachine :=
  advance^[n] (fresh code hw input ceiling)

end ExactMachine

end PuzzleMachine
