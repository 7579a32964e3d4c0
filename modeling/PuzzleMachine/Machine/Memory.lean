import PuzzleMachine.Code
import PuzzleMachine.Hardware
import PuzzleMachine.Machine.Fault
import PuzzleMachine.Word

set_option autoImplicit false

namespace PuzzleMachine

structure Memory where
  registers : Array Int32
  -- The values on each stack, bottom first.
  contents : Array (Array Int32)
  capacities : Array UInt64
  input : Array Int32
  -- How many input values have been read.
  cursor : Nat
  output : Array Int32
  -- The largest length that any stack has reached.
  peak : Nat
deriving DecidableEq, Repr

def Arith.apply? : Arith → Int32 → Int32 → Option Int32
  | .add, a, b => value32? (a.toInt + b.toInt)
  | .sub, a, b => value32? (a.toInt - b.toInt)
  | .mul, a, b => value32? (a.toInt * b.toInt)
  | .div, a, b => value32? (a.toInt.tdiv b.toInt)

def Test.holds : Test → Int32 → Bool
  | .zero, v => v == 0
  | .nonzero, v => v != 0
  | .negative, v => v < 0
  | .positive, v => 0 < v

def compareValues (a b : Int32) : Int32 := if a < b then -1 else if a = b then 0 else 1

def lengthValue (n : Nat) : Int32 :=
  -- A length that does not fit is shown as the largest value.
  (value32? n).getD .maxValue

namespace Memory

def empty : Memory := ⟨#[], #[], #[], #[], 0, #[], 0⟩

def fresh (hw : Hardware) (input : List Int32) : Memory where
  registers := Array.replicate hw.registers.toNat 0
  contents := Array.replicate hw.capacities.length #[]
  capacities := hw.capacities.toArray
  input := input.toArray
  cursor := 0
  output := #[]
  peak := 0

def remaining (m : Memory) : List Int32 := m.input.toList.drop m.cursor

end Memory

inductive Stop where
  | fault (kind : FaultKind)
  | breach (breach : Breach)
deriving DecidableEq, Repr

-- What a piece of work has written by the time it stops stays written.
abbrev Work := EStateM Stop Memory

namespace Work

def fault {α : Type} (kind : FaultKind) : Work α := throw (.fault kind)

def ofChecked {α : Type} : Checked α → Work α
  | .ok a => pure a
  | .error b => throw (.breach b)

def register (r : UInt64) : Work Int32 := do
  match (← get).registers[r.toNat]? with
  | some v => return v
  | none => fault (.invalidRegister r)

def stackLength (k : UInt64) : Work Nat := do
  match (← get).contents[k.toNat]? with
  | some vs => return vs.size
  | none => fault (.invalidStack k)

def inputLength : Work Nat := do
  let m ← get
  -- More values read than there are would break the count of those that are left.
  ofChecked (if m.cursor ≤ m.input.size then .ok (m.input.size - m.cursor) else .error .outOfRange)

def value : Value → Work Int32
  | .literal v => return v
  | .register (.user r) => register r
  | .register .inputLength => return lengthValue (← inputLength)
  | .register (.stackLength k) => return lengthValue (← stackLength k)

-- Writes to a register that is known to exist.
def store (r : UInt64) (v : Int32) : Work Unit :=
  modify fun m => { m with registers := m.registers.setIfInBounds r.toNat v }

def assign (r : UInt64) (v : Int32) : Work Unit := do
  let _ ← register r
  store r v

def read (r : UInt64) : Work Unit := do
  let m ← get
  match m.input[m.cursor]? with
  | none => fault .inputExhausted
  | some v =>
      assign r v
      modify fun m => { m with cursor := m.cursor + 1 }

def write (v : Int32) : Work Unit := modify fun m => { m with output := m.output.push v }

def operate (op : Arith) (r : UInt64) (v : Value) : Work Unit := do
  let a ← register r
  let b ← value v
  match op.apply? a b with
  | none => fault (.arithmetic .overflow)
  | some result => assign r result

def arith (op : Arith) (r : UInt64) (v : Value) : Work Unit := do
  -- A division looks at its divisor before anything else.
  if op = .div then
    if (← value v) = 0 then fault (.arithmetic .divideByZero)
  operate op r v

def push (v : Int32) (k : UInt64) : Work Unit := do
  let m ← get
  match m.contents[k.toNat]?.map Array.size, m.capacities[k.toNat]? with
  | some size, some capacity =>
      if capacity.toNat ≤ size then fault (.stackOverflow k capacity)
      modify fun m => { m with contents := m.contents.modify k.toNat (·.push v) }
      modify fun m => { m with peak := max m.peak (size + 1) }
  | _, _ => fault (.invalidStack k)

def pop (k r : UInt64) : Work Unit := do
  let _ ← register r
  let _ ← stackLength k
  match (← get).contents[k.toNat]?.bind Array.back? with
  | none => fault (.stackUnderflow k)
  | some v =>
      modify fun m => { m with contents := m.contents.modify k.toNat Array.pop }
      store r v

def jump (haltIndex target next : Nat) (taken : Bool) : Work Nat :=
  -- The target has to lie within the code even if the jump is not taken.
  if haltIndex < target then fault (.invalidJump target)
  else return if taken then target else next

def execute (pc haltIndex : Nat) (instruction : MachineInstruction) : Work Nat :=
  let next := pc + 1
  match instruction with
  | .read r => do read r; return next
  | .write v => do write (← value v); return next
  | .set r v => do assign r (← value v); return next
  | .arith op r v => do arith op r v; return next
  | .cmp r a b => do assign r (compareValues (← value a) (← value b)); return next
  | .push v k => do push (← value v) k; return next
  | .pop k r => do pop k r; return next
  | .jump target => jump haltIndex target next true
  | .branch test v target => do jump haltIndex target next (test.holds (← value v))

end Work
end PuzzleMachine
