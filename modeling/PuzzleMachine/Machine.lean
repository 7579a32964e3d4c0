import PuzzleMachine.Machine.State

set_option autoImplicit false

namespace PuzzleMachine

structure TraceEntry where
  cycle : Nat
  pc : Nat
  span : Span
deriving DecidableEq, Repr

structure Machine where
  code : Code
  state : State
  ceiling : UInt64
  trace : Option (Array TraceEntry)
deriving DecidableEq, Repr

namespace Machine

def fresh (code : Code) (hw : Hardware) (input : List Int32) (ceiling : UInt64) : Machine :=
  ⟨code, .fresh hw input, ceiling, none⟩

def withTrace (m : Machine) : Machine := { m with trace := some #[] }

def withStatus (m : Machine) (status : Status) : Machine :=
  { m with state := { m.state with status } }

def withMemory (m : Machine) (memory : Memory) : Machine :=
  { m with state := { m.state with toMemory := memory } }

def faulted (m : Machine) (kind : FaultKind) (span : Span) : Machine :=
  m.withStatus (.faulted ⟨kind, m.state.pc, span⟩)

-- A machine after a step, or a broken precondition and the machine as it is left.
abbrev Stepped := Except (Breach × Machine) Machine

def Stepped.machine : Stepped → Machine
  | .ok m | .error (_, m) => m

def Stepped.checked : Stepped → Checked Machine
  | .ok m => .ok m
  | .error (b, _) => .error b

def commit (m : Machine) (instruction : MachineInstruction) (span : Span) (next : Nat) : Stepped :=
  match countOn m.state.cycles, countOn m.state.executed with
  | .ok cycles, .ok executed =>
      let entry : TraceEntry := ⟨cycles, m.state.pc, span⟩
      .ok { m with
        state := { m.state with
          pc := next
          cycles
          executed
          touched := State.touch m.state.touched instruction.userRegisters
          status := if next = m.code.haltIndex then .halted else .running }
        trace := m.trace.map (·.push entry) }
  | .error b, _ | _, .error b => .error (b, m)

def advance (m : Machine) : Stepped :=
  let pc := m.state.pc
  let haltIndex := m.code.haltIndex
  if m.state.status.isTerminal then .ok m
  else if pc = haltIndex then .ok (m.withStatus .halted)
  else match m.code.spans[pc]? with
    | none => .error (.missingSpan, m)
    | some span =>
        -- The ceiling comes before the instruction, and the end of the code before the ceiling.
        if m.ceiling.toNat ≤ m.state.cycles then .ok (m.faulted (.timeout m.ceiling) span)
        else match m.code.instructions[pc]? with
          | none => .error (.outOfRange, m)
          | some instruction =>
              -- The memory is taken out of the machine, so that the work on it is done in place.
              let memory := m.state.toMemory
              let m := m.withMemory .empty
              match Work.execute pc haltIndex instruction memory with
              | .ok next memory => (m.withMemory memory).commit instruction span next
              | .error (.fault kind) memory => .ok ((m.withMemory memory).faulted kind span)
              | .error (.breach b) memory => .error (b, m.withMemory memory)

def advanceBy : Nat → Machine → Stepped
  | 0, m => .ok m
  | n + 1, m => if m.state.status.isTerminal then .ok m else do advanceBy n (← m.advance)

def step (m : Machine) : Machine := Stepped.machine m.advance

def steps (n : Nat) (m : Machine) : Machine := Stepped.machine (m.advanceBy n)

def complete (m : Machine) : Stepped :=
  -- Each cycle counts towards the ceiling, so one more step than there are cycles left is enough.
  m.advanceBy (m.ceiling.toNat + 1 - m.state.cycles)

def run (m : Machine) : Machine := Stepped.machine m.complete

def step? (m : Machine) : Checked Machine := Stepped.checked m.advance

def run? (m : Machine) : Checked Machine := Stepped.checked m.complete

def maxBlock : Nat :=
  -- Values take four bytes, and addresses have 63 bits.
  0x1fffffffffffffff

def addressable (hw : Hardware) : Bool :=
  hw.registers.toNat ≤ maxBlock && hw.capacities.all fun capacity => capacity.toNat ≤ maxBlock

def start (code : Code) (hw : Hardware) (input : List Int32) (ceiling : UInt64) :
    Checked Machine :=
  if addressable hw then .ok (fresh code hw input ceiling) else .error .outOfRange

end Machine
end PuzzleMachine
