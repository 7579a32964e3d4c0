import PuzzleMachine.Machine.Memory
import PuzzleMachine.Proofs.Labels

set_option autoImplicit false

namespace PuzzleMachine
namespace Statement

-- The next instruction and what follows it. Labels are passed over.
def next? : List Statement → Option (Located SourceInstruction × List Statement)
  | [] => none
  | .label _ :: rest => next? rest
  | .instruction i :: rest => some (i, rest)

def after? (name : String) : List Statement → Option (List Statement)
  | [] => none
  | .label l :: rest => if l.value = name then some rest else after? name rest
  | .instruction _ :: rest => after? name rest

end Statement

open Statement

def destination (r : Located Register) : Work UInt64 :=
  Work.ofChecked (.ofOption .outOfRange r.value.user?)

def continueAt (program : List Statement) (l : Located String) (rest : List Statement)
    (taken : Bool) : Work (List Statement) := do
  let target ← Work.ofChecked (.ofOption .outOfRange (after? l.value program))
  return if taken then target else rest

def interpret (program rest : List Statement) : SourceInstruction → Work (List Statement)
  | .read r => do Work.read (← destination r); return rest
  | .write v => do Work.write (← Work.value v.value); return rest
  | .set r v => do
      let n ← destination r
      Work.assign n (← Work.value v.value)
      return rest
  | .arith op r v => do Work.arith op (← destination r) v.value; return rest
  | .cmp r a b => do
      let n ← destination r
      Work.assign n (compareValues (← Work.value a.value) (← Work.value b.value))
      return rest
  | .push v s => do Work.push (← Work.value v.value) s.value; return rest
  | .pop s r => do Work.pop s.value (← destination r); return rest
  | .jump l => continueAt program l rest true
  | .branch test v l => do continueAt program l rest (test.holds (← Work.value v.value))

inductive Progress where
  | ready
  | running
  | halted
  | faulted (kind : FaultKind) (span : Span)
deriving DecidableEq, Repr

def Progress.isTerminal : Progress → Bool
  | .halted | .faulted _ _ => true
  | .ready | .running => false

structure Interpreter where
  program : List Statement
  -- The statements from the current position on.
  rest : List Statement
  memory : Memory
  cycles : Nat
  executed : Nat
  ceiling : UInt64
  progress : Progress
deriving DecidableEq, Repr

namespace Interpreter

def start (program : List Statement) (hw : Hardware) (input : List Int32) (ceiling : UInt64) :
    Interpreter :=
  ⟨program, program, .fresh hw input, 0, 0, ceiling, .ready⟩

def afterWork (t : Interpreter) (span : Span) :
    EStateM.Result Stop Memory (List Statement) → Checked Interpreter
  | .ok rest memory =>
      .ok { t with
        rest, memory
        cycles := t.cycles + 1
        executed := t.executed + 1
        progress := if (next? rest).isNone then .halted else .running }
  | .error (.fault kind) memory => .ok { t with memory, progress := .faulted kind span }
  | .error (.breach b) _ => .error b

def step (t : Interpreter) : Checked Interpreter :=
  if t.progress.isTerminal then .ok t
  else match next? t.rest with
    | none => .ok { t with progress := .halted }
    | some (i, rest) =>
        -- The ceiling comes before the instruction, and the end of the program before the ceiling.
        if t.ceiling.toNat ≤ t.cycles then
          .ok { t with progress := .faulted (.timeout t.ceiling) i.span }
        else t.afterWork i.span (interpret t.program rest i.value t.memory)

section Step

variable {t : Interpreter} {i : Located SourceInstruction} {rest : List Statement}

theorem step_of_terminal (terminal : t.progress.isTerminal = true) : t.step = .ok t := by
  simp only [step, terminal, if_true]

theorem step_of_end (working : t.progress.isTerminal = false) (ended : next? t.rest = none) :
    t.step = .ok { t with progress := .halted } := by
  simp only [step, working, ended, Bool.false_eq_true, if_false]

theorem step_of_late (working : t.progress.isTerminal = false) (next : next? t.rest = some (i, rest))
    (late : t.ceiling.toNat ≤ t.cycles) :
    t.step = .ok { t with progress := .faulted (.timeout t.ceiling) i.span } := by
  simp only [step, working, next, late, Bool.false_eq_true, if_false, if_true]

theorem step_of_early (working : t.progress.isTerminal = false)
    (next : next? t.rest = some (i, rest)) (early : t.cycles < t.ceiling.toNat) :
    t.step = t.afterWork i.span (interpret t.program rest i.value t.memory) := by
  simp only [step, working, next, Nat.not_le_of_lt early, Bool.false_eq_true, if_false]

end Step

def runFor : Nat → Interpreter → Checked Interpreter
  | 0, t => .ok t
  | n + 1, t => do runFor n (← t.step)

end Interpreter
end PuzzleMachine
