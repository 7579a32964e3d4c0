import PuzzleMachine.Proofs.Interpreter
import PuzzleMachine.Proofs.Resolve

set_option autoImplicit false

namespace PuzzleMachine

open Statement

def Work.Agree {α β : Type} (R : α → β → Prop) (w : Work α) (w' : Work β) : Prop :=
  ∀ m, match w m, w' m with
    | .ok a m₁, .ok b m₂ => R a b ∧ m₁ = m₂
    | .error s₁ m₁, .error s₂ m₂ => s₁ = s₂ ∧ m₁ = m₂
    | _, _ => False

namespace Work.Agree

variable {α β γ δ : Type} {R : α → β → Prop} {S : γ → δ → Prop}

theorem pure {a : α} {b : β} (related : R a b) : Agree R (pure a) (pure b) :=
  fun _ => ⟨related, rfl⟩

theorem same (w : Work α) {f : α → Work γ} {g : α → Work δ} (next : ∀ a, Agree S (f a) (g a)) :
    Agree S (w >>= f) (w >>= g) := by
  intro m
  rw [bind_apply, bind_apply]
  cases w m with
  | ok a m₁ => exact next a m₁
  | error stop m₁ => exact ⟨rfl, rfl⟩

theorem of_ok {w : Work α} {w' : Work β} (agree : Agree R w w') {m m₁ : Memory} {b : β}
    (right : w' m = .ok b m₁) : ∃ a, w m = .ok a m₁ ∧ R a b := by
  have here := agree m
  rw [right] at here
  cases left : w m <;> rw [left] at here
  case ok a m₂ =>
    obtain ⟨related, rfl⟩ := here
    exact ⟨a, rfl, related⟩
  case error => exact here.elim

theorem of_error {w : Work α} {w' : Work β} (agree : Agree R w w') {m m₁ : Memory} {stop : Stop}
    (right : w' m = .error stop m₁) : w m = .error stop m₁ := by
  have here := agree m
  rw [right] at here
  cases left : w m <;> rw [left] at here
  case ok => exact here.elim
  case error stop' m₂ =>
    obtain ⟨rfl, rfl⟩ := here
    rfl

end Work.Agree

def Here (program rest : List Statement) (pc : Nat) : Prop :=
  ∃ before, program = before ++ rest ∧ pc = (instructions before).length

section Places

variable {program rest : List Statement} {pc : Nat}

theorem here_start (program : List Statement) : Here program program 0 := ⟨[], rfl, rfl⟩

theorem Here.le (here : Here program rest pc) : pc ≤ (instructions program).length := by
  obtain ⟨before, rfl, rfl⟩ := here
  simp

theorem next?_eq_none : next? rest = none ↔ instructions rest = [] := by
  induction rest with
  | nil => simp [next?]
  | cons s rest ih => cases s <;> simp [next?, ih]

theorem Here.at_end (here : Here program rest pc) :
    next? rest = none ↔ pc = (instructions program).length := by
  obtain ⟨before, rfl, rfl⟩ := here
  simp [next?_eq_none]

theorem next?_eq_some {i : Located SourceInstruction} {later : List Statement}
    (next : next? rest = some (i, later)) :
    ∃ skipped, rest = skipped ++ .instruction i :: later ∧ instructions skipped = [] := by
  induction rest with
  | nil => cases next
  | cons s rest ih =>
    cases s with
    | label l =>
      obtain ⟨skipped, rfl, none⟩ := ih next
      exact ⟨.label l :: skipped, rfl, none⟩
    | instruction j =>
      cases next
      exact ⟨[], rfl, rfl⟩

theorem Here.next {i : Located SourceInstruction} {later : List Statement}
    (here : Here program rest pc) (next : next? rest = some (i, later)) :
    Here program later (pc + 1) ∧ (instructions program)[pc]? = some i := by
  obtain ⟨before, rfl, rfl⟩ := here
  -- Only labels are skipped, and they have no index of their own.
  obtain ⟨skipped, rfl, none⟩ := next?_eq_some next
  refine ⟨⟨before ++ skipped ++ [.instruction i], by simp, by simp [none]⟩, ?_⟩
  simp [none]

theorem after?_of_declared {name : String} {first : Nat} {statements : List Statement}
    {e : LabelEntry} (declared : LabelTable.declared? name first statements = some e) :
    ∃ before rest, after? name statements = some rest ∧ statements = before ++ rest ∧
      e.target = first + (instructions before).length := by
  induction statements generalizing first with
  | nil => cases declared
  | cons s statements ih =>
    rw [LabelTable.declared?.eq_def] at declared
    cases s with
    | label l =>
      dsimp only at declared
      split at declared
      next same =>
        cases declared
        exact ⟨[.label l], statements, if_pos same, rfl, rfl⟩
      next other =>
        obtain ⟨before, rest, after, rfl, target⟩ := ih declared
        exact ⟨.label l :: before, rest, by rw [after?, if_neg other, after], rfl, target⟩
    | instruction i =>
      obtain ⟨before, rest, after, rfl, target⟩ := ih declared
      refine ⟨.instruction i :: before, rest, after, rfl, ?_⟩
      rw [target, instructions_instruction, List.length_cons]
      omega

theorem after?_of_target {units : List ParsedUnit} {name : String} {target : Nat}
    (known : (LabelTable.collect units).target? name = some target) :
    ∃ rest, after? name (units.flatMap ParsedUnit.statements) = some rest ∧
      Here (units.flatMap ParsedUnit.statements) rest target := by
  rw [LabelTable.target?, LabelTable.find?_collect] at known
  obtain ⟨e, declared, rfl⟩ := Option.map_eq_some_iff.mp known
  obtain ⟨before, rest, after, split, target⟩ := after?_of_declared declared
  exact ⟨rest, after, before, split, by omega⟩

end Places

section Instructions

variable {labels : LabelTable} {program rest : List Statement} {pc haltIndex : Nat}

-- Every target of the table is behind the declaration that the program has of its name.
def LabelTable.Marks (labels : LabelTable) (program : List Statement) : Prop :=
  ∀ name target, labels.target? name = some target →
    ∃ rest, after? name program = some rest ∧ Here program rest target

theorem destination_eq {r : Located Register} {n : UInt64} (user : r.value = .user n) :
    destination r = pure n := by
  rw [destination, user]
  rfl

theorem continueAt_agrees {l : Located String} {target next : Nat} {taken : Bool}
    (marks : labels.Marks program) (known : labels.target? l.value = some target)
    (here : Here program rest next) :
    Work.Agree (Here program) (continueAt program l rest taken)
      (Work.jump (instructions program).length target next taken) := by
  obtain ⟨later, after, there⟩ := marks _ _ known
  rw [continueAt, after, Work.jump, if_neg (Nat.not_lt.mpr there.le)]
  cases taken
  · exact .pure here
  · exact .pure there

theorem interpret_agrees {i : SourceInstruction} {j : MachineInstruction}
    (resolved : Resolved labels i j) (marks : labels.Marks program)
    (here : Here program rest (pc + 1)) :
    Work.Agree (Here program) (interpret program rest i)
      (Work.execute pc (instructions program).length j) := by
  -- What is not a jump does the same work on both sides and continues behind itself.
  have onward : ∀ _ : Unit, Work.Agree (Here program) (pure rest) (pure (pc + 1)) :=
    fun _ => .pure here
  cases resolved with
  | write => exact .same _ fun x => .same _ onward
  | push => exact .same _ fun x => .same _ onward
  | jump known => exact continueAt_agrees marks known here
  | branch known => exact .same _ fun x => continueAt_agrees marks known here
  | read dest | arith dest | pop dest =>
    simp only [interpret, destination_eq dest, pure_bind, Work.execute]
    exact .same _ onward
  | set dest =>
    simp only [interpret, destination_eq dest, pure_bind, Work.execute]
    exact .same _ fun x => .same _ onward
  | cmp dest =>
    simp only [interpret, destination_eq dest, pure_bind, Work.execute]
    exact .same _ fun x => .same _ fun y => .same _ onward

end Instructions

def Status.progress : Status → Progress
  | .ready => .ready
  | .running => .running
  | .halted => .halted
  | .faulted f => .faulted f.kind f.span

theorem Status.progress_isTerminal (s : Status) : s.progress.isTerminal = s.isTerminal := by
  cases s <;> rfl

/-- The interpreter and the machine are at the same place, have the same memory and the same
counts, and have come to the same end. -/
structure Lockstep (t : Interpreter) (m : Machine) : Prop where
  here : Here t.program t.rest m.state.pc
  memory : t.memory = m.state.toMemory
  cycles : t.cycles = m.state.cycles
  executed : t.executed = m.state.executed
  ceiling : t.ceiling = m.ceiling
  progress : t.progress = m.state.status.progress

theorem Lockstep.isTerminal_eq {t : Interpreter} {m : Machine} (lockstep : Lockstep t m) :
    t.progress.isTerminal = m.state.status.isTerminal := by
  rw [lockstep.progress, Status.progress_isTerminal]

structure Compiled (labels : LabelTable) (program : List Statement) (code : Code) : Prop where
  marks : labels.Marks program
  resolved : code.instructions.toList.map some =
    (instructions program).map fun i => resolve? labels i.value
  spans : code.spans.toList = (instructions program).map Located.span

section Steps

variable {labels : LabelTable} {t : Interpreter} {m m' : Machine}

theorem Compiled.haltIndex_eq {program : List Statement} {code : Code}
    (compiled : Compiled labels program code) : code.haltIndex = (instructions program).length := by
  have lengths := congrArg List.length compiled.resolved
  simpa [Code.haltIndex] using lengths

theorem Compiled.resolves {program : List Statement} {code : Code} {pc : Nat}
    {i : Located SourceInstruction} {j : MachineInstruction}
    (compiled : Compiled labels program code) (source : (instructions program)[pc]? = some i)
    (coded : code.instructions[pc]? = some j) : Resolved labels i.value j := by
  have both := congrArg (fun l => l[pc]?) compiled.resolved
  simp only [List.getElem?_map, Array.getElem?_toList, coded, source, Option.map_some,
    Option.some.injEq] at both
  exact resolved_of_resolve? both.symm

theorem Lockstep.next {span : Span} (lockstep : Lockstep t m)
    (compiled : Compiled labels t.program m.code) (active : m.Active span) :
    ∃ i rest, next? t.rest = some (i, rest) ∧ i.span = span ∧
      Here t.program rest (m.state.pc + 1) ∧ (instructions t.program)[m.state.pc]? = some i := by
  cases next : next? t.rest with
  | none => exact absurd (lockstep.here.at_end.mp next) (compiled.haltIndex_eq ▸ active.inside)
  | some found =>
    obtain ⟨i, rest⟩ := found
    obtain ⟨here, source⟩ := lockstep.here.next next
    have spans := congrArg (fun l => l[m.state.pc]?) compiled.spans
    simp [source, active.here] at spans
    exact ⟨i, rest, rfl, spans.symm, here, source⟩

theorem Lockstep.work {i : MachineInstruction} {span : Span} (lockstep : Lockstep t m)
    (compiled : Compiled labels t.program m.code) (fetched : m.Fetched i span) :
    ∃ (s : Located SourceInstruction) (rest : List Statement), s.span = span ∧
      Work.Agree (Here t.program) (interpret t.program rest s.value)
        (Work.execute m.state.pc m.code.haltIndex i) ∧
      t.step = t.afterWork s.span (interpret t.program rest s.value m.state.toMemory) := by
  obtain ⟨s, rest, next, span, here, source⟩ := lockstep.next compiled fetched.toActive
  have working : t.progress.isTerminal = false := lockstep.isTerminal_eq.trans fetched.working
  have early : t.cycles < t.ceiling.toNat := by
    rw [lockstep.ceiling, lockstep.cycles]
    exact fetched.early
  refine ⟨s, rest, span, ?_, ?_⟩
  · rw [compiled.haltIndex_eq]
    exact interpret_agrees (compiled.resolves source fetched.coded) compiled.marks here
  · rw [← lockstep.memory]
    exact Interpreter.step_of_early working next early

theorem Here.progress_eq {program rest : List Statement} {next haltIndex : Nat}
    (here : Here program rest next) (ends : haltIndex = (instructions program).length) :
    (if (next? rest).isNone then Progress.halted else .running) =
      (if next = haltIndex then Status.halted else .running).progress := by
  by_cases ended : next = haltIndex
  · simp [ended, here.at_end.mpr (ended.trans ends), Status.progress]
  · have more : next? rest ≠ none := fun none => ended ((here.at_end.mp none).trans ends.symm)
    simp [ended, more, Status.progress]

theorem Lockstep.step (lockstep : Lockstep t m) (compiled : Compiled labels t.program m.code)
    (turn : m.Turn m') :
    ∃ t', t.step = .ok t' ∧ t'.program = t.program ∧ Lockstep t' m' := by
  have ⟨here, memory, cycles, executed, ceiling, _⟩ := lockstep
  have terminal := lockstep.isTerminal_eq
  cases turn with
  | rest stopped => exact ⟨t, Interpreter.step_of_terminal (terminal.trans stopped), rfl, lockstep⟩
  | halt working atEnd =>
    have ended := here.at_end.mpr (atEnd.trans compiled.haltIndex_eq)
    refine ⟨_, Interpreter.step_of_end (terminal.trans working) ended, rfl, ?_⟩
    exact ⟨here, memory, cycles, executed, ceiling, rfl⟩
  | timeout active late =>
    obtain ⟨i, rest, next, rfl, -, -⟩ := lockstep.next compiled active
    rw [← ceiling, ← cycles] at late
    refine ⟨_, Interpreter.step_of_late (terminal.trans active.working) next late, rfl, ?_⟩
    exact ⟨here, memory, cycles, executed, ceiling, by rw [ceiling]; rfl⟩
  | fault fetched fails =>
    obtain ⟨s, rest, rfl, agree, stepped⟩ := lockstep.work compiled fetched
    rw [agree.of_error (Machine.execute_of_planned_error fails)] at stepped
    exact ⟨_, stepped, rfl, here, rfl, cycles, executed, ceiling, rfl⟩
  | execute fetched succeeds =>
    obtain ⟨s, rest, rfl, agree, stepped⟩ := lockstep.work compiled fetched
    obtain ⟨later, interpreted, there⟩ := agree.of_ok (Machine.execute_of_planned_ok succeeds)
    rw [interpreted] at stepped
    exact ⟨_, stepped, rfl, there, rfl, congrArg (· + 1) cycles, congrArg (· + 1) executed,
      ceiling, there.progress_eq compiled.haltIndex_eq⟩

theorem Lockstep.run {hw : Hardware} (lockstep : Lockstep t m)
    (compiled : Compiled labels t.program m.code) (sound : m.Sound hw) (n : Nat) :
    ∃ t' m', t.runFor n = .ok t' ∧ m.advanceBy n = .ok m' ∧ Lockstep t' m' := by
  -- A sound machine takes a turn, the interpreter follows it, and both facts carry over.
  induction n generalizing t m with
  | zero => exact ⟨t, m, rfl, rfl, lockstep⟩
  | succ n ih =>
    obtain ⟨m₁, turn⟩ := sound.turn
    obtain ⟨t₁, stepped, program, lockstep₁⟩ := lockstep.step compiled turn
    have compiled₁ : Compiled labels t₁.program m₁.code := by
      rwa [program, turn.code_eq]
    rw [Interpreter.runFor, Machine.advanceBy_succ, stepped, turn.advance_eq]
    exact ih lockstep₁ compiled₁ (turn.sound sound)

end Steps

theorem compiled_of_valid {hw : Hardware} {units : List ParsedUnit} {p : ValidProgram}
    (valid : validate hw units = .ok (.ok p)) :
    Compiled p.labels (units.flatMap ParsedUnit.statements) p.code := by
  obtain ⟨-, instructions, labels⟩ := validate_ok valid
  refine ⟨?_, ?_, ?_⟩
  · rw [labels]
    exact fun _ _ known => after?_of_target known
  · rw [p.code_instructions, instructions]
  · rw [p.code_spans, instructions]

/-- After any number of steps the machine on the code and the interpreter of the statements, both
started on the same input and with the same ceiling, are in lockstep. -/
theorem code_runs_in_lockstep {hw : Hardware} {units : List ParsedUnit} {p : ValidProgram}
    (valid : validate hw units = .ok (.ok p)) (input : List Int32) (ceiling : UInt64) (n : Nat) :
    ∃ t m, (Interpreter.start (units.flatMap ParsedUnit.statements) hw input ceiling).runFor n =
        .ok t ∧
      (Machine.fresh p.code hw input ceiling).advanceBy n = .ok m ∧ Lockstep t m := by
  have lockstep : Lockstep
      (Interpreter.start (units.flatMap ParsedUnit.statements) hw input ceiling)
      (Machine.fresh p.code hw input ceiling) := ⟨here_start _, rfl, rfl, rfl, rfl, rfl⟩
  have sound := Machine.fresh_sound (admits_of_valid valid) p.code_paired input ceiling
  exact lockstep.run (compiled_of_valid valid) sound n

def leap : List ParsedUnit := [
  ⟨0, [.instruction ⟨.jump ⟨"B", ⟨0, 4, 5, 1, 5⟩⟩, ⟨0, 0, 5, 1, 1⟩⟩,
    .label ⟨"A", ⟨0, 6, 7, 2, 1⟩⟩]⟩,
  ⟨1, [.label ⟨"B", ⟨1, 0, 1, 1, 1⟩⟩,
    .instruction ⟨.jump ⟨"A", ⟨1, 7, 8, 1, 8⟩⟩, ⟨1, 3, 8, 1, 4⟩⟩]⟩]

theorem leap_runs_in_lockstep :
    ∃ p, validate .default leap = .ok (.ok p) ∧
      ∀ (input : List Int32) (ceiling : UInt64) (n : Nat), ∃ t m,
        (Interpreter.start (leap.flatMap ParsedUnit.statements) .default input ceiling).runFor n =
          .ok t ∧
        (Machine.fresh p.code .default input ceiling).advanceBy n = .ok m ∧ Lockstep t m := by
  have none : violations .default leap = [] := by decide
  have valid : validate .default leap = .ok (.ok _) := dif_pos none
  exact ⟨_, valid, code_runs_in_lockstep valid⟩

end PuzzleMachine
