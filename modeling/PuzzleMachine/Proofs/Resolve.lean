import PuzzleMachine.Compilation
import PuzzleMachine.Proofs.Labels
import PuzzleMachine.Proofs.Safety

set_option autoImplicit false

namespace PuzzleMachine

open Statement

theorem Register.user?_eq_some {r : Register} {n : UInt64} : r.user? = some n ↔ r = .user n := by
  cases r <;> simp [Register.user?]

/-- What an instruction with a meaning as code looks like, and what that meaning is. -/
inductive Resolved (labels : LabelTable) : SourceInstruction → MachineInstruction → Prop where
  | read {r : Located Register} {n : UInt64} (dest : r.value = .user n) :
      Resolved labels (.read r) (.read n)
  | write {v : Located Value} : Resolved labels (.write v) (.write v.value)
  | set {r : Located Register} {n : UInt64} {v : Located Value} (dest : r.value = .user n) :
      Resolved labels (.set r v) (.set n v.value)
  | arith {op : Arith} {r : Located Register} {n : UInt64} {v : Located Value}
      (dest : r.value = .user n) : Resolved labels (.arith op r v) (.arith op n v.value)
  | cmp {r : Located Register} {n : UInt64} {a b : Located Value} (dest : r.value = .user n) :
      Resolved labels (.cmp r a b) (.cmp n a.value b.value)
  | push {v : Located Value} {s : Located UInt64} :
      Resolved labels (.push v s) (.push v.value s.value)
  | pop {s : Located UInt64} {r : Located Register} {n : UInt64} (dest : r.value = .user n) :
      Resolved labels (.pop s r) (.pop s.value n)
  | jump {l : Located String} {target : Nat} (known : labels.target? l.value = some target) :
      Resolved labels (.jump l) (.jump target)
  | branch {test : Test} {v : Located Value} {l : Located String} {target : Nat}
      (known : labels.target? l.value = some target) :
      Resolved labels (.branch test v l) (.branch test v.value target)

section Resolved

variable {labels : LabelTable} {i : SourceInstruction} {j : MachineInstruction}

theorem resolved_of_resolve? (found : resolve? labels i = some j) : Resolved labels i j := by
  cases i <;> simp only [resolve?, Instruction.traverse?, Option.bind_eq_bind, Option.pure_def,
    Option.bind_eq_some_iff, Option.some.injEq, Register.user?_eq_some] at found
  case read r =>
    obtain ⟨n, dest, rfl⟩ := found
    exact .read dest
  case write v =>
    obtain ⟨_, rfl, rfl⟩ := found
    exact .write
  case set r v =>
    obtain ⟨n, dest, _, rfl, rfl⟩ := found
    exact .set dest
  case arith op r v =>
    obtain ⟨n, dest, _, rfl, rfl⟩ := found
    exact .arith dest
  case cmp r a b =>
    obtain ⟨n, dest, _, rfl, _, rfl, rfl⟩ := found
    exact .cmp dest
  case push v s =>
    obtain ⟨_, rfl, _, rfl, rfl⟩ := found
    exact .push
  case pop s r =>
    obtain ⟨_, rfl, n, dest, rfl⟩ := found
    exact .pop dest
  case jump l =>
    obtain ⟨target, known, rfl⟩ := found
    exact .jump known
  case branch test v l =>
    obtain ⟨_, rfl, target, known, rfl⟩ := found
    exact .branch known

theorem Resolved.opcode_eq (resolved : Resolved labels i j) : j.opcode = i.opcode := by
  cases resolved <;> rfl

def Operand.Resolves (labels : LabelTable) : SourceOperand → Operand UInt64 Value UInt64 Nat → Prop
  | .dest r, .dest n => r.value = .user n
  | .value v, .value w => v.value = w
  | .stack s, .stack k => s.value = k
  | .target l, .target t => labels.target? l.value = some t
  | _, _ => False

theorem Resolved.operands (resolved : Resolved labels i j) :
    List.Forall₂ (Operand.Resolves labels) i.operands j.operands := by
  cases resolved with
  | read dest => exact .cons dest .nil
  | write => exact .cons rfl .nil
  | set dest | arith dest => exact .cons dest (.cons rfl .nil)
  | cmp dest => exact .cons dest (.cons rfl (.cons rfl .nil))
  | push => exact .cons rfl (.cons rfl .nil)
  | pop dest => exact .cons rfl (.cons dest .nil)
  | jump known => exact .cons known .nil
  | branch known => exact .cons rfl (.cons known .nil)

end Resolved

theorem has_of_registerViolations {hw : Hardware} {r : Located Register}
    (fine : hw.registerViolations r = []) : hw.Has r.value := by
  obtain ⟨r, span⟩ := r
  cases r <;> simp_all [Hardware.registerViolations, Hardware.bound?, Hardware.Has]

theorem fits_of_operandViolations {hw : Hardware} {labels : LabelTable} {haltIndex : Nat}
    {o : SourceOperand} {o' : Operand UInt64 Value UInt64 Nat}
    (bounded : ∀ name target, labels.target? name = some target → target ≤ haltIndex)
    (fine : operandViolations hw labels o = []) (resolved : o.Resolves labels o') :
    hw.Fits haltIndex o' := by
  cases o <;> cases o' <;> simp only [Operand.Resolves] at resolved
  case dest.dest r n =>
    rw [operandViolations, Hardware.destinationViolations] at fine
    split at fine
    next inside =>
      have has := has_of_registerViolations inside
      rwa [resolved] at has
    next outside => exact absurd fine outside
  case value.value v w =>
    subst resolved
    rw [operandViolations, Hardware.valueViolations] at fine
    obtain ⟨v, span⟩ := v
    cases v with
    | literal x => trivial
    | register r => exact has_of_registerViolations fine
  case stack.stack s k =>
    subst resolved
    simp only [operandViolations, Hardware.stackViolations] at fine
    split at fine
    next inside => exact inside
    next => cases fine
  case target.target l t => exact bounded _ _ resolved

namespace ValidProgram

variable (p : ValidProgram)

theorem code_instructions :
    p.code.instructions.toList.map some = p.instructions.map fun i => resolve? p.labels i.value := by
  simp [code]

theorem code_spans : p.code.spans.toList = p.instructions.map Located.span := by
  simp [code]

theorem code_haltIndex : p.code.haltIndex = p.instructions.length := by
  simp [code, Code.haltIndex]

theorem code_paired : p.code.Paired := by
  simp [code, Code.Paired]

end ValidProgram

section Validated

variable {hw : Hardware} {units : List ParsedUnit} {p : ValidProgram}

theorem validate_of_wrong (wrong : violations hw units ≠ []) :
    validate hw units = ((violations hw units).mapM Violation.diagnostic).map .error := by
  rw [validate, dif_neg wrong]
  cases (violations hw units).mapM Violation.diagnostic <;> rfl

theorem exists_validate_ok_iff :
    (∃ p, validate hw units = .ok (.ok p)) ↔ violations hw units = [] := by
  constructor
  next =>
    rintro ⟨p, valid⟩
    by_contra wrong
    rw [validate_of_wrong wrong] at valid
    obtain ⟨ds, -, same⟩ := map_ok_iff.mp valid
    cases same
  next => exact fun fine => ⟨_, dif_pos fine⟩

theorem validate_rejected_iff {ds : List Diagnostic} :
    validate hw units = .ok (.error ds) ↔
      violations hw units ≠ [] ∧ (violations hw units).mapM Violation.diagnostic = .ok ds := by
  by_cases wrong : violations hw units = []
  next => simp [validate, wrong]
  next => simp [validate_of_wrong wrong, wrong, map_ok_iff]

theorem validate_error_iff {b : Breach} :
    validate hw units = .error b ↔
      (violations hw units).mapM Violation.diagnostic = .error b := by
  by_cases wrong : violations hw units = []
  next => simp [validate, wrong, pure, Except.pure]
  next => rw [validate_of_wrong wrong, map_error_iff]

theorem validate_ok (valid : validate hw units = .ok (.ok p)) :
    violations hw units = [] ∧
      p.instructions = instructions (units.flatMap ParsedUnit.statements) ∧
      p.labels = .collect units := by
  rw [validate] at valid
  split at valid
  next none =>
    cases valid
    exact ⟨none, flatMap_instructions units, rfl⟩
  next =>
    obtain ⟨ds, -, same⟩ := bind_ok_iff.mp valid
    cases same

theorem instructionViolations_of_valid (valid : validate hw units = .ok (.ok p))
    {i : Located SourceInstruction} (member : i ∈ p.instructions) :
    instructionViolations hw p.labels i = [] := by
  obtain ⟨none, instructions, labels⟩ := validate_ok valid
  rw [instructions, mem_instructions] at member
  rw [labels]
  exact List.flatMap_eq_nil_iff.mp none _ member

theorem admits_of_valid (valid : validate hw units = .ok (.ok p)) :
    ∀ j ∈ p.code.instructions, hw.Admits p.code.haltIndex j := by
  intro j member
  have resolved : some j ∈ p.code.instructions.toList.map some :=
    List.mem_map_of_mem (Array.mem_toList_iff.mpr member)
  rw [ValidProgram.code_instructions] at resolved
  obtain ⟨i, inside, resolved⟩ := List.mem_map.mp resolved
  have resolved := resolved_of_resolve? resolved
  have fine := instructionViolations_of_valid valid inside
  rw [instructionViolations, List.append_eq_nil_iff, List.flatMap_eq_nil_iff] at fine
  obtain ⟨permitted, fine⟩ := fine
  constructor
  · rw [resolved.opcode_eq]
    by_contra forbidden
    simp [forbidden] at permitted
  · intro o' o'_mem
    obtain ⟨o, o_mem, resolves⟩ := exists_related resolved.operands o'_mem
    -- Labels are declared somewhere among the instructions, at the latest behind the last one.
    refine fits_of_operandViolations ?_ (fine o o_mem) resolves
    obtain ⟨-, instructions, labels⟩ := validate_ok valid
    intro name target known
    rw [ValidProgram.code_haltIndex, instructions]
    exact LabelTable.target_le_of_collect (labels ▸ known)

end Validated

theorem Hardware.check_ok {hw : Hardware} (checked : hw.check = .ok ()) :
    hw.registers.toNat ≤ maxRegisters ∧ ∀ capacity ∈ hw.capacities, capacity.toNat ≤ maxCapacity := by
  rw [check] at checked
  by_cases registers : hw.registers.toNat = 0 ∨ maxRegisters < hw.registers.toNat
  · rw [if_pos registers] at checked
    cases checked
  rw [if_neg registers] at checked
  dsimp only at checked
  -- The next check is reached only if this one is passed.
  by_cases crowded : maxStacks < hw.capacities.length
  · rw [if_pos crowded] at checked
    cases checked
  rw [if_neg crowded] at checked
  cases found : hw.oversized? with
  | some e =>
    rw [found] at checked
    cases checked
  | none =>
    refine ⟨by omega, fun capacity member => ?_⟩
    obtain ⟨n, position⟩ := List.mem_iff_getElem?.mp member
    have fits := List.find?_eq_none.mp found _ (List.mk_mem_zipIdx_iff_getElem?.mpr position)
    simpa using fits

section Compiled

variable {hw : Hardware} {units : List SourceUnit} {c : Compilation} {p : ValidProgram}

theorem compile_ok (compiled : compile units hw = .ok c) (accepted : c.result = .ok p) :
    hw.check = .ok () ∧ ∃ parsed, validate hw parsed = .ok (.ok p) := by
  rw [compile] at compiled
  split_ifs at compiled
  · cases compiled
    cases accepted
  obtain ⟨result, files, same⟩ := bind_ok_iff.mp compiled
  cases same
  subst accepted
  rw [compileFiles] at files
  split at files
  next => cases files
  next checked =>
    obtain ⟨⟨parsed, ds⟩, -, rest⟩ := bind_ok_iff.mp files
    dsimp only at rest
    split at rest
    next => exact ⟨checked, parsed.toList, rest⟩
    next => cases rest

theorem addressable_of_check (checked : hw.check = .ok ()) : Machine.addressable hw := by
  obtain ⟨registers, capacities⟩ := Hardware.check_ok checked
  simp only [Machine.addressable, Bool.and_eq_true, decide_eq_true_eq, List.all_eq_true]
  refine ⟨Nat.le_trans registers (by decide), fun capacity member => ?_⟩
  exact Nat.le_trans (capacities capacity member) (by decide)

/-- Every instruction has a meaning as code and names only what is there, so a machine never gets
stuck and faults only over stack room, arithmetic, input or cycles. -/
theorem compiled_code_safe (compiled : compile units hw = .ok c) (accepted : c.result = .ok p) :
    p.instructions.map (fun i => resolve? p.labels i.value) = p.code.instructions.toList.map some ∧
      (∀ j ∈ p.code.instructions, hw.Admits p.code.haltIndex j) ∧
      ∀ (input : List Int32) (ceiling : UInt64), ∃ m₀,
        Machine.start p.code hw input ceiling = .ok m₀ ∧ ∀ m, m₀.Reaches m →
          (∃ m', m.step? = .ok m') ∧
            ∀ f, m.state.status = .faulted f → f.kind.isInvalid = false := by
  obtain ⟨checked, parsed, valid⟩ := compile_ok compiled accepted
  have admitted := admits_of_valid valid
  refine ⟨p.code_instructions.symm, admitted, fun input ceiling => ?_⟩
  refine ⟨_, if_pos (addressable_of_check checked), fun m reached => ?_⟩
  have sound := reached.sound (Machine.fresh_sound admitted p.code_paired input ceiling)
  obtain ⟨m', turn⟩ := sound.turn
  exact ⟨⟨m', Machine.step?_ok_iff.mpr turn⟩, sound.valid⟩

def copier : SourceUnit := ⟨"main", "L: READ RX0\nPUSH RX0 S0\nPOP S0 RX1\nWRITE RX1\nJMP L"⟩

theorem copier_safe :
    ∃ c p, compile [copier] (.ofSizes 2 [1]) = .ok c ∧ c.result = .ok p ∧
      ∀ (input : List Int32) (ceiling : UInt64), ∃ m₀,
        Machine.start p.code (.ofSizes 2 [1]) input ceiling = .ok m₀ ∧ ∀ m, m₀.Reaches m →
          (∃ m', m.step? = .ok m') ∧
            ∀ f, m.state.status = .faulted f → f.kind.isInvalid = false := by
  have compiles : (compile [copier] (.ofSizes 2 [1])).toOption.any (·.result.isOk) := by
    decide +kernel
  rcases compiled : compile [copier] (.ofSizes 2 [1]) with b | c <;> rw [compiled] at compiles
  · cases compiles
  rcases accepted : c.result with ds | p
  · rw [Except.toOption, Option.any_some, accepted] at compiles
    cases compiles
  exact ⟨c, p, rfl, accepted, (compiled_code_safe compiled accepted).2.2⟩

end Compiled

end PuzzleMachine
