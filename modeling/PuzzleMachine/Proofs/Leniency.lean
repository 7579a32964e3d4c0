import PuzzleMachine.Proofs.Overrun

set_option autoImplicit false

namespace PuzzleMachine

structure Hardware.FitsIn (hw larger : Hardware) : Prop where
  registers : hw.registers ≤ larger.registers
  capacities : hw.capacities.length ≤ larger.capacities.length
  permits : ∀ op, hw.permits op → larger.permits op

def Violation.mark : Violation → Span
  | .duplicateLabel l _ => l.span
  | .opcodeNotPermitted op span =>
      { span with stop := span.start + .ofNat op.name.utf8ByteSize }
  | .invalidRegister r _ => r.span
  | .invalidStack s _ => s.span
  | .readOnlyRegister r => r.span
  | .undefinedLabel l => l.span

section Marks

variable {v : Violation} {d : Diagnostic}

theorem Violation.diagnostic_mark (told : v.diagnostic = .ok d) : d.span = v.mark := by
  cases v with
  | opcodeNotPermitted op span =>
    obtain ⟨place, placed, same⟩ := bind_ok_iff.mp told
    obtain ⟨stop, added, there⟩ := bind_ok_iff.mp placed
    cases same
    cases there
    rw [addWords] at added
    split at added <;> cases added
    rfl
  | _ =>
    cases told
    rfl

end Marks

section Operands

variable {hw larger : Hardware} {labels : LabelTable} {r : Located Register} {o : SourceOperand}
  {v : Violation}

theorem registerViolations_mark (member : v ∈ hw.registerViolations r) : v.mark = r.span := by
  rw [Hardware.registerViolations] at member
  split at member
  next => cases member
  next =>
    obtain ⟨-, rfl⟩ := mem_unless_iff.mp member
    rfl

theorem destinationViolations_mark (member : v ∈ hw.destinationViolations r) :
    v.mark = r.span := by
  rw [Hardware.destinationViolations] at member
  split at member
  next =>
    obtain ⟨-, rfl⟩ := mem_unless_iff.mp member
    rfl
  next => exact registerViolations_mark member

theorem operandViolations_mark (member : v ∈ operandViolations hw labels o) : v.mark = o.span := by
  cases o with
  | dest r => exact destinationViolations_mark member
  | value v =>
    rw [operandViolations, Hardware.valueViolations] at member
    split at member
    next => cases member
    next => exact registerViolations_mark member
  | stack s =>
    obtain ⟨-, rfl⟩ := mem_unless_iff.mp member
    rfl
  | target l =>
    obtain ⟨-, rfl⟩ := mem_unless_iff.mp member
    rfl

theorem destinationViolations_eq_nil_iff :
    hw.destinationViolations r = [] ↔
      hw.registerViolations r = [] ∧ r.value.user?.isSome := by
  rw [Hardware.destinationViolations]
  cases hw.registerViolations r <;> simp [Option.isSome_iff_ne_none]

namespace Hardware.FitsIn

variable (fits : hw.FitsIn larger)

include fits

theorem register_fine (fine : hw.registerViolations r = []) : larger.registerViolations r = [] := by
  obtain ⟨_ | k | n, span⟩ := r
  · rfl
  · have inside : k.toNat < hw.capacities.length := by
      simpa [registerViolations, bound?] using fine
    exact if_pos (Nat.lt_of_lt_of_le inside fits.capacities)
  · have inside : n.toNat < hw.registers.toNat := by
      simpa [registerViolations, bound?] using fine
    exact if_pos (Nat.lt_of_lt_of_le inside (UInt64.le_iff_toNat_le.mp fits.registers))

theorem operand_fine (fine : operandViolations hw labels o = []) :
    operandViolations larger labels o = [] := by
  cases o with
  | dest r =>
    obtain ⟨there, user⟩ := destinationViolations_eq_nil_iff.mp fine
    exact destinationViolations_eq_nil_iff.mpr ⟨fits.register_fine there, user⟩
  | value v =>
    obtain ⟨_ | r, span⟩ := v
    · rfl
    · exact fits.register_fine fine
  | stack s =>
    have inside : s.value.toNat < hw.capacities.length := by
      simpa [operandViolations, stackViolations] using fine
    exact if_pos (Nat.lt_of_lt_of_le inside fits.capacities)
  | target l => exact fine

-- Where an operand is wrong on the larger hardware, it is wrong on the smaller one, though what is
-- wrong with it may be something else.
theorem exists_operandViolation {v' : Violation}
    (member : v' ∈ operandViolations larger labels o) :
    ∃ v ∈ operandViolations hw labels o, v.mark = v'.mark := by
  have wrong : operandViolations hw labels o ≠ [] := by
    intro fine
    rw [fits.operand_fine fine] at member
    cases member
  obtain ⟨v, inside⟩ := List.exists_mem_of_ne_nil _ wrong
  exact ⟨v, inside, (operandViolations_mark inside).trans (operandViolations_mark member).symm⟩

theorem exists_statementViolation {s : Statement} {v' : Violation}
    (member : v' ∈ statementViolations larger labels s) :
    ∃ v ∈ statementViolations hw labels s, v.mark = v'.mark := by
  cases s with
  | label l => exact ⟨v', member, rfl⟩
  | instruction i =>
    rcases List.mem_append.mp member with opcode | operand
    · obtain ⟨forbidden, same⟩ := mem_unless_iff.mp opcode
      have forbidden := mem_unless_iff.mpr ⟨mt (fits.permits _) forbidden, same⟩
      exact ⟨v', List.mem_append_left _ forbidden, rfl⟩
    · obtain ⟨o, inside, wrong⟩ := List.mem_flatMap.mp operand
      obtain ⟨v, there, same⟩ := fits.exists_operandViolation wrong
      exact ⟨v, List.mem_append_right _ (List.mem_flatMap.mpr ⟨o, inside, there⟩), same⟩

variable {units : List ParsedUnit}

theorem exists_violation {v' : Violation} (member : v' ∈ violations larger units) :
    ∃ v ∈ violations hw units, v.mark = v'.mark := by
  obtain ⟨s, inside, wrong⟩ := List.mem_flatMap.mp member
  obtain ⟨v, there, same⟩ := fits.exists_statementViolation wrong
  exact ⟨v, List.mem_flatMap.mpr ⟨s, inside, there⟩, same⟩

theorem violations_fine (fine : violations hw units = []) : violations larger units = [] := by
  refine List.eq_nil_iff_forall_not_mem.mpr fun v' member => ?_
  obtain ⟨v, there, -⟩ := fits.exists_violation member
  rw [fine] at there
  cases there

theorem validate_ok {p : ValidProgram} (valid : validate hw units = .ok (.ok p)) :
    validate larger units = .ok (.ok p) := by
  obtain ⟨fine, -⟩ := PuzzleMachine.validate_ok valid
  rw [validate, dif_pos fine] at valid
  rw [validate, dif_pos (fits.violations_fine fine)]
  exact valid

theorem validate_error {ds' : List Diagnostic}
    (rejected : validate larger units = .ok (.error ds')) :
    (∃ ds, validate hw units = .ok (.error ds) ∧ ∀ d' ∈ ds', ∃ d ∈ ds, d.span = d'.span) ∨
      validate hw units = .error .outOfRange := by
  have some' : violations larger units ≠ [] := by
    intro fine
    rw [validate, dif_pos fine] at rejected
    cases rejected
  have some : violations hw units ≠ [] := mt fits.violations_fine some'
  rw [validate, dif_neg some'] at rejected
  obtain ⟨_, told', same⟩ := bind_ok_iff.mp rejected
  cases same
  rw [validate, dif_neg some]
  cases told : (violations hw units).mapM Violation.diagnostic with
  | error b =>
    obtain ⟨v, -, failed⟩ := exists_of_mapM_error told
    cases Violation.diagnostic_error failed
    exact .inr rfl
  | ok ds =>
    refine .inl ⟨ds, rfl, fun d' member => ?_⟩
    obtain ⟨v', inside', there'⟩ := exists_related (mapM_ok_iff.mp told') member
    obtain ⟨v, inside, same⟩ := fits.exists_violation inside'
    obtain ⟨d, listed, there⟩ := exists_related (mapM_ok_iff.mp told).flip inside
    refine ⟨d, listed, ?_⟩
    rw [Violation.diagnostic_mark there, same, Violation.diagnostic_mark there']

end Hardware.FitsIn
end Operands

section Compilation

variable {units : List SourceUnit} {hw larger : Hardware} {c : Compilation}

theorem outcome_of_compile (compiled : compile units hw = .ok c) :
    outcome units hw = .ok c.result := by
  rw [outcome, compiled]
  rfl

theorem compile_of_many (many : SourceMap.maxFiles < units.length) :
    compile units hw = .ok ⟨.empty, .error [tooManyUnits units.length]⟩ :=
  if_pos many

theorem Hardware.FitsIn.compile_ok (fits : hw.FitsIn larger) (checked : larger.check = .ok ())
    {p : ValidProgram} (compiled : compile units hw = .ok c) (accepted : c.result = .ok p) :
    compile units larger = .ok c := by
  have reached := outcome_of_compile compiled
  rw [accepted] at reached
  obtain ⟨count, -, parsed, all, valid⟩ := outcome_ok reached
  have there : outcome units larger = .ok (.ok p) := by
    rw [outcome_of_parseAll count checked all]
    exact fits.validate_ok valid
  rw [compile_of_outcome count there, ← compile_of_outcome count reached, compiled]

theorem exists_validate_of_parseAll {parsed : List ParsedUnit}
    (count : units.length ≤ SourceMap.maxFiles)
    (bounds : ∀ unit ∈ units, unit.text.utf8ByteSize < UInt32.size)
    (all : parseAll (.ofUnits units) = .ok (.ok parsed)) :
    ∃ result, validate hw parsed = .ok result := by
  refine exists_validate (fromSmallText_of_parseAll count bounds all) ?_
  rw [files_of_parseAll all]
  exact ids_nodup (by rwa [size_ofUnits])

end Compilation

/-- Larger hardware accepts what smaller hardware accepts, and makes the same of it. What it refuses
is refused by the smaller one, which finds fault with the same places at least, if the ends of these
can be counted: they can if the units are not too long. -/
theorem compile_on_larger {units : List SourceUnit} {hw larger : Hardware}
    (checked : hw.check = .ok ()) (checked' : larger.check = .ok ()) (fits : hw.FitsIn larger) :
    (∀ c p, compile units hw = .ok c → c.result = .ok p → compile units larger = .ok c) ∧
      ∀ c' ds', compile units larger = .ok c' → c'.result = .error ds' →
        (∃ c ds, compile units hw = .ok c ∧ c.result = .error ds ∧
            ∀ d' ∈ ds', ∃ d ∈ ds, d.span = d'.span) ∨
          compile units hw = .error .outOfRange ∧
            (∃ unit ∈ units, UInt32.size ≤ unit.text.utf8ByteSize) ∧
            ∃ id u, parse (.ofUnits units) id = .ok (.ok u) ∧
              ∃ i ∈ u.instructions, hw.Overruns i := by
  refine ⟨fun c p compiled accepted => fits.compile_ok checked' compiled accepted,
    fun c' ds' compiled refused => ?_⟩
  by_cases count : units.length ≤ SourceMap.maxFiles
  · have reached := outcome_of_compile compiled
    rw [refused, outcome_of_checked count checked'] at reached
    obtain ⟨wrong | parsed, all, rejected⟩ := bind_ok_iff.mp reached
    -- Reading the units is the same on all hardware.
    · cases rejected
      have here := outcome_of_checked count checked
      rw [all] at here
      exact .inl ⟨_, _, compile_of_outcome count here, rfl, fun d' member => ⟨d', member, rfl⟩⟩
    · have here := outcome_of_parseAll count checked all
      rcases fits.validate_error rejected with ⟨ds, told, spans⟩ | untold
      · rw [told] at here
        exact .inl ⟨_, _, compile_of_outcome count here, rfl, spans⟩
      · rw [untold] at here
        refine .inr ⟨map_error_iff.mp here, ?_, ?_⟩
        · by_contra! bounds
          obtain ⟨result, told⟩ := @exists_validate_of_parseAll units hw parsed count bounds all
          cases told.symm.trans untold
        · obtain ⟨-, i, inside, overruns⟩ := validate_breaks_iff.mp untold
          obtain ⟨u, among, inside⟩ := List.mem_flatMap.mp inside
          obtain ⟨id, -, read⟩ := exists_related (parseAll_ok_iff.mp all) among
          exact ⟨id, u, read, i, inside, overruns⟩
  · have many := Nat.lt_of_not_le count
    rw [compile_of_many many] at compiled ⊢
    cases compiled
    exact .inl ⟨_, _, rfl, refused, fun d' member => ⟨d', member, rfl⟩⟩

def overreaching : List SourceUnit := [⟨"main", "POP S0 RS0"⟩, ⟨"second", "JMP END"⟩]

theorem overreaching_told :
    (Hardware.without .jump).check = .ok () ∧
      (Hardware.ofSizes 2 [4]).check = .ok () ∧
      (Hardware.without .jump).FitsIn (.ofSizes 2 [4]) ∧
      ∃ c ds c' ds', compile overreaching (.without .jump) = .ok c ∧
        c.result = .error ds ∧ compile overreaching (.ofSizes 2 [4]) = .ok c' ∧
        c'.result = .error ds' ∧
        ds.map Diagnostic.kind =
          [.invalidStack, .invalidRegister, .opcodeNotPermitted, .undefinedLabel] ∧
        ds'.map Diagnostic.kind = [.readOnlyRegister, .undefinedLabel] ∧
        ∀ d' ∈ ds', ∃ d ∈ ds, d.span = d'.span := by
  have checked : (Hardware.without .jump).check = .ok () := rfl
  have checked' : (Hardware.ofSizes 2 [4]).check = .ok () := rfl
  have fits : (Hardware.without .jump).FitsIn (.ofSizes 2 [4]) :=
    ⟨by decide, by decide, fun _ _ => rfl⟩
  obtain ⟨c, ds, compiled, refused, kinds⟩ := @refused_of_any overreaching
    (.without .jump) (fun ds => ds.map Diagnostic.kind =
      [.invalidStack, .invalidRegister, .opcodeNotPermitted, .undefinedLabel]) _ (by decide +kernel)
  obtain ⟨c', ds', compiled', refused', kinds'⟩ := @refused_of_any overreaching (.ofSizes 2 [4])
    (fun ds => ds.map Diagnostic.kind = [.readOnlyRegister, .undefinedLabel]) _ (by decide +kernel)
  rcases (compile_on_larger checked checked' fits).2 c' ds' compiled' refused' with
    ⟨_, _, same, same', spans⟩ | ⟨untold, -⟩
  · cases compiled.symm.trans same
    cases refused.symm.trans same'
    exact ⟨checked, checked', fits, c, ds, c', ds', compiled, refused, compiled', refused', kinds,
      kinds', spans⟩
  · cases compiled.symm.trans untold

-- A register that there is not on the larger hardware goes untold on the smaller one, where the
-- keyword before it is forbidden and ends too far to say so.
theorem spread_untold :
    (Hardware.without .write).check = .ok () ∧ Hardware.default.check = .ok () ∧
      (Hardware.without .write).FitsIn .default ∧
      (∃ c' ds', compile [spread 4294967291 4294967292] .default = .ok c' ∧
        c'.result = .error ds' ∧
        ds'.map Diagnostic.span = [⟨0, 4294967292, 4294967295, 1, 4294967293⟩]) ∧
      compile [spread 4294967291 4294967292] (.without .write) = .error .outOfRange := by
  have reached {hw : Hardware} (checked : hw.check = .ok ()) :
      outcome [spread 4294967291 4294967292] hw = validate hw [spreadOut] :=
    @outcome_spread 4294967290 4294967291 rfl rfl hw checked
  refine ⟨rfl, rfl, ⟨by decide, by decide, fun _ _ => rfl⟩, ?_, ?_⟩
  · have told : ∃ ds', validate .default [spreadOut] = .ok (.error ds') ∧
        ds'.map Diagnostic.span = [⟨0, 4294967292, 4294967295, 1, 4294967293⟩] := ⟨_, rfl, rfl⟩
    obtain ⟨ds', told, spans⟩ := told
    rw [← reached rfl] at told
    exact ⟨_, ds', compile_of_outcome (by decide) told, rfl, spans⟩
  · have untold : validate (.without .write) [spreadOut] = .error .outOfRange := rfl
    rw [← reached rfl] at untold
    exact map_error_iff.mp untold

end PuzzleMachine
