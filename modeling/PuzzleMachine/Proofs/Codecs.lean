import Mathlib.Data.List.Nodup
import PuzzleMachine.Codec.Run
import PuzzleMachine.Proofs.JsonText
import PuzzleMachine.Proofs.Spelling

set_option autoImplicit false

namespace PuzzleMachine

theorem mapM_map_some {α β γ : Type} {f : β → Option γ} {g : α → β} {h : α → γ} {as : List α}
    (each : ∀ a ∈ as, f (g a) = some (h a)) : (as.map g).mapM f = some (as.map h) := by
  induction as with
  | nil => rfl
  | cons a as ih =>
    obtain ⟨first, later⟩ := List.forall_mem_cons.mp each
    rw [List.map_cons, List.mapM_cons, first, ih later]
    rfl

namespace Json

variable {members : List (String × Json)}

theorem member?_of_distinct (distinct : (members.map Prod.fst).Nodup) (name : String) :
    member? members name = some (members.lookup name) := by
  induction members with
  | nil => rfl
  | cons m members ih =>
    obtain ⟨new, distinct⟩ := List.nodup_cons.mp distinct
    rw [member?]
    by_cases same : m.1 = name
    next =>
      have none : members.filter (·.1 = name) = [] :=
        List.filter_eq_nil_iff.mpr fun n member found =>
          new (same.trans (of_decide_eq_true found).symm ▸ List.mem_map_of_mem member)
      have found : (name == m.1) = true := by simpa using same.symm
      rw [List.filter_cons_of_pos (by simpa using same), none, List.lookup_cons, found]
    next =>
      have missed : (name == m.1) = false := by simpa using Ne.symm same
      rw [List.filter_cons_of_neg (by simpa using same), List.lookup_cons, missed]
      exact ih distinct

theorem fields?_obj (names : List String) (distinct : (members.map Prod.fst).Nodup) :
    fields? names (.obj members) = some (names.map fun name => members.lookup name) := by
  have each : ∀ name ∈ names, member? members (id name) = some (members.lookup name) :=
    fun name _ => member?_of_distinct distinct name
  have read := mapM_map_some each
  rwa [List.map_id] at read

end Json

-- Counts and indices are words in a text, so only these values are read back.
def Code.InWords (c : Code) : Prop :=
  ∀ i ∈ c.instructions, ∀ target, .target target ∈ i.operands → target < UInt64.size

def FaultKind.InWords : FaultKind → Prop
  | .invalidJump target => target < UInt64.size
  | _ => True

structure Fault.InWords (f : Fault) : Prop where
  kind : f.kind.InWords
  pc : f.pc < UInt64.size

def Status.InWords (s : Status) : Prop := ∀ f ∈ s.fault?, f.InWords

structure TraceEntry.InWords (e : TraceEntry) : Prop where
  cycle : e.cycle < UInt64.size
  pc : e.pc < UInt64.size

structure State.InWords (s : State) : Prop where
  cursor : s.cursor < UInt64.size
  pc : s.pc < UInt64.size
  cycles : s.cycles < UInt64.size
  executed : s.executed < UInt64.size
  peak : s.peak < UInt64.size
  status : s.status.InWords

structure CaseResult.InWords (r : CaseResult) : Prop where
  cycles : r.cycles < UInt64.size
  executed : r.executed < UInt64.size
  registersUsed : r.registersUsed < UInt64.size
  peak : r.peak < UInt64.size
  status : r.status.InWords
  trace : ∀ entries ∈ r.trace, ∀ e ∈ entries, e.InWords

structure Verdict.InWords (v : Verdict) : Prop where
  results : ∀ r ∈ v.results, r.InWords
  programSize : v.programSize < UInt64.size
  maxCycles : v.maxCycles < UInt64.size
  totalCycles : v.totalCycles < UInt64.size
  registersUsed : v.registersUsed < UInt64.size
  peak : v.peak < UInt64.size

namespace Codec

variable {α : Type} {c : Codec α}

def Keeps (c : Codec α) (v : α) : Prop := c.decode? (c.encode v) = some v

namespace Keeps

variable {v : α}

theorem decode (kept : c.Keeps v) : c.decode? (c.encode v) = some v := kept

theorem required (kept : c.Keeps v) : c.required (some (c.encode v)) = some v := kept

theorem required_bind {β : Type} (kept : c.Keeps v) (f : α → Option β) :
    (c.required (some (c.encode v)) >>= f) = f v :=
  congrArg (· >>= f) kept.required

theorem orDefault (kept : c.Keeps v) (default : α) :
    c.orDefault default (some (c.encode v)) = some v := kept

end Keeps

section Basic

theorem keeps_bool (b : Bool) : bool.Keeps b := rfl

theorem keeps_string (s : String) : string.Keeps s := rfl

theorem keeps_below {bound n : Nat} (small : n < bound) : (below bound).Keeps n := by
  simp [Keeps, below, small]

theorem keeps_count {n : Nat} (small : n < UInt64.size) : count.Keeps n := keeps_below small

theorem keeps_word16 (n : UInt16) : word16.Keeps n :=
  (congrArg (Option.map UInt16.ofNat) (keeps_below n.toNat_lt_size)).trans (by simp)

theorem keeps_word32 (n : UInt32) : word32.Keeps n :=
  (congrArg (Option.map UInt32.ofNat) (keeps_below n.toNat_lt_size)).trans (by simp)

theorem keeps_word64 (n : UInt64) : word64.Keeps n :=
  (congrArg (Option.bind · index64?) (keeps_below n.toNat_lt_size)).trans
    (by simp [index64?, n.toNat_lt_size])

theorem keeps_int32 (n : Int32) : int32.Keeps n := value32?_toInt n

theorem keeps_list {vs : List α} (each : ∀ v ∈ vs, c.Keeps v) : c.list.Keeps vs := by
  have read := mapM_map_some each
  rwa [List.map_id'] at read

theorem keeps_array {vs : Array α} (each : ∀ v ∈ vs, c.Keeps v) : c.array.Keeps vs := by
  have read : c.list.Keeps vs.toList :=
    keeps_list fun v member => each v (Array.mem_toList_iff.mp member)
  exact congrArg (Option.map List.toArray) read

end Basic

section Source

theorem keeps_span (s : Span) : span.Keeps s := by
  simp [Keeps, span, Json.fields?_obj, List.lookup, (keeps_word16 _).required,
    (keeps_word32 _).required]

theorem keeps_located {l : Located α} (kept : c.Keeps l.value) : (located c).Keeps l := by
  simp [Keeps, located, Json.fields?_obj, List.lookup, kept.required, (keeps_span _).required]

theorem keeps_sourceUnit (u : SourceUnit) : sourceUnit.Keeps u := by
  simp [Keeps, sourceUnit, Json.fields?_obj, List.lookup, (keeps_string _).required]

end Source

section Statements

theorem keeps_opcode (op : Opcode) : opcode.Keeps op := by
  simp [Keeps, opcode, Json.variant?, noData]

theorem keeps_register (r : Register) : register.Keeps r := by
  cases r <;> simp [Keeps, register, Json.variant?, Json.tagged, noData, (keeps_word64 _).required]

theorem keeps_value (v : Value) : value.Keeps v := by
  cases v <;>
    simp [Keeps, value, Json.variant?, Json.tagged, (keeps_int32 _).required,
      (keeps_register _).required]

@[simp] theorem ofVariantName?_variantName (op : Opcode) :
    ofVariantName? (variantName op) = some op := by
  cases op <;> (try rename_i x; cases x) <;> decide

theorem unpackOperands?_packOperands {arity : Nat} {js : List Json} (length : js.length = arity) :
    unpackOperands? arity (packOperands js) = some js := by
  match js with
  | [] => simp [packOperands, unpackOperands?, ← length]
  | [j] => simp [packOperands, unpackOperands?, ← length]
  | j :: k :: js => simp [packOperands, unpackOperands?, ← length]

section Instruction

variable {R V S T : Type} {r : Codec R} {v : Codec V} {s : Codec S} {t : Codec T}

theorem decodeOperand?_encodeOperand (dests : ∀ d, r.Keeps d) (values : ∀ a, v.Keeps a)
    (indices : ∀ k, s.Keeps k) {o : Operand R V S T} (targets : ∀ l, o = .target l → t.Keeps l) :
    decodeOperand? r v s t o.kind (encodeOperand r v s t o) = some o := by
  cases o with
  | dest d => simp [decodeOperand?, Operand.kind, encodeOperand, (dests d).decode]
  | value a => simp [decodeOperand?, Operand.kind, encodeOperand, (values a).decode]
  | stack k => simp [decodeOperand?, Operand.kind, encodeOperand, (indices k).decode]
  | target l => simp [decodeOperand?, Operand.kind, encodeOperand, (targets l rfl).decode]

theorem keeps_instruction (dests : ∀ d, r.Keeps d) (values : ∀ a, v.Keeps a)
    (indices : ∀ k, s.Keeps k) {i : Instruction R V S T}
    (targets : ∀ l, .target l ∈ i.operands → t.Keeps l) : (instruction r v s t).Keeps i := by
  have length : (i.operands.map (encodeOperand r v s t)).length = i.opcode.signature.length := by
    rw [← i.map_kind_operands, List.length_map, List.length_map]
  have operands : (i.opcode.signature.zip (i.operands.map (encodeOperand r v s t))).mapM
      (fun slot => decodeOperand? r v s t slot.1 slot.2) = some i.operands := by
    rw [← i.map_kind_operands, List.zip_map']
    refine (mapM_map_some fun o member => ?_).trans (congrArg some (List.map_id _))
    exact decodeOperand?_encodeOperand dests values indices fun l same => targets l (same ▸ member)
  simp [Keeps, instruction, Json.variant?, Json.tagged, unpackOperands?_packOperands length,
    operands]

end Instruction

theorem keeps_sourceInstruction (i : SourceInstruction) : sourceInstruction.Keeps i :=
  keeps_instruction (fun _ => keeps_located (keeps_register _))
    (fun _ => keeps_located (keeps_value _)) (fun _ => keeps_located (keeps_word64 _))
    fun _ _ => keeps_located (keeps_string _)

theorem keeps_statement (s : Statement) : statement.Keeps s := by
  cases s with
  | label l =>
    have kept : (located string).Keeps l := keeps_located (keeps_string _)
    simp [Keeps, statement, Json.variant?, Json.tagged, kept.required]
  | instruction i =>
    have kept : (located sourceInstruction).Keeps i := keeps_located (keeps_sourceInstruction _)
    simp [Keeps, statement, Json.variant?, Json.tagged, kept.required]

theorem keeps_parsedUnit (u : ParsedUnit) : parsedUnit.Keeps u := by
  have statements : statement.list.Keeps u.statements := keeps_list fun s _ => keeps_statement s
  simp [Keeps, parsedUnit, Json.fields?_obj, List.lookup, (keeps_word16 _).required,
    statements.required]

theorem keeps_code {p : Code} (words : p.InWords) : code.Keeps p := by
  have instructions : machineInstruction.array.Keeps p.instructions :=
    keeps_array fun i member => keeps_instruction keeps_word64 keeps_value keeps_word64
      fun target named => keeps_count (words i member target named)
  have spans : span.array.Keeps p.spans := keeps_array fun s _ => keeps_span s
  simp [Keeps, code, Json.fields?_obj, List.lookup, instructions.required, spans.required]

end Statements

section Puzzles

theorem keeps_capacity (n : UInt64) : capacity.Keeps n := by
  simp [Keeps, capacity, Json.fields?_obj, List.lookup, (keeps_word64 _).required]

theorem keeps_opcodeSet (permits : Opcode → Bool) : opcodeSet.Keeps permits := by
  have read : opcode.list.Keeps (Opcode.all.filter permits) :=
    keeps_list fun op _ => keeps_opcode op
  refine (congrArg (Option.map _) read).trans (congrArg some (funext fun op => ?_))
  simp [Opcode.mem_all]

theorem keeps_hardware (hw : Hardware) : hardware.Keeps hw := by
  have capacities : capacity.list.Keeps hw.capacities := keeps_list fun n _ => keeps_capacity n
  simp [Keeps, hardware, Json.fields?_obj, List.lookup, (keeps_word64 _).required,
    capacities.orDefault, (keeps_opcodeSet _).orDefault]

theorem keeps_values (vs : List Int32) : int32.list.Keeps vs := keeps_list fun v _ => keeps_int32 v

theorem keeps_testCase (t : TestCase) : testCase.Keeps t := by
  simp [Keeps, testCase, Json.fields?_obj, List.lookup, (keeps_values _).orDefault]

theorem keeps_puzzle (p : Puzzle) : puzzle.Keeps p := by
  have cases : testCase.list.Keeps p.cases := keeps_list fun t _ => keeps_testCase t
  simp [Keeps, puzzle, Json.fields?_obj, List.lookup, (keeps_string _).orDefault, cases.required]

theorem keeps_runConfig (config : RunConfig) : runConfig.Keeps config := by
  simp [Keeps, runConfig, Json.fields?_obj, List.lookup, (keeps_word64 _).orDefault,
    (keeps_bool _).orDefault]

end Puzzles

section Runs

theorem keeps_arithmeticError (e : ArithmeticError) : arithmeticError.Keeps e := by
  cases e <;> simp [Keeps, arithmeticError, Json.variant?, noData]

theorem onlyField_encode {v : α} (kept : c.Keeps v) (name : String) :
    onlyField c name (some (.obj [(name, c.encode v)])) = some v := by
  simp [onlyField, Json.fields?_obj, kept.required]

theorem keeps_faultKind {k : FaultKind} (words : k.InWords) : faultKind.Keeps k := by
  cases k with
  | stackOverflow stack capacity =>
    simp [Keeps, faultKind, Json.variant?, Json.tagged, Json.fields?_obj, List.lookup,
      (keeps_word64 _).required]
  | stackUnderflow stack =>
    simp [Keeps, faultKind, Json.variant?, Json.tagged, onlyField_encode (keeps_word64 _)]
  | arithmetic e =>
    simp [Keeps, faultKind, Json.variant?, Json.tagged, (keeps_arithmeticError e).required]
  | inputExhausted => simp [Keeps, faultKind, Json.variant?, noData]
  | invalidJump target =>
    simp [Keeps, faultKind, Json.variant?, Json.tagged, onlyField_encode (keeps_count words)]
  | invalidRegister register =>
    simp [Keeps, faultKind, Json.variant?, Json.tagged, onlyField_encode (keeps_word64 _)]
  | invalidStack stack =>
    simp [Keeps, faultKind, Json.variant?, Json.tagged, onlyField_encode (keeps_word64 _)]
  | timeout ceiling =>
    simp [Keeps, faultKind, Json.variant?, Json.tagged, onlyField_encode (keeps_word64 _)]

theorem keeps_fault {f : Fault} (words : f.InWords) : fault.Keeps f := by
  simp [Keeps, fault, Json.fields?_obj, List.lookup, (keeps_faultKind words.kind).required,
    (keeps_count words.pc).required, (keeps_span _).required]

theorem keeps_status {s : Status} (words : s.InWords) : status.Keeps s := by
  cases s with
  | ready => simp [Keeps, status, Json.variant?, noData]
  | running => simp [Keeps, status, Json.variant?, noData]
  | halted => simp [Keeps, status, Json.variant?, noData]
  | faulted f =>
    simp [Keeps, status, Json.variant?, Json.tagged, (keeps_fault (words f rfl)).required]

theorem keeps_traceEntry {e : TraceEntry} (words : e.InWords) : traceEntry.Keeps e := by
  simp [Keeps, traceEntry, Json.fields?_obj, List.lookup, (keeps_count words.cycle).required,
    (keeps_count words.pc).required, (keeps_span _).required]

theorem keeps_state {s : State} (words : s.InWords) : state.Keeps s := by
  have values (vs : Array Int32) : int32.array.Keeps vs := keeps_array fun v _ => keeps_int32 v
  have contents : int32.array.array.Keeps s.contents := keeps_array fun vs _ => values vs
  have capacities : word64.array.Keeps s.capacities := keeps_array fun n _ => keeps_word64 n
  have touched : bool.array.Keeps s.touched := keeps_array fun b _ => keeps_bool b
  -- One field after another: the reader is too deep to be simplified from within.
  simp (disch := (simp only [List.map_cons, List.map_nil]; decide)) only [Keeps, state,
    Json.fields?_obj, List.map_cons, List.map_nil, List.lookup, String.reduceBEq]
  rw [Option.bind_eq_bind, Option.bind_some]
  dsimp only
  rw [(values _).required_bind, contents.required_bind, capacities.required_bind,
    (values _).required_bind, (keeps_count words.cursor).required_bind, (values _).required_bind,
    (keeps_count words.pc).required_bind, (keeps_count words.cycles).required_bind,
    (keeps_count words.executed).required_bind, touched.required_bind,
    (keeps_count words.peak).required_bind, (keeps_status words.status).required_bind]
  rfl

-- A missing record is not written, and read as missing.
theorem fields?_caseResult (r : CaseResult) :
    Json.fields? ["passed", "output", "expected_output", "cycles", "instructions",
        "registers_used", "peak_stack_depth", "status", "trace"] (caseResult.encode r) =
      some [some (bool.encode r.passed), some (int32.list.encode r.output),
        some (int32.list.encode r.expected), some (count.encode r.cycles),
        some (count.encode r.executed), some (count.encode r.registersUsed),
        some (count.encode r.peak), some (status.encode r.status),
        r.trace.map traceEntry.list.encode] := by
  simp only [caseResult]
  cases r.trace <;>
    simp (disch := (simp only [List.map_cons, List.map_nil]; decide)) only [Option.toList,
      List.map_cons, List.map_nil, List.append_nil, List.cons_append, List.nil_append,
      Json.fields?_obj, List.lookup, String.reduceBEq, Option.map_some, Option.map_none]

theorem keeps_caseResult {r : CaseResult} (words : r.InWords) : caseResult.Keeps r := by
  have kept (entries : List TraceEntry) (recorded : r.trace = some entries) :
      traceEntry.list.Keeps entries :=
    keeps_list fun e member => keeps_traceEntry (words.trace entries recorded e member)
  have trace : traceEntry.list.nullable.orDefault none (r.trace.map traceEntry.list.encode) =
      some r.trace := by
    cases recorded : r.trace with
    | none => rfl
    | some entries => exact congrArg (Option.map some) (kept entries recorded)
  change (Json.fields? _ (caseResult.encode r) >>= _) = some r
  rw [fields?_caseResult, Option.bind_eq_bind, Option.bind_some]
  dsimp only
  rw [if_neg (by simp [caseResult, Json.isArr]), (keeps_bool _).required_bind,
    (keeps_values _).required_bind, (keeps_values _).required_bind,
    (keeps_count words.cycles).required_bind, (keeps_count words.executed).required_bind,
    (keeps_count words.registersUsed).required_bind, (keeps_count words.peak).required_bind,
    (keeps_status words.status).required_bind, trace]
  rfl

theorem keeps_verdict {v : Verdict} (words : v.InWords) : verdict.Keeps v := by
  have results : caseResult.list.Keeps v.results :=
    keeps_list fun r member => keeps_caseResult (words.results r member)
  simp [Keeps, verdict, Json.fields?_obj, List.lookup, (keeps_bool _).required, results.required,
    (keeps_count words.programSize).required, (keeps_count words.maxCycles).required,
    (keeps_count words.totalCycles).required, (keeps_count words.registersUsed).required,
    (keeps_count words.peak).required]

end Runs

/-- The valid values are read back from either of their texts, and no two of them have the same. -/
structure Lossless (c : Codec α) (valid : α → Prop) : Prop where
  compact : ∀ v, valid v → (Json.parse (Json.compact (c.encode v))).bind c.decode? = some v
  indented : ∀ v, valid v → (Json.parse (Json.indented (c.encode v))).bind c.decode? = some v
  injective : ∀ v w, valid v → valid w →
    Json.compact (c.encode v) = Json.compact (c.encode w) → v = w

theorem lossless_of_keeps {valid : α → Prop} (kept : ∀ v, valid v → c.Keeps v) :
    c.Lossless valid where
  compact v ok := by rw [Json.parse_compact, Option.bind_some, (kept v ok).decode]
  indented v ok := by rw [Json.parse_indented, Option.bind_some, (kept v ok).decode]
  injective v w first second same := by
    have read : Json.parse (Json.compact (c.encode v)) = some (c.encode w) :=
      same ▸ Json.parse_compact (c.encode w)
    have forms : c.encode v = c.encode w := Option.some.inj (by rw [← read, Json.parse_compact])
    exact Option.some.inj (by rw [← (kept v first).decode, forms, (kept w second).decode])

/-- Every type that is written as JSON is read back. -/
theorem decode_undoes_encode :
    hardware.Lossless (fun _ => True) ∧ puzzle.Lossless (fun _ => True) ∧
      runConfig.Lossless (fun _ => True) ∧ sourceUnit.Lossless (fun _ => True) ∧
      parsedUnit.Lossless (fun _ => True) ∧ code.Lossless Code.InWords ∧
      state.Lossless State.InWords ∧ verdict.Lossless Verdict.InWords :=
  ⟨lossless_of_keeps fun hw _ => keeps_hardware hw, lossless_of_keeps fun p _ => keeps_puzzle p,
    lossless_of_keeps fun config _ => keeps_runConfig config,
    lossless_of_keeps fun u _ => keeps_sourceUnit u,
    lossless_of_keeps fun u _ => keeps_parsedUnit u,
    lossless_of_keeps fun _ words => keeps_code words,
    lossless_of_keeps fun _ words => keeps_state words,
    lossless_of_keeps fun _ words => keeps_verdict words⟩

def stopped : Verdict where
  passed := false
  results := [{
    passed := false
    output := [-1]
    expected := []
    cycles := 1
    executed := 1
    registersUsed := 1
    peak := 0
    status := .faulted ⟨.invalidJump 9, 1, .zero 0⟩
    trace := some [⟨1, 0, .zero 0⟩] }]
  programSize := 2
  maxCycles := 1
  totalCycles := 1
  registersUsed := 1
  peak := 0

theorem stopped_inWords : stopped.InWords where
  results r member := by
    rw [List.mem_singleton.mp member]
    refine ⟨by decide, by decide, by decide, by decide, ?_, ?_⟩
    · rintro f ⟨⟩
      exact ⟨show 9 < UInt64.size by decide, by decide⟩
    · rintro entries ⟨⟩ e inside
      rw [List.mem_singleton.mp inside]
      exact ⟨by decide, by decide⟩
  programSize := by decide
  maxCycles := by decide
  totalCycles := by decide
  registersUsed := by decide
  peak := by decide

theorem stopped_read_back :
    (Json.parse (Json.compact (verdict.encode stopped))).bind verdict.decode? = some stopped :=
  have ⟨_, _, _, _, _, _, _, verdicts⟩ := decode_undoes_encode
  verdicts.compact stopped stopped_inWords

end Codec
end PuzzleMachine
