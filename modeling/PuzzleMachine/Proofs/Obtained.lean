import PuzzleMachine.Proofs.Codecs
import PuzzleMachine.Proofs.Resolve
import PuzzleMachine.Proofs.Termination

set_option autoImplicit false

namespace PuzzleMachine

inductive Code.Obtained : Code → Prop where
  | built {instructions : Array MachineInstruction} {spans : Array Span} {c : Code}
      (built : ofParts instructions spans = .ok c) : Obtained c
  | lowered (p : ValidProgram) : Obtained p.code
  | decoded {text : String} {c : Code}
      (read : (Json.parse text).bind Codec.code.decode? = some c) : Obtained c

theorem Code.Obtained.decoded_of_unpaired {c : Code} (obtained : c.Obtained)
    (unpaired : ¬ c.Paired) : ∃ text, (Json.parse text).bind Codec.code.decode? = some c := by
  cases obtained with
  | built built => exact absurd (Machine.paired_of_ofParts built) unpaired
  | lowered p => exact absurd p.code_paired unpaired
  | decoded read => exact ⟨_, read⟩

theorem Code.InWords.obtained {c : Code} (words : c.InWords) : c.Obtained :=
  have lossless := Codec.lossless_of_keeps fun _ words => Codec.keeps_code words
  .decoded (lossless.compact c words)

namespace Machine

variable {hw : Hardware} {input : List Int32} {m m' : Machine} {b : Breach} {n k : Nat}

theorem Unspanned.advance_eq (unspanned : m.Unspanned) : m.advance = .error (.missingSpan, m) := by
  have here : m.code.spans[m.state.pc]? = none := Array.getElem?_eq_none unspanned.missing
  simp [advance, unspanned.working, Nat.ne_of_lt unspanned.inside, here]

theorem Unspanned.advanceBy_eq (unspanned : m'.Unspanned) (steps : m.advanceBy n = .ok m')
    (more : n < k) : m.advanceBy k = .error (.missingSpan, m') := by
  obtain ⟨j, rfl⟩ := Nat.exists_eq_add_of_lt more
  rw [Nat.add_assoc, advanceBy_add, steps, ok_bind, advanceBy_succ, unspanned.advance_eq]
  rfl

theorem step?_error_iff (coherent : m.state.Coherent m.code hw input m.ceiling) :
    m.step? = .error b ↔ b = .missingSpan ∧ m.Unspanned := by
  constructor
  next =>
    intro breaks
    rcases turn_or_unspanned coherent with ⟨m', turn⟩ | unspanned
    next => cases (step?_ok_iff.mpr turn).symm.trans breaks
    next =>
      rw [step?, unspanned.advance_eq] at breaks
      cases breaks
      exact ⟨rfl, unspanned⟩
  next =>
    rintro ⟨rfl, unspanned⟩
    rw [step?, unspanned.advance_eq]
    rfl

theorem run?_error_iff (coherent : m.state.Coherent m.code hw input m.ceiling) :
    m.run? = .error b ↔ b = .missingSpan ∧ ∃ n m', m.advanceBy n = .ok m' ∧ m'.Unspanned := by
  have enough : m.ceiling.toNat + 1 ≤
      m.state.cycles + (m.ceiling.toNat + 1 - m.state.cycles) := by omega
  rcases runs_or_unspanned coherent enough with ⟨k, last, within, runs⟩ | ⟨k, last, within, -, steps, unspanned⟩
  next =>
    have ended : m.run? = .ok last := by
      rw [run?, complete, runs.advanceBy_eq within, Stepped.checked]
    constructor
    next =>
      intro breaks
      cases ended.symm.trans breaks
    next =>
      rintro ⟨-, n, m', steps, unspanned⟩
      have broken := unspanned.advanceBy_eq steps (Nat.lt_succ_of_le (Nat.le_max_left n k))
      cases (runs.advanceBy_eq (Nat.le_succ_of_le (Nat.le_max_right n k))).symm.trans broken
  next =>
    have broken : m.run? = .error .missingSpan := by
      rw [run?, complete, unspanned.advanceBy_eq steps within, Stepped.checked]
    rw [broken]
    constructor
    next =>
      rintro ⟨⟩
      exact ⟨rfl, k, last, steps, unspanned⟩
    next =>
      rintro ⟨rfl, -⟩
      rfl

/-- Code without a span for every instruction has been read from text. Running it breaks if and only
if it comes to an instruction without one. -/
theorem obtained_code_breaks_unspanned {c : Code} (obtained : c.Obtained) {hw : Hardware}
    (fits : addressable hw = true) (input : List Int32) (ceiling : UInt64) :
    (¬ c.Paired → ∃ text, (Json.parse text).bind Codec.code.decode? = some c) ∧
      ∃ m₀, start c hw input ceiling = .ok m₀ ∧
        (∀ m, m₀.Reaches m → ∀ b, m.step? = .error b ↔ b = .missingSpan ∧ m.Unspanned) ∧
        (∀ b, m₀.run? = .error b ↔
          b = .missingSpan ∧ ∃ n m, m₀.advanceBy n = .ok m ∧ m.Unspanned) ∧
        (c.Paired → (∀ m, m₀.Reaches m → ∃ m', m.step? = .ok m') ∧ ∃ m, m₀.run? = .ok m) := by
  refine ⟨obtained.decoded_of_unpaired, fresh c hw input ceiling, if_pos fits, ?_, ?_, ?_⟩
  · exact fun m reached b => step?_error_iff reached.coherent_here
  · exact fun b => run?_error_iff Reaches.start.coherent_here
  · intro paired
    constructor
    next =>
      intro m reached
      obtain ⟨m', turn⟩ := turn_of_coherent (reached.code_eq ▸ paired) reached.coherent_here
      exact ⟨m', step?_ok_iff.mpr turn⟩
    next =>
      obtain ⟨n, m, -, -, ended⟩ := exists_run paired Reaches.start.coherent_here
      exact ⟨m, ended⟩

def bareJump : Code := ⟨#[.jump 0], #[]⟩

theorem bareJump_inWords : bareJump.InWords := by
  intro i member target named
  rw [List.mem_singleton.mp (Array.mem_def.mp member)] at named
  cases List.mem_singleton.mp named
  decide

theorem bareJump_breaks :
    bareJump.Obtained ∧ addressable .default = true ∧
      (¬ bareJump.Paired → ∃ text, (Json.parse text).bind Codec.code.decode? = some bareJump) ∧
      ∃ m₀, start bareJump .default [] 9 = .ok m₀ ∧ m₀.step? = .error .missingSpan ∧
        m₀.run? = .error .missingSpan := by
  have obtained := bareJump_inWords.obtained
  have ⟨read, m₀, started, steps, runs, _⟩ :=
    obtained_code_breaks_unspanned obtained (by decide : addressable .default = true) [] 9
  cases started
  have unspanned : (fresh bareJump .default [] 9).Unspanned := ⟨rfl, by decide, by decide⟩
  exact ⟨obtained, by decide, read, _, rfl, (steps _ .start _).mpr ⟨rfl, unspanned⟩,
    (runs _).mpr ⟨rfl, 0, _, rfl, unspanned⟩⟩

theorem unpaired_text_breaks :
    ∃ c, (Json.parse "\x7b\"instructions\":[\x7b\"Jmp\":0\x7d],\"spans\":[]\x7d").bind
        Codec.code.decode? = some c ∧
      ¬ c.Paired ∧ ∃ m₀, start c .default [] 9 = .ok m₀ ∧ m₀.run? = .error .missingSpan :=
  ⟨⟨#[.jump 0], #[]⟩, by decide +kernel, by decide, _, rfl, by decide⟩

end Machine
end PuzzleMachine
