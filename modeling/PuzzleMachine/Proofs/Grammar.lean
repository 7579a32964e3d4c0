import Mathlib.Data.List.TakeWhile
import PuzzleMachine.Proofs.Operands

set_option autoImplicit false

namespace PuzzleMachine

inductive IsBody : List Token → Prop where
  | blank : IsBody []
  | instruction {op : Opcode} {ts : List Token}
      (fits : List.Forall₂ (fun kind t => kind.admits t = true) op.signature ts) :
      IsBody (.opcode op :: ts)

inductive IsLine : List Token → Prop where
  | unlabelled {ts : List Token} (body : IsBody ts) : IsLine ts
  | labelled {ts : List Token} (name : String) (body : IsBody ts) :
      IsLine (.word name :: .colon :: ts)

/-- What the tokens after a label say. An instruction is as far as its last operand. -/
inductive BodyReads : List (Located Token) → List Statement → Prop where
  | blank : BodyReads [] []
  | instruction {i : SourceInstruction} {start : Span} {ts : List (Located Token)}
      {last : Located Token} (denotes : List.Forall₂ Denotes ts i.operands)
      (ends : ts.getLast? = some last) :
      BodyReads (⟨.opcode i.opcode, start⟩ :: ts)
        [.instruction ⟨i, { start with stop := last.span.stop }⟩]

inductive LineReads : List (Located Token) → List Statement → Prop where
  | unlabelled {ts : List (Located Token)} {statements : List Statement}
      (body : BodyReads ts statements) : LineReads ts statements
  | labelled {ts : List (Located Token)} {statements : List Statement} (name : String)
      (span colon : Span) (body : BodyReads ts statements) :
      LineReads (⟨.word name, span⟩ :: ⟨.colon, colon⟩ :: ts) (.label ⟨name, span⟩ :: statements)

def Unlabelled (ts : List (Located Token)) : Prop :=
  ∀ name span colon rest, ts ≠ ⟨.word name, span⟩ :: ⟨.colon, colon⟩ :: rest

inductive UnitReads : List (List (Located Token)) → List Statement → Prop where
  | nil : UnitReads [] []
  | cons {segment : List (Located Token)} {cut : List (List (Located Token))}
      {part statements : List Statement} (line : LineReads segment part)
      (later : UnitReads cut statements) : UnitReads (segment :: cut) (part ++ statements)

def segments (tokens : List (Located Token)) : List (List (Located Token)) :=
  tokens.splitOnP fun t => t.value = .newline

section Spec

variable {ts : List (Located Token)} {statements : List Statement}

theorem BodyReads.isBody (reads : BodyReads ts statements) : IsBody (ts.map Located.value) := by
  cases reads with
  | blank => exact .blank
  | @instruction i start ts last denotes =>
    refine .instruction ?_
    rw [← Instruction.map_kind_operands, List.forall₂_map_left_iff, List.forall₂_map_right_iff]
    exact denotes.flip.imp fun _ _ here => here.admits

theorem exists_denotes_all {kinds : List OperandKind}
    (fits : List.Forall₂ (fun kind t => kind.admits t = true) kinds (ts.map Located.value)) :
    ∃ operands : List SourceOperand,
      operands.map Operand.kind = kinds ∧ List.Forall₂ Denotes ts operands := by
  induction ts generalizing kinds with
  | nil =>
    cases fits
    exact ⟨[], rfl, .nil⟩
  | cons t ts ih =>
    cases fits with
    | cons here later =>
      obtain ⟨operand, rfl, denotes⟩ := exists_denotes here
      obtain ⟨operands, rfl, denote⟩ := ih later
      exact ⟨operand :: operands, rfl, .cons denotes denote⟩

theorem exists_last_of_denotes {i : SourceInstruction}
    (denotes : List.Forall₂ Denotes ts i.operands) : ∃ last, ts.getLast? = some last := by
  cases ts with
  | nil => cases i <;> cases denotes
  | cons t ts => exact ⟨_, List.getLast?_eq_some_getLast (List.cons_ne_nil t ts)⟩

theorem exists_bodyReads (body : IsBody (ts.map Located.value)) :
    ∃ statements, BodyReads ts statements := by
  cases ts with
  | nil => exact ⟨[], .blank⟩
  | cons t ts =>
    obtain ⟨token, start⟩ := t
    cases body with
    | instruction fits =>
      obtain ⟨operands, kinds, denotes⟩ := exists_denotes_all fits
      obtain ⟨i, rfl, rfl⟩ := Instruction.exists_of_kinds kinds
      obtain ⟨last, ends⟩ := exists_last_of_denotes denotes
      exact ⟨_, .instruction denotes ends⟩

theorem exists_lineReads_iff :
    (∃ statements, LineReads ts statements) ↔ IsLine (ts.map Located.value) := by
  constructor
  · rintro ⟨statements, reads⟩
    cases reads with
    | unlabelled body => exact .unlabelled body.isBody
    | labelled name span colon body => exact .labelled name body.isBody
  · intro line
    generalize values : ts.map Located.value = tokens at line
    cases line with
    | unlabelled body =>
      rw [← values] at body
      obtain ⟨statements, reads⟩ := exists_bodyReads body
      exact ⟨statements, .unlabelled reads⟩
    | labelled name body =>
      obtain ⟨⟨_, span⟩, _, rfl, rfl, later⟩ := List.map_eq_cons_iff.mp values
      obtain ⟨⟨_, colon⟩, ts, rfl, rfl, rfl⟩ := List.map_eq_cons_iff.mp later
      obtain ⟨statements, reads⟩ := exists_bodyReads body
      exact ⟨_, .labelled name span colon reads⟩

theorem exists_unitReads_iff {cut : List (List (Located Token))} :
    (∃ statements, UnitReads cut statements) ↔
      ∀ segment ∈ cut, IsLine (segment.map Located.value) := by
  induction cut with
  | nil =>
    constructor
    · intro _ segment member
      cases member
    · intro _
      exact ⟨[], .nil⟩
  | cons segment cut ih =>
    rw [List.forall_mem_cons, ← ih, ← exists_lineReads_iff]
    constructor
    · rintro ⟨_, reads⟩
      cases reads with
      | cons line later => exact ⟨⟨_, line⟩, _, later⟩
    · rintro ⟨⟨part, line⟩, statements, later⟩
      exact ⟨_, .cons line later⟩

theorem unitReads_blank_iff : UnitReads [[]] statements ↔ statements = [] := by
  constructor
  · intro reads
    cases reads with
    | cons line later =>
      cases later
      cases line with
      | unlabelled body =>
        cases body
        rfl
  · rintro rfl
    exact .cons (.unlabelled .blank) .nil

theorem unitReads_cons_iff {segment : List (Located Token)} {cut : List (List (Located Token))} :
    UnitReads (segment :: cut) statements ↔
      ∃ part later, LineReads segment part ∧ UnitReads cut later ∧ statements = part ++ later := by
  constructor
  · intro reads
    cases reads with
    | cons line later => exact ⟨_, _, line, later, rfl⟩
  · rintro ⟨part, statements, line, later, rfl⟩
    exact .cons line later

theorem lineReads_label_iff {name : String} {span colon : Span} :
    LineReads (⟨.word name, span⟩ :: ⟨.colon, colon⟩ :: ts) statements ↔
      ∃ body, BodyReads ts body ∧ statements = .label ⟨name, span⟩ :: body := by
  constructor
  · intro reads
    cases reads with
    | unlabelled body => cases body
    | labelled _ _ _ body => exact ⟨_, body, rfl⟩
  · rintro ⟨body, reads, rfl⟩
    exact .labelled name span colon reads

theorem lineReads_iff_of_unlabelled (unlabelled : Unlabelled ts) :
    LineReads ts statements ↔ BodyReads ts statements := by
  constructor
  · intro reads
    cases reads with
    | unlabelled body => exact body
    | labelled name span colon => exact absurd rfl (unlabelled name span colon _)
  · exact .unlabelled

end Spec

section Segments

variable {s : TokenStream}

theorem segments_cases (s : TokenStream) :
    (s.rest = s.restOfLine ∧ s.skipLine.rest = [] ∧ segments s.rest = [s.restOfLine]) ∨
      ∃ t, t.value = .newline ∧ s.rest = s.restOfLine ++ t :: s.skipLine.rest ∧
        segments s.rest = s.restOfLine :: segments s.skipLine.rest := by
  have inLine : ∀ t ∈ s.restOfLine, decide (t.value = .newline) = false := by
    intro t member
    simpa using List.mem_takeWhile_imp member
  rcases s.skipLine_cases with ⟨whole, last⟩ | ⟨t, newline, cut⟩
  · refine .inl ⟨whole, last, ?_⟩
    rw [segments, whole]
    exact List.splitOnP_eq_singleton inLine
  · refine .inr ⟨t, newline, cut, ?_⟩
    rw [segments, cut, List.splitOnP_append_cons _ _ (by simpa using newline),
      List.splitOnP_eq_singleton inLine]
    rfl

theorem unitReads_segments_iff {statements : List Statement} :
    UnitReads (segments s.rest) statements ↔
      ∃ part later, LineReads s.restOfLine part ∧
        UnitReads (segments s.skipLine.rest) later ∧ statements = part ++ later := by
  rw [← unitReads_cons_iff]
  rcases segments_cases s with ⟨-, ended, last⟩ | ⟨-, -, -, same⟩
  · -- After the last line there is only a segment without tokens, which says nothing.
    rw [last, ended, segments, List.splitOnP_nil, unitReads_cons_iff, unitReads_cons_iff]
    simp only [unitReads_blank_iff]
    constructor
    · rintro ⟨part, _, line, later, rfl⟩
      cases later
      exact ⟨part, [], line, rfl, rfl⟩
    · rintro ⟨part, _, line, rfl, rfl⟩
      exact ⟨part, [], line, .nil, rfl⟩
  · rw [same]

end Segments
end PuzzleMachine
