import PuzzleMachine.Proofs.Located
import PuzzleMachine.Proofs.Validation

set_option autoImplicit false

namespace PuzzleMachine

open Statement

def Operand.span : SourceOperand → Span
  | .dest r => r.span
  | .value v => v.span
  | .stack s => s.span
  | .target l => l.span

-- An instruction starts with its keyword.
def keywordSpan (i : Located SourceInstruction) : Span :=
  { i.span with stop := i.span.start + .ofNat i.value.opcode.name.utf8ByteSize }

def Place.mark : Place → Span
  | .declaration _ l => l.span
  | .opcode i => keywordSpan i
  | .operand o => o.span

def Statement.marks : Statement → List Span
  | .label l => [l.span]
  | .instruction i => keywordSpan i :: i.value.operands.map Operand.span

section Places

variable {hw : Hardware} {declared : List String} {earlier : List (Located String)}
  {program : List Statement} {p : Place} {v : Violation} {d : Diagnostic}

theorem map_mark_places : (places earlier program).map Place.mark = program.flatMap marks := by
  induction program generalizing earlier with
  | nil => rfl
  | cons s rest ih =>
    cases s with
    | label l => simp [places, marks, Place.mark, ih]
    | instruction i => simp [places, marks, Place.mark, ih]

theorem diagnostic_span (violated : p.violation? hw declared = some v)
    (told : v.diagnostic = .ok d) : d.span = p.mark := by
  cases p with
  | declaration earlier l =>
    obtain ⟨first, -, rfl⟩ := Option.map_eq_some_iff.mp violated
    cases told
    rfl
  | opcode i =>
    rw [Place.violation?] at violated
    split at violated <;> cases violated
    obtain ⟨span, placed, same⟩ := bind_ok_iff.mp told
    obtain ⟨stop, added, place⟩ := bind_ok_iff.mp placed
    cases same
    cases place
    rw [addWords] at added
    split at added <;> cases added
    rfl
  | operand o =>
    rcases o with ⟨_ | k | n, span⟩ | ⟨v | _ | k | n, span⟩ | s | l <;>
      simp only [Place.violation?] at violated <;> (try split at violated) <;>
      cases violated <;> cases told <;> rfl

theorem diagnostic_note (violated : p.violation? hw declared = some v)
    (told : v.diagnostic = .ok d) {note : Note} (member : note ∈ d.notes) :
    ∃ earlier l, p = .declaration earlier l ∧ ∃ first ∈ earlier, note.span = first.span := by
  cases p with
  | declaration earlier l =>
    obtain ⟨first, found, rfl⟩ := Option.map_eq_some_iff.mp violated
    cases told
    cases List.mem_singleton.mp member
    exact ⟨earlier, l, rfl, first, List.mem_of_find?_eq_some found, rfl⟩
  | opcode i =>
    rw [Place.violation?] at violated
    split at violated <;> cases violated
    obtain ⟨span, -, same⟩ := bind_ok_iff.mp told
    cases same
    cases member
  | operand o =>
    rcases o with ⟨_ | k | n, span⟩ | ⟨v | _ | k | n, span⟩ | s | l <;>
      simp only [Place.violation?] at violated <;> (try split at violated) <;>
      cases violated <;> cases told <;> cases member

-- Declarations before a place are those in `earlier`, and those of the program up to there.
theorem earlier_of_mem_places {before : List (Located String)} {l : Located String}
    (member : .declaration before l ∈ places earlier program) :
    ∀ first ∈ before, first ∈ earlier ∨ first.span ∈ program.flatMap marks := by
  induction program generalizing earlier with
  | nil => simp [places] at member
  | cons s rest ih =>
    cases s with
    | label l' =>
      intro first inside
      rw [places, List.mem_cons] at member
      rcases member with same | later
      · cases same
        exact .inl inside
      · rcases ih later first inside with known | later
        · rcases List.mem_append.mp known with known | new
          · exact .inl known
          · cases List.mem_singleton.mp new
            exact .inr List.mem_cons_self
        · exact .inr (List.mem_cons_of_mem _ later)
    | instruction i =>
      intro first inside
      have later : .declaration before l ∈ places earlier rest := by
        simpa [places] using member
      refine (ih later first inside).imp_right fun there => ?_
      rw [List.flatMap_cons]
      exact List.mem_append_right _ there

end Places

section Validation

variable {hw : Hardware} {units : List ParsedUnit} {ds : List Diagnostic}

theorem exists_validate (read : ∀ u ∈ units, u.FromSmallText)
    (files : (units.map ParsedUnit.file).Nodup) : ∃ result, validate hw units = .ok result := by
  by_cases none : violations hw units = []
  · exact ⟨_, dif_pos none⟩
  · obtain ⟨ds, told⟩ := exists_mapM_ok (@diagnostics_total hw _ read files)
    refine ⟨.error ds, ?_⟩
    rw [validate, dif_neg none, told]
    rfl

theorem validate_places (read : ∀ u ∈ units, u.FromSmallText)
    (files : (units.map ParsedUnit.file).Nodup) (rejected : validate hw units = .ok (.error ds)) :
    ds ≠ [] ∧ ∃ wrong, wrong.Sublist (places [] (units.flatMap ParsedUnit.statements)) ∧
      List.Forall₂ (fun p d => ∃ v,
        p.violation? hw (names (units.flatMap ParsedUnit.statements)) = some v ∧
          v.diagnostic = .ok d) wrong ds := by
  rw [validate] at rejected
  split at rejected
  next => cases rejected
  next some =>
    obtain ⟨ds, told, same⟩ := bind_ok_iff.mp rejected
    cases same
    have told := mapM_ok_iff.mp told
    rw [violations_eq read files] at told some
    refine ⟨fun none => some ?_, exists_filterMap_related told⟩
    rw [none] at told
    exact List.forall₂_nil_right_iff.mp told

theorem validate_error (read : ∀ u ∈ units, u.FromSmallText)
    (files : (units.map ParsedUnit.file).Nodup) (rejected : validate hw units = .ok (.error ds)) :
    ds ≠ [] ∧
      (ds.map Diagnostic.span).Sublist ((units.flatMap ParsedUnit.statements).flatMap marks) ∧
      ∀ d ∈ ds, ∀ note ∈ d.notes,
        note.span ∈ (units.flatMap ParsedUnit.statements).flatMap marks := by
  obtain ⟨some, wrong, sub, told⟩ := validate_places read files rejected
  refine ⟨some, ?_, ?_⟩
  · have spans : ds.map Diagnostic.span = wrong.map Place.mark := by
      rw [eq_comm, ← List.forall₂_eq_eq_eq, List.forall₂_map_left_iff, List.forall₂_map_right_iff]
      refine told.imp ?_
      rintro p d ⟨v, violated, told⟩
      exact (diagnostic_span violated told).symm
    rw [spans, ← @map_mark_places []]
    exact sub.map Place.mark
  · intro d member note noted
    obtain ⟨p, inside, v, violated, told⟩ := exists_related told member
    obtain ⟨earlier, l, rfl, first, known, same⟩ := diagnostic_note violated told noted
    rw [same]
    exact (earlier_of_mem_places (sub.subset inside) first known).resolve_left List.not_mem_nil

end Validation

section Reads

variable {id : UInt16} {ts : List (Located Token)} {statements : List Statement}

theorem keywordSpan_eq {i : SourceInstruction} {start : Span} {stop : UInt32}
    (laid : Laid id ts) (member : ⟨.opcode i.opcode, start⟩ ∈ ts) :
    keywordSpan ⟨i, { start with stop }⟩ = start := by
  have length : start.start.toNat + i.opcode.name.utf8ByteSize = start.stop.toNat :=
    laid.keyword _ member _ rfl
  have bound := start.stop.toNat_lt_size
  have stops : start.start + .ofNat i.opcode.name.utf8ByteSize = start.stop := by
    rw [← UInt32.toNat_inj, UInt32.toNat_add, UInt32.toNat_ofNat_of_lt' (by omega), length]
    exact Nat.mod_eq_of_lt bound
  rw [keywordSpan, stops]

theorem Denotes.span_eq {t : Located Token} {o : SourceOperand} (denotes : Denotes t o) :
    t.span = o.span := by
  cases denotes <;> rfl

theorem BodyReads.marks (reads : BodyReads ts statements) (laid : Laid id ts) :
    (statements.flatMap Statement.marks).Sublist (ts.map Located.span) := by
  cases reads with
  | blank => exact List.Sublist.refl _
  | @instruction i start ts last denotes =>
    have operands : ts.map Located.span = i.operands.map Operand.span := by
      rw [← List.forall₂_eq_eq_eq, List.forall₂_map_left_iff, List.forall₂_map_right_iff]
      exact denotes.imp fun _ _ here => here.span_eq
    simp only [List.flatMap_cons, Statement.marks, keywordSpan_eq laid List.mem_cons_self,
      List.flatMap_nil, List.append_nil, List.map_cons, operands]
    exact List.Sublist.refl _

theorem LineReads.marks (reads : LineReads ts statements) (laid : Laid id ts) :
    (statements.flatMap Statement.marks).Sublist (ts.map Located.span) := by
  cases reads with
  | unlabelled body => exact body.marks laid
  | @labelled ts statements name span colon body =>
    have later : ts.Sublist (⟨.word name, span⟩ :: ⟨.colon, colon⟩ :: ts) :=
      (List.sublist_cons_self _ _).trans (List.sublist_cons_self _ _)
    exact ((body.marks (laid.sublist later)).cons colon).cons_cons span

theorem UnitReads.marks {cut : List (List (Located Token))} (reads : UnitReads cut statements)
    (laid : Laid id cut.flatten) :
    (statements.flatMap Statement.marks).Sublist (cut.flatten.map Located.span) := by
  induction reads with
  | nil => exact List.Sublist.refl _
  | cons line _ ih =>
    rw [List.flatten_cons] at laid ⊢
    rw [List.flatMap_append, List.map_append]
    exact (line.marks (laid.sublist (List.sublist_append_left _ _))).append
      (ih (laid.sublist (List.sublist_append_right _ _)))

end Reads

-- Everything that can be wrong with a unit that has been read is somewhere in its file, and told in
-- the order of the text.
theorem marks_of_parse {sources : SourceMap} {id : UInt16} {unit : SourceUnit} {u : ParsedUnit}
    (found : sources.get? id = some (.ofUnit unit))
    (bound : unit.text.utf8ByteSize < UInt32.size) (parsed : parse sources id = .ok (.ok u)) :
    (∀ s ∈ u.statements.flatMap Statement.marks, s.file = id ∧ s.Accurate (.ofUnit unit)) ∧
      (u.statements.flatMap Statement.marks).Pairwise fun a b => a.start.toNat < b.start.toNat := by
  obtain ⟨tokens, scanned, parsed⟩ := parse_ok parsed
  have laid := scan_laid found bound scanned
  have stands := scan_stands found bound scanned
  obtain ⟨-, reads⟩ := (parseTokens_ok_iff laid.inOrder).mp parsed
  have sub := segments_sublist tokens
  have marks := (reads.marks (laid.sublist sub)).trans (sub.map Located.span)
  refine ⟨fun s member => ?_, laid.starts_lt.sublist marks⟩
  obtain ⟨t, inside, rfl⟩ := List.mem_map.mp (marks.subset member)
  exact ⟨laid.file t inside, (stands t inside).accurate bound⟩

end PuzzleMachine
