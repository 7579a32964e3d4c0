import PuzzleMachine.Proofs.Diagnostics
import PuzzleMachine.Proofs.Spelling

set_option autoImplicit false

namespace PuzzleMachine

open Statement

/-- The opcode is forbidden, and its keyword, which starts where the instruction does, ends too
far. -/
def Hardware.Overruns (hw : Hardware) (i : Located SourceInstruction) : Prop :=
  ¬ hw.permits i.value.opcode ∧
    UInt32.size ≤ i.span.start.toNat + i.value.opcode.name.utf8ByteSize

section Told

variable {hw : Hardware} {units : List ParsedUnit} {s : Statement} {i : Located SourceInstruction}
  {v : Violation} {b : Breach}

theorem Opcode.name_small (op : Opcode) : op.name.utf8ByteSize < UInt32.size := by
  obtain _ | _ | _ | (_ | _ | _ | _) | _ | _ | _ | _ | (_ | _ | _ | _) := op <;> decide

theorem Violation.diagnostic_of_overrun {op : Opcode} {span : Span}
    (far : UInt32.size ≤ span.start.toNat + op.name.utf8ByteSize) :
    (opcodeNotPermitted op span).diagnostic = .error .outOfRange := by
  have size : (UInt32.ofNat op.name.utf8ByteSize).toNat = op.name.utf8ByteSize :=
    UInt32.toNat_ofNat_of_lt' op.name_small
  have large : ¬ span.start.toNat + op.name.utf8ByteSize < UInt32.size := Nat.not_lt.mpr far
  simp only [diagnostic, opcodeSpan, addWords, size, if_neg large, error_bind]

theorem Violation.diagnostic_error (failed : v.diagnostic = .error b) : b = .outOfRange := by
  cases v with
  | opcodeNotPermitted op span =>
    simp only [diagnostic, opcodeSpan, addWords] at failed
    split at failed <;> cases failed
    rfl
  | _ => cases failed

-- Most checks come to one violation unless something holds.
theorem mem_unless_iff {p : Prop} [Decidable p] {w : Violation} :
    v ∈ (if p then [] else [w]) ↔ ¬ p ∧ v = w := by
  split <;> simp [*]

theorem overruns_of_diagnostic_error (member : v ∈ statementViolations hw (.collect units) s)
    (failed : v.diagnostic = .error b) : ∃ i, s = .instruction i ∧ hw.Overruns i := by
  -- What goes wrong when a violation of a statement is told, goes wrong with its opcode.
  cases s with
  | label l =>
    rw [statementViolations, LabelTable.declarationViolations] at member
    split at member
    next => cases member
    next =>
      obtain ⟨-, rfl⟩ := mem_unless_iff.mp member
      cases failed
  | instruction i =>
    rw [statementViolations,
      instructionViolations_eq hw (fun _ => LabelTable.contains_collect)] at member
    obtain ⟨p, place, violated⟩ := List.mem_filterMap.mp member
    have unfit : ¬ ∀ j, p = .opcode j →
        j.span.start.toNat + j.value.opcode.name.utf8ByteSize < UInt32.size := by
      intro fits
      obtain ⟨d, told⟩ := diagnostic_of_violation violated fits
      cases failed.symm.trans told
    push Not at unfit
    obtain ⟨j, rfl, far⟩ := unfit
    -- Of the places in an instruction only the first one is an opcode.
    have same : j = i := by simpa using place
    subst same
    refine ⟨j, rfl, fun permitted => ?_, far⟩
    rw [Place.violation?, if_pos permitted] at violated
    cases violated

theorem mem_violations_of_overruns (inside : i ∈ units.flatMap ParsedUnit.instructions)
    (overruns : hw.Overruns i) :
    .opcodeNotPermitted i.value.opcode i.span ∈ violations hw units := by
  rw [flatMap_instructions, mem_instructions] at inside
  refine List.mem_flatMap.mpr ⟨_, inside, List.mem_append_left _ ?_⟩
  exact mem_unless_iff.mpr ⟨overruns.1, rfl⟩

theorem validate_breaks_iff :
    validate hw units = .error b ↔
      b = .outOfRange ∧ ∃ i ∈ units.flatMap ParsedUnit.instructions, hw.Overruns i := by
  rw [validate_error_iff]
  constructor
  · intro failed
    obtain ⟨v, member, failed⟩ := exists_of_mapM_error failed
    obtain ⟨s, inside, wrong⟩ := List.mem_flatMap.mp member
    obtain ⟨i, rfl, overruns⟩ := overruns_of_diagnostic_error wrong failed
    rw [flatMap_instructions]
    exact ⟨Violation.diagnostic_error failed, i, mem_instructions.mpr inside, overruns⟩
  · rintro ⟨rfl, i, inside, overruns⟩
    have untold := Violation.diagnostic_of_overrun overruns.2
    cases all : (violations hw units).mapM Violation.diagnostic with
    | error b =>
      obtain ⟨v, -, failed⟩ := exists_of_mapM_error all
      rw [Violation.diagnostic_error failed]
    | ok ds =>
      -- All of them can be told then, the one of the opcode included.
      have listed := mem_violations_of_overruns inside overruns
      obtain ⟨d, -, told⟩ := exists_related (mapM_ok_iff.mp all).flip listed
      cases untold.symm.trans told

end Told

def Hardware.without (op : Opcode) : Hardware := { Hardware.default with permits := (· != op) }

section Spread

variable {c : Char} {cs rest : List Char} {r : Reading} {n m : Nat} {sources : SourceMap}
  {id : UInt16}

theorem lexemes_blanks (n : Nat) (other : ∀ d, rest.head? = some d → isBlank d = false) :
    lexemes (List.replicate (n + 1) ' ' ++ rest) =
      ⟨List.replicate (n + 1) ' ', .trivia⟩ :: lexemes rest := by
  have blanks : (List.replicate n ' ' ++ rest).takeWhile isBlank = List.replicate n ' ' :=
    takeWhile_separated (fun d member => by rw [List.eq_of_mem_replicate member]; rfl) other
  have blank : isBlank ' ' = true := rfl
  exact lexemes_cons (by simp only [lexeme, blank, if_true, blanks])

theorem lexemes_word (start : isWordStart c = true) (parts : cs.all isWordPart = true)
    (separated : Separated rest) :
    lexemes (c :: cs ++ rest) = ⟨c :: cs, readWord (c :: cs)⟩ :: lexemes rest :=
  lexemes_cons (lexeme_word start parts separated)

def spread (n m : Nat) : SourceUnit where
  name := "spread"
  text := String.ofList (List.replicate n ' ' ++ (['W', 'R', 'I', 'T', 'E'] ++
    (List.replicate m ' ' ++ ['R', 'X', '1'])))

-- What is written there, where the words say that it is.
def spreadOut : ParsedUnit where
  file := 0
  statements := [.instruction
    ⟨.write ⟨.register (.user 1), ⟨0, 4294967292, 4294967295, 1, 4294967293⟩⟩,
      ⟨0, 4294967291, 4294967295, 1, 4294967292⟩⟩]

theorem lexemes_spread (n m : Nat) :
    lexemes (spread (n + 1) (m + 1)).text.toList =
      [⟨List.replicate (n + 1) ' ', .trivia⟩,
        ⟨['W', 'R', 'I', 'T', 'E'], .token (.opcode .write)⟩,
        ⟨List.replicate (m + 1) ' ', .trivia⟩,
        ⟨['R', 'X', '1'], .token (.register (.user 1))⟩] := by
  have keyword : readWord ['W', 'R', 'I', 'T', 'E'] = .token (.opcode .write) := by decide
  have operand : lexemes ['R', 'X', '1'] = [⟨['R', 'X', '1'], .token (.register (.user 1))⟩] := by
    decide +kernel
  have separated : Separated (List.replicate (m + 1) ' ' ++ ['R', 'X', '1']) := by
    intro d head
    cases head
    rfl
  rw [spread, String.toList_ofList, lexemes_blanks n, lexemes_word rfl rfl separated,
    lexemes_blanks m, keyword, operand]
  · intro d head
    cases head
    rfl
  · intro d head
    cases head
    rfl

theorem spread_size (n m : Nat) : (spread n m).text.utf8ByteSize = n + (5 + (m + 3)) := by
  rw [spread, ← Text.byteLength_eq_utf8ByteSize, String.toList_ofList]
  simp only [Text.byteLength_append, byteLength_replicate]
  rfl

theorem spread_plain (n m : Nat) : '\n' ∉ (spread n m).text.toList := by
  simp [spread]

-- On a single line columns are offsets, counted from one.
theorem lineColumn_plain {unit : SourceUnit} {offset : UInt32} (plain : '\n' ∉ unit.text.toList)
    (inside : offset ≤ .ofNat unit.text.utf8ByteSize) :
    (SourceFile.ofUnit unit).lineColumn offset =
      (addWords offset 1).map fun column => (1, column) := by
  have starts : (SourceFile.ofUnit unit).lineStarts[0]? = some 0 ∧
      (SourceFile.ofUnit unit).lineStarts.size ≤ 2 := by
    rw [SourceFile.ofUnit, SourceFile.indexLines, SourceFile.newlineEnds_plain plain]
    split <;> simp
  obtain ⟨first, single⟩ := starts
  have within : ¬ UInt32.ofNat (SourceFile.ofUnit unit).text.utf8ByteSize < offset :=
    UInt32.not_lt.mpr inside
  have filled : ¬ (SourceFile.ofUnit unit).lineStarts.isEmpty := by
    intro empty
    rw [Array.isEmpty_iff.mp empty] at first
    cases first
  have count : (SourceFile.ofUnit unit).lineCount =
      .ok ((SourceFile.ofUnit unit).lineStarts.size - 1) := if_neg filled
  have only : SourceFile.lineIndex (SourceFile.ofUnit unit).lineStarts offset 0
      (max ((SourceFile.ofUnit unit).lineStarts.size - 1) 1) = 0 := by
    rw [SourceFile.lineIndex, if_pos (by omega)]
  have forward : ¬ offset < 0 := by simp
  simp only [SourceFile.lineColumn, within, count, ok_bind, only, first, Checked.ofOption,
    forward, if_false, UInt32.sub_zero]
  cases addWords offset 1 <;> rfl

theorem span_plain {unit : SourceUnit} {start stop column : UInt32}
    (found : sources.get? id = some (.ofUnit unit)) (plain : '\n' ∉ unit.text.toList)
    (inside : start ≤ .ofNat unit.text.utf8ByteSize) (next : addWords start 1 = .ok column) :
    sources.span id start stop = .ok ⟨id, start, stop, 1, column⟩ := by
  rw [span_at _ found, lineColumn_plain plain inside, next]
  rfl

section Around

variable (around : n + 6 = UInt32.size) (full : m + 5 = UInt32.size)

include around full

theorem withRanges_spread :
    withRanges 0 (lexemes (spread (n + 1) (m + 1)).text.toList) =
      [(⟨List.replicate (n + 1) ' ', .trivia⟩, 0, 4294967291),
        (⟨['W', 'R', 'I', 'T', 'E'], .token (.opcode .write)⟩, 4294967291, 0),
        (⟨List.replicate (m + 1) ' ', .trivia⟩, 0, 4294967292),
        (⟨['R', 'X', '1'], .token (.register (.user 1))⟩, 4294967292, 4294967295)] := by
  have keyword : Text.byteLength ['W', 'R', 'I', 'T', 'E'] = 5 := rfl
  have operand : Text.byteLength ['R', 'X', '1'] = 3 := rfl
  rw [lexemes_spread]
  simp only [withRanges, byteLength_replicate, keyword, operand]
  -- Offsets are counted in words, and start again behind the keyword.
  have wraps {i j : Nat} (same : i % 2 ^ 32 = j % 2 ^ 32) : UInt32.ofNat i = .ofNat j := by
    rw [← UInt32.toNat_inj, UInt32.toNat_ofNat', UInt32.toNat_ofNat', same]
  have size : UInt32.size = 2 ^ 32 := rfl
  have first : UInt32.ofNat (0 + (n + 1)) = 4294967291 := @wraps _ 4294967291 (by omega)
  have second : UInt32.ofNat (0 + (n + 1) + 5) = 0 := @wraps _ 0 (by omega)
  have third : UInt32.ofNat (0 + (n + 1) + 5 + (m + 1)) = 4294967292 :=
    @wraps _ 4294967292 (by omega)
  have last : UInt32.ofNat (0 + (n + 1) + 5 + (m + 1) + 3) = 4294967295 :=
    @wraps _ 4294967295 (by omega)
  rw [first, second, third, last]
  rfl

theorem spread_stop :
    UInt32.ofNat (spread (n + 1) (m + 1)).text.utf8ByteSize = 4294967295 := by
  have size : UInt32.size = 2 ^ 32 := rfl
  have whole : n + 1 + (5 + (m + 1 + 3)) = 2 ^ 32 + 4294967295 := by omega
  rw [spread_size, whole]
  rfl

theorem scan_spread (found : sources.get? 0 = some (.ofUnit (spread (n + 1) (m + 1)))) :
    scan sources 0 = .ok (.ok [⟨.opcode .write, ⟨0, 4294967291, 0, 1, 4294967292⟩⟩,
      ⟨.register (.user 1), ⟨0, 4294967292, 4294967295, 1, 4294967293⟩⟩]) := by
  have plain := spread_plain (n + 1) (m + 1)
  have stop := spread_stop around full
  have keyword : sources.span 0 4294967291 0 = .ok ⟨0, 4294967291, 0, 1, 4294967292⟩ :=
    span_plain found plain (by rw [stop]; decide) rfl
  have operand : sources.span 0 4294967292 4294967295 =
      .ok ⟨0, 4294967292, 4294967295, 1, 4294967293⟩ :=
    span_plain found plain (by rw [stop]; decide) rfl
  have ranges := withRanges_spread around full
  simp only [scan, found, SourceFile.ofUnit, ranges, List.mapM_cons, List.mapM_nil, Lexeme.locate,
    keyword, operand, ok_bind]
  rfl

theorem parse_spread (found : sources.get? 0 = some (.ofUnit (spread (n + 1) (m + 1)))) :
    parse sources 0 = .ok (.ok spreadOut) := by
  rw [parse, scan_spread around full found, ok_bind]
  decide +kernel

theorem outcome_spread {hw : Hardware} (checked : hw.check = .ok ()) :
    outcome [spread (n + 1) (m + 1)] hw = validate hw [spreadOut] := by
  have single : [spread (n + 1) (m + 1)].length ≤ SourceMap.maxFiles := by
    simp [SourceMap.maxFiles]
  refine outcome_of_parseAll single checked (parseAll_ok_iff.mpr (.cons ?_ .nil))
  exact parse_spread around full rfl

end Around

end Spread

end PuzzleMachine
