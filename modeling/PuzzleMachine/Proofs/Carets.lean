import PuzzleMachine.Proofs.Leniency
import PuzzleMachine.Proofs.Rendering

set_option autoImplicit false

namespace PuzzleMachine

open Text

section Compilation

variable {units : List SourceUnit} {hw : Hardware} {sources : SourceMap} {c : Compilation}
  {ds : List Diagnostic} {d : Diagnostic}

theorem parse_error_of_parseAll (failed : parseAll sources = .ok (.error ds)) (told : d ∈ ds) :
    ∃ id ∈ sources.ids, ∃ wrong, parse sources id = .ok (.error wrong) ∧ d ∈ wrong := by
  obtain ⟨results, reads, same⟩ := bind_ok_iff.mp failed
  cases collected : collect results with
  | ok =>
    rw [collected] at same
    cases same
  | error es =>
    rw [collected] at same
    cases same
    obtain ⟨rfl, -⟩ := collect_error collected
    obtain ⟨wrong, member, told⟩ := List.mem_flatten.mp told
    obtain ⟨id, inside, parsed⟩ := exists_related (mapM_ok_iff.mp reads) (mem_failures.mp member)
    exact ⟨id, inside, wrong, parsed, told⟩

theorem accurateIn_of_compile (bounds : ∀ unit ∈ units, unit.text.utf8ByteSize < UInt32.size)
    (compiled : compile units hw = .ok c) (failed : c.result = .error ds) :
    ∀ d ∈ ds, d.AccurateIn c.sources := by
  have small := small_ofUnits bounds
  by_cases count : units.length ≤ SourceMap.maxFiles
  · have reached := outcome_of_compile compiled
    rw [failed] at reached
    cases compiled.symm.trans (compile_of_outcome count reached)
    cases checked : hw.check with
    | error e =>
      cases reached.symm.trans (outcome_of_refused count checked)
      exact List.forall_mem_singleton.mpr (accurateIn_zero small rfl rfl)
    | ok =>
      rw [outcome_of_checked count checked] at reached
      obtain ⟨wrong | parsed, all, rejected⟩ := bind_ok_iff.mp reached
      · cases rejected
        intro d told
        obtain ⟨id, inside, wrong, parsed, told⟩ := parse_error_of_parseAll all told
        obtain ⟨unit, listed, found⟩ := exists_related (located_units count).flip inside
        exact accurateIn_of_parse_error found (bounds unit listed) parsed d told
      · refine accurateIn_of_rejected (fun u member => ?_) ?_ rejected
        · obtain ⟨unit, listed, found, read⟩ := exists_unit_of_parseAll count all u member
          exact ⟨unit, bounds unit listed, found, read⟩
        · rw [files_of_parseAll all]
          exact ids_nodup (by rwa [size_ofUnits])
  · rw [compile_of_many (Nat.lt_of_not_le count)] at compiled
    cases compiled
    cases failed
    exact List.forall_mem_singleton.mpr (accurateIn_zero small_empty rfl rfl)

theorem sources_of_compile (count : units.length ≤ SourceMap.maxFiles)
    (compiled : compile units hw = .ok c) : c.sources = .ofUnits units := by
  have same := compiled.symm.trans (compile_of_outcome count (outcome_of_compile compiled))
  rw [Except.ok.inj same]

theorem small_of_compile (bounds : ∀ unit ∈ units, unit.text.utf8ByteSize < UInt32.size)
    (compiled : compile units hw = .ok c) : c.sources.Small := by
  by_cases count : units.length ≤ SourceMap.maxFiles
  · rw [sources_of_compile count compiled]
    exact small_ofUnits bounds
  · rw [compile_of_many (Nat.lt_of_not_le count)] at compiled
    cases compiled
    exact small_empty

end Compilation

theorem byteLength_of_ascii {cs : List Char} (ascii : ∀ c ∈ cs, c.toNat < 128) :
    byteLength cs = cs.length := by
  induction cs with
  | nil => rfl
  | cons c cs ih =>
    obtain ⟨first, later⟩ := List.forall_mem_cons.mp ascii
    have single : c.utf8Size = 1 :=
      Char.utf8Size_eq_one_iff.mpr (UInt32.le_iff_toNat_le.mpr (Nat.le_of_lt_succ first))
    rw [byteLength, single, ih later, List.length_cons, Nat.add_comm]

-- A span is as far behind the start of its line as its column says.
theorem Span.Accurate.line_start {unit : SourceUnit} {s : Span} {start stop : UInt32}
    (accurate : s.Accurate (.ofUnit unit)) (bound : unit.text.utf8ByteSize < UInt32.size)
    (range : (SourceFile.ofUnit unit).lineRange? s.line = some (start, stop)) :
    start.toNat + s.column.toNat = s.start.toNat + 1 := by
  obtain ⟨before, inside, after, whole, marks, -⟩ := accurate.cut
  obtain ⟨-, first, -⟩ := SourceFile.lineRange?_eq_some range
  have index : s.line.toNat - 1 = before.count '\n' := by
    rw [marks.line, lineAfter, Nat.add_sub_cancel]
  rw [index, SourceFile.lineStart_ofUnit bound whole] at first
  cases first
  have whole : unit.text.toList = before ++ (inside ++ after) := whole
  have size := byteLength_parts whole
  have parts := byteLength_lines before
  rw [UInt32.toNat_ofNat_of_lt' (by omega), marks.column, marks.start, columnAfter]
  omega

namespace Diagnostic

section Underline

variable {s : Span} {width : Nat} {number : UInt32}

def gutter (number : UInt32) : List Char := (lineNumber number).toList ++ [' ', '|', ' ']

def caretLine (s : Span) (width : Nat) : List Char :=
  [' ', ' ', ' ', '|', ' '] ++ (underline s width).toList

theorem length_gutter (number : UInt32) :
    (gutter number).length = max 3 (Nat.toDigits 10 number.toNat).length + 3 := by
  rw [gutter, lineNumber, String.toList_ofList, List.length_append, List.length_append,
    List.length_replicate]
  simp only [List.length_cons, List.length_nil]
  omega

theorem toList_caretLine (s : Span) (width : Nat) :
    caretLine s width = [' ', ' ', ' ', '|', ' '] ++ (List.replicate (s.column.toNat - 1) ' ' ++
      List.replicate (max (min (s.column.toNat + (s.stop.toNat - s.start.toNat)) (width + 1) -
        s.column.toNat) 1) '^') := by
  rw [caretLine, underline, String.toList_ofList]

theorem idxOf_caretLine (s : Span) (width : Nat) :
    (caretLine s width).idxOf '^' = 5 + (s.column.toNat - 1) := by
  obtain ⟨n, some⟩ : ∃ n, max (min (s.column.toNat + (s.stop.toNat - s.start.toNat)) (width + 1) -
      s.column.toNat) 1 = n + 1 := Nat.exists_eq_add_one.mpr (by omega)
  rw [toList_caretLine, some, List.idxOf_append_of_notMem (by decide),
    List.idxOf_append_of_notMem (by simp), List.length_replicate, List.replicate_succ,
    List.idxOf_cons_self, Nat.add_zero]
  rfl

theorem count_caretLine (s : Span) (width : Nat) :
    (caretLine s width).count '^' = max 1
      (min (s.column.toNat + (s.stop.toNat - s.start.toNat)) (width + 1) - s.column.toNat) := by
  rw [toList_caretLine, List.count_append, List.count_append, List.count_replicate_self,
    List.count_replicate, Nat.max_comm]
  simp

theorem caretLine_plain (s : Span) (width : Nat) : '\n' ∉ caretLine s width := by
  simp [toList_caretLine]

theorem render_line {sources : SourceMap} {d : Diagnostic} {file : SourceFile} {line : List Char}
    (found : sources.get? d.span.file = some file)
    (printed : file.lineText? d.span.line = .ok (some line)) :
    ∃ rest, d.render sources = .ok
      (s!"error: {d.kind.name}: {d.message}\n  --> {file.name}:{d.span.line}:{d.span.column}\n" ++
        "   |\n" ++ String.ofList (gutter d.span.line ++ line) ++ "\n" ++
        String.ofList (caretLine d.span (byteLength line)) ++ "\n" ++ rest) := by
  let notes := String.join (d.notes.map (noteText sources))
  let hints := String.join (d.hints.map fun hint => s!"   = help: {hint}\n")
  refine ⟨notes ++ hints, ?_⟩
  simp only [render, found, excerpt, printed, ok_bind]
  refine congrArg Except.ok (String.toList_injective ?_)
  simp [gutter, caretLine, notes, hints, toString]

end Underline
end Diagnostic

/-- Wherever the line that a diagnostic is about is printed, there are as many carets below as the
span has characters of it, or one. They stand to the left of where these are, by one column and, if
the number of the line has more than three digits, by another one for each of the others. -/
theorem carets_left_of_span {units : List SourceUnit} {hw : Hardware} {c : Compilation}
    {ds : List Diagnostic} {d : Diagnostic} {file : SourceFile} {line : List Char}
    (bounds : ∀ unit ∈ units, unit.text.utf8ByteSize < UInt32.size)
    (compiled : compile units hw = .ok c) (failed : c.result = .error ds) (told : d ∈ ds)
    (found : c.sources.get? d.span.file = some file)
    (printed : file.lineText? d.span.line = .ok (some line)) (ascii : ∀ ch ∈ line, ch.toNat < 128) :
    ∃ (carets : List Char) (rest : String) (start stop : UInt32),
      d.render c.sources = .ok
        (s!"error: {d.kind.name}: {d.message}\n  --> {file.name}:{d.span.line}:{d.span.column}\n" ++
          "   |\n" ++ String.ofList (Diagnostic.gutter d.span.line ++ line) ++ "\n" ++
          String.ofList carets ++ "\n" ++ rest) ∧ '\n' ∉ carets ∧
      file.lineRange? d.span.line = some (start, stop) ∧
      start.toNat + d.span.column.toNat = d.span.start.toNat + 1 ∧
      carets.idxOf '^' + max 1 ((Nat.toDigits 10 d.span.line.toNat).length - 2) =
        (Diagnostic.gutter d.span.line).length + (d.span.column.toNat - 1) ∧
      carets.count '^' =
        max 1 (min d.span.stop.toNat (start.toNat + line.length) - d.span.start.toNat) := by
  obtain ⟨rest, rendered⟩ := Diagnostic.render_line found printed
  have accurate := accurateIn_of_compile bounds compiled failed d told _ List.mem_cons_self _ found
  obtain ⟨unit, rfl, bound⟩ := small_of_compile bounds compiled _ _ found
  obtain ⟨start, stop, range⟩ := SourceFile.exists_lineRange printed
  have column := accurate.line_start bound range
  have forward := UInt32.le_iff_toNat_le.mp accurate.forward
  refine ⟨_, rest, start, stop, rendered, Diagnostic.caretLine_plain _ _, range, column, ?_, ?_⟩
  · rw [Diagnostic.idxOf_caretLine, Diagnostic.length_gutter]
    omega
  · rw [Diagnostic.count_caretLine, byteLength_of_ascii ascii]
    omega

def doubler : SourceUnit := ⟨"doubler", "READ RX0\nADD RX4 RX0\n"⟩

theorem doubler_carets :
    ∃ c d, compile [doubler] .default = .ok c ∧ c.result = .error [d] ∧
      d.span = ⟨0, 13, 16, 2, 5⟩ ∧
      d.render c.sources = .ok ("error: invalid register: invalid reference to register RX4\n" ++
        "  --> doubler:2:5\n   |\n  2 | ADD RX4 RX0\n   |     ^^^\n" ++
        "   = help: this hardware has 1 register\n") ∧
      "   |     ^^^".toList.idxOf '^' ≠ "  2 | ADD RX4 RX0".toList.idxOf 'A' + (5 - 1) := by
  obtain ⟨c, ds, compiled, failed, told⟩ := @refused_of_any [doubler] .default
    (fun ds => ds = [⟨.invalidRegister, ⟨0, 13, 16, 2, 5⟩, "invalid reference to register RX4", [],
      ["this hardware has 1 register"]⟩]) _ (by decide +kernel)
  rw [told] at failed
  refine ⟨c, _, compiled, failed, rfl, ?_, by decide⟩
  rw [sources_of_compile (by decide) compiled]
  decide +kernel

theorem incomplete_carets :
    (∀ unit ∈ [incomplete], unit.text.utf8ByteSize < UInt32.size) ∧
      ∃ c d file carets, compile [incomplete] .default = .ok c ∧ c.result = .error [d] ∧
        c.sources.get? d.span.file = some file ∧
        file.lineText? d.span.line = .ok (some ['J', 'M', 'P']) ∧ d.span.column = 4 ∧
        carets.idxOf '^' + 1 = 6 + 3 ∧ carets.count '^' = 1 ∧
        ∃ shown rest, d.render c.sources = .ok (shown ++ String.ofList carets ++ "\n" ++ rest) := by
  have bounds : ∀ unit ∈ [incomplete], unit.text.utf8ByteSize < UInt32.size := by decide +kernel
  obtain ⟨c, ds, compiled, failed, told⟩ := @refused_of_any [incomplete] .default
    (fun ds => ds.map Diagnostic.span = [⟨0, 14, 14, 2, 4⟩]) _ (by decide +kernel)
  obtain ⟨d, rfl, span⟩ := List.map_eq_singleton_iff.mp told
  have found : c.sources.get? d.span.file = some (.ofUnit incomplete) := by
    rw [sources_of_compile (by decide) compiled, span]
    rfl
  have printed : (SourceFile.ofUnit incomplete).lineText? d.span.line =
      .ok (some ['J', 'M', 'P']) := by
    rw [span]
    decide +kernel
  obtain ⟨carets, rest, start, stop, rendered, -, range, column, first, count⟩ :=
    carets_left_of_span bounds compiled failed List.mem_cons_self found printed (by simp)
  have digits : (Nat.toDigits 10 2).length = 1 := by decide +kernel
  rw [Diagnostic.length_gutter] at first
  rw [span] at column first count
  refine ⟨bounds, c, d, _, carets, compiled, failed, found, printed, by rw [span], ?_, ?_, _, rest,
    rendered⟩
  · simpa [digits] using first
  -- The line starts at the eleventh byte, and all of it is before the span.
  · have start : start.toNat = 11 := by simpa using column
    simpa [start] using count

end PuzzleMachine
