import Mathlib.Data.List.Chain
import PuzzleMachine.Diagnostic.Render
import PuzzleMachine.Proofs.Diagnostics

set_option autoImplicit false

namespace PuzzleMachine

open Text

namespace SourceFile

def Cut (text : List Char) (start stop : UInt32) : Prop :=
  ∃ before inside after, text = before ++ (inside ++ after) ∧ start.toNat = byteLength before ∧
    stop.toNat = byteLength before + byteLength inside

section Lines

variable {text before line rest : List Char} {unit : SourceUnit}

theorem newlineEnds_cut (bound : byteLength text < UInt32.size)
    (whole : text = before ++ (line ++ rest)) :
    (UInt32.ofNat (byteLength before) ::
      (newlineEnds (byteLength before + byteLength line) rest ++
        [.ofNat (byteLength text)])).IsChain (Cut text) := by
  -- `line` is what has been read of the line that starts behind `before`.
  induction rest generalizing before line with
  | nil =>
    have size := congrArg byteLength whole
    simp only [byteLength_append, byteLength] at size
    refine List.isChain_cons_cons.mpr ⟨⟨before, line, [], whole, ?_, ?_⟩, .singleton _⟩
    · exact UInt32.toNat_ofNat_of_lt' (by omega)
    · rw [UInt32.toNat_ofNat_of_lt' bound, size, Nat.add_zero]
  | cons c rest ih =>
    have size := congrArg byteLength whole
    simp only [byteLength_append, byteLength] at size
    have longer : byteLength (line ++ [c]) = byteLength line + c.utf8Size := by
      simp [byteLength]
    rw [newlineEnds]
    split
    · have later := @ih (before ++ (line ++ [c])) [] (by simp [whole])
      rw [byteLength_append, longer, byteLength, Nat.add_zero, ← Nat.add_assoc] at later
      refine List.isChain_cons_cons.mpr ⟨⟨before, line ++ [c], rest, by simp [whole], ?_, ?_⟩, later⟩
      · exact UInt32.toNat_ofNat_of_lt' (by omega)
      · rw [UInt32.toNat_ofNat_of_lt' (by omega), longer, Nat.add_assoc]
    · have later := @ih before (line ++ [c]) (by simp [whole])
      rwa [longer, ← Nat.add_assoc] at later

theorem lineStarts_cut (bound : unit.text.utf8ByteSize < UInt32.size) :
    (ofUnit unit).lineStarts.toList.IsChain (Cut unit.text.toList) := by
  have size : byteLength unit.text.toList = unit.text.utf8ByteSize :=
    byteLength_eq_utf8ByteSize unit.text
  have chain := @newlineEnds_cut unit.text.toList [] [] unit.text.toList (by omega) rfl
  rw [ofUnit, toList_indexLines bound]
  rw [size] at chain
  split
  · rw [List.append_nil]
    exact chain.prefix ⟨_, rfl⟩
  · exact chain

theorem lineRange?_eq_some {file : SourceFile} {number start stop : UInt32}
    (range : file.lineRange? number = some (start, stop)) :
    number ≠ 0 ∧ file.lineStarts[number.toNat - 1]? = some start ∧
      file.lineStarts[number.toNat]? = some stop := by
  rw [lineRange?] at range
  by_cases zero : number = 0
  · simp [zero] at range
  · simp only [zero, if_false] at range
    obtain ⟨_, first, range⟩ := Option.bind_eq_some_iff.mp range
    obtain ⟨_, second, same⟩ := Option.bind_eq_some_iff.mp range
    cases same
    exact ⟨zero, first, second⟩

theorem cut_of_lineRange? (bound : unit.text.utf8ByteSize < UInt32.size)
    {number start stop : UInt32} (range : (ofUnit unit).lineRange? number = some (start, stop)) :
    Cut unit.text.toList start stop := by
  obtain ⟨some, first, second⟩ := lineRange?_eq_some range
  have next : number.toNat - 1 + 1 = number.toNat := by
    have := UInt32.toNat_inj.not.mpr some
    rw [UInt32.toNat_zero] at this
    omega
  rw [← next] at second
  rw [← Array.getElem?_toList] at first second
  obtain ⟨_, first⟩ := List.getElem?_eq_some_iff.mp first
  obtain ⟨inside, second⟩ := List.getElem?_eq_some_iff.mp second
  have cut := List.isChain_iff_getElem.mp (lineStarts_cut bound) _ inside
  rwa [first, second] at cut

theorem exists_lineRange {file : SourceFile} {number : UInt32} {line : List Char}
    (printed : file.lineText? number = .ok (some line)) :
    ∃ start stop, file.lineRange? number = some (start, stop) := by
  rw [lineText?] at printed
  cases range : file.lineRange? number with
  | none =>
    rw [range] at printed
    cases printed
  | some cut => exact ⟨cut.1, cut.2, rfl⟩

theorem exists_lineText (bound : unit.text.utf8ByteSize < UInt32.size) (number : UInt32) :
    ∃ text?, (ofUnit unit).lineText? number = .ok text? := by
  rw [lineText?]
  cases range : (ofUnit unit).lineRange? number with
  | none => exact ⟨none, rfl⟩
  | some cut =>
    obtain ⟨before, inside, after, whole, start, stop⟩ := cut_of_lineRange? bound range
    have sliced : (ofUnit unit).slice cut.1 cut.2 = .ok inside := by
      rw [slice, ofUnit, whole, start, stop, slice?_middle]
      rfl
    exact ⟨some (dropLineEnd inside), by simp only [sliced]; rfl⟩

end Lines

end SourceFile

def SourceMap.Small (sources : SourceMap) : Prop :=
  ∀ id file, sources.get? id = some file →
    ∃ unit : SourceUnit, file = .ofUnit unit ∧ unit.text.utf8ByteSize < UInt32.size

section Rendering

variable {sources : SourceMap} {units : List SourceUnit}

theorem small_empty : SourceMap.empty.Small := by
  intro id file found
  simp [SourceMap.empty, SourceMap.get?] at found

theorem mem_of_get?_ofUnits {id : UInt16} {file : SourceFile}
    (found : (SourceMap.ofUnits units).get? id = some file) :
    ∃ unit ∈ units, file = .ofUnit unit := by
  rw [get?_ofUnits, Option.map_eq_some_iff] at found
  obtain ⟨unit, there, rfl⟩ := found
  exact ⟨unit, List.mem_of_getElem? there, rfl⟩

theorem small_ofUnits (bounds : ∀ unit ∈ units, unit.text.utf8ByteSize < UInt32.size) :
    (SourceMap.ofUnits units).Small := by
  intro id file found
  obtain ⟨unit, member, rfl⟩ := mem_of_get?_ofUnits found
  exact ⟨unit, rfl, bounds unit member⟩

namespace Diagnostic

theorem exists_render (small : sources.Small) (d : Diagnostic) :
    ∃ text, render sources d = .ok text := by
  rw [render]
  cases found : sources.get? d.span.file with
  | none => exact ⟨_, rfl⟩
  | some file =>
    obtain ⟨unit, rfl, bound⟩ := small _ _ found
    obtain ⟨text?, line⟩ := SourceFile.exists_lineText bound d.span.line
    simp only [excerpt, line, ok_bind]
    cases text? <;> exact ⟨_, rfl⟩

theorem exists_renderAll (small : sources.Small) (ds : List Diagnostic) :
    ∃ text, renderAll sources ds = .ok text := by
  obtain ⟨texts, rendered⟩ := exists_mapM_ok fun d (_ : d ∈ ds) => exists_render small d
  rw [renderAll, rendered]
  exact ⟨_, rfl⟩

def spans (d : Diagnostic) : List Span := d.span :: d.notes.map Note.span

end Diagnostic

/-- What the diagnostic tells of places is right about the files that there are. -/
def Diagnostic.AccurateIn (d : Diagnostic) (sources : SourceMap) : Prop :=
  ∀ s ∈ d.spans, ∀ file, sources.get? s.file = some file → s.Accurate file

variable {results : List (Diagnosed ParsedUnit)} {parsed : List ParsedUnit} {hw : Hardware}
  {ds : List Diagnostic}

-- What is about no file in particular is said of the beginning of the first one.
theorem accurateIn_zero (small : sources.Small) {d : Diagnostic} (span : d.span = .zero 0)
    (plain : d.notes = []) : d.AccurateIn sources := by
  intro s member file found
  rw [Diagnostic.spans, plain, List.map_nil, List.mem_singleton] at member
  obtain ⟨unit, rfl, bound⟩ := small _ _ found
  rw [member, span]
  exact Span.accurate_zero bound 0

theorem accurateIn_of_parse_error {id : UInt16} {unit : SourceUnit}
    (found : sources.get? id = some (.ofUnit unit))
    (bound : unit.text.utf8ByteSize < UInt32.size)
    (parsed : parse sources id = .ok (.error ds)) : ∀ d ∈ ds, d.AccurateIn sources := by
  intro d told s member file there
  obtain ⟨places, plain, -⟩ := parse_error_told found bound parsed
  rw [Diagnostic.spans, plain d told, List.map_nil, List.mem_singleton] at member
  rw [member, places.file d told] at there
  cases found.symm.trans there
  exact member ▸ places.accurate d told

theorem accurateIn_of_failures
    (reads : List.Forall₂ sources.Reads sources.ids results) {ds : List Diagnostic}
    (failed : ds ∈ failures results) : ∀ d ∈ ds, d.AccurateIn sources := by
  obtain ⟨id, -, unit, fits, there, parsed⟩ := exists_related reads (mem_failures.mp failed)
  exact accurateIn_of_parse_error there fits.bytes parsed

def ParsedUnit.ReadIn (u : ParsedUnit) (sources : SourceMap) : Prop :=
  ∃ unit : SourceUnit, unit.text.utf8ByteSize < UInt32.size ∧
    sources.get? u.file = some (.ofUnit unit) ∧ parse sources u.file = .ok (.ok u)

theorem accurate_of_marks (read : ∀ u ∈ parsed, u.ReadIn sources) {s : Span}
    (mark : s ∈ (parsed.flatMap ParsedUnit.statements).flatMap Statement.marks)
    {file : SourceFile} (found : sources.get? s.file = some file) : s.Accurate file := by
  rw [List.flatMap_assoc] at mark
  obtain ⟨u, member, mark⟩ := List.mem_flatMap.mp mark
  obtain ⟨unit, bound, there, parsed⟩ := read u member
  obtain ⟨same, accurate⟩ := (marks_of_parse there bound parsed).1 s mark
  rw [same] at found
  cases there.symm.trans found
  exact accurate

theorem accurateIn_of_rejected (read : ∀ u ∈ parsed, u.ReadIn sources)
    (files : (parsed.map ParsedUnit.file).Nodup)
    (rejected : validate hw parsed = .ok (.error ds)) : ∀ d ∈ ds, d.AccurateIn sources := by
  have fromSmallText : ∀ u ∈ parsed, u.FromSmallText := fun u member =>
    have ⟨_, bound, found, parsed⟩ := read u member
    ⟨_, ⟨sources, _, found, rfl, parsed⟩, bound⟩
  obtain ⟨-, sub, notes⟩ := validate_error fromSmallText files rejected
  intro d told s member file found
  refine accurate_of_marks read ?_ found
  rcases List.mem_cons.mp member with rfl | later
  · exact sub.subset (List.mem_map_of_mem told)
  · obtain ⟨note, noted, rfl⟩ := List.mem_map.mp later
    exact notes d told note noted

theorem accurateIn_of_validate (count : sources.size ≤ SourceMap.maxFiles)
    (reads : List.Forall₂ sources.Reads sources.ids (parsed.map .ok))
    (rejected : validate hw parsed = .ok (.error ds)) : ∀ d ∈ ds, d.AccurateIn sources := by
  refine accurateIn_of_rejected (fun u member => ?_) (files_of_reads count reads) rejected
  obtain ⟨id, -, unit, fits, found, read⟩ := exists_related reads (List.mem_map_of_mem member)
  have file := parse_file read
  exact ⟨unit, fits.bytes, file ▸ found, file ▸ read⟩

end Rendering

/-- Whatever is compiled, for whatever machine, compiling and rendering what it tells come to an
end, and every place that is told of is one that the file has and says the same of. -/
theorem compile_told_and_rendered {units : List SourceUnit} (fits : ∀ unit ∈ units, unit.Fits)
    (hw : Hardware) :
    ∃ c, compile units hw = .ok c ∧ ∀ ds, c.result = .error ds →
      (∃ text, Diagnostic.renderAll c.sources ds = .ok text) ∧
        ∀ d ∈ ds, d.AccurateIn c.sources := by
  have small := small_ofUnits fun unit member => (fits unit member).bytes
  have rendered (ds : List Diagnostic) := Diagnostic.exists_renderAll small ds
  by_cases count : units.length ≤ SourceMap.maxFiles
  next =>
    cases checked : hw.check with
    | error e =>
      have reached := compile_of_outcome count (outcome_of_refused count checked)
      refine ⟨_, reached, fun ds failed => ?_⟩
      cases failed
      refine ⟨rendered _, List.forall_mem_singleton.mpr ?_⟩
      exact accurateIn_zero small rfl rfl
    | ok =>
      obtain ⟨results, reads, reached⟩ := compile_cases count fits checked
      rw [← size_ofUnits] at count
      rcases reached with ⟨-, same⟩ | ⟨parsed, result, rfl, valid, same⟩
      · refine ⟨_, same, fun ds failed => ?_⟩
        cases failed
        refine ⟨rendered _, fun d told => ?_⟩
        obtain ⟨ds, member, told⟩ := List.mem_flatten.mp told
        exact accurateIn_of_failures reads member d told
      · refine ⟨_, same, fun ds failed => ?_⟩
        cases failed
        exact ⟨rendered _, accurateIn_of_validate count reads valid⟩
  next =>
    have reached : compile units hw = .ok ⟨.empty, .error [tooManyUnits units.length]⟩ :=
      if_pos (Nat.lt_of_not_le count)
    refine ⟨_, reached, fun ds failed => ?_⟩
    cases failed
    refine ⟨Diagnostic.exists_renderAll small_empty _, List.forall_mem_singleton.mpr ?_⟩
    exact accurateIn_zero small_empty rfl rfl

def incomplete : SourceUnit := ⟨"main", "; Zürich\r\nJMP"⟩

theorem incomplete_rendered :
    (∀ unit ∈ [incomplete], unit.Fits) ∧
      ∃ c ds, compile [incomplete] .default = .ok c ∧ c.result = .error ds ∧
        ds.map Diagnostic.span = [⟨0, 14, 14, 2, 4⟩] ∧
        (∃ text, Diagnostic.renderAll c.sources ds = .ok text) ∧
        ∀ d ∈ ds, d.AccurateIn c.sources := by
  have fits : ∀ unit ∈ [incomplete], unit.Fits := by decide +kernel
  obtain ⟨c, ds, compiled, failed, place⟩ := @refused_of_any [incomplete] .default
    (fun ds => ds.map Diagnostic.span = [⟨0, 14, 14, 2, 4⟩]) _ (by decide +kernel)
  obtain ⟨c', compiled', told⟩ := compile_told_and_rendered fits .default
  cases compiled.symm.trans compiled'
  obtain ⟨rendered, accurate⟩ := told ds failed
  exact ⟨fits, c, ds, compiled, failed, place, rendered, accurate⟩

-- The end of a line can be too far for a column though all offsets in it are not.
theorem padded_not_rendered :
    (∀ unit ∈ [padded 4294967290], unit.text.utf8ByteSize < UInt32.size) ∧
      compile [padded 4294967290] .default = .error .outOfRange := by
  refine ⟨?_, compile_padded 4294967289 (by decide) (by decide) rfl⟩
  rw [List.forall_mem_singleton, padded_size]
  decide

end PuzzleMachine
