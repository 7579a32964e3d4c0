import PuzzleMachine.Proofs.Positions

set_option autoImplicit false

namespace PuzzleMachine

open Text

theorem lexeme_plain {c : Char} {rest : List Char}
    (other : (lexeme c rest).reading ≠ .token .newline) : '\n' ∉ (lexeme c rest).text := by
  have first : '\n' ≠ c := by
    rintro rfl
    exact other rfl
  -- No run of characters that a lexeme takes goes past the end of its line.
  have run {p : Char → Bool} (stops : p '\n' = false) : '\n' ∉ rest.takeWhile p := by
    intro member
    rw [List.mem_takeWhile_imp member] at stops
    cases stops
  have blank := run (p := isBlank) rfl
  have comment := run (p := (· ≠ '\n')) rfl
  have word := run (p := isWordPart) rfl
  have number := run (p := Char.isDigit) rfl
  unfold lexeme
  split_ifs <;> simp_all

def positioned : List Char → List Lexeme → List (List Char × Lexeme)
  | _, [] => []
  | before, l :: ls => (before, l) :: positioned (before ++ l.text) ls

def placeAfter (before : List Char) (l : Lexeme) : Placed :=
  (l, .ofNat (byteLength before), .ofNat (byteLength before + byteLength l.text))

theorem withRanges_eq (before : List Char) (ls : List Lexeme) :
    withRanges (byteLength before) ls =
      (positioned before ls).map fun b => placeAfter b.1 b.2 := by
  induction ls generalizing before with
  | nil => rfl
  | cons l ls ih =>
    rw [withRanges, ← byteLength_append, ih, byteLength_append]
    rfl

theorem mem_positioned {before : List Char} {ls : List Lexeme} {b : List Char × Lexeme}
    (member : b ∈ positioned before ls) :
    b.2 ∈ ls ∧ ∃ after, before ++ ls.flatMap Lexeme.text = b.1 ++ (b.2.text ++ after) := by
  induction ls generalizing before with
  | nil => cases member
  | cons l ls ih =>
    rw [List.flatMap_cons]
    rcases List.mem_cons.mp member with rfl | later
    · exact ⟨List.mem_cons_self, _, rfl⟩
    · obtain ⟨inside, after, whole⟩ := ih later
      exact ⟨List.mem_cons_of_mem l inside, after, by rw [← whole, List.append_assoc]⟩

theorem mem_withRanges {text : List Char} {p : Placed} (member : p ∈ withRanges 0 (lexemes text)) :
    ∃ before after, text = before ++ (p.1.text ++ after) ∧ p = placeAfter before p.1 := by
  rw [← byteLength, withRanges_eq] at member
  obtain ⟨b, inside, rfl⟩ := List.mem_map.mp member
  obtain ⟨-, after, whole⟩ := mem_positioned inside
  rw [List.nil_append, lexemes_flatten] at whole
  exact ⟨b.1, after, whole, rfl⟩

section Lexemes

variable {sources : SourceMap} {id : UInt16} {unit : SourceUnit} {p : Placed} {span : Span}

theorem span_at (file : SourceFile) (found : sources.get? id = some file) (start stop : UInt32) :
    sources.span id start stop =
      (file.lineColumn start).map fun (line, column) => ⟨id, start, stop, line, column⟩ := by
  simp only [SourceMap.span, SourceMap.file, found, Checked.ofOption, ok_bind]
  cases file.lineColumn start <;> rfl

-- What is in a small enough file can be located, and is where the text before it ends.
theorem exists_span_at {before inside after : List Char}
    (found : sources.get? id = some (.ofUnit unit)) (bound : unit.text.utf8ByteSize < UInt32.size)
    (whole : unit.text.toList = before ++ (inside ++ after)) (filled : inside ≠ []) :
    ∃ span, sources.span id (.ofNat (byteLength before))
        (.ofNat (byteLength before + byteLength inside)) = .ok span ∧
      span.Marks before inside := by
  have size := byteLength_parts whole
  rw [byteLength_append] at size
  have taken := byteLength_pos filled
  have lines := byteLength_lines before
  -- The part itself is on the line, and its column is within the text as it is not empty.
  have onLine : OnLine before (inside ++ after) := .inl (by simp [filled])
  have room : columnAfter before < UInt32.size := by
    rw [columnAfter]
    omega
  have first : (UInt32.ofNat (byteLength before)).toNat = byteLength before :=
    UInt32.toNat_ofNat_of_lt' (by omega)
  have length : (UInt32.ofNat (byteLength before + byteLength inside)).toNat =
      byteLength before + byteLength inside := UInt32.toNat_ofNat_of_lt' (by omega)
  obtain ⟨line, column, located, isLine, isColumn⟩ :=
    SourceFile.lineColumn_ofUnit bound whole onLine first room
  refine ⟨⟨id, _, _, line, column⟩, ?_, first, length, isLine, isColumn⟩
  rw [span_at _ found, located]
  rfl

theorem exists_span (found : sources.get? id = some (.ofUnit unit))
    (bound : unit.text.utf8ByteSize < UInt32.size)
    (member : p ∈ withRanges 0 (lexemes unit.text.toList)) :
    ∃ span before after, sources.span id p.2.1 p.2.2 = .ok span ∧
      unit.text.toList = before ++ (p.1.text ++ after) ∧ span.Marks before p.1.text := by
  obtain ⟨before, after, whole, placed⟩ := mem_withRanges member
  obtain ⟨span, spanned, marks⟩ :=
    exists_span_at found bound whole (ne_nil_of_mem_withRanges member)
  rw [placed]
  exact ⟨span, before, after, spanned, whole, marks⟩

theorem marks_of_span_at {before inside after : List Char}
    (found : sources.get? id = some (.ofUnit unit)) (bound : unit.text.utf8ByteSize < UInt32.size)
    (whole : unit.text.toList = before ++ (inside ++ after)) (filled : inside ≠ [])
    (spanned : sources.span id (.ofNat (byteLength before))
      (.ofNat (byteLength before + byteLength inside)) = .ok span) : span.Marks before inside := by
  obtain ⟨span', spanned', marks⟩ := exists_span_at found bound whole filled
  cases spanned.symm.trans spanned'
  exact marks

theorem marks_of_span (found : sources.get? id = some (.ofUnit unit))
    (bound : unit.text.utf8ByteSize < UInt32.size)
    (member : p ∈ withRanges 0 (lexemes unit.text.toList))
    (spanned : sources.span id p.2.1 p.2.2 = .ok span) :
    ∃ before after, unit.text.toList = before ++ (p.1.text ++ after) ∧
      span.Marks before p.1.text := by
  obtain ⟨before, after, whole, placed⟩ := mem_withRanges member
  rw [placed] at spanned
  exact ⟨before, after, whole,
    marks_of_span_at found bound whole (ne_nil_of_mem_withRanges member) spanned⟩

theorem exists_locate (found : sources.get? id = some (.ofUnit unit))
    (bound : unit.text.utf8ByteSize < UInt32.size) :
    ∃ results, List.Forall₂ (fun p r => Lexeme.locate sources id p = .ok r)
      (withRanges 0 (lexemes unit.text.toList)) results := by
  refine exists_related_to_each fun p member => ?_
  obtain ⟨span, -, -, spanned, -⟩ := exists_span found bound member
  simp only [Lexeme.locate, spanned, ok_bind]
  split <;> exact ⟨_, rfl⟩

theorem locate_error_span {d : Diagnostic}
    (located : Lexeme.locate sources id p = .ok (some (.error d))) :
    d = { kind := .token, span := d.span, message := invalidMessage p.1.text } ∧
      sources.span id p.2.1 p.2.2 = .ok d.span := by
  cases locate_ok_iff.mp located with
  | fault read spanned told => exact ⟨told, spanned⟩

end Lexemes

theorem Span.Marks.snippet {sources : SourceMap} {unit : SourceUnit} {s : Span}
    {before inside after : List Char} (marks : s.Marks before inside)
    (found : sources.get? s.file = some (.ofUnit unit))
    (whole : unit.text.toList = before ++ (inside ++ after)) : sources.snippet s = .ok inside := by
  simp only [SourceMap.snippet, SourceMap.file, found, Checked.ofOption, ok_bind]
  exact marks.slice whole

-- The token is at what it is read from, which breaks a line only if the token is a newline.
def Located.Stands (t : Located Token) (text : List Char) : Prop :=
  ∃ before inside after, text = before ++ (inside ++ after) ∧ inside ≠ [] ∧
    t.span.Marks before inside ∧ (t.value ≠ .newline → '\n' ∉ inside)

namespace Located.Stands

variable {t : Located Token} {unit : SourceUnit}

theorem accurate (stands : t.Stands unit.text.toList)
    (bound : unit.text.utf8ByteSize < UInt32.size) : t.span.Accurate (.ofUnit unit) := by
  obtain ⟨before, inside, after, whole, filled, marks, -⟩ := stands
  exact marks.accurate bound whole (.inl (by simp [filled]))

theorem exists_justAfter (stands : t.Stands unit.text.toList) (fits : unit.Fits)
    (inLine : t.value ≠ .newline) (file : UInt16) : ∃ span, t.span.justAfter file = .ok span := by
  obtain ⟨before, inside, after, whole, -, marks, plain⟩ := stands
  rw [← List.append_assoc] at whole
  obtain ⟨span, placed, -⟩ := marks.justAfter (plain inLine) (fits.room whole) file
  exact ⟨span, placed⟩

theorem accurate_justAfter {file : UInt16} {span : Span} (stands : t.Stands unit.text.toList)
    (bound : unit.text.utf8ByteSize < UInt32.size) (inLine : t.value ≠ .newline)
    (next : t.span.justAfter file = .ok span) :
    span.file = file ∧ span.Accurate (.ofUnit unit) := by
  obtain ⟨before, inside, after, whole, filled, marks, plain⟩ := stands
  -- The token is on one line, so that this line is not empty behind it.
  have plain := plain inLine
  rw [← List.append_assoc] at whole
  obtain ⟨span', placed, same, marks'⟩ :=
    marks.justAfter plain (marks.room_of_justAfter plain next) file
  cases next.symm.trans placed
  refine ⟨same, marks'.accurate bound whole (.inr (.inl ?_))⟩
  simp [lastLine_append plain, filled]

end Located.Stands

section Scan

variable {sources : SourceMap} {id : UInt16} {unit : SourceUnit}

theorem exists_scan (found : sources.get? id = some (.ofUnit unit))
    (bound : unit.text.utf8ByteSize < UInt32.size) : ∃ result, scan sources id = .ok result := by
  obtain ⟨results, located⟩ := exists_locate found bound
  exact ⟨_, (scan_results_iff found).mpr ⟨results, located, rfl⟩⟩

theorem scan_stands {tokens : List (Located Token)}
    (found : sources.get? id = some (.ofUnit unit))
    (bound : unit.text.utf8ByteSize < UInt32.size)
    (scanned : scan sources id = .ok (.ok tokens)) : ∀ t ∈ tokens, t.Stands unit.text.toList := by
  intro t member
  obtain ⟨placed, results, sub, located, collected⟩ := scan_located found scanned
  rw [collect_ok collected.symm] at located
  obtain ⟨p, inside, here⟩ := exists_related located (List.mem_map_of_mem member)
  obtain ⟨read, spanned⟩ := locate_token_span here
  obtain ⟨before, after, whole, marks⟩ := marks_of_span found bound (sub.subset inside) spanned
  have filled := ne_nil_of_mem_withRanges (sub.subset inside)
  refine ⟨before, p.1.text, after, whole, filled, marks, fun inLine => ?_⟩
  obtain ⟨c, rest, same⟩ := mem_lexemes (mem_of_mem_withRanges (sub.subset inside))
  rw [same] at read ⊢
  exact lexeme_plain (by simpa [read] using inLine)

/-- Diagnostics of one file, each where its text says, in order of the places. -/
structure Told (file : UInt16) (unit : SourceUnit) (ds : List Diagnostic) : Prop where
  file : ∀ d ∈ ds, d.span.file = file
  accurate : ∀ d ∈ ds, d.span.Accurate (.ofUnit unit)
  ordered : ds.Pairwise fun a b => a.span.start < b.span.start

theorem scan_told {ds : List Diagnostic} (found : sources.get? id = some (.ofUnit unit))
    (bound : unit.text.utf8ByteSize < UInt32.size)
    (scanned : scan sources id = .ok (.error ds)) :
    Told id unit ds ∧ ∀ d ∈ ds, d.kind = .token ∧ d.notes = [] := by
  obtain ⟨placed, results, sub, located, collected⟩ := scan_located found scanned
  obtain ⟨rfl, -⟩ := collect_error collected.symm
  obtain ⟨wrong, sub', located⟩ := exists_related_failures located
  have sub := sub'.trans sub
  obtain ⟨placement, ordered⟩ := ranges_spec bound
  have starts : wrong.Pairwise fun p q => p.2.1.toNat < q.2.1.toNat := by
    refine (ordered.sublist sub).imp_of_mem fun {p q} inside _ after => ?_
    exact Nat.lt_of_lt_of_le (placement p (sub.subset inside)).1 after
  refine ⟨⟨fun d member => ?_, fun d member => ?_, ?_⟩, fun d member => ?_⟩
  · obtain ⟨p, -, here⟩ := exists_related located member
    exact (span_ok (locate_error_span here).2).1
  · obtain ⟨p, inside, here⟩ := exists_related located member
    obtain ⟨before, after, whole, marks⟩ :=
      marks_of_span found bound (sub.subset inside) (locate_error_span here).2
    have filled := ne_nil_of_mem_withRanges (sub.subset inside)
    exact marks.accurate bound whole (.inl (by simp [filled]))
  · refine pairwise_of_related located starts fun p q d e here there before => ?_
    rwa [(span_ok (locate_error_span here).2).2.1, (span_ok (locate_error_span there).2).2.1,
      UInt32.lt_iff_toNat_lt]
  · obtain ⟨p, -, here⟩ := exists_related located member
    rw [(locate_error_span here).1]
    exact ⟨rfl, rfl⟩

end Scan
end PuzzleMachine
