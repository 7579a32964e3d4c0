import Mathlib.Data.List.TakeWhile
import PuzzleMachine.Proofs.Scan

set_option autoImplicit false

namespace PuzzleMachine

namespace Text

def earlierLines (cs : List Char) : List Char := (cs.reverse.dropWhile (· ≠ '\n')).reverse

def lastLine (cs : List Char) : List Char := (cs.reverse.takeWhile (· ≠ '\n')).reverse

def lineAfter (before : List Char) : Nat := before.count '\n' + 1

def columnAfter (before : List Char) : Nat := byteLength (lastLine before) + 1

/-- The position between `before` and `after` is on the line that goes on there. Behind the last
newline of a text no line goes on. -/
def OnLine (before after : List Char) : Prop := after ≠ [] ∨ lastLine before ≠ [] ∨ before = []

section Lines

variable {cs xs ys after : List Char}

theorem earlierLines_append_lastLine (cs : List Char) : earlierLines cs ++ lastLine cs = cs := by
  rw [earlierLines, lastLine, ← List.reverse_append, List.takeWhile_append_dropWhile,
    List.reverse_reverse]

theorem lastLine_plain (cs : List Char) : '\n' ∉ lastLine cs := by
  intro member
  have inLine := List.mem_takeWhile_imp (List.mem_reverse.mp member)
  simp at inLine

theorem earlierLines_cases (cs : List Char) :
    earlierLines cs = [] ∨ ∃ lines, earlierLines cs = lines ++ ['\n'] := by
  rw [earlierLines]
  cases dropped : cs.reverse.dropWhile (· ≠ '\n') with
  | nil => exact .inl rfl
  | cons c lines =>
    have stopped := List.head?_dropWhile_not (· ≠ '\n') cs.reverse
    simp only [dropped, List.head?_cons, decide_eq_false_iff_not, not_not] at stopped
    exact .inr ⟨lines.reverse, by rw [stopped, List.reverse_cons]⟩

theorem lastLine_append (plain : '\n' ∉ ys) : lastLine (xs ++ ys) = lastLine xs ++ ys := by
  have inLine : ∀ c ∈ ys.reverse, decide (c ≠ '\n') = true := by
    intro c member
    have other : c ≠ '\n' := fun same => plain (same ▸ List.mem_reverse.mp member)
    simpa using other
  rw [lastLine, lastLine, List.reverse_append, List.takeWhile_append_of_pos inLine,
    List.reverse_append, List.reverse_reverse]

theorem lastLine_of_plain (plain : '\n' ∉ cs) : lastLine cs = cs :=
  @lastLine_append [] cs plain

theorem lineAfter_append (plain : '\n' ∉ ys) : lineAfter (xs ++ ys) = lineAfter xs := by
  rw [lineAfter, List.count_append, List.count_eq_zero.mpr plain, Nat.add_zero, lineAfter]

theorem columnAfter_append (plain : '\n' ∉ ys) :
    columnAfter (xs ++ ys) = columnAfter xs + byteLength ys := by
  rw [columnAfter, lastLine_append plain, byteLength_append, columnAfter]
  omega

theorem byteLength_lines (cs : List Char) :
    byteLength (earlierLines cs) + byteLength (lastLine cs) = byteLength cs := by
  rw [← byteLength_append, earlierLines_append_lastLine]

theorem byteLength_parts {text : String} (whole : text.toList = xs ++ ys) :
    byteLength xs + byteLength ys = text.utf8ByteSize := by
  rw [← byteLength_append, ← whole, byteLength_eq_utf8ByteSize]

theorem count_le_byteLength (cs : List Char) : cs.count '\n' ≤ byteLength cs := by
  induction cs with
  | nil => exact Nat.le_refl _
  | cons c cs ih =>
    have filled := c.utf8Size_pos
    rw [List.count_cons, byteLength]
    split <;> omega

-- Every line up to the one that a position is on takes a byte, except for the first one.
theorem lineAfter_le (onLine : OnLine xs after) :
    lineAfter xs ≤ max (byteLength (xs ++ after)) 1 := by
  have whole := earlierLines_append_lastLine xs
  have size := byteLength_lines xs
  have lines := count_le_byteLength (earlierLines xs)
  have same : xs.count '\n' = (earlierLines xs).count '\n' := by
    conv_lhs => rw [← whole]
    rw [List.count_append, List.count_eq_zero.mpr (lastLine_plain xs), Nat.add_zero]
  rw [byteLength_append, lineAfter]
  rcases onLine with more | more | rfl
  · have := byteLength_pos more
    omega
  · have := byteLength_pos more
    omega
  · exact Nat.le_max_right _ _

end Lines

section Cuts

theorem dropBytes?_byteLength (before after : List Char) :
    dropBytes? (byteLength before) (before ++ after) = some after := by
  induction before with
  | nil => simp [byteLength, dropBytes?]
  | cons c before ih =>
    have filled := c.utf8Size_pos
    obtain ⟨n, size⟩ := Nat.exists_eq_add_one.mpr (Nat.add_pos_left filled (byteLength before))
    have rest : n + 1 - c.utf8Size = byteLength before := by omega
    rw [byteLength, size, List.cons_append, dropBytes?, if_pos (by omega), rest, ih]

theorem slice?_middle (before inside after : List Char) :
    slice? (before ++ (inside ++ after)) (byteLength before)
      (byteLength before + byteLength inside) = some inside := by
  simp [slice?, dropBytes?_byteLength]

end Cuts

end Text

open Text

namespace SourceFile

section Starts

variable {cs before after : List Char} {offset : Nat}

theorem newlineEnds_append (offset : Nat) (xs ys : List Char) :
    newlineEnds offset (xs ++ ys) =
      newlineEnds offset xs ++ newlineEnds (offset + byteLength xs) ys := by
  induction xs generalizing offset with
  | nil => rfl
  | cons c xs ih =>
    rw [List.cons_append, newlineEnds, newlineEnds, byteLength, ← Nat.add_assoc]
    split
    · rw [ih, List.cons_append]
    · exact ih _

theorem length_newlineEnds (offset : Nat) (cs : List Char) :
    (newlineEnds offset cs).length = cs.count '\n' := by
  induction cs generalizing offset with
  | nil => rfl
  | cons c cs ih =>
    rw [newlineEnds, List.count_cons]
    by_cases newline : c = '\n' <;> simp [newline, ih]

theorem newlineEnds_plain (plain : '\n' ∉ cs) (offset : Nat) : newlineEnds offset cs = [] := by
  rw [← List.length_eq_zero_iff, length_newlineEnds, List.count_eq_zero.mpr plain]

theorem mem_newlineEnds (bound : offset + byteLength cs < UInt32.size) {start : UInt32}
    (member : start ∈ newlineEnds offset cs) :
    offset < start.toNat ∧ start.toNat ≤ offset + byteLength cs := by
  induction cs generalizing offset with
  | nil => cases member
  | cons c cs ih =>
    have filled := c.utf8Size_pos
    rw [byteLength] at bound ⊢
    have later (member : start ∈ newlineEnds (offset + c.utf8Size) cs) := ih (by omega) member
    rw [newlineEnds] at member
    split at member
    · rcases List.mem_cons.mp member with rfl | member
      · rw [UInt32.toNat_ofNat_of_lt' (by omega)]
        omega
      · have := later member
        omega
    · have := later member
      omega

def startsUpTo (before : List Char) : List UInt32 := 0 :: newlineEnds 0 before

theorem length_startsUpTo (before : List Char) : (startsUpTo before).length = lineAfter before := by
  rw [startsUpTo, List.length_cons, length_newlineEnds, lineAfter]

theorem startsUpTo_append (before after : List Char) :
    startsUpTo (before ++ after) = startsUpTo before ++ newlineEnds (byteLength before) after := by
  rw [startsUpTo, newlineEnds_append, Nat.zero_add, ← List.cons_append, ← startsUpTo]

theorem mem_startsUpTo (bound : byteLength before < UInt32.size) {start : UInt32}
    (member : start ∈ startsUpTo before) : start.toNat ≤ byteLength before := by
  rcases List.mem_cons.mp member with rfl | member
  · exact Nat.zero_le _
  · have := (mem_newlineEnds (by omega) member).2
    omega

theorem getLast?_startsUpTo (before : List Char) :
    (startsUpTo before).getLast? = some (.ofNat (byteLength (earlierLines before))) := by
  -- No line starts on the last line, so that the last one starts where the earlier ones end.
  have same : startsUpTo before = startsUpTo (earlierLines before) := by
    conv_lhs => rw [← earlierLines_append_lastLine before]
    rw [startsUpTo, newlineEnds_append, newlineEnds_plain (lastLine_plain before), List.append_nil,
      startsUpTo]
  rw [same, startsUpTo]
  rcases earlierLines_cases before with none | ⟨lines, some⟩
  · rw [none]
    rfl
  · rw [some, newlineEnds_append, newlineEnds, if_pos rfl, ← List.cons_append,
      newlineEnds, List.getLast?_append]
    simp [byteLength]

theorem toList_indexLines {text : String} (bound : text.utf8ByteSize < UInt32.size) :
    (indexLines text).toList = startsUpTo text.toList ++
      if lastLine text.toList = [] then [] else [.ofNat text.utf8ByteSize] := by
  have whole := byteLength_lines text.toList
  rw [byteLength_eq_utf8ByteSize] at whole
  -- The last start is the end of the text already if there is nothing behind the last newline.
  have closed : (startsUpTo text.toList).getLast? = some (.ofNat text.utf8ByteSize) ↔
      lastLine text.toList = [] := by
    rw [getLast?_startsUpTo, Option.some_inj]
    constructor
    · intro same
      have same := congrArg UInt32.toNat same
      rw [UInt32.toNat_ofNat_of_lt' (by omega), UInt32.toNat_ofNat_of_lt' bound] at same
      by_contra more
      have := byteLength_pos more
      omega
    · intro none
      rw [none, byteLength] at whole
      rw [← whole, Nat.add_zero]
  have starts : 0 :: newlineEnds 0 text.toList = startsUpTo text.toList := rfl
  simp only [indexLines, starts, List.back?_toArray, closed]
  split <;> simp

theorem lineStarts_eq {unit : SourceUnit} (bound : unit.text.utf8ByteSize < UInt32.size)
    (whole : unit.text.toList = before ++ after) (onLine : OnLine before after) :
    ∃ later, (ofUnit unit).lineStarts.toList = startsUpTo before ++ later ∧
      (∀ start ∈ later.dropLast, byteLength before < start.toNat) ∧ (later = [] → before = []) := by
  have size := byteLength_parts whole
  have ends {start : UInt32} (member : start ∈ newlineEnds (byteLength before) after) :
      byteLength before < start.toNat := (mem_newlineEnds (by omega) member).1
  rw [ofUnit, toList_indexLines bound, whole, startsUpTo_append, List.append_assoc]
  refine ⟨_, rfl, fun start member => ?_, fun none => ?_⟩
  -- Later starts but for the last one are those of lines, if that one is the end or not.
  · split_ifs at member
    · rw [List.append_nil] at member
      exact ends (List.dropLast_subset _ member)
    · rw [List.dropLast_concat] at member
      exact ends member
  · obtain ⟨noEnds, closed⟩ := List.append_eq_nil_iff.mp none
    have plain : '\n' ∉ after := by
      rwa [← List.length_eq_zero_iff, length_newlineEnds, List.count_eq_zero] at noEnds
    have closed : lastLine (before ++ after) = [] := by
      by_contra more
      simp [more] at closed
    rw [lastLine_append plain] at closed
    rcases onLine with more | more | none
    · exact absurd (List.append_eq_nil_iff.mp closed).2 more
    · exact absurd (List.append_eq_nil_iff.mp closed).1 more
    · exact none

end Starts

-- Halving the range finds the last start that is not after the offset, if the starts up to it are
-- not after the offset and those behind it are.
theorem lineIndex_eq {starts : Array UInt32} {offset : UInt32} {index base size : Nat}
    (low : base ≤ index) (high : index < base + size)
    (upTo : ∀ j ≤ index, starts[j]?.any (offset < ·) = false)
    (behind : ∀ j, index < j → j < base + size → starts[j]?.any (offset < ·) = true) :
    lineIndex starts offset base size = index := by
  induction size using Nat.strong_induction_on generalizing base with
  | _ size ih =>
    rw [lineIndex]
    split
    next => omega
    next large =>
      dsimp only
      by_cases first : index < base + size / 2
      next =>
        have after := behind _ first (by omega)
        rw [after, if_pos rfl]
        exact ih _ (by omega) low (by omega) fun j later inside => behind j later (by omega)
      next =>
        have before := upTo (base + size / 2) (by omega)
        rw [before, if_neg (by decide)]
        exact ih _ (by omega) (by omega) (by omega) fun j later inside => behind j later (by omega)

section Column

variable {unit : SourceUnit} {before after : List Char} {offset : UInt32}

theorem lineStart_ofUnit (bound : unit.text.utf8ByteSize < UInt32.size)
    (whole : unit.text.toList = before ++ after) :
    (ofUnit unit).lineStarts[before.count '\n']? =
      some (.ofNat (byteLength (earlierLines before))) := by
  have last := getLast?_startsUpTo before
  have lines := length_startsUpTo before
  rw [lineAfter] at lines
  rw [List.getLast?_eq_getElem?, lines, Nat.add_sub_cancel] at last
  rw [← Array.getElem?_toList, ofUnit, toList_indexLines bound, whole, startsUpTo_append,
    List.append_assoc, List.getElem?_append_left (by omega), last]

theorem lineIndex_ofUnit (bound : unit.text.utf8ByteSize < UInt32.size)
    (whole : unit.text.toList = before ++ after) (onLine : OnLine before after)
    (here : offset.toNat = byteLength before) :
    lineIndex (ofUnit unit).lineStarts offset 0 (max ((ofUnit unit).lineStarts.size - 1) 1) =
      before.count '\n' := by
  have size := byteLength_parts whole
  obtain ⟨later, split, behind, ended⟩ := lineStarts_eq bound whole onLine
  have found (j : Nat) : (ofUnit unit).lineStarts[j]? = (startsUpTo before ++ later)[j]? := by
    rw [← split, Array.getElem?_toList]
  have lines := length_startsUpTo before
  have count : (ofUnit unit).lineStarts.size = lineAfter before + later.length := by
    rw [← lines, ← List.length_append, ← split, Array.length_toList]
  rw [lineAfter] at lines count
  refine lineIndex_eq (Nat.zero_le _) ?_ (fun j upTo => ?_) fun j after inside => ?_
  · cases later with
    | nil =>
      rw [ended rfl, List.count_nil]
      omega
    | cons start later =>
      rw [List.length_cons] at count
      omega
  · have inside : j < (startsUpTo before).length := by omega
    have known := mem_startsUpTo (by omega) (List.getElem_mem inside)
    rw [found, List.getElem?_append_left inside, List.getElem?_eq_getElem inside]
    simpa [UInt32.lt_iff_toNat_lt, here] using known
  -- The last start is not looked at, which may be an end that equals the offset.
  · have inside : j - (startsUpTo before).length < later.dropLast.length := by
      rw [List.length_dropLast]
      omega
    have known := behind _ (List.getElem_mem inside)
    rw [List.getElem_dropLast] at known
    rw [found, List.getElem?_append_right (by omega), List.getElem?_eq_getElem]
    simpa [UInt32.lt_iff_toNat_lt, here] using known

-- Lines and columns are those that the text before the position says, as long as words can hold the
-- column.
theorem lineColumn_ofUnit (bound : unit.text.utf8ByteSize < UInt32.size)
    (whole : unit.text.toList = before ++ after) (onLine : OnLine before after)
    (here : offset.toNat = byteLength before) (room : columnAfter before < UInt32.size) :
    ∃ line column, (ofUnit unit).lineColumn offset = .ok (line, column) ∧
      line.toNat = lineAfter before ∧ column.toNat = columnAfter before := by
  have size := byteLength_parts whole
  have parts := byteLength_lines before
  have lines := lineAfter_le onLine
  rw [byteLength_append] at lines
  have index := lineIndex_ofUnit bound whole onLine here
  have found := lineStart_ofUnit bound whole
  have within : ¬ UInt32.ofNat (ofUnit unit).text.utf8ByteSize < offset := by
    rw [ofUnit, UInt32.lt_iff_toNat_lt, UInt32.toNat_ofNat_of_lt' bound]
    omega
  have filled : ¬ (ofUnit unit).lineStarts.isEmpty := by
    intro empty
    rw [Array.isEmpty_iff.mp empty] at found
    cases found
  have count : (ofUnit unit).lineCount = .ok ((ofUnit unit).lineStarts.size - 1) := if_neg filled
  -- The column is counted from where the line starts, which is where the earlier lines end.
  have start := UInt32.toNat_ofNat_of_lt' (n := byteLength (earlierLines before)) (by omega)
  have started : UInt32.ofNat (byteLength (earlierLines before)) ≤ offset := by
    rw [UInt32.le_iff_toNat_le]
    omega
  have length := UInt32.toNat_sub_of_le _ _ started
  have sum : (offset - .ofNat (byteLength (earlierLines before))).toNat + 1 =
      columnAfter before := by
    rw [columnAfter]
    omega
  have column : addWords (offset - .ofNat (byteLength (earlierLines before))) 1 =
      .ok (offset - .ofNat (byteLength (earlierLines before)) + 1) :=
    if_pos (by rwa [UInt32.toNat_one, sum])
  have line := UInt32.toNat_ofNat_of_lt' (n := lineAfter before) (by omega)
  refine ⟨.ofNat (lineAfter before), offset - .ofNat (byteLength (earlierLines before)) + 1, ?_,
    line, by rw [UInt32.toNat_add, UInt32.toNat_one, sum, Nat.mod_eq_of_lt room]⟩
  simp only [lineColumn, within, count, ok_bind, index, found, Checked.ofOption,
    UInt32.not_lt.mpr started, column, if_false]
  rfl

end Column

end SourceFile

/-- Offsets in the unit are 32-bit words, and so is the column of its end. A unit with as many
bytes as such a word can count has to break lines for that. -/
structure SourceUnit.Fits (unit : SourceUnit) : Prop where
  bytes : unit.text.utf8ByteSize < UInt32.size
  breaks : unit.text.utf8ByteSize + 1 = UInt32.size → '\n' ∈ unit.text.toList

instance SourceUnit.decidableFits (unit : SourceUnit) : Decidable unit.Fits :=
  decidable_of_iff (unit.text.utf8ByteSize < UInt32.size ∧
      (unit.text.utf8ByteSize + 1 = UInt32.size → '\n' ∈ unit.text.toList))
    ⟨fun ⟨bytes, breaks⟩ => ⟨bytes, breaks⟩, fun fits => ⟨fits.bytes, fits.breaks⟩⟩

theorem SourceUnit.Fits.room {unit : SourceUnit} {before after : List Char} (fits : unit.Fits)
    (whole : unit.text.toList = before ++ after) : columnAfter before < UInt32.size := by
  have size := byteLength_parts whole
  have bytes := fits.bytes
  have parts := byteLength_lines before
  rw [columnAfter]
  by_contra large
  -- Only the end of a text of one line can be that far.
  have ended : after = [] := by
    by_contra more
    have := byteLength_pos more
    omega
  have first : earlierLines before = [] := by
    by_contra more
    have := byteLength_pos more
    omega
  have line := earlierLines_append_lastLine before
  have plain := lastLine_plain before
  rw [first, List.nil_append] at line
  rw [line] at plain
  rw [ended, List.append_nil] at whole
  exact plain (whole ▸ fits.breaks (by omega))

namespace Span

/-- The span is that of `inside`, which stands behind `before`. -/
structure Marks (s : Span) (before inside : List Char) : Prop where
  start : s.start.toNat = byteLength before
  stop : s.stop.toNat = byteLength before + byteLength inside
  line : s.line.toNat = lineAfter before
  column : s.column.toNat = columnAfter before

/-- The span is that of a part of the file's text, and is where the file says that it is. -/
structure Accurate (s : Span) (f : SourceFile) : Prop where
  forward : s.start ≤ s.stop
  within : s.stop.toNat ≤ f.text.utf8ByteSize
  cut : ∃ before inside after, f.text.toList = before ++ (inside ++ after) ∧
    s.Marks before inside ∧ f.slice s.start s.stop = .ok inside
  located : f.lineColumn s.start = .ok (s.line, s.column)

theorem marks_zero (file : UInt16) : (Span.zero file).Marks [] [] :=
  ⟨rfl, rfl, rfl, rfl⟩

namespace Marks

variable {s : Span} {before inside after : List Char}

-- There is one span for each part of a file.
theorem unique {s' : Span} (marks : s.Marks before inside) (marks' : s'.Marks before inside)
    (file : s.file = s'.file) : s = s' := by
  have start : s.start = s'.start := UInt32.toNat_inj.mp (marks.start.trans marks'.start.symm)
  have stop : s.stop = s'.stop := UInt32.toNat_inj.mp (marks.stop.trans marks'.stop.symm)
  have line : s.line = s'.line := UInt32.toNat_inj.mp (marks.line.trans marks'.line.symm)
  have column : s.column = s'.column :=
    UInt32.toNat_inj.mp (marks.column.trans marks'.column.symm)
  cases s
  cases s'
  simp_all

theorem slice {unit : SourceUnit} (marks : s.Marks before inside)
    (whole : unit.text.toList = before ++ (inside ++ after)) :
    (SourceFile.ofUnit unit).slice s.start s.stop = .ok inside := by
  rw [SourceFile.slice, SourceFile.ofUnit, whole, marks.start, marks.stop, slice?_middle]
  rfl

theorem accurate {unit : SourceUnit} (marks : s.Marks before inside)
    (bound : unit.text.utf8ByteSize < UInt32.size)
    (whole : unit.text.toList = before ++ (inside ++ after))
    (onLine : OnLine before (inside ++ after)) : s.Accurate (.ofUnit unit) := by
  have room : columnAfter before < UInt32.size := marks.column ▸ s.column.toNat_lt_size
  obtain ⟨line, column, located, isLine, isColumn⟩ :=
    SourceFile.lineColumn_ofUnit bound whole onLine marks.start room
  have size := byteLength_parts whole
  rw [byteLength_append] at size
  have start := marks.start
  have stop := marks.stop
  refine ⟨?_, ?_, ⟨before, inside, after, whole, marks, marks.slice whole⟩, ?_⟩
  · rw [UInt32.le_iff_toNat_le]
    omega
  · change s.stop.toNat ≤ unit.text.utf8ByteSize
    omega
  · rw [located, UInt32.toNat_inj.mp (isLine.trans marks.line.symm),
      UInt32.toNat_inj.mp (isColumn.trans marks.column.symm)]

-- What is behind a part of a line is on this line, as many columns further on.
theorem column_behind (marks : s.Marks before inside) (plain : '\n' ∉ inside) :
    s.start ≤ s.stop ∧
      s.column.toNat + (s.stop - s.start).toNat = columnAfter (before ++ inside) := by
  have start := marks.start
  have stop := marks.stop
  have column := marks.column
  have forward : s.start ≤ s.stop := by
    rw [UInt32.le_iff_toNat_le]
    omega
  have length := UInt32.toNat_sub_of_le _ _ forward
  refine ⟨forward, ?_⟩
  rw [columnAfter_append plain]
  omega

theorem justAfter (marks : s.Marks before inside) (plain : '\n' ∉ inside)
    (room : columnAfter (before ++ inside) < UInt32.size) (file : UInt16) :
    ∃ s', s.justAfter file = .ok s' ∧ s'.file = file ∧ s'.Marks (before ++ inside) [] := by
  have stop := marks.stop
  obtain ⟨forward, sum⟩ := marks.column_behind plain
  have added : addWords s.column (s.stop - s.start) = .ok (s.column + (s.stop - s.start)) :=
    if_pos (by rwa [sum])
  refine ⟨⟨file, s.stop, s.stop, s.line, s.column + (s.stop - s.start)⟩, ?_, rfl, ?_⟩
  · simp only [Span.justAfter, Span.length, if_pos forward, ok_bind, added]
    rfl
  · constructor
    · rw [stop, byteLength_append]
    · rw [stop, byteLength_append]
      rfl
    · rw [marks.line, lineAfter_append plain]
    · rw [UInt32.toNat_add, sum, Nat.mod_eq_of_lt room]

-- What is behind has a span only if words can hold its column.
theorem room_of_justAfter {s' : Span} {file : UInt16} (marks : s.Marks before inside)
    (plain : '\n' ∉ inside) (next : s.justAfter file = .ok s') :
    columnAfter (before ++ inside) < UInt32.size := by
  obtain ⟨forward, sum⟩ := marks.column_behind plain
  rw [← sum]
  by_contra large
  have stuck : addWords s.column (s.stop - s.start) = .error .outOfRange := if_neg large
  simp only [Span.justAfter, Span.length, if_pos forward, ok_bind, stuck] at next
  cases next

end Marks

theorem accurate_zero {unit : SourceUnit} (bound : unit.text.utf8ByteSize < UInt32.size)
    (file : UInt16) : (Span.zero file).Accurate (.ofUnit unit) :=
  (marks_zero file).accurate bound (List.nil_append _).symm (.inr (.inr rfl))

end Span
end PuzzleMachine
