import PuzzleMachine.Proofs.Leniency
import PuzzleMachine.Proofs.Rendering

set_option autoImplicit false

namespace PuzzleMachine

namespace Text

def NewlineAt (cs : List Char) (n : Nat) : Prop :=
  ∃ before after, cs = before ++ '\n' :: after ∧ byteLength before = n

def takeBytes : Nat → List Char → List Char
  | _, [] => []
  | n, c :: cs => if c.utf8Size ≤ n then c :: takeBytes (n - c.utf8Size) cs else []

theorem exists_takeBytes (n : Nat) (cs : List Char) :
    ∃ after, cs = takeBytes n cs ++ after ∧ byteLength (takeBytes n cs) ≤ n ∧
      ∀ c rest, after = c :: rest → n < byteLength (takeBytes n cs) + c.utf8Size := by
  induction cs generalizing n with
  | nil => exact ⟨[], rfl, Nat.zero_le n, nofun⟩
  | cons c cs ih =>
    rw [takeBytes]
    split
    next within =>
      obtain ⟨after, whole, taken, next⟩ := ih (n - c.utf8Size)
      refine ⟨after, congrArg (c :: ·) whole, ?_, fun c' rest same => ?_⟩
      · rw [byteLength]
        omega
      · have := next c' rest same
        rw [byteLength]
        omega
    next beyond =>
      refine ⟨c :: cs, rfl, Nat.zero_le n, fun c' rest same => ?_⟩
      cases same
      rw [byteLength]
      omega

theorem NewlineAt.lt {cs : List Char} {n : Nat} (newline : NewlineAt cs n) :
    n < byteLength cs := by
  obtain ⟨before, after, rfl, rfl⟩ := newline
  have size : ('\n').utf8Size = 1 := rfl
  rw [byteLength_append, byteLength]
  omega

theorem lastLine_concat_newline (cs : List Char) : lastLine (cs ++ ['\n']) = [] := by
  simp [lastLine]

theorem lastLine_eq_nil_iff {cs : List Char} :
    lastLine cs = [] ↔ cs = [] ∨ ∃ lines, cs = lines ++ ['\n'] := by
  constructor
  next =>
    intro ended
    have whole := earlierLines_append_lastLine cs
    rw [ended, List.append_nil] at whole
    exact whole ▸ earlierLines_cases cs
  next =>
    rintro (rfl | ⟨lines, rfl⟩)
    · rfl
    · exact lastLine_concat_newline lines

-- What is left of a line without its end has no newline if the line has none but at its end.
theorem plain_dropLineEnd {cs : List Char}
    (last : ∀ before after, cs = before ++ '\n' :: after → after = []) :
    '\n' ∉ dropLineEnd cs := by
  intro member
  obtain ⟨before, after, kept⟩ := List.append_of_mem member
  let ending (c : Char) : Bool := c = '\n' || c = '\r'
  have whole : cs = dropLineEnd cs ++ (cs.reverse.takeWhile ending).reverse := by
    rw [dropLineEnd, ← List.reverse_append, List.takeWhile_append_dropWhile, List.reverse_reverse]
  rw [kept, List.append_assoc, List.cons_append] at whole
  obtain ⟨rfl, -⟩ := List.append_eq_nil_iff.mp (last _ _ whole)
  -- Nothing is dropped, although a newline at the end would be.
  have stopped := List.head?_dropWhile_not ending cs.reverse
  rw [dropLineEnd, List.reverse_eq_iff, List.reverse_concat] at kept
  rw [show cs.reverse.dropWhile ending = '\n' :: before.reverse from kept] at stopped
  cases stopped

end Text

open Text

namespace SourceFile

section Starts

variable {offset : Nat} {cs : List Char} {start : UInt32} {unit : SourceUnit}

theorem mem_newlineEnds_cons {c : Char} (bound : offset + byteLength (c :: cs) < UInt32.size)
    (member : start ∈ newlineEnds offset (c :: cs)) : offset + c.utf8Size ≤ start.toNat := by
  rw [byteLength] at bound
  rw [newlineEnds] at member
  split at member
  next =>
    rcases List.mem_cons.mp member with rfl | member
    · rw [UInt32.toNat_ofNat_of_lt' (by omega)]
    · exact Nat.le_of_lt (mem_newlineEnds (by omega) member).1
  next => exact Nat.le_of_lt (mem_newlineEnds (by omega) member).1

theorem newlineEnds_ascending (bound : offset + byteLength cs < UInt32.size) :
    (newlineEnds offset cs).Pairwise (· < ·) := by
  induction cs generalizing offset with
  | nil => exact .nil
  | cons c cs ih =>
    rw [byteLength] at bound
    rw [newlineEnds]
    split
    next =>
      refine List.pairwise_cons.mpr ⟨fun later member => ?_, ih (by omega)⟩
      rw [UInt32.lt_iff_toNat_lt, UInt32.toNat_ofNat_of_lt' (by omega)]
      exact (mem_newlineEnds (by omega) member).1
    next => exact ih (by omega)

theorem mem_newlineEnds_iff (bound : offset + byteLength cs < UInt32.size) :
    start ∈ newlineEnds offset cs ↔ ∃ n, NewlineAt cs n ∧ start.toNat = offset + n + 1 := by
  constructor
  next =>
    intro member
    induction cs generalizing offset with
    | nil => cases member
    | cons c cs ih =>
      rw [byteLength] at bound
      have later (member : start ∈ newlineEnds (offset + c.utf8Size) cs) :
          ∃ n, NewlineAt (c :: cs) n ∧ start.toNat = offset + n + 1 := by
        obtain ⟨n, ⟨before, after, rfl, rfl⟩, same⟩ := ih (by omega) member
        exact ⟨_, ⟨c :: before, after, rfl, rfl⟩, by rw [byteLength]; omega⟩
      rw [newlineEnds] at member
      split at member
      next newline =>
        rcases List.mem_cons.mp member with rfl | member
        · subst newline
          exact ⟨0, ⟨[], cs, rfl, rfl⟩, UInt32.toNat_ofNat_of_lt' (by omega)⟩
        · exact later member
      next => exact later member
  next =>
    rintro ⟨n, ⟨before, after, rfl, rfl⟩, same⟩
    have here : start = .ofNat (offset + byteLength before + ('\n').utf8Size) := by
      rw [← UInt32.ofNat_toNat (x := start), same]
      rfl
    rw [newlineEnds_append, newlineEnds, if_pos rfl, here]
    exact List.mem_append_right _ List.mem_cons_self

theorem mem_lineStarts_iff (bound : unit.text.utf8ByteSize < UInt32.size) :
    start ∈ (ofUnit unit).lineStarts ↔
      start = 0 ∨ (∃ n, NewlineAt unit.text.toList n ∧ start.toNat = n + 1) ∨
        start.toNat = unit.text.utf8ByteSize := by
  have size : byteLength unit.text.toList = unit.text.utf8ByteSize :=
    byteLength_eq_utf8ByteSize unit.text
  have ends := @mem_newlineEnds_iff 0 unit.text.toList start (by omega)
  simp only [Nat.zero_add] at ends
  have close : start = .ofNat unit.text.utf8ByteSize ↔ start.toNat = unit.text.utf8ByteSize := by
    rw [← UInt32.toNat_inj, UInt32.toNat_ofNat_of_lt' bound]
  rw [← Array.mem_toList_iff, ofUnit, toList_indexLines bound, startsUpTo, List.cons_append,
    List.mem_cons, List.mem_append, ends]
  by_cases ended : lastLine unit.text.toList = []
  next =>
    -- Nothing is added for the end, as it is the beginning or behind a newline.
    rw [if_pos ended]
    have known (atEnd : start.toNat = unit.text.utf8ByteSize) :
        start = 0 ∨ ∃ n, NewlineAt unit.text.toList n ∧ start.toNat = n + 1 := by
      rcases lastLine_eq_nil_iff.mp ended with none | ⟨lines, some⟩
      · rw [none] at size
        exact .inl (UInt32.toNat_inj.mp (atEnd.trans size.symm))
      · rw [some, byteLength_append] at size
        exact .inr ⟨_, ⟨lines, [], some, rfl⟩, atEnd.trans size.symm⟩
    simp only [List.not_mem_nil, or_false, ← or_assoc]
    exact (or_iff_left_of_imp known).symm
  next => rw [if_neg ended, List.mem_singleton, close]

theorem lineStarts_ascending (bound : unit.text.utf8ByteSize < UInt32.size) :
    (ofUnit unit).lineStarts.toList.Pairwise (· < ·) := by
  have size : byteLength unit.text.toList = unit.text.utf8ByteSize :=
    byteLength_eq_utf8ByteSize unit.text
  have room : 0 + byteLength unit.text.toList < UInt32.size := by omega
  have starts : (startsUpTo unit.text.toList).Pairwise (· < ·) := by
    refine List.pairwise_cons.mpr ⟨fun start member => ?_, newlineEnds_ascending room⟩
    exact UInt32.lt_iff_toNat_lt.mpr (mem_newlineEnds room member).1
  rw [ofUnit, toList_indexLines bound]
  by_cases ended : lastLine unit.text.toList = []
  next => rwa [if_pos ended, List.append_nil]
  next =>
    rw [if_neg ended]
    refine List.pairwise_append.mpr ⟨starts, List.pairwise_singleton _ _, ?_⟩
    intro start member stop same
    rw [List.mem_singleton.mp same, UInt32.lt_iff_toNat_lt, UInt32.toNat_ofNat_of_lt' bound]
    rcases List.mem_cons.mp member with rfl | member
    · have filled : unit.text.toList ≠ [] := fun none => ended (by rw [none]; rfl)
      exact size ▸ byteLength_pos filled
    · -- If a line starts at the end, nothing is behind its newline.
      obtain ⟨n, ⟨before, after, whole, rfl⟩, same⟩ := (mem_newlineEnds_iff room).mp member
      have after_filled : after ≠ [] := by
        rintro rfl
        exact ended (whole ▸ lastLine_concat_newline before)
      have := byteLength_pos after_filled
      have newline : ('\n').utf8Size = 1 := rfl
      rw [whole, byteLength_append, byteLength] at size
      omega

end Starts

section Order

variable {unit : SourceUnit} {j k : Nat} {start stop : UInt32}

theorem first_lineStart (bound : unit.text.utf8ByteSize < UInt32.size) :
    (ofUnit unit).lineStarts[0]? = some 0 := by
  rw [← Array.getElem?_toList, ofUnit, toList_indexLines bound]
  rfl

theorem lineStart_le (bound : unit.text.utf8ByteSize < UInt32.size)
    (member : start ∈ (ofUnit unit).lineStarts) : start.toNat ≤ unit.text.utf8ByteSize := by
  rcases (mem_lineStarts_iff bound).mp member with rfl | ⟨n, newline, same⟩ | same
  · exact Nat.zero_le _
  · rw [same, ← byteLength_eq_utf8ByteSize]
    exact newline.lt
  · exact Nat.le_of_eq same

theorem lineStarts_lt_iff (bound : unit.text.utf8ByteSize < UInt32.size)
    (here : (ofUnit unit).lineStarts[j]? = some start)
    (there : (ofUnit unit).lineStarts[k]? = some stop) : start < stop ↔ j < k := by
  have ascending := List.pairwise_iff_getElem.mp (lineStarts_ascending bound)
  rw [← Array.getElem?_toList] at here there
  obtain ⟨j_lt, rfl⟩ := List.getElem?_eq_some_iff.mp here
  obtain ⟨k_lt, rfl⟩ := List.getElem?_eq_some_iff.mp there
  constructor
  next =>
    intro less
    by_contra other
    rcases Nat.lt_or_eq_of_le (Nat.not_lt.mp other) with later | rfl
    · exact UInt32.lt_asymm less (ascending k j k_lt j_lt later)
    · exact UInt32.lt_irrefl _ less
  next => exact ascending j k j_lt k_lt

theorem lineStarts_le_iff (bound : unit.text.utf8ByteSize < UInt32.size)
    (here : (ofUnit unit).lineStarts[j]? = some start)
    (there : (ofUnit unit).lineStarts[k]? = some stop) : start ≤ stop ↔ j ≤ k := by
  rw [← UInt32.not_lt, lineStarts_lt_iff bound there here, Nat.not_lt]

-- Every line takes a byte.
theorem index_le_lineStart (bound : unit.text.utf8ByteSize < UInt32.size)
    (here : (ofUnit unit).lineStarts[k]? = some start) : k ≤ start.toNat := by
  induction k generalizing start with
  | zero => exact Nat.zero_le _
  | succ k ih =>
    obtain ⟨inside, -⟩ := Array.getElem?_eq_some_iff.mp here
    have earlier := Array.getElem?_eq_getElem (Nat.lt_of_succ_lt inside)
    have before := (lineStarts_lt_iff bound earlier here).mpr (Nat.lt_succ_self k)
    exact Nat.lt_of_le_of_lt (ih earlier) (UInt32.lt_iff_toNat_lt.mp before)

theorem last_lineStart (bound : unit.text.utf8ByteSize < UInt32.size) :
    ∃ count, (ofUnit unit).lineStarts.size = count + 1 ∧
      (ofUnit unit).lineStarts[count]? = some (.ofNat unit.text.utf8ByteSize) ∧
      count ≤ unit.text.utf8ByteSize := by
  have close : (UInt32.ofNat unit.text.utf8ByteSize).toNat = unit.text.utf8ByteSize :=
    UInt32.toNat_ofNat_of_lt' bound
  have closing := (mem_lineStarts_iff bound).mpr (.inr (.inr close))
  obtain ⟨count, inside, here⟩ := Array.mem_iff_getElem.mp closing
  have here := Array.getElem?_eq_some_iff.mpr ⟨inside, here⟩
  refine ⟨count, ?_, here, (index_le_lineStart bound here).trans_eq close⟩
  -- Nothing is behind the end of the text.
  by_contra more
  have next := Array.getElem?_eq_getElem (show count + 1 < (ofUnit unit).lineStarts.size by omega)
  have behind := (lineStarts_lt_iff bound here next).mpr (Nat.lt_succ_self count)
  have within := lineStart_le bound (Array.mem_of_getElem? next)
  rw [UInt32.lt_iff_toNat_lt, close] at behind
  omega

end Order

structure LineAt (f : SourceFile) (offset : UInt32) (k : Nat) : Prop where
  searched : k < max (f.lineStarts.size - 1) 1
  start : ∃ start, f.lineStarts[k]? = some start ∧ start ≤ offset
  next : ∀ stop, f.lineStarts[k + 1]? = some stop →
    offset < stop ∨ k + 1 = f.lineStarts.size - 1

section Lines

variable {unit : SourceUnit} {before after : List Char} {offset offset' start : UInt32} {k k' : Nat}

theorem LineAt.le (bound : unit.text.utf8ByteSize < UInt32.size)
    (here : (ofUnit unit).LineAt offset k) (here' : (ofUnit unit).LineAt offset' k')
    (le : offset ≤ offset') : k ≤ k' := by
  by_contra later
  obtain ⟨start, found, started⟩ := here.start
  have searched := here.searched
  have inside := (Array.getElem?_eq_some_iff.mp found).1
  -- The line after that of the later offset begins behind it, but not behind the earlier one.
  have next := Array.getElem?_eq_getElem (show k' + 1 < (ofUnit unit).lineStarts.size by omega)
  rcases here'.next _ next with behind | last
  · have ordered := (lineStarts_le_iff bound next found).mpr (by omega)
    have started := UInt32.le_trans started le
    exact UInt32.lt_irrefl _ (UInt32.lt_of_lt_of_le behind (UInt32.le_trans ordered started))
  · omega

theorem LineAt.unique (bound : unit.text.utf8ByteSize < UInt32.size)
    (here : (ofUnit unit).LineAt offset k) (here' : (ofUnit unit).LineAt offset k') : k = k' :=
  Nat.le_antisymm (here.le bound here' (UInt32.le_refl _)) (here'.le bound here (UInt32.le_refl _))

theorem LineAt.lineIndex_eq (bound : unit.text.utf8ByteSize < UInt32.size)
    (here : (ofUnit unit).LineAt offset k) :
    lineIndex (ofUnit unit).lineStarts offset 0 (max ((ofUnit unit).lineStarts.size - 1) 1) = k := by
  obtain ⟨start, found, started⟩ := here.start
  have searched := here.searched
  have inside := (Array.getElem?_eq_some_iff.mp found).1
  refine SourceFile.lineIndex_eq (Nat.zero_le k) (by omega) (fun j upTo => ?_) fun j later within => ?_
  · have there := Array.getElem?_eq_getElem (show j < (ofUnit unit).lineStarts.size by omega)
    have ordered := (lineStarts_le_iff bound there found).mpr upTo
    rw [there, Option.any_some, decide_eq_false_iff_not, UInt32.not_lt]
    exact UInt32.le_trans ordered started
  · have there := Array.getElem?_eq_getElem (show j < (ofUnit unit).lineStarts.size by omega)
    have next := Array.getElem?_eq_getElem (show k + 1 < (ofUnit unit).lineStarts.size by omega)
    have ordered := (lineStarts_le_iff bound next there).mpr later
    have behind := (here.next _ next).resolve_right (by omega)
    rw [there, Option.any_some, decide_eq_true_eq]
    exact UInt32.lt_of_lt_of_le behind ordered

-- Only the column can be too large for its word.
theorem LineAt.lineColumn_eq (bound : unit.text.utf8ByteSize < UInt32.size)
    (here : (ofUnit unit).LineAt offset k) (found : (ofUnit unit).lineStarts[k]? = some start)
    (inside : offset.toNat ≤ unit.text.utf8ByteSize) :
    (ofUnit unit).lineColumn offset =
      (addWords (offset - start) 1).map fun column => (.ofNat (k + 1), column) := by
  obtain ⟨_, found', started⟩ := here.start
  cases found.symm.trans found'
  have within : ¬ UInt32.ofNat (ofUnit unit).text.utf8ByteSize < offset := by
    rw [ofUnit, UInt32.lt_iff_toNat_lt, UInt32.toNat_ofNat_of_lt' bound]
    omega
  have filled : ¬ (ofUnit unit).lineStarts.isEmpty := by
    intro empty
    rw [Array.isEmpty_iff.mp empty] at found
    cases found
  have count : (ofUnit unit).lineCount = .ok ((ofUnit unit).lineStarts.size - 1) := if_neg filled
  simp only [lineColumn, within, count, ok_bind, here.lineIndex_eq bound, found, Checked.ofOption,
    UInt32.not_lt.mpr started, if_false]
  cases addWords (offset - start) 1 <;> rfl

theorem lineAt_takeBytes (bound : unit.text.utf8ByteSize < UInt32.size)
    (inside : offset.toNat ≤ unit.text.utf8ByteSize)
    (goesOn : offset.toNat < unit.text.utf8ByteSize ∨ unit.text.toList.getLast? ≠ some '\n') :
    (ofUnit unit).LineAt offset ((takeBytes offset.toNat unit.text.toList).count '\n') := by
  obtain ⟨after, whole, taken, next⟩ := exists_takeBytes offset.toNat unit.text.toList
  generalize takeBytes offset.toNat unit.text.toList = before at whole taken next
  have size := byteLength_parts whole
  have lines := length_startsUpTo before
  rw [lineAfter] at lines
  -- The starts up to there are followed by those behind the offset, and by the end of the text.
  have split : (ofUnit unit).lineStarts.toList = startsUpTo before ++
      (newlineEnds (byteLength before) after ++
        if lastLine unit.text.toList = [] then [] else [.ofNat unit.text.utf8ByteSize]) := by
    rw [ofUnit, toList_indexLines bound, ← List.append_assoc, ← startsUpTo_append, ← whole]
  have count := congrArg List.length split
  have found (j : Nat) := congrArg (·[j]?) split
  simp only [Array.getElem?_toList] at found
  rw [Array.length_toList, List.length_append, lines, List.length_append] at count
  refine ⟨?_, ?_, fun stop there => ?_⟩
  · by_contra beyond
    have plain : '\n' ∉ after := by
      rw [← List.count_eq_zero, ← length_newlineEnds (byteLength before) after]
      omega
    have ended : lastLine unit.text.toList = [] := by
      by_contra more
      rw [if_neg more, List.length_singleton] at count
      omega
    rcases lastLine_eq_nil_iff.mp ended with none | ⟨lines, some⟩
    · rw [(List.append_eq_nil_iff.mp (whole.symm.trans none)).1, List.count_nil] at beyond
      omega
    · -- The newline at the end is one of those before the offset, so the offset is the end.
      have newline : unit.text.toList.getLast? = .some '\n' := by rw [some, List.getLast?_concat]
      rcases List.eq_nil_or_concat after with rfl | ⟨rest, c, rfl⟩
      · exact goesOn.elim (fun less => by rw [byteLength] at size; omega) (absurd newline)
      · rw [List.concat_eq_append] at whole plain
        rw [whole, ← List.append_assoc, List.getLast?_concat] at newline
        cases newline
        simp at plain
  · refine ⟨_, lineStart_ofUnit bound whole, ?_⟩
    have parts := byteLength_lines before
    rw [UInt32.le_iff_toNat_le, UInt32.toNat_ofNat_of_lt' (by omega)]
    omega
  · have inside := (Array.getElem?_eq_some_iff.mp there).1
    cases ends : newlineEnds (byteLength before) after with
    | nil =>
      have single : (if lastLine unit.text.toList = [] then []
          else [UInt32.ofNat unit.text.utf8ByteSize]).length ≤ 1 := by
        split <;> simp
      rw [ends, List.length_nil] at count
      exact .inr (by omega)
    | cons first later =>
      rw [found, List.getElem?_append_right (by omega), lines, Nat.sub_self, ends] at there
      cases there
      cases after with
      | nil => cases ends
      | cons c rest =>
        have filled := next c rest rfl
        have member : stop ∈ newlineEnds (byteLength before) (c :: rest) :=
          ends ▸ List.mem_cons_self
        have behind := mem_newlineEnds_cons (by omega) member
        exact .inl (UInt32.lt_iff_toNat_lt.mpr (by omega))

theorem lineAt_end (bound : unit.text.utf8ByteSize < UInt32.size)
    (atEnd : offset.toNat = unit.text.utf8ByteSize)
    (ended : unit.text.toList.getLast? = some '\n') :
    ∃ k, (ofUnit unit).lineStarts.size = k + 2 ∧ (ofUnit unit).LineAt offset k := by
  obtain ⟨count, size, last, -⟩ := last_lineStart bound
  rw [← atEnd, UInt32.ofNat_toNat] at last
  have filled : count ≠ 0 := by
    rintro rfl
    cases (first_lineStart bound).symm.trans last
    rw [← byteLength_eq_utf8ByteSize] at atEnd
    have none : ¬ unit.text.toList ≠ [] := fun some => absurd atEnd (byteLength_pos some).ne
    rw [not_not.mp none] at ended
    cases ended
  have found := Array.getElem?_eq_getElem (show count - 1 < (ofUnit unit).lineStarts.size by omega)
  have started := (lineStarts_le_iff bound found last).mpr (Nat.sub_le count 1)
  exact ⟨count - 1, by omega, by omega, ⟨_, found, started⟩, fun stop _ => .inr (by omega)⟩

theorem exists_lineAt (bound : unit.text.utf8ByteSize < UInt32.size)
    (inside : offset.toNat ≤ unit.text.utf8ByteSize) : ∃ k, (ofUnit unit).LineAt offset k := by
  by_cases goesOn : offset.toNat < unit.text.utf8ByteSize ∨ unit.text.toList.getLast? ≠ some '\n'
  next => exact ⟨_, lineAt_takeBytes bound inside goesOn⟩
  next =>
    rw [not_or, not_not] at goesOn
    have atEnd : offset.toNat = unit.text.utf8ByteSize := by omega
    obtain ⟨k, -, here⟩ := lineAt_end bound atEnd goesOn.2
    exact ⟨k, here⟩

end Lines

/-- The starts ascend from the beginning of the text to its end. -/
structure Ascends (f : SourceFile) : Prop where
  first : f.lineStarts[0]? = some 0
  last : ∃ stop, f.lineStarts.back? = some stop ∧ stop.toNat = f.text.utf8ByteSize
  ascending : f.lineStarts.toList.Pairwise (· < ·)

/-- The lines up to `count` are the text, cut behind its newlines. -/
structure Tiles (f : SourceFile) (count : Nat) : Prop where
  numbered : ∀ number, (f.lineRange? number).isSome ↔ number ≠ 0 ∧ number.toNat ≤ count
  filled : ∀ number start stop, f.lineRange? number = some (start, stop) → start < stop
  first : ∀ start stop, f.lineRange? 1 = some (start, stop) → start = 0
  follows : ∀ number start stop start' stop', f.lineRange? number = some (start, stop) →
    f.lineRange? (number + 1) = some (start', stop') → start' = stop
  last : ∀ number start stop, f.lineRange? number = some (start, stop) → number.toNat = count →
    stop.toNat = f.text.utf8ByteSize
  ends : ∀ number start stop, f.lineRange? number = some (start, stop) →
    stop.toNat = f.text.utf8ByteSize ∨ ∃ n, NewlineAt f.text.toList n ∧ stop.toNat = n + 1
  newlines : ∀ n, NewlineAt f.text.toList n → ∃! number, ∃ start stop,
    f.lineRange? number = some (start, stop) ∧ stop.toNat = n + 1
  covered : ∀ offset < f.text.utf8ByteSize, ∃! number, ∃ start stop,
    f.lineRange? number = some (start, stop) ∧ start.toNat ≤ offset ∧ offset < stop.toNat
  text : ∀ number start stop, f.lineRange? number = some (start, stop) →
    ∃ before inside after, f.text.toList = before ++ (inside ++ after) ∧
      start.toNat = byteLength before ∧ stop.toNat = byteLength before + byteLength inside ∧
      f.lineText? number = .ok (some (dropLineEnd inside)) ∧ '\n' ∉ dropLineEnd inside

/-- Offsets have lines up to `count` and columns on them. -/
structure Locates (f : SourceFile) (count : Nat) : Prop where
  -- The end of a single line of 2 ^ 32 - 1 bytes would have column 2 ^ 32.
  total : ∀ offset : UInt32, offset.toNat ≤ f.text.utf8ByteSize →
    (offset.toNat + 1 = UInt32.size → 1 < count) → ∃ place, f.lineColumn offset = .ok place
  placed : ∀ offset line column, f.lineColumn offset = .ok (line, column) →
    line ≠ 0 ∧ column ≠ 0 ∧ ∃ start, f.lineStarts[line.toNat - 1]? = some start ∧
      offset.toNat = start.toNat + column.toNat - 1
  newlines : ∀ offset line column, f.lineColumn offset = .ok (line, column) →
    offset.toNat < f.text.utf8ByteSize ∨ f.text.toList.getLast? ≠ some '\n' →
      line.toNat - 1 = (takeBytes offset.toNat f.text.toList).count '\n'
  ended : ∀ offset line column, f.lineColumn offset = .ok (line, column) →
    offset.toNat = f.text.utf8ByteSize → f.text.toList.getLast? = some '\n' →
      line.toNat = count
  ascending : ∀ offset offset' line column line' column',
    f.lineColumn offset = .ok (line, column) → f.lineColumn offset' = .ok (line', column') →
      offset < offset' → line < line' ∨ line = line' ∧ column < column'
  injective : ∀ offset offset' place, f.lineColumn offset = .ok place →
    f.lineColumn offset' = .ok place → offset = offset'

section Ranges

variable {f : SourceFile} {unit : SourceUnit} {number number' start stop start' stop' : UInt32}

theorem ascends_ofUnit (bound : unit.text.utf8ByteSize < UInt32.size) :
    (ofUnit unit).Ascends := by
  obtain ⟨count, size, last, -⟩ := last_lineStart bound
  refine ⟨first_lineStart bound, ⟨_, ?_, UInt32.toNat_ofNat_of_lt' bound⟩,
    lineStarts_ascending bound⟩
  rw [Array.back?_eq_getElem?, size]
  exact last

theorem lineRange?_eq_some_iff :
    f.lineRange? number = some (start, stop) ↔
      ∃ k, number.toNat = k + 1 ∧ f.lineStarts[k]? = some start ∧
        f.lineStarts[k + 1]? = some stop := by
  constructor
  next =>
    intro range
    obtain ⟨some, first, second⟩ := lineRange?_eq_some range
    have filled := UInt32.toNat_inj.not.mpr some
    rw [UInt32.toNat_zero] at filled
    have next : number.toNat - 1 + 1 = number.toNat := by omega
    exact ⟨_, next.symm, first, next ▸ second⟩
  next =>
    rintro ⟨k, next, first, second⟩
    have some : number ≠ 0 := by
      rintro rfl
      cases next
    simp [lineRange?, some, next, first, second]

theorem isSome_lineRange?_iff :
    (f.lineRange? number).isSome ↔ number ≠ 0 ∧ number.toNat < f.lineStarts.size := by
  rw [Option.isSome_iff_exists]
  constructor
  next =>
    rintro ⟨⟨start, stop⟩, range⟩
    obtain ⟨k, next, -, second⟩ := lineRange?_eq_some_iff.mp range
    exact ⟨(lineRange?_eq_some range).1, next ▸ (Array.getElem?_eq_some_iff.mp second).1⟩
  next =>
    rintro ⟨some, inside⟩
    obtain ⟨k, next⟩ := Nat.exists_eq_succ_of_ne_zero (UInt32.toNat_inj.not.mpr some)
    have first := Array.getElem?_eq_getElem (show k < f.lineStarts.size by omega)
    have second := Array.getElem?_eq_getElem (show k + 1 < f.lineStarts.size by omega)
    exact ⟨_, lineRange?_eq_some_iff.mpr ⟨k, next, first, second⟩⟩

theorem start_eq_stop_before (range : f.lineRange? number = some (start, stop))
    (next : f.lineRange? (number + 1) = some (start', stop')) : start' = stop := by
  obtain ⟨k, here, -, second⟩ := lineRange?_eq_some_iff.mp range
  obtain ⟨k', there, first, -⟩ := lineRange?_eq_some_iff.mp next
  have word := number.toNat_lt
  rw [UInt32.toNat_add, UInt32.toNat_one] at there
  have same : k' = k + 1 := by omega
  rw [same] at first
  exact Option.some.inj (first.symm.trans second)

section Bounded

variable (bound : unit.text.utf8ByteSize < UInt32.size)

include bound

theorem start_lt_stop (range : (ofUnit unit).lineRange? number = some (start, stop)) :
    start < stop := by
  obtain ⟨k, -, first, second⟩ := lineRange?_eq_some_iff.mp range
  exact (lineStarts_lt_iff bound first second).mpr (Nat.lt_succ_self k)

theorem newline_before_stop (range : (ofUnit unit).lineRange? number = some (start, stop)) :
    stop.toNat = unit.text.utf8ByteSize ∨
      ∃ n, NewlineAt unit.text.toList n ∧ stop.toNat = n + 1 := by
  obtain ⟨k, -, -, second⟩ := lineRange?_eq_some_iff.mp range
  rcases (mem_lineStarts_iff bound).mp (Array.mem_of_getElem? second) with rfl | newline | close
  · have filled := UInt32.lt_iff_toNat_lt.mp (start_lt_stop bound range)
    cases filled
  · exact .inr newline
  · exact .inl close

theorem number_eq_of_inside {offset : Nat}
    (range : (ofUnit unit).lineRange? number = some (start, stop))
    (inside : start.toNat ≤ offset ∧ offset < stop.toNat)
    (range' : (ofUnit unit).lineRange? number' = some (start', stop'))
    (inside' : start'.toNat ≤ offset ∧ offset < stop'.toNat) : number = number' := by
  obtain ⟨k, here, first, second⟩ := lineRange?_eq_some_iff.mp range
  obtain ⟨k', here', first', second'⟩ := lineRange?_eq_some_iff.mp range'
  have forward := (lineStarts_lt_iff bound first second').mp (UInt32.lt_iff_toNat_lt.mpr (by omega))
  have backward := (lineStarts_lt_iff bound first' second).mp (UInt32.lt_iff_toNat_lt.mpr (by omega))
  exact UInt32.toNat_inj.mp (by omega)

theorem exists_lineRange_at {offset : Nat} (inside : offset < unit.text.utf8ByteSize) :
    ∃ number start stop, (ofUnit unit).lineRange? number = some (start, stop) ∧
      start.toNat ≤ offset ∧ offset < stop.toNat := by
  have word : (UInt32.ofNat offset).toNat = offset := UInt32.toNat_ofNat_of_lt' (by omega)
  obtain ⟨count, size, last, close⟩ := last_lineStart bound
  obtain ⟨k, here⟩ := exists_lineAt bound (word.trans_le (Nat.le_of_lt inside))
  obtain ⟨start, first, started⟩ := here.start
  have searched := here.searched
  -- The text goes on behind the offset, so there is a start behind it.
  have before : k < count := by
    have ordered : start < .ofNat unit.text.utf8ByteSize := by
      rw [UInt32.lt_iff_toNat_lt, UInt32.toNat_ofNat_of_lt' bound]
      rw [UInt32.le_iff_toNat_le, word] at started
      omega
    exact (lineStarts_lt_iff bound first last).mp ordered
  have second := Array.getElem?_eq_getElem (show k + 1 < (ofUnit unit).lineStarts.size by omega)
  have number : (UInt32.ofNat (k + 1)).toNat = k + 1 := UInt32.toNat_ofNat_of_lt' (by omega)
  refine ⟨_, start, _, lineRange?_eq_some_iff.mpr ⟨k, number, first, second⟩, ?_, ?_⟩
  · exact word ▸ UInt32.le_iff_toNat_le.mp started
  · rcases here.next _ second with behind | atEnd
    · exact word ▸ UInt32.lt_iff_toNat_lt.mp behind
    · have same : k + 1 = count := by omega
      rw [← same, second] at last
      rw [Option.some.inj last, UInt32.toNat_ofNat_of_lt' bound]
      exact inside

theorem stop_of_newline {n : Nat} (newline : NewlineAt unit.text.toList n)
    (range : (ofUnit unit).lineRange? number = some (start, stop))
    (inside : start.toNat ≤ n ∧ n < stop.toNat) : stop.toNat = n + 1 := by
  obtain ⟨k, here, first, second⟩ := lineRange?_eq_some_iff.mp range
  have close := newline.lt
  rw [byteLength_eq_utf8ByteSize] at close
  have word : (UInt32.ofNat (n + 1)).toNat = n + 1 := UInt32.toNat_ofNat_of_lt' (by omega)
  have member := (mem_lineStarts_iff bound).mpr (.inr (.inl ⟨n, newline, word⟩))
  obtain ⟨j, there⟩ := Array.mem_iff_getElem?.mp member
  -- The start behind the newline is behind the line's own, and not behind the next.
  have after := (lineStarts_lt_iff bound first there).mp (UInt32.lt_iff_toNat_lt.mpr (by omega))
  have upTo := (lineStarts_le_iff bound there second).mp (UInt32.le_iff_toNat_le.mpr (by omega))
  have same : j = k + 1 := by omega
  rw [same, second] at there
  rw [Option.some.inj there, word]

theorem exists_lineText_of_range (range : (ofUnit unit).lineRange? number = some (start, stop)) :
    ∃ before inside after, unit.text.toList = before ++ (inside ++ after) ∧
      start.toNat = byteLength before ∧ stop.toNat = byteLength before + byteLength inside ∧
      (ofUnit unit).lineText? number = .ok (some (dropLineEnd inside)) ∧
      '\n' ∉ dropLineEnd inside := by
  obtain ⟨before, inside, after, whole, first, second⟩ := cut_of_lineRange? bound range
  have sliced : (ofUnit unit).slice start stop = .ok inside := by
    rw [slice, ofUnit, whole, first, second, slice?_middle]
    rfl
  refine ⟨before, inside, after, whole, first, second, ?_, plain_dropLineEnd ?_⟩
  · rw [lineText?, range]
    simp only [sliced]
    rfl
  · rintro xs ys rfl
    have newline : NewlineAt unit.text.toList (byteLength (before ++ xs)) :=
      ⟨before ++ xs, ys ++ after, by simp [whole], rfl⟩
    have size : ('\n').utf8Size = 1 := rfl
    simp only [byteLength_append, byteLength] at newline second
    have atEnd := stop_of_newline bound newline range (by omega)
    by_contra more
    have := byteLength_pos more
    omega

theorem tiles_ofUnit {count : Nat} (size : (ofUnit unit).lineStarts.size = count + 1) :
    (ofUnit unit).Tiles count where
  numbered number := by rw [isSome_lineRange?_iff, size, Nat.lt_succ_iff]
  filled _ _ _ := start_lt_stop bound
  first start stop range := by
    obtain ⟨k, here, first, -⟩ := lineRange?_eq_some_iff.mp range
    have same : k = 0 := (Nat.succ.inj here).symm
    rw [same, first_lineStart bound] at first
    exact (Option.some.inj first).symm
  follows _ _ _ _ _ := start_eq_stop_before
  last number start stop range last := by
    obtain ⟨count', size', close, -⟩ := last_lineStart bound
    obtain ⟨k, here, -, second⟩ := lineRange?_eq_some_iff.mp range
    have same : k + 1 = count' := by omega
    rw [same, close] at second
    rw [← Option.some.inj second]
    exact UInt32.toNat_ofNat_of_lt' bound
  ends _ _ _ := newline_before_stop bound
  newlines n newline := by
    have inside := newline.lt
    rw [ofUnit, byteLength_eq_utf8ByteSize] at inside
    obtain ⟨number, start, stop, range, within⟩ := exists_lineRange_at bound inside
    refine ⟨number, ⟨start, stop, range, stop_of_newline bound newline range within⟩, ?_⟩
    rintro number' ⟨start', stop', range', atEnd⟩
    have filled := UInt32.lt_iff_toNat_lt.mp (start_lt_stop bound range')
    exact number_eq_of_inside bound range' (by omega) range within
  covered offset inside := by
    obtain ⟨number, start, stop, range, within⟩ := exists_lineRange_at bound inside
    refine ⟨number, ⟨start, stop, range, within⟩, ?_⟩
    rintro number' ⟨start', stop', range', within'⟩
    exact number_eq_of_inside bound range' within' range within
  text _ _ _ := exists_lineText_of_range bound

end Bounded

end Ranges

section Places

variable {unit : SourceUnit} {offset offset' line column line' column' : UInt32}
  (bound : unit.text.utf8ByteSize < UInt32.size)

include bound

theorem exists_lineColumn {count : Nat} (size : (ofUnit unit).lineStarts.size = count + 1)
    (inside : offset.toNat ≤ unit.text.utf8ByteSize)
    (room : offset.toNat + 1 = UInt32.size → 1 < count) :
    ∃ place, (ofUnit unit).lineColumn offset = .ok place := by
  obtain ⟨k, here⟩ := exists_lineAt bound inside
  obtain ⟨start, found, started⟩ := here.start
  have searched := here.searched
  have length := UInt32.toNat_sub_of_le _ _ started
  have order := UInt32.le_iff_toNat_le.mp started
  have fits : (offset - start).toNat + (1 : UInt32).toNat < UInt32.size := by
    rw [length, UInt32.toNat_one]
    by_contra large
    -- The end of so long a text is on its last line, which is not its first one.
    have later := room (by omega)
    have next := Array.getElem?_eq_getElem (show k + 1 < (ofUnit unit).lineStarts.size by omega)
    have within := lineStart_le bound (Array.mem_of_getElem? next)
    have first := index_le_lineStart bound found
    rcases here.next _ next with behind | last
    · have := UInt32.lt_iff_toNat_lt.mp behind
      omega
    · omega
  rw [here.lineColumn_eq bound found inside, addWords, if_pos fits]
  exact ⟨_, rfl⟩

theorem lineAt_of_lineColumn (placed : (ofUnit unit).lineColumn offset = .ok (line, column)) :
    ∃ k start, offset.toNat ≤ unit.text.utf8ByteSize ∧ (ofUnit unit).LineAt offset k ∧
      (ofUnit unit).lineStarts[k]? = some start ∧ line.toNat = k + 1 ∧
      start.toNat + column.toNat = offset.toNat + 1 := by
  have inside : offset.toNat ≤ unit.text.utf8ByteSize := by
    by_contra beyond
    have past : UInt32.ofNat (ofUnit unit).text.utf8ByteSize < offset := by
      rw [ofUnit, UInt32.lt_iff_toNat_lt, UInt32.toNat_ofNat_of_lt' bound]
      omega
    rw [lineColumn, if_pos past] at placed
    cases placed
  obtain ⟨k, here⟩ := exists_lineAt bound inside
  obtain ⟨start, found, started⟩ := here.start
  have searched := here.searched
  obtain ⟨count, size, -, close⟩ := last_lineStart bound
  have large : 1 < UInt32.size := by decide
  have number : (UInt32.ofNat (k + 1)).toNat = k + 1 := UInt32.toNat_ofNat_of_lt' (by omega)
  have length := UInt32.toNat_sub_of_le _ _ started
  have order := UInt32.le_iff_toNat_le.mp started
  rw [here.lineColumn_eq bound found inside] at placed
  obtain ⟨sum, added, same⟩ := map_ok_iff.mp placed
  cases same
  rw [addWords] at added
  split at added <;> cases added
  next fits =>
    refine ⟨k, start, inside, here, found, number, ?_⟩
    rw [UInt32.toNat_add, Nat.mod_eq_of_lt fits, length, UInt32.toNat_one]
    omega

theorem lineColumn_ascending (placed : (ofUnit unit).lineColumn offset = .ok (line, column))
    (placed' : (ofUnit unit).lineColumn offset' = .ok (line', column')) (less : offset < offset') :
    line < line' ∨ line = line' ∧ column < column' := by
  obtain ⟨k, start, -, here, found, number, sum⟩ := lineAt_of_lineColumn bound placed
  obtain ⟨k', start', -, here', found', number', sum'⟩ := lineAt_of_lineColumn bound placed'
  rcases Nat.lt_or_eq_of_le (here.le bound here' (UInt32.le_of_lt less)) with before | rfl
  · exact .inl (UInt32.lt_iff_toNat_lt.mpr (by omega))
  · cases found.symm.trans found'
    have order := UInt32.lt_iff_toNat_lt.mp less
    exact .inr ⟨UInt32.toNat_inj.mp (number.trans number'.symm),
      UInt32.lt_iff_toNat_lt.mpr (by omega)⟩

theorem locates_ofUnit {count : Nat} (size : (ofUnit unit).lineStarts.size = count + 1) :
    (ofUnit unit).Locates count where
  total _ := exists_lineColumn bound size
  placed offset line column placed := by
    obtain ⟨k, start, -, here, found, number, sum⟩ := lineAt_of_lineColumn bound placed
    obtain ⟨_, found', started⟩ := here.start
    cases found.symm.trans found'
    have order := UInt32.le_iff_toNat_le.mp started
    refine ⟨?_, ?_, start, by rw [number, Nat.add_sub_cancel, found], by omega⟩
    · rintro rfl
      cases number
    · rintro rfl
      rw [UInt32.toNat_zero] at sum
      omega
  newlines offset line column placed goesOn := by
    obtain ⟨k, -, inside, here, -, number, -⟩ := lineAt_of_lineColumn bound placed
    rw [number, Nat.add_sub_cancel]
    exact here.unique bound (lineAt_takeBytes bound inside goesOn)
  ended offset line column placed atEnd ended := by
    obtain ⟨k, -, -, here, -, number, -⟩ := lineAt_of_lineColumn bound placed
    obtain ⟨last, size', atLast⟩ := lineAt_end bound atEnd ended
    have same := here.unique bound atLast
    omega
  ascending _ _ _ _ _ _ := lineColumn_ascending bound
  injective offset offset' place placed placed' := by
    obtain ⟨k, start, -, -, found, number, sum⟩ := lineAt_of_lineColumn bound placed
    obtain ⟨k', start', -, -, found', number', sum'⟩ := lineAt_of_lineColumn bound placed'
    have same : k = k' := by omega
    rw [same, found'] at found
    cases found
    exact UInt32.toNat_inj.mp (by omega)

end Places

end SourceFile

open SourceFile

/-- The lines of a text tile it, and the places of its offsets are those on these lines. -/
theorem line_index_maps_text {unit : SourceUnit} (bound : unit.text.utf8ByteSize < UInt32.size) :
    (ofUnit unit).Ascends ∧ ∃ count, (ofUnit unit).lineCount = .ok count ∧
      (ofUnit unit).Tiles count ∧ (ofUnit unit).Locates count := by
  obtain ⟨count, size, -⟩ := last_lineStart bound
  have filled : ¬ (ofUnit unit).lineStarts.isEmpty := by
    intro empty
    rw [Array.isEmpty_iff.mp empty] at size
    cases size
  refine ⟨ascends_ofUnit bound, count, ?_, tiles_ofUnit bound size, locates_ofUnit bound size⟩
  rw [lineCount, if_neg filled, size, Nat.add_sub_cancel]

-- Lines that end in different ways, the last one with a character of two bytes.
def patchy : SourceUnit := ⟨"main", "a;\r\n\nä"⟩

theorem patchy_mapped :
    patchy.text.utf8ByteSize < UInt32.size ∧ (ofUnit patchy).lineStarts = #[0, 4, 5, 7] ∧
      (ofUnit patchy).Ascends ∧ (ofUnit patchy).Tiles 3 ∧ (ofUnit patchy).Locates 3 ∧
      (ofUnit patchy).lineColumn 6 = .ok (3, 2) := by
  have bound : patchy.text.utf8ByteSize < UInt32.size := by decide +kernel
  have three : (ofUnit patchy).lineCount = .ok 3 := by decide +kernel
  obtain ⟨ascends, count, counted, tiles, locates⟩ := line_index_maps_text bound
  cases three.symm.trans counted
  exact ⟨bound, by decide +kernel, ascends, tiles, locates, by decide +kernel⟩

theorem padded_plain (n : Nat) : '\n' ∉ (padded n).text.toList := by
  simp [padded]

-- The end of a single line can be too far for a column, though it is not for an offset.
theorem padded_end_unplaced :
    (padded 4294967290).text.utf8ByteSize < UInt32.size ∧
      (4294967295 : UInt32).toNat ≤ (padded 4294967290).text.utf8ByteSize ∧
      (ofUnit (padded 4294967290)).lineColumn 4294967295 = .error .outOfRange := by
  have size : (padded 4294967290).text.utf8ByteSize = 4294967295 := padded_size 4294967290
  have inside : (4294967295 : UInt32) ≤ .ofNat (padded 4294967290).text.utf8ByteSize := by
    rw [size]
    decide
  rw [lineColumn_plain (padded_plain 4294967290) inside, size]
  exact ⟨by decide, by decide, rfl⟩

end PuzzleMachine
