import PuzzleMachine.Proofs.Checked
import PuzzleMachine.Statement.Parse

set_option autoImplicit false

namespace PuzzleMachine
namespace TokenStream

variable {s later : TokenStream} {t : Located Token}

theorem next?_eq_some_iff :
    s.next? = some t ↔ t.value ≠ .newline ∧ ∃ rest, s.rest = t :: rest := by
  obtain ⟨file, taken?, rest⟩ := s
  cases rest with
  | nil => simp [next?]
  | cons t' rest =>
    obtain ⟨value, span⟩ := t'
    cases value
    case newline =>
      constructor
      · intro taken
        cases taken
      · rintro ⟨inLine, rest', same⟩
        cases same
        exact absurd rfl inLine
    all_goals
      simp only [next?, Option.some.injEq, List.cons.injEq, exists_and_left, exists_eq', and_true]
      refine ⟨?_, And.right⟩
      rintro rfl
      exact ⟨by simp, rfl⟩

theorem restOfLine_of_next?_eq_none (ended : s.next? = none) : s.restOfLine = [] := by
  obtain ⟨file, taken?, rest⟩ := s
  cases rest with
  | nil => rfl
  | cons t rest =>
    obtain ⟨value, span⟩ := t
    cases value <;> first | rfl | cases ended

theorem restOfLine_of_next? (next : s.next? = some t) :
    s.restOfLine = t :: s.advance.restOfLine := by
  obtain ⟨inLine, rest, same⟩ := next?_eq_some_iff.mp next
  simp [restOfLine, advance, same, inLine]

theorem next?_eq_none_of_restOfLine (ended : s.restOfLine = []) : s.next? = none := by
  cases next : s.next? with
  | none => rfl
  | some t =>
    rw [restOfLine_of_next? next] at ended
    cases ended

theorem exists_next?_of_restOfLine {ts : List (Located Token)}
    (line : s.restOfLine = t :: ts) : s.next? = some t ∧ s.advance.restOfLine = ts := by
  cases next : s.next? with
  | none =>
    rw [restOfLine_of_next?_eq_none next] at line
    cases line
  | some t' =>
    rw [restOfLine_of_next? next] at line
    cases line
    exact ⟨rfl, rfl⟩

theorem taken?_of_next? (next : s.next? = some t) : s.advance.taken? = some t := by
  obtain ⟨inLine, rest, same⟩ := next?_eq_some_iff.mp next
  simp [advance, same]

theorem SameLine.taken?_eq (same : SameLine s later) (ended : later.next? = none) :
    later.taken? = s.restOfLine.getLast?.or s.taken? := by
  induction same with
  | start s => rw [restOfLine_of_next?_eq_none ended, List.getLast?_nil, Option.none_or]
  | @take file taken? t rest s inLine _ ih =>
    have line : restOfLine ⟨file, taken?, t :: rest⟩ = t :: restOfLine ⟨file, some t, rest⟩ := by
      simp [restOfLine, inLine]
    rw [ih ended, line, List.getLast?_cons]
    cases (restOfLine ⟨file, some t, rest⟩).getLast? <;> rfl

theorem skipLine_cases (s : TokenStream) :
    (s.rest = s.restOfLine ∧ s.skipLine.rest = []) ∨
      ∃ t, t.value = .newline ∧ s.rest = s.restOfLine ++ t :: s.skipLine.rest := by
  obtain ⟨file, taken?, rest⟩ := s
  induction rest generalizing taken? with
  | nil => exact .inl ⟨rfl, rfl⟩
  | cons t rest ih =>
    by_cases newline : t.value = .newline
    · exact .inr ⟨t, newline, by simp [restOfLine, skipLine, skipLineFrom, newline]⟩
    · have line : restOfLine ⟨file, taken?, t :: rest⟩ = t :: restOfLine ⟨file, some t, rest⟩ := by
        simp [restOfLine, newline]
      have skip : skipLine ⟨file, taken?, t :: rest⟩ = skipLine ⟨file, some t, rest⟩ := by
        simp [skipLine, skipLineFrom, newline]
      rw [line, skip]
      rcases ih (some t) with ⟨whole, last⟩ | ⟨t', ended, cut⟩
      · exact .inl ⟨congrArg (t :: ·) whole, last⟩
      · exact .inr ⟨t', ended, congrArg (t :: ·) cut⟩

theorem exists_line (more : s.rest ≠ []) : ∃ line, s.rest = line ++ s.skipLine.rest ∧ line ≠ [] := by
  rcases s.skipLine_cases with ⟨-, last⟩ | ⟨t, -, cut⟩
  · exact ⟨s.rest, by rw [last, List.append_nil], more⟩
  · exact ⟨s.restOfLine ++ [t], by rw [cut, List.append_assoc, List.singleton_append], by simp⟩

theorem skipLine_file (s : TokenStream) : s.skipLine.file = s.file := by
  obtain ⟨file, taken?, rest⟩ := s
  induction rest generalizing taken? with
  | nil => rfl
  | cons t rest ih =>
    rw [skipLine, skipLineFrom]
    split
    · rfl
    · exact ih (some t)

theorem SameLine.exists_taken (same : SameLine s later) :
    ∃ taken, s.rest = taken ++ later.rest ∧ (∀ t ∈ taken, t.value ≠ .newline) ∧
      later.taken? = taken.getLast?.or s.taken? ∧ later.file = s.file := by
  induction same with
  | start s => exact ⟨[], rfl, nofun, rfl, rfl⟩
  | @take file taken? t rest s inLine _ ih =>
    obtain ⟨taken, whole, plain, last, same⟩ := ih
    refine ⟨t :: taken, congrArg (t :: ·) whole, List.forall_mem_cons.mpr ⟨inLine, plain⟩, ?_, same⟩
    rw [last, List.getLast?_cons]
    cases taken.getLast? <;> rfl

-- On a line that there is, each place is at one of its tokens, or behind the last one of all.
theorem SameLine.here_cases (same : SameLine s later) (more : s.rest ≠ []) :
    (∃ line, s.rest = line ++ s.skipLine.rest ∧ ∃ t ∈ line, later.here = .ok t.span) ∨
      s.skipLine.rest = [] ∧
        ∃ t ∈ s.rest, t.value ≠ .newline ∧ later.here = t.span.justAfter s.file := by
  obtain ⟨taken, whole, plain, last, file⟩ := same.exists_taken
  have skip := same.skipLine_eq
  cases rest : later.rest with
  | nil =>
    rw [rest, List.append_nil] at whole
    obtain ⟨t, ends⟩ := Option.ne_none_iff_exists'.mp (List.getLast?_eq_none_iff.not.mpr more)
    rw [whole] at ends
    have member := List.mem_of_getLast? ends
    refine .inr ⟨?_, t, whole ▸ member, plain t member, ?_⟩
    · rw [← skip, skipLine, rest]
      rfl
    · simp only [here, rest, last, ends, file, Option.some_or]
  | cons t ts =>
    obtain ⟨line, cut, filled⟩ := exists_line (s := later) (by simp [rest])
    rw [skip] at cut
    refine .inl ⟨taken ++ line, by rw [whole, cut, List.append_assoc], t, ?_, by simp only [here, rest]⟩
    obtain ⟨first, line, rfl⟩ := List.exists_cons_of_ne_nil filled
    rw [rest] at cut
    cases cut
    simp

theorem restOfLine_sublist (s : TokenStream) : s.restOfLine.Sublist s.rest :=
  (List.takeWhile_prefix _).sublist

theorem skipLine_sublist (s : TokenStream) : s.skipLine.rest.Sublist s.rest := by
  rcases s.skipLine_cases with ⟨-, last⟩ | ⟨t, -, cut⟩
  · rw [last]
    exact List.nil_sublist _
  · rw [cut]
    exact (List.sublist_cons_self t _).trans (List.sublist_append_right _ _)

-- What holds at the end, and before each line if it does after it, holds of every stream.
@[elab_as_elim]
theorem by_lines {motive : TokenStream → Prop} (ended : ∀ s, s.rest = [] → motive s)
    (line : ∀ s, s.rest ≠ [] → motive s.skipLine → motive s) (s : TokenStream) : motive s := by
  by_cases more : s.rest = []
  · exact ended s more
  · exact line s more (by_lines ended line s.skipLine)
termination_by s.rest.length
decreasing_by exact skipLine_length_lt more

end TokenStream
end PuzzleMachine
