import Mathlib.Order.Bounds.Basic
import Mathlib.Order.Lattice
import PuzzleMachine.Proofs.Located
import PuzzleMachine.Proofs.Relocation

set_option autoImplicit false

namespace PuzzleMachine
namespace Span

structure Contains (s t : Span) : Prop where
  file : t.file = s.file
  start : s.start ≤ t.start
  stop : t.stop ≤ s.stop

variable {a b s : Span}

theorem Contains.refl (s : Span) : s.Contains s :=
  ⟨rfl, UInt32.le_refl _, UInt32.le_refl _⟩

theorem Contains.trans (outer : s.Contains a) (inner : a.Contains b) : s.Contains b where
  file := inner.file.trans outer.file
  start := UInt32.le_trans outer.start inner.start
  stop := UInt32.le_trans inner.stop outer.stop

theorem cover_start (a b : Span) : (a.cover b).start = min a.start b.start := by
  rw [cover, UInt32.min_def]
  split <;> rfl

theorem cover_file (same : a.file = b.file) : (a.cover b).file = a.file := by
  rw [cover]
  split
  · rfl
  · exact same.symm

theorem contains_cover_iff (same : a.file = b.file) :
    s.Contains (a.cover b) ↔ s.Contains a ∧ s.Contains b := by
  have start : s.start ≤ (a.cover b).start ↔ s.start ≤ a.start ∧ s.start ≤ b.start := by
    rw [cover_start]
    simp only [UInt32.le_iff_toNat_le, UInt32.toNat_min, Nat.le_min]
  have stop : (a.cover b).stop ≤ s.stop ↔ a.stop ≤ s.stop ∧ b.stop ≤ s.stop := by
    simp only [UInt32.le_iff_toNat_le, cover, UInt32.toNat_max, Nat.max_le]
  constructor
  next =>
    intro whole
    have file : a.file = s.file := (cover_file same).symm.trans whole.file
    obtain ⟨left, right⟩ := start.mp whole.start
    obtain ⟨left', right'⟩ := stop.mp whole.stop
    exact ⟨⟨file, left, left'⟩, same.symm.trans file, right, right'⟩
  next =>
    rintro ⟨first, second⟩
    exact ⟨(cover_file same).trans first.file, start.mpr ⟨first.start, second.start⟩,
      stop.mpr ⟨first.stop, second.stop⟩⟩

theorem cover_contains (same : a.file = b.file) :
    (a.cover b).Contains a ∧ (a.cover b).Contains b :=
  (contains_cover_iff same).mp (.refl _)

end Span

/-- A span that a source map makes of a range of bytes in one of its files. -/
structure FileSpan (sources : SourceMap) (id : UInt16) where
  span : Span
  made : ∃ start stop, sources.span id start stop = .ok span
  forward : span.start ≤ span.stop
  inside : ∃ f, sources.get? id = some f ∧ span.stop.toNat ≤ f.text.utf8ByteSize

namespace FileSpan

variable {sources : SourceMap} {id : UInt16}

theorem file_eq (a : FileSpan sources id) : a.span.file = id := by
  obtain ⟨start, stop, made⟩ := a.made
  exact (span_ok made).1

theorem same_file (a b : FileSpan sources id) : a.span.file = b.span.file :=
  a.file_eq.trans b.file_eq.symm

theorem placed (a : FileSpan sources id) :
    ∃ f, sources.get? id = some f ∧
      f.lineColumn a.span.start = .ok (a.span.line, a.span.column) := by
  obtain ⟨f, found, -⟩ := a.inside
  obtain ⟨start, stop, made⟩ := a.made
  rw [span_at f found] at made
  obtain ⟨place, placed, same⟩ := map_ok_iff.mp made
  rw [← same]
  exact ⟨f, found, placed⟩

-- The line and the column are the same wherever the span ends.
theorem remade (a : FileSpan sources id) (stop : UInt32) :
    sources.span id a.span.start stop = .ok { a.span with stop } := by
  obtain ⟨f, found, placed⟩ := a.placed
  simp [span_at f found, placed, a.file_eq, Except.map]

theorem ext {a b : FileSpan sources id} (start : a.span.start = b.span.start)
    (stop : a.span.stop = b.span.stop) : a = b := by
  -- The map makes both from the same bytes, and it makes only one span of them.
  have here : sources.span id a.span.start a.span.stop = .ok a.span := a.remade _
  have there : sources.span id b.span.start b.span.stop = .ok b.span := b.remade _
  rw [start, stop, there] at here
  have same := Except.ok.inj here
  rcases a with ⟨span, _, _, _⟩
  rcases b with ⟨_, _, _, _⟩
  cases same
  rfl

instance : PartialOrder (FileSpan sources id) where
  le a b := b.span.Contains a.span
  le_refl a := .refl a.span
  le_trans _ _ _ inner outer := outer.trans inner
  le_antisymm a b inner outer :=
    ext (UInt32.le_antisymm outer.start inner.start) (UInt32.le_antisymm inner.stop outer.stop)

theorem span_cover (a b : FileSpan sources id) :
    sources.span id (min a.span.start b.span.start) (max a.span.stop b.span.stop) =
      .ok (a.span.cover b.span) := by
  rw [Span.cover, UInt32.min_def]
  split
  · exact a.remade _
  · exact b.remade _

instance : SemilatticeSup (FileSpan sources id) where
  sup a b :=
    { span := a.span.cover b.span
      made := ⟨_, _, span_cover a b⟩
      forward := by
        have left := (Span.cover_contains (a.same_file b)).1
        exact UInt32.le_trans left.start (UInt32.le_trans a.forward left.stop)
      inside := by
        obtain ⟨f, found, first⟩ := a.inside
        obtain ⟨f', found', second⟩ := b.inside
        cases found.symm.trans found'
        rw [Span.cover, UInt32.toNat_max]
        exact ⟨f, found, Nat.max_le.mpr ⟨first, second⟩⟩ }
  le_sup_left a b := (Span.cover_contains (a.same_file b)).1
  le_sup_right a b := (Span.cover_contains (a.same_file b)).2
  sup_le a b _ first second := (Span.contains_cover_iff (a.same_file b)).mpr ⟨first, second⟩

theorem merge_eq (a b : FileSpan sources id) : a.span.merge b.span = .ok (a ⊔ b).span :=
  Span.merge_ok_iff.mpr ⟨a.same_file b, rfl⟩

end FileSpan

/-- Spans of one file are merged into the least span that contains them, which is at the line and
the column of its start like any span that the source map makes. -/
theorem merge_is_join {sources : SourceMap} {id : UInt16} (a b c : FileSpan sources id) :
    a.span.merge b.span = b.span.merge a.span ∧
      (a.span.merge b.span >>= fun s => s.merge c.span) = (b.span.merge c.span >>= a.span.merge) ∧
      a.span.merge a.span = .ok a.span ∧
      ∃ s : FileSpan sources id, a.span.merge b.span = .ok s.span ∧ IsLUB {a, b} s ∧
        sources.span id (min a.span.start b.span.start) (max a.span.stop b.span.stop) =
          .ok s.span ∧
        ∃ f, sources.get? id = some f ∧
          f.lineColumn s.span.start = .ok (s.span.line, s.span.column) := by
  refine ⟨?_, ?_, ?_, a ⊔ b, a.merge_eq b, isLUB_pair, a.span_cover b, (a ⊔ b).placed⟩
  · rw [a.merge_eq, b.merge_eq, sup_comm]
  · rw [a.merge_eq, b.merge_eq, ok_bind, ok_bind, (a ⊔ b).merge_eq, a.merge_eq, sup_assoc]
  · rw [a.merge_eq, sup_idem]

def twoLines : SourceMap := .ofUnits [⟨"main", "ab\ncd"⟩]

def acrossLines : FileSpan twoLines 0 where
  span := ⟨0, 1, 4, 1, 2⟩
  made := ⟨1, 4, by decide +kernel⟩
  forward := by decide
  inside := ⟨_, rfl, by decide +kernel⟩

def secondLine : FileSpan twoLines 0 where
  span := ⟨0, 3, 5, 2, 1⟩
  made := ⟨3, 5, by decide +kernel⟩
  forward := by decide
  inside := ⟨_, rfl, by decide +kernel⟩

theorem overlapping_merged :
    secondLine.span.merge acrossLines.span = .ok ⟨0, 1, 5, 1, 2⟩ ∧
      acrossLines.span.merge secondLine.span = .ok ⟨0, 1, 5, 1, 2⟩ ∧
      ∃ s : FileSpan twoLines 0, s.span = ⟨0, 1, 5, 1, 2⟩ ∧ IsLUB {secondLine, acrossLines} s := by
  have computed : secondLine.span.merge acrossLines.span = .ok ⟨0, 1, 5, 1, 2⟩ := by decide
  obtain ⟨commutes, -, -, s, merged, least, -⟩ := merge_is_join secondLine acrossLines secondLine
  exact ⟨computed, commutes.symm.trans computed, s, Except.ok.inj (merged.symm.trans computed), least⟩

end PuzzleMachine
