import Mathlib.Data.List.Induction
import Mathlib.Data.List.Nodup
import PuzzleMachine.Proofs.Checked
import PuzzleMachine.Proofs.Labels

set_option autoImplicit false

namespace PuzzleMachine

open Statement

/-- The statement at index `n` is the first one to declare the name of the entry. -/
structure LabelEntry.DeclaredAt (e : LabelEntry) (program : List Statement) (n : Nat) : Prop where
  here : program[n]? = some (.label ⟨e.name, e.span⟩)
  first : e.name ∉ names (program.take n)
  target : e.target = (instructions (program.take n)).length

section Places

variable {e e' : LabelEntry} {program : List Statement} {n n' : Nat}

theorem LabelEntry.DeclaredAt.inside (declared : e.DeclaredAt program n) : n < program.length :=
  (List.getElem?_eq_some_iff.mp declared.here).1

theorem LabelEntry.DeclaredAt.append (declared : e.DeclaredAt program n) (more : List Statement) :
    e.DeclaredAt (program ++ more) n := by
  have front : (program ++ more).take n = program.take n :=
    List.take_append_of_le_length (Nat.le_of_lt declared.inside)
  constructor
  · rw [List.getElem?_append_left declared.inside, declared.here]
  · rw [front]
    exact declared.first
  · rw [front]
    exact declared.target

theorem LabelEntry.DeclaredAt.target_le (declared : e.DeclaredAt program n) :
    e.target ≤ (instructions program).length := by
  rw [declared.target]
  exact ((List.take_sublist n program).filterMap _).length_le

theorem LabelEntry.DeclaredAt.target_mono (declared : e.DeclaredAt program n)
    (declared' : e'.DeclaredAt program n') (le : n ≤ n') : e.target ≤ e'.target := by
  rw [declared.target, declared'.target]
  exact ((List.take_sublist_take_left le).filterMap _).length_le

end Places

namespace LabelTable

/-- The table has an entry for each name that the program declares, in the order in which it does. -/
structure Lists (t : LabelTable) (program : List Statement) : Prop where
  named : ∀ name, (∃ e ∈ t.entries, e.name = name) ↔ ∃ l, .label l ∈ program ∧ l.value = name
  ordered : ∃ places : List Nat, places.Pairwise (· < ·) ∧
    List.Forall₂ (fun e n => e.DeclaredAt program n) t.entries places

def Distinct (t : LabelTable) : Prop := (t.entries.map LabelEntry.name).Nodup

section Recording

variable {t : LabelTable} {e : LabelEntry} {name : String}

theorem find?_eq_none_iff : t.find? name = none ↔ ∀ e ∈ t.entries, e.name ≠ name := by
  simp [find?]

theorem find?_some {first : LabelEntry} (found : t.find? name = some first) :
    first ∈ t.entries ∧ first.name = name :=
  ⟨List.mem_of_find?_eq_some found, by simpa using List.find?_some found⟩

theorem Distinct.find?_eq (distinct : t.Distinct) (member : e ∈ t.entries) :
    t.find? e.name = some e := by
  cases found : t.find? e.name with
  | none => exact absurd rfl (find?_eq_none_iff.mp found e member)
  | some first =>
    obtain ⟨there, same⟩ := find?_some found
    rw [List.inj_on_of_nodup_map distinct there member same]

theorem Distinct.declare (distinct : t.Distinct) (e : LabelEntry) : (t.declare e).Distinct := by
  rw [LabelTable.declare]
  cases known : t.find? e.name with
  | some first => rwa [record_of_known known]
  | none =>
    have apart := find?_eq_none_iff.mp known
    rw [record_of_new known, Distinct, List.map_append, List.nodup_append]
    refine ⟨distinct, List.nodup_singleton _, fun name member name' last => ?_⟩
    obtain ⟨e', among, rfl⟩ := List.mem_map.mp member
    rw [List.mem_singleton.mp last]
    exact apart e' among

theorem Distinct.collectFrom (distinct : t.Distinct) (next : Nat) (program : List Statement) :
    (t.collectFrom next program).Distinct := by
  induction program generalizing t next with
  | nil => exact distinct
  | cons s rest ih =>
    cases s with
    | label l => exact ih (distinct.declare _) next
    | instruction i => exact ih distinct (next + 1)

theorem Distinct.foldl (distinct : t.Distinct) (calls : List LabelEntry) :
    (calls.foldl LabelTable.declare t).Distinct := by
  induction calls generalizing t with
  | nil => exact distinct
  | cons e calls ih => exact ih (distinct.declare e)

end Recording

section Collecting

variable {t : LabelTable} {program : List Statement}

theorem Lists.instruction (lists : t.Lists program) (i : Located SourceInstruction) :
    t.Lists (program ++ [.instruction i]) where
  named name := by simp [lists.named]
  ordered := by
    obtain ⟨places, ascending, declared⟩ := lists.ordered
    exact ⟨places, ascending, declared.imp fun _ _ here => here.append _⟩

theorem Lists.again (lists : t.Lists program) {l : Located String} {first : LabelEntry}
    (member : first ∈ t.entries) (same : first.name = l.value) :
    t.Lists (program ++ [.label l]) where
  named name := by
    have known : l.value = name → ∃ l', .label l' ∈ program ∧ l'.value = name := by
      rintro rfl
      exact (lists.named _).mp ⟨first, member, same⟩
    rw [lists.named]
    constructor
    · rintro ⟨l', among, here⟩
      exact ⟨l', List.mem_append_left _ among, here⟩
    · rintro ⟨l', among, here⟩
      rcases List.mem_append.mp among with among | last
      · exact ⟨l', among, here⟩
      · cases List.mem_singleton.mp last
        exact known here
  ordered := by
    obtain ⟨places, ascending, declared⟩ := lists.ordered
    exact ⟨places, ascending, declared.imp fun _ _ here => here.append _⟩

theorem Lists.concat (lists : t.Lists program) {l : Located String}
    (apart : ∀ e ∈ t.entries, e.name ≠ l.value) :
    LabelTable.Lists ⟨t.entries ++ [⟨l.value, (instructions program).length, l.span⟩]⟩
      (program ++ [.label l]) where
  named name := by
    simp only [List.mem_append, List.mem_singleton, or_and_right, exists_or, lists.named]
    simp
  ordered := by
    obtain ⟨places, ascending, declared⟩ := lists.ordered
    have kept := declared.imp fun _ _ here => here.append [.label l]
    refine ⟨places ++ [program.length], ?_, List.rel_append kept (.cons ⟨?_, ?_, ?_⟩ .nil)⟩
    -- The places before are inside the program, so the new one is behind them.
    · refine List.pairwise_append.mpr ⟨ascending, List.pairwise_singleton _ _, ?_⟩
      intro n member last same
      obtain ⟨e, -, here⟩ := exists_related declared member
      rw [List.mem_singleton.mp same]
      exact here.inside
    · exact List.getElem?_concat_length
    · rw [List.take_left' rfl]
      intro member
      obtain ⟨l', among, same⟩ := List.mem_map.mp member
      obtain ⟨e, there, named⟩ := (lists.named l.value).mpr ⟨l', mem_labels.mp among, same⟩
      exact apart e there named
    · rw [List.take_left' rfl]

theorem Lists.declare (lists : t.Lists program) (l : Located String) :
    (t.declare ⟨l.value, (instructions program).length, l.span⟩).Lists (program ++ [.label l]) := by
  rw [LabelTable.declare]
  cases known : t.find? l.value with
  | some first =>
    obtain ⟨member, same⟩ := find?_some known
    rw [record_of_known known]
    exact lists.again member same
  | none =>
    rw [record_of_new known]
    exact lists.concat (find?_eq_none_iff.mp known)

theorem lists_collectFrom (program : List Statement) :
    (empty.collectFrom 0 program).Lists program := by
  -- By induction from the end, as what is behind a declaration does not change its entry.
  induction program using List.reverseRecOn with
  | nil => exact ⟨by simp [collectFrom, empty], [], .nil, .nil⟩
  | append_singleton program s ih =>
    rw [collectFrom_append, Nat.zero_add]
    cases s with
    | label l => exact ih.declare l
    | instruction i => exact ih.instruction i

theorem Lists.targets_ascend (lists : t.Lists program) :
    t.entries.Pairwise fun e e' => e.target ≤ e'.target := by
  obtain ⟨places, ascending, declared⟩ := lists.ordered
  refine pairwise_of_related declared.flip ascending fun n n' e e' here there less => ?_
  exact here.target_mono there (Nat.le_of_lt less)

theorem Lists.target_le (lists : t.Lists program) {e : LabelEntry} (member : e ∈ t.entries) :
    e.target ≤ (instructions program).length := by
  obtain ⟨places, -, declared⟩ := lists.ordered
  obtain ⟨n, -, here⟩ := exists_related declared.flip member
  exact here.target_le

end Collecting

end LabelTable

open LabelTable

/-- A table has the first declaration of each name of the program, in order, and recording a label
in it, however many have been recorded before, changes it only by a new name at its end. -/
theorem labels_listed_as_declared (units : List ParsedUnit) :
    (collect units).Lists (units.flatMap ParsedUnit.statements) ∧
      (collect units).entries.Pairwise (fun e e' => e.target ≤ e'.target) ∧
      (∀ e ∈ (collect units).entries,
        e.target ≤ (units.flatMap ParsedUnit.instructions).length) ∧
      ∀ (calls : List LabelEntry) (e : LabelEntry),
        let t := calls.foldl declare (collect units)
        (∀ known ∈ t.entries, known.name = e.name → t.record e = (some known, t)) ∧
          ((∀ known ∈ t.entries, known.name ≠ e.name) →
            t.record e = (none, ⟨t.entries ++ [e]⟩)) := by
  have lists := lists_collectFrom (units.flatMap ParsedUnit.statements)
  refine ⟨lists, lists.targets_ascend, fun e member => ?_, fun calls e => ⟨?_, ?_⟩⟩
  · rw [flatMap_instructions]
    exact lists.target_le member
  · intro known member same
    -- A look-up gives the first entry of the name, and as names are distinct it is this one.
    have distinct : empty.Distinct := List.nodup_nil
    have found := ((distinct.collectFrom 0 _).foldl calls).find?_eq member
    exact record_of_known (same ▸ found)
  · exact fun apart => record_of_new (find?_eq_none_iff.mpr apart)

def relabelled : List ParsedUnit :=
  [⟨0, [.label ⟨"Z", .zero 0⟩, .instruction ⟨.write ⟨.literal 1, .zero 0⟩, .zero 0⟩,
      .label ⟨"A", .zero 0⟩]⟩,
    ⟨1, [.label ⟨"Z", .zero 1⟩, .label ⟨"M", .zero 1⟩]⟩]

theorem relabelled_listed :
    (collect relabelled).entries = [⟨"Z", 0, .zero 0⟩, ⟨"A", 1, .zero 0⟩, ⟨"M", 1, .zero 1⟩] ∧
      (collect relabelled).Lists (relabelled.flatMap ParsedUnit.statements) ∧
      ((collect relabelled).declare ⟨"B", 9, .zero 0⟩).record ⟨"Z", 7, .zero 1⟩ =
        (some ⟨"Z", 0, .zero 0⟩, (collect relabelled).declare ⟨"B", 9, .zero 0⟩) := by
  obtain ⟨lists, -, -, later⟩ := labels_listed_as_declared relabelled
  have ⟨known, _⟩ := later [⟨"B", 9, .zero 0⟩] ⟨"Z", 7, .zero 1⟩
  exact ⟨by decide, lists, known ⟨"Z", 0, .zero 0⟩ (by decide) rfl⟩

end PuzzleMachine
