import Mathlib.Data.List.Forall2

set_option autoImplicit false

namespace PuzzleMachine

section Except

variable {ε α β : Type}

@[simp] theorem ok_bind (a : α) (f : α → Except ε β) : ((.ok a : Except ε α) >>= f) = f a := rfl

@[simp] theorem error_bind (e : ε) (f : α → Except ε β) :
    ((.error e : Except ε α) >>= f) = .error e := rfl

theorem bind_ok_iff {x : Except ε α} {f : α → Except ε β} {b : β} :
    x >>= f = .ok b ↔ ∃ a, x = .ok a ∧ f a = .ok b := by
  cases x <;> simp

theorem bind_error_iff {x : Except ε α} {f : α → Except ε β} {e : ε} :
    x >>= f = .error e ↔ x = .error e ∨ ∃ a, x = .ok a ∧ f a = .error e := by
  cases x <;> simp

theorem map_ok_iff {x : Except ε α} {f : α → β} {b : β} :
    x.map f = .ok b ↔ ∃ a, x = .ok a ∧ f a = b := by
  cases x <;> simp [Except.map]

theorem map_error_iff {x : Except ε α} {f : α → β} {e : ε} :
    x.map f = .error e ↔ x = .error e := by
  cases x <;> simp [Except.map]

theorem mapM_ok_iff {f : α → Except ε β} {as : List α} {bs : List β} :
    as.mapM f = .ok bs ↔ List.Forall₂ (fun a b => f a = .ok b) as bs := by
  induction as generalizing bs with
  | nil => cases bs <;> simp [pure, Except.pure]
  | cons a as ih =>
    cases bs with
    | nil => simp [bind_ok_iff, pure, Except.pure]
    | cons b bs =>
      simp only [List.mapM_cons, bind_ok_iff, pure, Except.pure, List.forall₂_cons, ih]
      constructor
      · rintro ⟨b', hb, bs', hbs, same⟩
        cases same
        exact ⟨hb, hbs⟩
      · rintro ⟨hb, hbs⟩
        exact ⟨b, hb, bs, hbs, rfl⟩

theorem map_mapM {γ : Type} (f : α → Except ε β) (g : β → γ) (as : List α) :
    (as.mapM f).map (List.map g) = as.mapM fun a => (f a).map g := by
  induction as with
  | nil => rfl
  | cons a as ih =>
    rw [List.mapM_cons, List.mapM_cons, ← ih]
    cases f a with
    | error e => rfl
    | ok b => cases as.mapM f <;> rfl

theorem exists_related_to_each {R : α → β → Prop} {as : List α} (total : ∀ a ∈ as, ∃ b, R a b) :
    ∃ bs, List.Forall₂ R as bs := by
  induction as with
  | nil => exact ⟨[], .nil⟩
  | cons a as ih =>
    obtain ⟨first, later⟩ := List.forall_mem_cons.mp total
    obtain ⟨b, here⟩ := first
    obtain ⟨bs, rest⟩ := ih later
    exact ⟨b :: bs, .cons here rest⟩

theorem exists_mapM_ok {f : α → Except ε β} {as : List α} (total : ∀ a ∈ as, ∃ b, f a = .ok b) :
    ∃ bs, as.mapM f = .ok bs := by
  simpa only [mapM_ok_iff] using exists_related_to_each total

theorem exists_of_mapM_error {f : α → Except ε β} {as : List α} {e : ε}
    (failed : as.mapM f = .error e) : ∃ a ∈ as, f a = .error e := by
  induction as with
  | nil => cases failed
  | cons a as ih =>
    rw [List.mapM_cons] at failed
    rcases bind_error_iff.mp failed with here | ⟨b, -, failed⟩
    · exact ⟨a, List.mem_cons_self, here⟩
    · rcases bind_error_iff.mp failed with later | ⟨bs, -, same⟩
      · obtain ⟨a', member, there⟩ := ih later
        exact ⟨a', List.mem_cons_of_mem a member, there⟩
      · cases same

end Except

section Related

variable {α β : Type} {R : α → β → Prop} {as : List α} {bs : List β}

theorem exists_related (related : List.Forall₂ R as bs) {b : β} (member : b ∈ bs) :
    ∃ a ∈ as, R a b := by
  induction related with
  | nil => simp at member
  | @cons a b' as bs here _ ih =>
    rcases List.mem_cons.mp member with rfl | later
    · exact ⟨a, List.mem_cons_self, here⟩
    · obtain ⟨a', a'_mem, there⟩ := ih later
      exact ⟨a', List.mem_cons_of_mem a a'_mem, there⟩

theorem related_getElem? (related : List.Forall₂ R as bs) {i : Nat} {a : α}
    (there : as[i]? = some a) : ∃ b, bs[i]? = some b ∧ R a b := by
  induction related generalizing i with
  | nil => cases there
  | cons here _ ih =>
    cases i with
    | zero =>
      cases there
      exact ⟨_, rfl, here⟩
    | succ i => exact ih there

theorem exists_related_filterMap {γ : Type} {f : β → Option γ} (related : List.Forall₂ R as bs) :
    ∃ as', as'.Sublist as ∧
      List.Forall₂ (fun a c => ∃ b, R a b ∧ f b = some c) as' (bs.filterMap f) := by
  induction related with
  | nil => exact ⟨[], List.Sublist.refl _, .nil⟩
  | @cons a b as bs here _ ih =>
    obtain ⟨as', sub, rest⟩ := ih
    rw [List.filterMap_cons]
    cases kept : f b with
    | none => exact ⟨as', sub.cons a, rest⟩
    | some c => exact ⟨a :: as', sub.cons_cons a, .cons ⟨b, here, kept⟩ rest⟩

theorem exists_filterMap_related {γ : Type} {f : α → Option β} {S : β → γ → Prop} {cs : List γ}
    (related : List.Forall₂ S (as.filterMap f) cs) :
    ∃ as', as'.Sublist as ∧ List.Forall₂ (fun a c => ∃ b, f a = some b ∧ S b c) as' cs := by
  induction as generalizing cs with
  | nil =>
    cases related
    exact ⟨[], List.Sublist.refl _, .nil⟩
  | cons a as ih =>
    rw [List.filterMap_cons] at related
    cases kept : f a with
    | none =>
      rw [kept] at related
      obtain ⟨as', sub, rest⟩ := ih related
      exact ⟨as', sub.cons a, rest⟩
    | some b =>
      rw [kept] at related
      cases related with
      | cons here rest =>
        obtain ⟨as', sub, rest⟩ := ih rest
        exact ⟨a :: as', sub.cons_cons a, .cons ⟨b, kept, here⟩ rest⟩

theorem filterMap_eq_of_related {γ : Type} {f : α → Option β} {g : α → Option γ}
    {S : β → γ → Prop} {cs : List γ} (related : List.Forall₂ S (as.filterMap f) cs)
    (kept : ∀ a b c, f a = some b → S b c → g a = some c)
    (dropped : ∀ a, f a = none → g a = none) : as.filterMap g = cs := by
  induction as generalizing cs with
  | nil =>
    cases related
    rfl
  | cons a as ih =>
    cases found : f a with
    | none =>
      rw [List.filterMap_cons_none found] at related
      rw [List.filterMap_cons_none (dropped a found), ih related]
    | some b =>
      rw [List.filterMap_cons_some found] at related
      cases related with
      | cons here rest => rw [List.filterMap_cons_some (kept a b _ found here), ih rest]

theorem filter_related {γ : Type} {S : α → γ → Prop} {keep : α → Bool} {f : β → Option γ}
    (related : List.Forall₂ R as bs)
    (kept : ∀ a b, R a b → keep a = true → ∃ c, f b = some c ∧ S a c)
    (dropped : ∀ a b, R a b → keep a = false → f b = none) :
    List.Forall₂ S (as.filter keep) (bs.filterMap f) := by
  induction related with
  | nil => exact .nil
  | @cons a b as bs here _ ih =>
    cases keeps : keep a with
    | true =>
      obtain ⟨c, found, there⟩ := kept a b here keeps
      rw [List.filter_cons_of_pos keeps, List.filterMap_cons_some found]
      exact .cons there ih
    | false =>
      rwa [List.filter_cons_of_neg (by simp [keeps]),
        List.filterMap_cons_none (dropped a b here keeps)]

theorem related_append {bs' : List β} (related : List.Forall₂ R as (bs ++ bs')) :
    ∃ front back, as = front ++ back ∧ List.Forall₂ R front bs ∧ List.Forall₂ R back bs' :=
  ⟨_, _, (List.take_append_drop bs.length as).symm, List.forall₂_take_append as bs bs' related,
    List.forall₂_drop_append as bs bs' related⟩

theorem pairwise_of_related {P : α → α → Prop} {Q : β → β → Prop}
    (related : List.Forall₂ R as bs) (ordered : as.Pairwise P)
    (carry : ∀ a a' b b', R a b → R a' b' → P a a' → Q b b') : bs.Pairwise Q := by
  induction related with
  | nil => exact .nil
  | @cons a b as bs here rest ih =>
    obtain ⟨first, ordered⟩ := List.pairwise_cons.mp ordered
    refine List.pairwise_cons.mpr ⟨fun b' member => ?_, ih ordered⟩
    obtain ⟨a', a'_mem, there⟩ := exists_related rest member
    exact carry a a' b b' here there (first a' a'_mem)

theorem map_eq_of_related {γ δ : Type} {S : α → γ → Prop} {cs : List γ} {f : β → δ} {g : γ → δ}
    (related : List.Forall₂ R as bs) (related' : List.Forall₂ S as cs)
    (each : ∀ a b c, R a b → S a c → f b = g c) : bs.map f = cs.map g := by
  induction related generalizing cs with
  | nil =>
    cases related'
    rfl
  | cons here _ ih =>
    cases related' with
    | cons here' rest' => rw [List.map_cons, List.map_cons, each _ _ _ here here', ih rest']

theorem exists_map_iff {γ δ : Type} {P : α → γ → Prop} {Q : β → δ → Prop} {f : γ → δ}
    {ds : List δ} (related : List.Forall₂ R as bs)
    (each : ∀ b ∈ bs, ∀ a d, R a b → ((∃ c, P a c ∧ f c = d) ↔ Q b d)) :
    (∃ cs, List.Forall₂ P as cs ∧ cs.map f = ds) ↔ List.Forall₂ Q bs ds := by
  induction related generalizing ds with
  | nil => simp [eq_comm]
  | @cons a b as bs here _ ih =>
    obtain ⟨first, later⟩ := List.forall_mem_cons.mp each
    constructor
    next =>
      rintro ⟨cs, found, rfl⟩
      cases found with
      | cons found rest =>
        exact .cons ((first a _ here).mp ⟨_, found, rfl⟩) ((ih later).mp ⟨_, rest, rfl⟩)
    next =>
      intro found
      cases found with
      | cons found rest =>
        obtain ⟨c, holds, rfl⟩ := (first a _ here).mpr found
        obtain ⟨cs, hold, rfl⟩ := (ih later).mpr rest
        exact ⟨c :: cs, .cons holds hold, rfl⟩

end Related

end PuzzleMachine
