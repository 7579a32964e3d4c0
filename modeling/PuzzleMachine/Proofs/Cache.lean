import PuzzleMachine.CompileCache
import PuzzleMachine.Proofs.Units
import Mathlib.Data.Set.Card

set_option autoImplicit false

namespace PuzzleMachine

inductive CacheCall where
  | get (units : List SourceUnit) (hw : Hardware)
  | clear
deriving DecidableEq

def CachedProgram.key (e : CachedProgram) : List SourceUnit × Hardware := (e.units, e.hardware)

namespace CompileCache

variable {c : CompileCache} {calls : List CacheCall} {units : List SourceUnit} {hw : Hardware}
  {e : CachedProgram}

def call (c : CompileCache) : CacheCall → CompileCache
  | .get units hw => (c.request units hw).2
  | .clear => c.clear

def after (calls : List CacheCall) : CompileCache := calls.foldl call empty

def answer (calls : List CacheCall) (units : List SourceUnit) (hw : Hardware) :
    Checked (Diagnosed CachedProgram) :=
  ((after calls).request units hw).1

def Answered (calls : List CacheCall) (units : List SourceUnit) (hw : Hardware)
    (e : CachedProgram) : Prop :=
  ∃ earlier later, calls = earlier ++ .get units hw :: later ∧
    answer earlier units hw = .ok (.ok e)

/-- One of `calls` asked for these units and got `e`, and none after it cleared the cache. -/
def Keeps (calls : List CacheCall) (units : List SourceUnit) (hw : Hardware)
    (e : CachedProgram) : Prop :=
  ∃ earlier later, calls = earlier ++ .get units hw :: later ∧
    answer earlier units hw = .ok (.ok e) ∧ .clear ∉ later

def requests (calls : List CacheCall) : Nat := calls.countP (· ≠ .clear)

section Request

inductive Requested (c : CompileCache) (units : List SourceUnit) (hw : Hardware) :
    Checked (Diagnosed CachedProgram) → CompileCache → Prop
  | hit (e : CachedProgram) (found : c.find? units hw = some e) :
      Requested c units hw (.ok (.ok e)) { c with hits := c.hits + 1 }
  | store (p : ValidProgram) (missing : c.find? units hw = none)
      (compiled : outcome units hw = .ok (.ok p)) :
      Requested c units hw (.ok (.ok ⟨units, hw, c.stored, p.code⟩))
        { entries := ⟨units, hw, c.stored, p.code⟩ :: c.entries
          hits := c.hits, misses := c.misses + 1, stored := c.stored + 1 }
  | refuse (ds : List Diagnostic) (missing : c.find? units hw = none)
      (refused : outcome units hw = .ok (.error ds)) :
      Requested c units hw (.ok (.error ds)) { c with misses := c.misses + 1 }
  | stop (breach : Breach) (missing : c.find? units hw = none)
      (stopped : outcome units hw = .error breach) :
      Requested c units hw (.error breach) { c with misses := c.misses + 1 }

theorem requested (c : CompileCache) (units : List SourceUnit) (hw : Hardware) :
    Requested c units hw (c.request units hw).1 (c.request units hw).2 := by
  cases found : c.find? units hw with
  | some e =>
    have hit : c.request units hw = (.ok (.ok e), { c with hits := c.hits + 1 }) := by
      simp only [request, found]
    rw [hit]
    exact .hit e found
  | none =>
    cases compiled : outcome units hw with
    | error breach =>
      have stop : c.request units hw = (.error breach, { c with misses := c.misses + 1 }) := by
        simp only [request, found, outcome.eq_1 units hw ▸ compiled]
      rw [stop]
      exact .stop breach found compiled
    | ok result =>
      cases result with
      | error ds =>
        have refuse : c.request units hw = (.ok (.error ds), { c with misses := c.misses + 1 }) := by
          simp only [request, found, outcome.eq_1 units hw ▸ compiled]
        rw [refuse]
        exact .refuse ds found compiled
      | ok p =>
        have store : c.request units hw = (.ok (.ok ⟨units, hw, c.stored, p.code⟩),
            { entries := ⟨units, hw, c.stored, p.code⟩ :: c.entries
              hits := c.hits, misses := c.misses + 1, stored := c.stored + 1 }) := by
          simp only [request, found, outcome.eq_1 units hw ▸ compiled]
        rw [store]
        exact .store p found compiled

section Missing

variable {r : Checked (Diagnosed CachedProgram)} {c' : CompileCache}

theorem Requested.missed (done : Requested c units hw r c') (missing : c.find? units hw = none) :
    c'.hits = c.hits ∧ c'.misses = c.misses + 1 ∧ ∀ e, r = .ok (.ok e) → e.serial = c.stored := by
  cases done with
  | hit e found => simp [missing] at found
  | store p _ compiled =>
    refine ⟨rfl, rfl, ?_⟩
    rintro _ ⟨⟩
    rfl
  | refuse ds _ refused => exact ⟨rfl, rfl, by simp⟩
  | stop breach _ stopped => exact ⟨rfl, rfl, by simp⟩

theorem Requested.uncompiled (done : Requested c units hw r c')
    (missing : c.find? units hw = none) (none : ∀ p, outcome units hw ≠ .ok (.ok p)) :
    c' = { c with misses := c.misses + 1 } := by
  cases done with
  | hit e found => simp [missing] at found
  | store p _ compiled => exact absurd compiled (none p)
  | refuse ds _ refused => rfl
  | stop breach _ stopped => rfl

end Missing

theorem key_of_find? (found : c.find? units hw = some e) :
    e ∈ c.entries ∧ e.key = (units, hw) := by
  have same : e.units = units ∧ e.hardware = hw := by simpa using List.find?_some found
  exact ⟨List.mem_of_find?_eq_some found, Prod.ext same.1 same.2⟩

theorem exists_find?_iff :
    (∃ e, c.find? units hw = some e) ↔ (units, hw) ∈ c.entries.map CachedProgram.key := by
  rw [← Option.isSome_iff_exists, find?, List.find?_isSome, List.mem_map]
  simp [CachedProgram.key]

end Request

section History

variable {units' : List SourceUnit} {hw' : Hardware} {call : CacheCall}

theorem split_concat_iff {earlier later : List CacheCall} {here : CacheCall} :
    calls ++ [call] = earlier ++ here :: later ↔
      (calls = earlier ∧ call = here ∧ later = []) ∨
        ∃ between, calls = earlier ++ here :: between ∧ later = between ++ [call] := by
  rcases later.eq_nil_or_concat with rfl | ⟨between, last, rfl⟩
  · simp
  · rw [List.concat_eq_append, ← List.cons_append, ← List.append_assoc]
    constructor
    next =>
      intro same
      obtain ⟨front, back⟩ := List.append_inj' same rfl
      exact .inr ⟨between, front, by rw [back]⟩
    next =>
      rintro (⟨-, -, none⟩ | ⟨between', rfl, same⟩)
      · simp at none
      · obtain ⟨rfl, back⟩ := List.append_inj' same rfl
        rw [back]

theorem answered_concat_iff :
    Answered (calls ++ [call]) units hw e ↔
      Answered calls units hw e ∨
        call = .get units hw ∧ answer calls units hw = .ok (.ok e) := by
  simp only [Answered, split_concat_iff]
  constructor
  next =>
    rintro ⟨earlier, later, ⟨rfl, last, -⟩ | ⟨between, rfl, -⟩, got⟩
    · exact .inr ⟨last, got⟩
    · exact .inl ⟨earlier, between, rfl, got⟩
  next =>
    rintro (⟨earlier, later, rfl, got⟩ | ⟨last, got⟩)
    · exact ⟨earlier, later ++ [call], .inr ⟨later, rfl, rfl⟩, got⟩
    · exact ⟨calls, [], .inl ⟨rfl, last, rfl⟩, got⟩

theorem not_keeps_clear : ¬ Keeps (calls ++ [.clear]) units hw e := by
  rintro ⟨earlier, later, split, -, kept⟩
  rcases split_concat_iff.mp split with ⟨-, last, -⟩ | ⟨between, -, rfl⟩
  · cases last
  · simp at kept

theorem keeps_get_iff :
    Keeps (calls ++ [.get units' hw']) units hw e ↔
      Keeps calls units hw e ∨
        (units' = units ∧ hw' = hw) ∧ answer calls units' hw' = .ok (.ok e) := by
  simp only [Keeps, split_concat_iff]
  constructor
  next =>
    rintro ⟨earlier, later, ⟨rfl, last, -⟩ | ⟨between, rfl, rfl⟩, got, kept⟩
    · cases last
      exact .inr ⟨⟨rfl, rfl⟩, got⟩
    · exact .inl ⟨earlier, between, rfl, got, fun cleared => kept (by simp [cleared])⟩
  next =>
    rintro (⟨earlier, later, rfl, got, kept⟩ | ⟨⟨rfl, rfl⟩, got⟩)
    · exact ⟨earlier, _, .inr ⟨later, rfl, rfl⟩, got, by simpa using kept⟩
    · exact ⟨calls, [], .inl ⟨rfl, rfl, rfl⟩, got, by simp⟩

theorem Keeps.answered (kept : Keeps calls units hw e) : Answered calls units hw e := by
  obtain ⟨earlier, later, split, got, -⟩ := kept
  exact ⟨earlier, later, split, got⟩

theorem after_concat : after (calls ++ [call]) = (after calls).call call := by
  simp [after]

end History

structure Faithful (calls : List CacheCall) (c : CompileCache) : Prop where
  compiled : ∀ e ∈ c.entries,
    ∃ p, outcome e.units e.hardware = .ok (.ok p) ∧ p.code = e.code
  distinct : (c.entries.map CachedProgram.key).Nodup
  kept : ∀ units hw e, Keeps calls units hw e ↔ c.find? units hw = some e
  numbered : ∀ units hw e, Answered calls units hw e → e.serial < c.stored
  counted : ∃ hits misses, hits + misses = requests calls ∧ c.hits = .ofNat hits ∧
    c.misses = .ofNat misses

theorem empty_faithful : Faithful [] empty where
  compiled := by simp [empty]
  distinct := by simp [empty]
  kept := by simp [Keeps, empty, find?]
  numbered := by simp [Answered]
  counted := ⟨0, 0, rfl, rfl, rfl⟩

theorem Faithful.clear (faithful : Faithful calls c) : Faithful (calls ++ [.clear]) c.clear where
  compiled := by simp [CompileCache.clear]
  distinct := by simp [CompileCache.clear]
  kept units hw e := by simp [not_keeps_clear, CompileCache.clear, find?]
  numbered units hw e answered := by
    refine faithful.numbered units hw e ?_
    simpa [answered_concat_iff] using answered
  counted := by simpa [requests, CompileCache.clear] using faithful.counted

section Requested

variable {r : Checked (Diagnosed CachedProgram)} {c' : CompileCache}

theorem requests_get : requests (calls ++ [.get units hw]) = requests calls + 1 := by
  simp [requests]

theorem Faithful.counted_get (faithful : Faithful calls c)
    (counted : c'.hits = c.hits + 1 ∧ c'.misses = c.misses ∨
      c'.hits = c.hits ∧ c'.misses = c.misses + 1) :
    ∃ hits misses, hits + misses = requests (calls ++ [.get units hw]) ∧
      c'.hits = .ofNat hits ∧ c'.misses = .ofNat misses := by
  obtain ⟨hits, misses, sum, hit, miss⟩ := faithful.counted
  rw [requests_get, ← sum]
  rcases counted with ⟨more, same⟩ | ⟨same, more⟩
  · exact ⟨hits + 1, misses, Nat.add_right_comm .., by rw [more, hit, UInt64.ofNat_add]; rfl,
      same.trans miss⟩
  · exact ⟨hits, misses + 1, rfl, same.trans hit, by rw [more, miss, UInt64.ofNat_add]; rfl⟩

-- A request that stores nothing leaves a cache faithful if what it answers was kept.
theorem Faithful.same_entries (faithful : Faithful calls c) (got : answer calls units hw = r)
    (known : ∀ e, r = .ok (.ok e) → c.find? units hw = some e)
    (entries : c'.entries = c.entries) (stored : c'.stored = c.stored)
    (counted : c'.hits = c.hits + 1 ∧ c'.misses = c.misses ∨
      c'.hits = c.hits ∧ c'.misses = c.misses + 1) :
    Faithful (calls ++ [.get units hw]) c' where
  compiled := entries ▸ faithful.compiled
  distinct := entries ▸ faithful.distinct
  kept units' hw' e := by
    have same : c'.find? units' hw' = c.find? units' hw' := by rw [find?, entries, find?]
    rw [keeps_get_iff, faithful.kept, same, got]
    constructor
    next =>
      rintro (found | ⟨⟨rfl, rfl⟩, answered⟩)
      · exact found
      · exact known e answered
    next => exact .inl
  numbered units' hw' e answered := by
    rw [stored]
    rcases answered_concat_iff.mp answered with earlier | ⟨⟨⟩, last⟩
    · exact faithful.numbered units' hw' e earlier
    · have found := (faithful.kept units hw e).mpr (known e (got ▸ last))
      exact faithful.numbered units hw e found.answered
  counted := faithful.counted_get counted

theorem Faithful.requested (faithful : Faithful calls c) (got : answer calls units hw = r)
    (done : Requested c units hw r c') : Faithful (calls ++ [.get units hw]) c' := by
  cases done with
  | hit e found =>
    refine faithful.same_entries got ?_ rfl rfl (.inl ⟨rfl, rfl⟩)
    rintro _ ⟨⟩
    exact found
  | refuse ds missing refused =>
    exact faithful.same_entries got (by simp) rfl rfl (.inr ⟨rfl, rfl⟩)
  | stop breach missing stopped =>
    exact faithful.same_entries got (by simp) rfl rfl (.inr ⟨rfl, rfl⟩)
  | store p missing compiled =>
    have fresh : (units, hw) ∉ c.entries.map CachedProgram.key := by
      simp [← exists_find?_iff, missing]
    refine ⟨?_, List.nodup_cons.mpr ⟨fresh, faithful.distinct⟩, fun units' hw' e => ?_,
      fun units' hw' e answered => ?_, faithful.counted_get (.inr ⟨rfl, rfl⟩)⟩
    · exact List.forall_mem_cons.mpr ⟨⟨p, compiled, rfl⟩, faithful.compiled⟩
    · rw [keeps_get_iff, faithful.kept]
      by_cases same : units = units' ∧ hw = hw'
      next =>
        obtain ⟨rfl, rfl⟩ := same
        rw [missing, got]
        simp [find?]
      next => simp [same, find?]
    · rcases answered_concat_iff.mp answered with earlier | ⟨⟨⟩, last⟩
      · exact Nat.lt_succ_of_lt (faithful.numbered units' hw' e earlier)
      · cases got.symm.trans last
        exact Nat.lt_succ_self c.stored

theorem Faithful.as_compiled (faithful : Faithful calls c) (done : Requested c units hw r c') :
    r.map (Except.map CachedProgram.code) =
      (outcome units hw).map (Except.map ValidProgram.code) := by
  cases done with
  | hit e found =>
    obtain ⟨member, same⟩ := key_of_find? found
    obtain ⟨p, compiled, code⟩ := faithful.compiled e member
    cases same
    rw [compiled]
    simp only [Except.map, code]
  | store p missing compiled => rw [compiled]; rfl
  | refuse ds missing refused => rw [refused]; rfl
  | stop breach missing stopped => rw [stopped]; rfl

end Requested

theorem after_faithful (calls : List CacheCall) : Faithful calls (after calls) := by
  induction calls using List.reverseRecOn with
  | nil => exact empty_faithful
  | append_singleton calls call ih =>
    rw [after_concat]
    cases call with
    | get units hw => exact ih.requested rfl (requested (after calls) units hw)
    | clear => exact ih.clear

theorem Faithful.sum_eq (faithful : Faithful calls c) :
    c.hits + c.misses = .ofNat (requests calls) := by
  obtain ⟨hits, misses, sum, hit, miss⟩ := faithful.counted
  rw [hit, miss, ← sum, UInt64.ofNat_add]

theorem Faithful.sum_exact (faithful : Faithful calls c) (few : requests calls < UInt64.size) :
    c.hits.toNat + c.misses.toNat = requests calls := by
  obtain ⟨hits, misses, sum, hit, miss⟩ := faithful.counted
  have hits_few : hits < UInt64.size := by omega
  have misses_few : misses < UInt64.size := by omega
  rw [hit, miss, UInt64.toNat_ofNat_of_lt' hits_few, UInt64.toNat_ofNat_of_lt' misses_few, sum]

theorem Faithful.size_eq (faithful : Faithful calls c) :
    c.size = {key : List SourceUnit × Hardware | ∃ e, Keeps calls key.1 key.2 e}.ncard := by
  have keys : {key : List SourceUnit × Hardware | ∃ e, Keeps calls key.1 key.2 e} =
      ((c.entries.map CachedProgram.key).toFinset : Set (List SourceUnit × Hardware)) := by
    ext key
    simp only [Set.mem_ofPred_eq, faithful.kept, exists_find?_iff, List.coe_toFinset]
  rw [keys, Set.ncard_coe_finset, List.toFinset_card_of_nodup faithful.distinct, List.length_map,
    size]

/-- After any requests and clearings, a request is answered as if nothing were kept. It is a hit if
one for the same units and hardware succeeded since the last clearing, and then gets what that one
got; otherwise it is a miss, and a program that it gets is none that was given out before. -/
theorem cached_as_compiled (calls : List CacheCall) (units : List SourceUnit) (hw : Hardware) :
    (answer calls units hw).map (Except.map CachedProgram.code) =
        (outcome units hw).map (Except.map ValidProgram.code) ∧
      (∀ e, Keeps calls units hw e →
        (after calls).request units hw =
          (.ok (.ok e), { after calls with hits := (after calls).hits + 1 })) ∧
      ((¬ ∃ e, Keeps calls units hw e) →
        (after (calls ++ [.get units hw])).hits = (after calls).hits ∧
          (after (calls ++ [.get units hw])).misses = (after calls).misses + 1 ∧
          ∀ e units' hw' e', answer calls units hw = .ok (.ok e) →
            Answered calls units' hw' e' → e'.serial ≠ e.serial) ∧
      (after calls).hits + (after calls).misses = .ofNat (requests calls) ∧
      (requests calls < UInt64.size →
        (after calls).hits.toNat + (after calls).misses.toNat = requests calls) ∧
      (after (calls ++ [.clear])).hits = (after calls).hits ∧
      (after (calls ++ [.clear])).misses = (after calls).misses ∧
      (after calls).size =
        {key : List SourceUnit × Hardware | ∃ e, Keeps calls key.1 key.2 e}.ncard ∧
      ((∀ p, outcome units hw ≠ .ok (.ok p)) →
        after (calls ++ [.get units hw]) =
          { after calls with misses := (after calls).misses + 1 }) := by
  have faithful := after_faithful calls
  have later : after (calls ++ [.get units hw]) = ((after calls).request units hw).2 :=
    after_concat
  have cleared : after (calls ++ [.clear]) = (after calls).clear := after_concat
  refine ⟨?_, ?_, ?_, faithful.sum_eq, faithful.sum_exact, cleared ▸ rfl, cleared ▸ rfl,
    faithful.size_eq, ?_⟩
  · exact faithful.as_compiled (requested (after calls) units hw)
  · intro e kept
    have found := (faithful.kept units hw e).mp kept
    simp only [request, found]
  · intro unkept
    have missing : (after calls).find? units hw = none := by
      simpa only [faithful.kept, not_exists, ← Option.eq_none_iff_forall_ne_some] using unkept
    obtain ⟨hits, misses, fresh⟩ := (requested (after calls) units hw).missed missing
    refine ⟨later ▸ hits, later ▸ misses, fun e units' hw' e' got before same => ?_⟩
    have known := faithful.numbered units' hw' e' before
    rw [same, fresh e got] at known
    exact Nat.lt_irrefl _ known
  · intro none
    have missing : (after calls).find? units hw = .none := by
      refine Option.eq_none_iff_forall_ne_some.mpr fun e found => ?_
      obtain ⟨member, same⟩ := key_of_find? found
      obtain ⟨p, compiled, -⟩ := faithful.compiled e member
      cases same
      exact none p compiled
    rw [later]
    exact (requested (after calls) units hw).uncompiled missing none

def echo : List SourceUnit := [⟨"main", "READ RX0\nWRITE RX0"⟩]

theorem echo_hits :
    ∃ e, answer [] echo .default = .ok (.ok e) ∧
      answer [.get echo .default] echo .default = .ok (.ok e) ∧
      (after [.get echo .default, .get echo .default]).hits = 1 ∧
      (after [.get echo .default, .get echo .default]).misses.toNat = 1 := by
  obtain ⟨p, compiled, -⟩ := @accepted_of_any echo .default (fun _ => True) _ (by decide +kernel)
  obtain ⟨same, -, first, -⟩ := cached_as_compiled [] echo .default
  rw [compiled] at same
  obtain ⟨r, got, code⟩ := map_ok_iff.mp same
  obtain ⟨e, rfl, -⟩ := map_ok_iff.mp code
  have kept : Keeps [.get echo .default] echo .default e := ⟨[], [], rfl, got, by simp⟩
  have second := (cached_as_compiled [.get echo .default] echo .default).2.1 e kept
  have missed := (first (by simp [Keeps])).1
  obtain ⟨-, -, -, -, total, -⟩ :=
    cached_as_compiled [.get echo .default, .get echo .default] echo .default
  have hits : (after [.get echo .default, .get echo .default]).hits = 1 := by
    rw [show after [.get echo .default, .get echo .default] = _ from congrArg Prod.snd second]
    exact congrArg (· + 1) missed
  have sum := total (by decide)
  rw [hits] at sum
  exact ⟨e, got, congrArg Prod.fst second, hits, Nat.add_left_cancel sum⟩

end CompileCache
end PuzzleMachine
