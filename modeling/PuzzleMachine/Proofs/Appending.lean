import PuzzleMachine.Proofs.Units

set_option autoImplicit false

namespace PuzzleMachine

open Statement LabelTable

section Parse

variable {sources sources' : SourceMap} {id id' : UInt16} {file : SourceFile} {f : Span → Span}

def Span.Carries (f : Span → Span) (id id' : UInt16) : Prop :=
  ∀ start stop line column, f ⟨id, start, stop, line, column⟩ = ⟨id', start, stop, line, column⟩

theorem span_relocate (carries : Span.Carries f id id') (found : sources.get? id = some file)
    (found' : sources'.get? id' = some file) (start stop : UInt32) :
    sources'.span id' start stop = (sources.span id start stop).map f := by
  rw [span_at file found, span_at file found']
  cases file.lineColumn start with
  | error => rfl
  | ok place => simp [Except.map, carries start stop place.1 place.2]

-- A token at its other place. A diagnostic tells of nothing else than its own place.
def relocateResult (f : Span → Span) :
    Option (Except Diagnostic (Located Token)) → Option (Except Diagnostic (Located Token)) :=
  Option.map (Except.map (.relocate f))

theorem locate_relocate (carries : Span.Carries f id id') (found : sources.get? id = some file)
    (found' : sources'.get? id' = some file) {p : Placed}
    {r : Option (Except Diagnostic (Located Token))} (fine : ∀ d, some (.error d) ≠ r)
    (located : Lexeme.locate sources id p = .ok r) :
    Lexeme.locate sources' id' p = .ok (relocateResult f r) := by
  rw [locate_ok_iff] at located ⊢
  cases located with
  | nothing read => exact .nothing read
  | token read spanned =>
    refine .token read ?_
    rw [span_relocate carries found found', spanned]
    rfl
  | fault => exact absurd rfl (fine _)

theorem locateAll_relocate (carries : Span.Carries f id id') (found : sources.get? id = some file)
    (found' : sources'.get? id' = some file) {ranges : List Placed}
    {results : List (Option (Except Diagnostic (Located Token)))}
    (fine : ∀ d, some (.error d) ∉ results)
    (located : List.Forall₂ (fun p r => Lexeme.locate sources id p = .ok r) ranges results) :
    List.Forall₂ (fun p r => Lexeme.locate sources' id' p = .ok r) ranges
      (results.map (relocateResult f)) := by
  induction located with
  | nil => exact .nil
  | @cons p r ranges results here _ ih =>
    simp only [List.mem_cons, not_or, forall_and] at fine
    exact .cons (locate_relocate carries found found' fine.1 here) (ih fine.2)

theorem scan_relocate (carries : Span.Carries f id id') (found : sources.get? id = some file)
    (found' : sources'.get? id' = some file) {tokens : List (Located Token)}
    (scanned : scan sources id = .ok (.ok tokens)) :
    scan sources' id' = .ok (.ok (tokens.map (.relocate f))) := by
  obtain ⟨results, located, same⟩ := (scan_results_iff found).mp scanned
  have collected := collect_ok same.symm
  have fine : ∀ d, some (.error d) ∉ results := by
    intro d member
    have inside : .error d ∈ results.filterMap fun result => result :=
      List.mem_filterMap.mpr ⟨_, member, rfl⟩
    rw [collected] at inside
    simp at inside
  have moved := locateAll_relocate carries found found' fine located
  have collected' : (results.map (relocateResult f)).filterMap (fun result => result) =
      (tokens.map (.relocate f)).map .ok := by
    have each := congrArg (List.map (Except.map (Located.relocate f))) collected
    rw [List.map_filterMap, List.map_map] at each
    rw [List.filterMap_map, List.map_map]
    exact each
  exact (scan_results_iff found').mpr ⟨_, moved, by rw [collected', collect_map_ok]⟩

theorem parse_relocate (moves : Span.Moves f) (carries : Span.Carries f id id')
    (same : sources'.get? id' = sources.get? id) {u : ParsedUnit}
    (parsed : parse sources id = .ok (.ok u)) :
    parse sources' id' = .ok (.ok ⟨id', u.statements.map (.relocate f)⟩) := by
  obtain ⟨tokens, scanned, read⟩ := parse_ok parsed
  obtain ⟨file, found⟩ := exists_file_of_scan scanned
  have scanned' := scan_relocate carries found (same.trans found) scanned
  have read' := @parseTokens_relocate _ moves _ _ id' _ read
  simp only [parse, scanned', ok_bind, read']
  rfl

theorem label_file_of_parse {u : ParsedUnit} (parsed : parse sources id = .ok (.ok u))
    {l : Located String} (member : l ∈ labels u.statements) : l.span.file = id := by
  have again := parse_relocate (Span.moves_inFile id) (fun _ _ _ _ => rfl) rfl parsed
  rw [parsed] at again
  have kept : u.statements = u.statements.map (.relocate (Span.inFile id)) :=
    congrArg ParsedUnit.statements (Except.ok.inj (Except.ok.inj again))
  rw [kept, labels_relocate] at member
  obtain ⟨l', -, rfl⟩ := List.mem_map.mp member
  rfl

end Parse

section Units

variable {first second : List SourceUnit} {parsed parsed' : List ParsedUnit}

def ParsedUnit.later (count : Nat) (u : ParsedUnit) : ParsedUnit :=
  ⟨u.file + .ofNat count, u.statements.map (.relocate (Span.later count))⟩

theorem ids_append (first second : List SourceUnit) :
    (SourceMap.ofUnits (first ++ second)).ids =
      (SourceMap.ofUnits first).ids ++
        (SourceMap.ofUnits second).ids.map (· + .ofNat first.length) := by
  simp [SourceMap.ids, SourceMap.size, SourceMap.ofUnits, List.range_add, Function.comp_def,
    Nat.add_comm]

theorem index_lt_of_parse {units : List SourceUnit} {id : UInt16} {u : ParsedUnit}
    (read : parse (.ofUnits units) id = .ok (.ok u)) : id.toNat < units.length := by
  obtain ⟨tokens, scanned, -⟩ := parse_ok read
  obtain ⟨file, found⟩ := exists_file_of_scan scanned
  rw [get?_ofUnits] at found
  obtain ⟨unit, found, -⟩ := Option.map_eq_some_iff.mp found
  exact (List.getElem?_eq_some_iff.mp found).1

theorem parse_append_left {id : UInt16} {u : ParsedUnit}
    (read : parse (.ofUnits first) id = .ok (.ok u)) :
    parse (.ofUnits (first ++ second)) id = .ok (.ok u) := by
  have inside := index_lt_of_parse read
  have same : (SourceMap.ofUnits (first ++ second)).get? id =
      (SourceMap.ofUnits first).get? id := by
    rw [get?_ofUnits, get?_ofUnits, List.getElem?_append_left inside]
  have kept := @parse_relocate _ _ _ _ (fun span => span) (fun _ _ _ merged => merged)
    (fun _ _ _ _ => rfl) same _ read
  simpa only [List.map_congr_left fun s _ => Statement.relocate_self s, List.map_id',
    ← parse_file read] using kept

theorem toNat_later (count : (first ++ second).length ≤ SourceMap.maxFiles) {id : UInt16}
    (inside : id.toNat < second.length) :
    (id + .ofNat first.length).toNat = first.length + id.toNat := by
  rw [List.length_append] at count
  have most : SourceMap.maxFiles = 65535 := rfl
  have word : first.length < UInt16.size := Nat.lt_of_le_of_lt (by omega) (by decide : 65535 < _)
  rw [UInt16.toNat_add, UInt16.toNat_ofNat_of_lt' word, Nat.add_comm]
  exact Nat.mod_eq_of_lt (by omega)

theorem parse_append_right (count : (first ++ second).length ≤ SourceMap.maxFiles) {id : UInt16}
    {u : ParsedUnit} (read : parse (.ofUnits second) id = .ok (.ok u)) :
    parse (.ofUnits (first ++ second)) (id + .ofNat first.length) =
      .ok (.ok (u.later first.length)) := by
  have same : (SourceMap.ofUnits (first ++ second)).get? (id + .ofNat first.length) =
      (SourceMap.ofUnits second).get? id := by
    rw [get?_ofUnits, get?_ofUnits, toNat_later count (index_lt_of_parse read),
      List.getElem?_append_right (Nat.le_add_right _ _), Nat.add_sub_cancel_left]
  rw [parse_relocate (Span.moves_later first.length) (fun _ _ _ _ => rfl) same read,
    ParsedUnit.later, parse_file read]

theorem parseAll_append (count : (first ++ second).length ≤ SourceMap.maxFiles)
    (all : parseAll (.ofUnits first) = .ok (.ok parsed))
    (all' : parseAll (.ofUnits second) = .ok (.ok parsed')) :
    parseAll (.ofUnits (first ++ second)) =
      .ok (.ok (parsed ++ parsed'.map (.later first.length))) := by
  rw [parseAll_ok_iff] at all all' ⊢
  rw [ids_append]
  refine List.rel_append ?_ ?_
  · exact all.imp fun _ _ => parse_append_left
  · rw [List.forall₂_map_left_iff, List.forall₂_map_right_iff]
    exact all'.imp fun _ _ => parse_append_right count

end Units

section Code

def Instruction.offset (count : Nat) (i : MachineInstruction) : MachineInstruction :=
  i.map id id id (· + count)

theorem Instruction.resolveWith_of_known {target? target?' : String → Option Nat} {f : Nat → Nat}
    (known : ∀ name t, target? name = some t → target?' name = some (f t))
    {i : SourceInstruction} {j : MachineInstruction} (resolved : i.resolveWith target? = some j) :
    i.resolveWith target?' = some (j.map id id id f) := by
  cases i <;> simp only [resolveWith, traverse?, Option.bind_eq_bind, Option.pure_def,
    Option.bind_eq_some_iff, Option.some.injEq] at resolved ⊢
  case jump l =>
    obtain ⟨t, found, rfl⟩ := resolved
    exact ⟨_, known _ _ found, rfl⟩
  case branch test v l =>
    obtain ⟨_, rfl, t, found, rfl⟩ := resolved
    exact ⟨_, rfl, _, known _ _ found, rfl⟩
  all_goals
    grind [Instruction.map]

-- Statements after other statements mean what they mean by themselves, further on in the code, if
-- the names that they declare are not declared before.
theorem resolutions_append {xs ys : List Statement}
    (resolved : ∀ r ∈ resolutions xs, r.isSome) (resolved' : ∀ r ∈ resolutions ys, r.isSome)
    (apart : ∀ name ∈ names ys, name ∉ names xs) :
    resolutions (xs ++ ys) =
      resolutions xs ++ (resolutions ys).map (Option.map (.offset (instructions xs).length)) := by
  have first : ∀ name t, (declared? name 0 xs).map LabelEntry.target = some t →
      (declared? name 0 (xs ++ ys)).map LabelEntry.target = some t := by
    intro name t known
    obtain ⟨e, found, -⟩ := Option.map_eq_some_iff.mp known
    rwa [declared?_append, found, Option.some_or, ← found]
  have second : ∀ name t, (declared? name 0 ys).map LabelEntry.target = some t →
      (declared? name 0 (xs ++ ys)).map LabelEntry.target =
        some (t + (instructions xs).length) := by
    intro name t known
    obtain ⟨e, found, rfl⟩ := Option.map_eq_some_iff.mp known
    have declared : name ∈ names ys := declared?_isSome.mp (Option.isSome_of_eq_some found)
    have unknown : declared? name 0 xs = none := by
      rw [← Option.not_isSome_iff_eq_none, declared?_isSome]
      exact apart name declared
    rw [declared?_append, unknown, Option.none_or, declared?_add, found]
    rfl
  simp only [resolutions, instructions_append, List.map_append, List.map_map]
  congr 1
  · refine List.map_congr_left fun i member => ?_
    obtain ⟨j, found⟩ := Option.isSome_iff_exists.mp (resolved _ (List.mem_map_of_mem member))
    rw [found, Instruction.resolveWith_of_known first found]
    exact congrArg some j.map_self
  · refine List.map_congr_left fun i member => ?_
    obtain ⟨j, found⟩ := Option.isSome_iff_exists.mp (resolved' _ (List.mem_map_of_mem member))
    rw [Function.comp_apply, found, Instruction.resolveWith_of_known second found]
    rfl

-- A program without violations declares nothing twice, so its parts declare different names.
theorem names_apart {hw : Hardware} {units : List ParsedUnit} {xs ys : List Statement}
    (fine : violations hw units = [])
    (program : units.flatMap ParsedUnit.statements = xs ++ ys)
    (apart : ∀ l ∈ labels xs, ∀ l' ∈ labels ys, l.span ≠ l'.span) :
    ∀ name ∈ names ys, name ∉ names xs := by
  intro name member earlier
  obtain ⟨l, l_mem, rfl⟩ := List.mem_map.mp member
  have inside : .label l ∈ units.flatMap ParsedUnit.statements := by
    rw [program]
    exact List.mem_append_right xs (mem_labels.mp l_mem)
  have single : (LabelTable.collect units).declarationViolations l = [] :=
    List.flatMap_eq_nil_iff.mp fine _ inside
  obtain ⟨e, found⟩ := Option.isSome_iff_exists.mp (declared?_isSome.mpr earlier)
  have span := declared?_span l.value 0 xs
  rw [found, Option.map_some, eq_comm, Option.map_eq_some_iff] at span
  obtain ⟨l', first, same⟩ := span
  have differs : e.span ≠ l.span :=
    same ▸ apart l' (List.mem_of_find?_eq_some first) l l_mem
  simp [declarationViolations, find?_collect, program, declared?_append, found, differs] at single

section Compiled

variable {first second : List SourceUnit} {hw : Hardware} {p p' whole : ValidProgram}

theorem resolutions_isSome {parsed : List ParsedUnit} (valid : validate hw parsed = .ok (.ok p)) :
    ∀ r ∈ resolutions (parsed.flatMap ParsedUnit.statements), r.isSome := by
  rw [← code_resolutions valid]
  simp

theorem flatMap_later (count : Nat) (parsed : List ParsedUnit) :
    (parsed.map (.later count)).flatMap ParsedUnit.statements =
      (parsed.flatMap ParsedUnit.statements).map (.relocate (Span.later count)) := by
  rw [List.flatMap_map, List.map_flatMap]
  rfl

theorem label_file_of_parseAll {units : List SourceUnit} {parsed : List ParsedUnit}
    (all : parseAll (.ofUnits units) = .ok (.ok parsed)) {l : Located String}
    (member : l ∈ labels (parsed.flatMap ParsedUnit.statements)) :
    l.span.file.toNat < units.length := by
  rw [mem_labels, List.mem_flatMap] at member
  obtain ⟨u, u_mem, stated⟩ := member
  obtain ⟨id, -, read⟩ := exists_related (parseAll_ok_iff.mp all) u_mem
  rw [label_file_of_parse read (mem_labels.mpr stated)]
  exact index_lt_of_parse read

structure Code.Joins (f : Span → Span) (first second whole : Code) : Prop where
  instructions : whole.instructions =
    first.instructions ++ second.instructions.map (.offset first.haltIndex)
  spans : whole.spans = first.spans ++ second.spans.map f

theorem code_append (accepted : outcome first hw = .ok (.ok p))
    (accepted' : outcome second hw = .ok (.ok p'))
    (together : outcome (first ++ second) hw = .ok (.ok whole)) :
    Code.Joins (Span.later first.length) p.code p'.code whole.code := by
  obtain ⟨-, -, parsed, all, valid⟩ := outcome_ok accepted
  obtain ⟨-, -, parsed', all', valid'⟩ := outcome_ok accepted'
  obtain ⟨count, -, _, appended, valid''⟩ := outcome_ok together
  rw [parseAll_append count all all'] at appended
  cases appended
  have program : (parsed ++ parsed'.map (ParsedUnit.later first.length)).flatMap
        ParsedUnit.statements =
      parsed.flatMap ParsedUnit.statements ++
        (parsed'.flatMap ParsedUnit.statements).map (.relocate (Span.later first.length)) := by
    rw [List.flatMap_append, flatMap_later]
  obtain ⟨none, instructions, -⟩ := validate_ok valid''
  obtain ⟨-, instructions₁, -⟩ := validate_ok valid
  obtain ⟨-, instructions₂, -⟩ := validate_ok valid'
  have apart := names_apart none program fun l member l' member' => by
    rw [labels_relocate] at member'
    obtain ⟨l₂, inside, rfl⟩ := List.mem_map.mp member'
    intro same
    have file := congrArg (fun s : Span => s.file.toNat) same
    have before := label_file_of_parseAll all member
    have after := toNat_later count (label_file_of_parseAll all' inside)
    simp only [Located.span_relocate, Span.later, after] at file
    omega
  constructor
  next =>
    have meaning := resolutions_append (resolutions_isSome valid)
      (by rw [resolutions_relocate]; exact resolutions_isSome valid') apart
    rw [← program, resolutions_relocate, ← code_resolutions valid'', ← code_resolutions valid,
      ← code_resolutions valid', ← instructions₁, ← p.code_haltIndex] at meaning
    refine Array.toList_inj.mp (List.map_injective_iff.mpr (fun _ _ => Option.some.inj) ?_)
    simpa [Function.comp_def] using meaning
  next =>
    refine Array.toList_inj.mp ?_
    simp only [Array.toList_append, Array.toList_map, ValidProgram.code_spans, instructions,
      instructions₁, instructions₂, program, instructions_append, instructions_relocate,
      List.map_append, List.map_map]
    rfl

end Compiled

end Code

end PuzzleMachine
