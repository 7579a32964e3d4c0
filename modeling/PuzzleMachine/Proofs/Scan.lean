import PuzzleMachine.Proofs.Checked
import PuzzleMachine.Token.Scan

set_option autoImplicit false

namespace PuzzleMachine

theorem lexeme_text (c : Char) (rest : List Char) :
    ∃ taken, (lexeme c rest).text = c :: taken ∧ taken <+: rest := by
  unfold lexeme
  split_ifs <;> exact ⟨_, rfl, by first | exact List.takeWhile_prefix _ | exact List.nil_prefix⟩

theorem lexemes_flatten (text : List Char) : (lexemes text).flatMap Lexeme.text = text := by
  induction text using lexemes.induct with
  | case1 => simp [lexemes]
  | case2 c rest l ih =>
    obtain ⟨taken, taken_eq, tail, rfl⟩ := lexeme_text c rest
    simp only [l, taken_eq, List.length_cons, Nat.add_sub_cancel, List.drop_left] at ih
    rw [lexemes]
    simp only [taken_eq, List.length_cons, Nat.add_sub_cancel, List.drop_left, List.flatMap_cons, ih,
      List.cons_append]

theorem mem_lexemes {l : Lexeme} {text : List Char} (member : l ∈ lexemes text) :
    ∃ c rest, l = lexeme c rest := by
  induction text using lexemes.induct with
  | case1 => simp [lexemes] at member
  | case2 c rest first ih =>
    rw [lexemes] at member
    rcases List.mem_cons.mp member with rfl | later
    · exact ⟨c, rest, rfl⟩
    · exact ih later

theorem ofToken?_eq_opcode {t : Option Token} {op : Opcode} :
    Reading.ofToken? t = .token (.opcode op) ↔ t = some (.opcode op) := by
  cases t <;> simp [Reading.ofToken?]

theorem readWord_opcode {word : List Char} {op : Opcode}
    (read : readWord word = .token (.opcode op)) : word = op.name.toList := by
  unfold readWord at read
  split at read
  next found =>
    cases read
    have named := List.find?_some found
    simp only [beq_iff_eq] at named
    rw [named, String.toList_ofList]
  next =>
    split_ifs at read
    repeat' split at read
    all_goals simp [ofToken?_eq_opcode] at read

theorem lexeme_opcode {c : Char} {rest : List Char} {op : Opcode}
    (read : (lexeme c rest).reading = .token (.opcode op)) :
    (lexeme c rest).text = op.name.toList := by
  unfold lexeme at read ⊢
  split_ifs at read ⊢
  case pos => exact readWord_opcode read
  all_goals simp [readNumber, ofToken?_eq_opcode] at read

abbrev Placed := Lexeme × UInt32 × UInt32

theorem withRanges_spec {offset : Nat} {ls : List Lexeme}
    (bound : offset + Text.byteLength (ls.flatMap Lexeme.text) < UInt32.size) :
    (∀ p ∈ withRanges offset ls, offset ≤ p.2.1.toNat ∧
        p.2.1.toNat + Text.byteLength p.1.text = p.2.2.toNat ∧
        p.2.2.toNat ≤ offset + Text.byteLength (ls.flatMap Lexeme.text)) ∧
      (withRanges offset ls).Pairwise fun a b => a.2.2.toNat ≤ b.2.1.toNat := by
  induction ls generalizing offset with
  | nil => simp [withRanges]
  | cons l ls ih =>
    simp only [List.flatMap_cons, Text.byteLength_append] at bound ⊢
    obtain ⟨placed, ordered⟩ := @ih (offset + Text.byteLength l.text) (by omega)
    have start := UInt32.toNat_ofNat_of_lt' (n := offset) (by omega)
    have stop := UInt32.toNat_ofNat_of_lt' (n := offset + Text.byteLength l.text) (by omega)
    rw [withRanges, List.forall_mem_cons, List.pairwise_cons]
    dsimp only
    -- The rest starts where this lexeme stops, and its text is what the bound leaves for it.
    rw [start, stop]
    refine ⟨⟨by omega, fun p member => ?_⟩, fun p member => (placed p member).1, ordered⟩
    have := placed p member
    omega

def Placed.Gives (id : UInt16) (p : Placed) (t : Located Token) : Prop :=
  p.1.reading = .token t.value ∧ t.span.file = id ∧ t.span.start = p.2.1 ∧ t.span.stop = p.2.2

theorem span_ok {sources : SourceMap} {id : UInt16} {start stop : UInt32} {span : Span}
    (h : sources.span id start stop = .ok span) :
    span.file = id ∧ span.start = start ∧ span.stop = stop := by
  simp only [SourceMap.span, bind_ok_iff, pure, Except.pure] at h
  obtain ⟨file, -, ⟨line, column⟩, -, h⟩ := h
  cases h
  exact ⟨rfl, rfl, rfl⟩

inductive Placed.Becomes (sources : SourceMap) (id : UInt16) (p : Placed) :
    Option (Except Diagnostic (Located Token)) → Prop where
  | nothing (read : p.1.reading = .trivia) : p.Becomes sources id none
  | token {t : Located Token} (read : p.1.reading = .token t.value)
      (spanned : sources.span id p.2.1 p.2.2 = .ok t.span) : p.Becomes sources id (some (.ok t))
  | fault {d : Diagnostic} (read : p.1.reading = .invalid)
      (spanned : sources.span id p.2.1 p.2.2 = .ok d.span)
      (told : d = { kind := .token, span := d.span, message := invalidMessage p.1.text }) :
      p.Becomes sources id (some (.error d))

theorem locate_ok_iff {sources : SourceMap} {id : UInt16} {p : Placed}
    {r : Option (Except Diagnostic (Located Token))} :
    Lexeme.locate sources id p = .ok r ↔ p.Becomes sources id r := by
  obtain ⟨⟨text, reading⟩, start, stop⟩ := p
  constructor
  next =>
    intro located
    cases reading with
    | trivia =>
      cases located
      exact .nothing rfl
    | token t =>
      obtain ⟨span, found, same⟩ := bind_ok_iff.mp located
      cases same
      exact .token rfl found
    | invalid =>
      obtain ⟨span, found, same⟩ := bind_ok_iff.mp located
      cases same
      exact .fault rfl found rfl
  next =>
    intro becomes
    cases becomes with
    | nothing read =>
      cases read
      rfl
    | token read spanned =>
      cases read
      exact bind_ok_iff.mpr ⟨_, spanned, rfl⟩
    | fault read spanned told =>
      cases read
      exact bind_ok_iff.mpr ⟨_, spanned, by rw [told]; rfl⟩

theorem locate_token_span {sources : SourceMap} {id : UInt16} {p : Placed} {t : Located Token}
    (located : Lexeme.locate sources id p = .ok (some (.ok t))) :
    p.1.reading = .token t.value ∧ sources.span id p.2.1 p.2.2 = .ok t.span := by
  cases locate_ok_iff.mp located with
  | token read spanned => exact ⟨read, spanned⟩

theorem locate_token {sources : SourceMap} {id : UInt16} {p : Placed} {t : Located Token}
    (located : Lexeme.locate sources id p = .ok (some (.ok t))) : p.Gives id t := by
  obtain ⟨read, spanned⟩ := locate_token_span located
  exact ⟨read, span_ok spanned⟩

def failures {ε α : Type} (results : List (Except ε α)) : List ε :=
  results.filterMap fun | .error e => some e | .ok _ => none

@[simp] theorem failures_nil {ε α : Type} : failures ([] : List (Except ε α)) = [] := rfl

@[simp] theorem failures_error {ε α : Type} (e : ε) (results : List (Except ε α)) :
    failures (.error e :: results) = e :: failures results := rfl

@[simp] theorem failures_ok {ε α : Type} (a : α) (results : List (Except ε α)) :
    failures (.ok a :: results) = failures results := rfl

theorem mem_failures {ε α : Type} {results : List (Except ε α)} {e : ε} :
    e ∈ failures results ↔ .error e ∈ results := by
  rw [failures, List.mem_filterMap]
  constructor
  next =>
    intro ⟨result, member, same⟩
    cases result <;> cases same
    exact member
  next => exact fun member => ⟨_, member, rfl⟩

theorem exists_related_failures {α β ε : Type} {R : α → Except ε β → Prop} {as : List α}
    {results : List (Except ε β)} (related : List.Forall₂ R as results) :
    ∃ as', as'.Sublist as ∧ List.Forall₂ (fun a e => R a (.error e)) as' (failures results) := by
  obtain ⟨as', sub, kept⟩ := exists_related_filterMap related
  refine ⟨as', sub, kept.imp ?_⟩
  rintro a e ⟨_ | _, here, same⟩ <;> cases same
  exact here

theorem collect_eq {ε α : Type} (results : List (Except ε α)) :
    collect results =
      if (failures results).isEmpty then .ok (results.filterMap Except.toOption)
      else .error (failures results) := by
  rw [collect]
  rfl

theorem collect_error {ε α : Type} {results : List (Except ε α)} {es : List ε}
    (collected : collect results = .error es) : es = failures results ∧ es ≠ [] := by
  rw [collect_eq] at collected
  split at collected <;> cases collected
  next some => exact ⟨rfl, by simpa using some⟩

theorem collect_ok {ε α : Type} {results : List (Except ε α)} {values : List α}
    (h : collect results = .ok values) : results = values.map .ok := by
  simp only [collect] at h
  split at h
  next empty =>
    cases h
    simp only [List.isEmpty_iff, List.filterMap_eq_nil_iff] at empty
    induction results with
    | nil => rfl
    | cons r rs ih =>
      obtain ⟨first, rest⟩ := List.forall_mem_cons.mp empty
      cases r with
      | error e => cases first
      | ok a => simp only [List.filterMap_cons, Except.toOption, List.map_cons, ← ih rest]
  next => cases h

theorem exists_values_of_failures {ε α : Type} {results : List (Except ε α)}
    (none : failures results = []) : ∃ values : List α, results = values.map .ok := by
  have collected : collect results = .ok (results.filterMap Except.toOption) := by
    rw [collect_eq, none]
    rfl
  exact ⟨_, collect_ok collected⟩

theorem collect_map_ok {ε α : Type} (values : List α) :
    collect (values.map (.ok : α → Except ε α)) = .ok values := by
  simp [collect, List.filterMap_map, Function.comp_def, Except.toOption]

theorem scan_results_iff {sources : SourceMap} {id : UInt16} {file : SourceFile}
    {result : Diagnosed (List (Located Token))} (found : sources.get? id = some file) :
    scan sources id = .ok result ↔
      ∃ results, List.Forall₂ (fun p r => Lexeme.locate sources id p = .ok r)
          (withRanges 0 (lexemes file.text.toList)) results ∧
        result = collect (results.filterMap fun r => r) := by
  simp only [scan, found, bind_ok_iff, mapM_ok_iff, pure, Except.pure, Except.ok.injEq,
    @eq_comm _ result]

theorem scan_located {sources : SourceMap} {id : UInt16} {file : SourceFile}
    {result : Diagnosed (List (Located Token))} (found : sources.get? id = some file)
    (scanned : scan sources id = .ok result) :
    ∃ placed results, placed.Sublist (withRanges 0 (lexemes file.text.toList)) ∧
      List.Forall₂ (fun p r => Lexeme.locate sources id p = .ok (some r)) placed results ∧
      result = collect results := by
  obtain ⟨results, located, same⟩ := (scan_results_iff found).mp scanned
  obtain ⟨placed, sub, related⟩ := exists_related_filterMap (f := fun result => result) located
  refine ⟨placed, _, sub, related.imp ?_, same⟩
  rintro p r ⟨_, here, rfl⟩
  exact here

theorem exists_file_of_scan {sources : SourceMap} {id : UInt16} {tokens : List (Located Token)}
    (scanned : scan sources id = .ok (.ok tokens)) : ∃ file, sources.get? id = some file := by
  cases found : sources.get? id with
  | none => simp [scan, found] at scanned
  | some file => exact ⟨file, rfl⟩

theorem scan_ok {sources : SourceMap} {id : UInt16} {file : SourceFile}
    {tokens : List (Located Token)} (found : sources.get? id = some file)
    (scanned : scan sources id = .ok (.ok tokens)) :
    ∃ placed, placed.Sublist (withRanges 0 (lexemes file.text.toList)) ∧
      List.Forall₂ (Placed.Gives id) placed tokens := by
  obtain ⟨placed, results, sub, located, collected⟩ := scan_located found scanned
  rw [collect_ok collected.symm, List.forall₂_map_right_iff] at located
  exact ⟨placed, sub, located.imp fun _ _ => locate_token⟩

/-- Tokens of one file: none is empty, each follows the one before it, and keywords are as long as
they are written. -/
structure Laid (id : UInt16) (tokens : List (Located Token)) : Prop where
  file : ∀ t ∈ tokens, t.span.file = id
  nonempty : ∀ t ∈ tokens, t.span.start.toNat < t.span.stop.toNat
  keyword : ∀ t ∈ tokens, ∀ op, t.value = .opcode op →
    t.span.start.toNat + op.name.utf8ByteSize = t.span.stop.toNat
  ordered : tokens.Pairwise fun a b => a.span.stop.toNat ≤ b.span.start.toNat

theorem Laid.sublist {id : UInt16} {tokens ts : List (Located Token)} (laid : Laid id tokens)
    (sub : ts.Sublist tokens) : Laid id ts :=
  ⟨fun t member => laid.file t (sub.subset member),
    fun t member => laid.nonempty t (sub.subset member),
    fun t member => laid.keyword t (sub.subset member), laid.ordered.sublist sub⟩

theorem byteLength_pos {cs : List Char} (nonempty : cs ≠ []) : 0 < Text.byteLength cs := by
  cases cs with
  | nil => contradiction
  | cons c cs => exact Nat.add_pos_left c.utf8Size_pos _

theorem mem_of_mem_withRanges {offset : Nat} {ls : List Lexeme} {p : Placed}
    (member : p ∈ withRanges offset ls) : p.1 ∈ ls := by
  induction ls generalizing offset with
  | nil => simp [withRanges] at member
  | cons l ls ih =>
    rw [withRanges] at member
    rcases List.mem_cons.mp member with rfl | later
    · exact List.mem_cons_self
    · exact List.mem_cons_of_mem l (ih later)

theorem ne_nil_of_mem_withRanges {offset : Nat} {text : List Char} {p : Placed}
    (member : p ∈ withRanges offset (lexemes text)) : p.1.text ≠ [] := by
  obtain ⟨c, rest, same⟩ := mem_lexemes (mem_of_mem_withRanges member)
  obtain ⟨more, text, -⟩ := lexeme_text c rest
  rw [same, text]
  exact List.cons_ne_nil c more

-- Offsets are 32-bit words, so the text must not be larger than these can count.
theorem ranges_spec {text : String} (bound : text.utf8ByteSize < UInt32.size) :
    (∀ p ∈ withRanges 0 (lexemes text.toList), p.2.1.toNat < p.2.2.toNat ∧
        p.2.1.toNat + Text.byteLength p.1.text = p.2.2.toNat ∧
        p.2.2.toNat ≤ text.utf8ByteSize) ∧
      (withRanges 0 (lexemes text.toList)).Pairwise fun a b => a.2.2.toNat ≤ b.2.1.toNat := by
  have size : Text.byteLength ((lexemes text.toList).flatMap Lexeme.text) = text.utf8ByteSize := by
    rw [lexemes_flatten, Text.byteLength_eq_utf8ByteSize]
  obtain ⟨placement, ordered⟩ := @withRanges_spec 0 (lexemes text.toList) (by omega)
  refine ⟨fun p member => ?_, ordered⟩
  have filled := byteLength_pos (ne_nil_of_mem_withRanges member)
  have := placement p member
  omega

theorem scan_laid {sources : SourceMap} {id : UInt16} {file : SourceFile}
    {tokens : List (Located Token)} (found : sources.get? id = some file)
    (bound : file.text.utf8ByteSize < UInt32.size) (scanned : scan sources id = .ok (.ok tokens)) :
    Laid id tokens := by
  obtain ⟨placed, sub, gives⟩ := scan_ok found scanned
  obtain ⟨placement, ordered⟩ := ranges_spec bound
  -- A token is as long as the text of the lexeme that it is read from.
  have taken : ∀ t ∈ tokens, ∃ c rest, (lexeme c rest).reading = .token t.value ∧
      t.span.start.toNat + Text.byteLength (lexeme c rest).text = t.span.stop.toNat := by
    intro t member
    obtain ⟨p, p_mem, read, -, start, stop⟩ := exists_related gives member
    have inside := sub.subset p_mem
    obtain ⟨c, rest, same⟩ := mem_lexemes (mem_of_mem_withRanges inside)
    have length := (placement p inside).2.1
    rw [same] at read length
    exact ⟨c, rest, read, by rwa [start, stop]⟩
  refine ⟨fun t member => ?_, fun t member => ?_, fun t member op isOp => ?_, ?_⟩
  · obtain ⟨p, -, gives⟩ := exists_related gives member
    exact gives.2.1
  · obtain ⟨p, p_mem, -, -, start, stop⟩ := exists_related gives member
    rw [start, stop]
    exact (placement p (sub.subset p_mem)).1
  · obtain ⟨c, rest, read, length⟩ := taken t member
    rw [isOp] at read
    rwa [lexeme_opcode read, Text.byteLength_eq_utf8ByteSize] at length
  · refine pairwise_of_related gives (ordered.sublist sub) ?_
    rintro a b t u ⟨-, -, -, stop⟩ ⟨-, -, start, -⟩ after
    rwa [stop, start]

end PuzzleMachine
