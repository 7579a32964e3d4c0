import PuzzleMachine.Proofs.Coverage

set_option autoImplicit false

namespace PuzzleMachine

open Text

section Slices

variable {c : Char} {text rest rest' : List Char} {ls before inside after : List Lexeme}

theorem takeWhile_within {p : Char → Bool} (within : rest' <+: rest)
    (taken : rest.takeWhile p <+: rest') : rest'.takeWhile p = rest.takeWhile p := by
  obtain ⟨more, rfl⟩ := within
  rw [List.takeWhile_append] at taken ⊢
  split at taken
  next all =>
    have none := taken.eq_of_length_le (by simp)
    rw [List.append_right_eq_self] at none
    have all := (List.takeWhile_prefix p).eq_of_length all
    rw [if_pos (congrArg List.length all), none, List.append_nil, all]
  next some => rw [if_neg some]

-- A lexeme stays as it is when the text is cut off behind it.
theorem lexeme_within (within : rest' <+: rest) (taken : (lexeme c rest).text <+: c :: rest') :
    lexeme c rest' = lexeme c rest := by
  rw [lexeme_text_eq, List.cons_prefix_cons] at taken
  rw [← lexeme_takeWhile, takeWhile_within within taken.2, lexeme_takeWhile]

theorem lexemes_front (cut : lexemes text = ls ++ after) :
    lexemes (ls.flatMap Lexeme.text) = ls := by
  induction ls generalizing text with
  | nil => rw [List.flatMap_nil, lexemes]
  | cons l ls ih =>
    have whole := lexemes_flatten text
    rw [cut, List.flatMap_append, List.flatMap_cons] at whole
    cases text with
    | nil =>
      rw [lexemes] at cut
      cases cut
    | cons c rest =>
      rw [lexemes, List.cons_append, List.cons.injEq] at cut
      obtain ⟨rfl, cut⟩ := cut
      obtain ⟨taken, same, -⟩ := lexeme_text c rest
      rw [same, List.cons_append, List.cons_append, List.cons.injEq] at whole
      have within : taken ++ ls.flatMap Lexeme.text <+: rest := ⟨_, whole.2⟩
      have first := @lexeme_within c _ _ within (by simp [same])
      rw [List.flatMap_cons, same, List.cons_append]
      rw [show lexeme c rest = ⟨c :: taken, (lexeme c rest).reading⟩ from
        congrArg (Lexeme.mk · _) same] at first ⊢
      rw [lexemes_cons first, ih cut]

theorem lexemes_back (cut : lexemes text = before ++ ls) :
    lexemes (ls.flatMap Lexeme.text) = ls := by
  induction before generalizing text with
  | nil =>
    rw [List.nil_append] at cut
    rw [← cut, lexemes_flatten]
  | cons l before ih =>
    cases text with
    | nil =>
      rw [lexemes] at cut
      cases cut
    | cons c rest =>
      rw [lexemes, List.cons_append, List.cons.injEq] at cut
      exact ih cut.2

-- Lexemes that follow each other in a text are those of the part of it that they make up.
theorem lexemes_slice (cut : lexemes text = before ++ (inside ++ after)) :
    lexemes (inside.flatMap Lexeme.text) = inside :=
  lexemes_front (lexemes_back cut)

theorem positioned_append (start : List Char) (ls ls' : List Lexeme) :
    positioned start (ls ++ ls') =
      positioned start ls ++ positioned (start ++ ls.flatMap Lexeme.text) ls' := by
  induction ls generalizing start with
  | nil => simp [positioned]
  | cons l ls ih => simp [positioned, ih]

theorem positioned_append_inv {start : List Char} {front back : List (List Char × Lexeme)}
    (cut : positioned start ls = front ++ back) :
    ∃ before after, ls = before ++ after ∧ front = positioned start before ∧
      back = positioned (start ++ before.flatMap Lexeme.text) after := by
  induction front generalizing start ls with
  | nil => exact ⟨[], ls, rfl, rfl, by simpa using cut.symm⟩
  | cons b front ih =>
    cases ls with
    | nil => cases cut
    | cons l ls =>
      rw [positioned, List.cons_append, List.cons.injEq] at cut
      obtain ⟨rfl, cut⟩ := cut
      obtain ⟨before, after, rfl, rfl, rfl⟩ := ih cut
      exact ⟨l :: before, after, rfl, rfl, by rw [List.flatMap_cons, List.append_assoc]⟩

theorem filter_between {α : Type} {p : α → Bool} {xs front mid back : List α} {a b : α}
    (kept : xs.filter p = front ++ (a :: (mid ++ b :: back))) :
    ∃ before inside after, xs = before ++ (a :: inside ++ (b :: after)) ∧
      (a :: inside ++ [b]).filter p = a :: (mid ++ [b]) := by
  obtain ⟨xs₁, xs₂, rfl, -, kept⟩ := List.filter_eq_append_iff.mp kept
  obtain ⟨xs₃, xs₄, rfl, -, keeps, kept⟩ := List.filter_eq_cons_iff.mp kept
  obtain ⟨xs₅, xs₆, rfl, inner, kept⟩ := List.filter_eq_append_iff.mp kept
  obtain ⟨xs₇, xs₈, rfl, dropped, keeps', -⟩ := List.filter_eq_cons_iff.mp kept
  have none : xs₇.filter p = [] := List.filter_eq_nil_iff.mpr dropped
  exact ⟨xs₁ ++ xs₃, xs₅ ++ xs₇, xs₈, by simp, by simp [keeps, keeps', inner, none]⟩

end Slices

section Tokens

variable {id : UInt16} {start : List Char} {ls : List Lexeme}
  {ts front between back : List (Located Token)} {first last : Located Token}

theorem positioned_between {outer inner rest : List (List Char × Lexeme)}
    {b b' : List Char × Lexeme} (cut : positioned [] ls = outer ++ (b :: inner ++ b' :: rest)) :
    ∃ before inside after, ls = before ++ (inside ++ after) ∧
      positioned (before.flatMap Lexeme.text) inside = b :: inner ++ [b'] ∧
      b.1 = before.flatMap Lexeme.text ∧
      b'.1 ++ b'.2.text = before.flatMap Lexeme.text ++ inside.flatMap Lexeme.text := by
  obtain ⟨before, _, rfl, -, later⟩ := positioned_append_inv cut
  obtain ⟨front, after, rfl, opened, later⟩ := positioned_append_inv later.symm
  rw [List.nil_append] at opened later
  cases front with
  | nil => cases opened
  | cons l front =>
    cases after with
    | nil => cases later
    | cons l' after =>
      have opening := (List.cons.inj opened).1
      have closing := (List.cons.inj later).1
      refine ⟨before, l :: front ++ [l'], after, by simp, ?_, congrArg Prod.fst opening, ?_⟩
      · rw [opened, closing, positioned_append]
        rfl
      · rw [closing]
        simp

theorem readings_of_reads
    (reads : List.Forall₂ (Reads id)
      ((positioned start ls).filter fun b => b.2.reading.isToken) ts) :
    (ls.map Lexeme.reading).filter Reading.isToken = ts.map fun t => .token t.value := by
  have values : ((positioned start ls).filter fun b => b.2.reading.isToken).map
      (fun b => b.2.reading) = ts.map fun t => .token t.value := by
    rw [← List.forall₂_eq_eq_eq, List.forall₂_map_left_iff, List.forall₂_map_right_iff]
    exact reads.imp fun _ _ here => here.read
  rw [← values, ← map_snd_positioned start ls, List.map_map, List.filter_map]
  simp [map_snd_positioned, Function.comp_def]

-- Tokens that follow each other are those of lexemes that do, and what covers them is the span of
-- what these make up.
theorem exists_slice
    (reads : List.Forall₂ (Reads id) ((positioned [] ls).filter fun b => b.2.reading.isToken)
      (front ++ (first :: (between ++ last :: back)))) :
    ∃ before inside after, ls = before ++ (inside ++ after) ∧
      (inside.map Lexeme.reading).filter Reading.isToken =
        (first :: (between ++ [last])).map (fun t => .token t.value) ∧
      first.span.file = id ∧
      { first.span with stop := last.span.stop }.Marks (before.flatMap Lexeme.text)
        (inside.flatMap Lexeme.text) := by
  obtain ⟨front', _, kept, -, reads⟩ := related_append reads
  obtain ⟨b, _, here, others, rfl⟩ := List.forall₂_cons_right_iff.mp reads
  obtain ⟨between', _, rfl, among, others⟩ := related_append others
  obtain ⟨b', back', there, -, rfl⟩ := List.forall₂_cons_right_iff.mp others
  obtain ⟨outer, inner, rest, cut, kept⟩ := filter_between kept
  obtain ⟨before, inside, after, whole, places, opened, closed⟩ := positioned_between cut
  have all : List.Forall₂ (Reads id) (b :: (between' ++ [b'])) (first :: (between ++ [last])) :=
    .cons here (List.rel_append among (.cons there .nil))
  rw [← kept, ← places] at all
  refine ⟨before, inside, after, whole, readings_of_reads all, here.file, ?_⟩
  obtain ⟨start, -, line, column⟩ := here.marks
  rw [opened] at start line column
  refine ⟨start, ?_, line, column⟩
  rw [there.marks.stop, ← byteLength_append, closed, byteLength_append]

end Tokens

section Texts

variable {sources : SourceMap} {id : UInt16} {unit : SourceUnit} {inside : List Char}

theorem newline_mem_of_readings {ts : List Token} (lexed : readings inside = ts.map .token)
    (broken : '\n' ∈ inside) : .newline ∈ ts := by
  rw [← lexemes_flatten inside] at broken
  obtain ⟨l, member, broken⟩ := List.mem_flatMap.mp broken
  obtain ⟨c, rest, rfl⟩ := mem_lexemes member
  have newline : (lexeme c rest).reading = .token .newline := by
    by_contra other
    exact lexeme_plain other broken
  have kept : .token .newline ∈ readings inside :=
    List.mem_filter.mpr ⟨newline ▸ List.mem_map_of_mem member, rfl⟩
  rw [lexed] at kept
  obtain ⟨t, here, same⟩ := List.mem_map.mp kept
  exact Reading.token.inj same ▸ here

-- What covers tokens that follow each other shows a text with these tokens.
theorem snippet_reads {front between back : List (Located Token)} {first last : Located Token}
    (found : sources.get? id = some (.ofUnit unit)) (bound : unit.text.utf8ByteSize < UInt32.size)
    (scanned : scan sources id = .ok (.ok (front ++ (first :: (between ++ last :: back))))) :
    ∃ inside, sources.snippet { first.span with stop := last.span.stop } = .ok inside ∧
      byteLength inside < UInt32.size ∧
      readings inside = ((first :: (between ++ [last])).map Located.value).map .token := by
  have valid := scan_valid found scanned
  obtain ⟨before, inside, after, cut, values, file, marks⟩ :=
    exists_slice (scan_reads found bound scanned)
  have whole : unit.text.toList = before.flatMap Lexeme.text ++
      (inside.flatMap Lexeme.text ++ after.flatMap Lexeme.text) := by
    rw [← List.flatMap_append, ← List.flatMap_append, ← cut, lexemes_flatten]
  have size := byteLength_parts whole
  rw [byteLength_append] at size
  refine ⟨inside.flatMap Lexeme.text, marks.snippet (file ▸ found) whole, by omega, ?_⟩
  rw [readings, lexemes_slice cut, List.map_map]
  refine Eq.trans (List.filter_congr fun r member => ?_) values
  obtain ⟨l, within, rfl⟩ := List.mem_map.mp member
  have valid := valid l (by simp [cut, within])
  cases read : l.reading with
  | invalid => exact absurd read valid
  | _ => rfl

end Texts

end PuzzleMachine
