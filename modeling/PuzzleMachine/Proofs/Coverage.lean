import PuzzleMachine.Proofs.LongestMatch

set_option autoImplicit false

namespace PuzzleMachine

open Text

inductive Covers (id : UInt16) : List Char → List Char → List (Located Token) → Prop where
  | done {before : List Char} : Covers id before [] []
  | blank {before rest : List Char} {c : Char} {ts : List (Located Token)}
      (blank : c = ' ' ∨ c = '\t' ∨ c = '\r') (later : Covers id (before ++ [c]) rest ts) :
      Covers id before (c :: rest) ts
  -- A comment goes on to the end of its line.
  | comment {before cs rest : List Char} {ts : List (Located Token)} (plain : '\n' ∉ cs)
      (ends : ∀ c, rest.head? = some c → c = '\n')
      (later : Covers id (before ++ ';' :: cs) rest ts) : Covers id before (';' :: cs ++ rest) ts
  | token {before inside rest : List Char} {t : Located Token} {ts : List (Located Token)}
      (filled : inside ≠ []) (file : t.span.file = id) (marks : t.span.Marks before inside)
      (later : Covers id (before ++ inside) rest ts) : Covers id before (inside ++ rest) (t :: ts)

/-- What the tokens of a file are to its text. -/
structure Covered (sources : SourceMap) (id : UInt16) (unit : SourceUnit)
    (tokens : List (Located Token)) : Prop where
  laid : Laid id tokens
  covers : Covers id [] unit.text.toList tokens
  newlines : ∀ span, ⟨.newline, span⟩ ∈ tokens ↔
    span.file = id ∧ ∃ before after, unit.text.toList = before ++ '\n' :: after ∧
      span.Marks before ['\n']
  alone : ∀ t ∈ tokens, ∃ inside, sources.snippet t.span = .ok inside ∧
    ∀ name, scan (.ofUnits [⟨name, .ofList inside⟩]) 0 =
      .ok (.ok [⟨t.value, ⟨0, 0, .ofNat (byteLength inside), 1, 1⟩⟩])
  lines : ∀ t ∈ tokens, ∃ before after, unit.text.toList = before ++ after ∧
    t.span.start.toNat = byteLength before ∧ t.span.line.toNat = 1 + before.count '\n'

-- What is said of a lexeme that is not a token. Its place is given in words, which is exact for a
-- text that these can count.
structure Faulty (id : UInt16) (unit : SourceUnit) (b : List Char × Lexeme) (d : Diagnostic) :
    Prop where
  kind : d.kind = .token
  message : d.message = invalidMessage b.2.text
  notes : d.notes = []
  file : d.span.file = id
  start : d.span.start = .ofNat (byteLength b.1)
  stop : d.span.stop = .ofNat (byteLength b.1 + byteLength b.2.text)
  exact : unit.text.utf8ByteSize < UInt32.size → d.span.Marks b.1 b.2.text

structure Reads (id : UInt16) (b : List Char × Lexeme) (t : Located Token) : Prop where
  read : b.2.reading = .token t.value
  file : t.span.file = id
  marks : t.span.Marks b.1 b.2.text

def Reading.isToken : Reading → Bool
  | .token _ => true
  | .trivia | .invalid => false

def StandsIn (text : List Char) (b : List Char × Lexeme) : Prop :=
  b.2.text ≠ [] ∧ ∃ after, text = b.1 ++ (b.2.text ++ after)

def ComesTo (sources : SourceMap) (id : UInt16) (unit : SourceUnit) (b : List Char × Lexeme)
    (r : Option (Except Diagnostic (Located Token))) : Prop :=
  StandsIn unit.text.toList b ∧ (placeAfter b.1 b.2).Becomes sources id r

section Scan

variable {sources : SourceMap} {id : UInt16} {unit : SourceUnit} {b : List Char × Lexeme}
  {ls : List Lexeme} {results : List (Option (Except Diagnostic (Located Token)))}
  {tokens : List (Located Token)} {ds : List Diagnostic}

theorem standsIn_of_mem {text : List Char} (member : b ∈ positioned [] (lexemes text)) :
    StandsIn text b := by
  obtain ⟨inside, after, whole⟩ := mem_positioned member
  rw [List.nil_append, lexemes_flatten] at whole
  obtain ⟨c, rest, same⟩ := mem_lexemes inside
  exact ⟨by simp [same, lexeme_text_eq], after, whole⟩

theorem StandsIn.marks {span : Span} (stands : StandsIn unit.text.toList b)
    (found : sources.get? id = some (.ofUnit unit)) (bound : unit.text.utf8ByteSize < UInt32.size)
    (spanned : sources.span id (placeAfter b.1 b.2).2.1 (placeAfter b.1 b.2).2.2 = .ok span) :
    span.Marks b.1 b.2.text := by
  obtain ⟨filled, after, whole⟩ := stands
  exact marks_of_span_at found bound whole filled spanned

theorem scan_comesTo {result : Diagnosed (List (Located Token))}
    (found : sources.get? id = some (.ofUnit unit)) (scanned : scan sources id = .ok result) :
    ∃ results, List.Forall₂ (ComesTo sources id unit) (positioned [] (lexemes unit.text.toList))
        results ∧ result = collect (results.filterMap fun r => r) := by
  obtain ⟨results, located, same⟩ := (scan_results_iff found).mp scanned
  rw [← byteLength, withRanges_eq, List.forall₂_map_left_iff] at located
  have becomes := located.imp fun _ _ here => locate_ok_iff.mp here
  exact ⟨results, (List.forall₂_and_left _ _).mpr ⟨fun b => standsIn_of_mem, becomes⟩, same⟩

theorem faulty_of_comesTo (found : sources.get? id = some (.ofUnit unit))
    (related : List.Forall₂ (ComesTo sources id unit) (positioned [] ls) results) :
    List.Forall₂ (Faulty id unit) ((positioned [] ls).filter fun b => b.2.reading = .invalid)
      (failures (results.filterMap fun r => r)) := by
  rw [failures, List.filterMap_filterMap]
  refine filter_related related ?kept ?dropped
  case kept =>
    rintro b r ⟨stands, becomes⟩ invalid
    have invalid : b.2.reading = .invalid := by simpa using invalid
    cases becomes with
    | nothing read => cases invalid.symm.trans read
    | token read => cases invalid.symm.trans read
    | @fault d _ spanned told =>
      obtain ⟨file, start, stop⟩ := span_ok spanned
      exact ⟨d, rfl, {
        kind := by rw [told]
        message := by rw [told]; rfl
        notes := by rw [told]
        file := file
        start := start
        stop := stop
        exact := fun bound => stands.marks found bound spanned }⟩
  case dropped =>
    rintro b r ⟨-, becomes⟩ valid
    cases becomes with
    | fault read => simp [show b.2.reading = .invalid from read] at valid
    | _ => rfl

theorem reads_of_comesTo (found : sources.get? id = some (.ofUnit unit))
    (bound : unit.text.utf8ByteSize < UInt32.size)
    (related : List.Forall₂ (ComesTo sources id unit) (positioned [] ls) results) :
    List.Forall₂ (Reads id) ((positioned [] ls).filter fun b => b.2.reading.isToken)
      ((results.filterMap fun r => r).filterMap Except.toOption) := by
  rw [List.filterMap_filterMap]
  refine filter_related related ?kept ?dropped
  case kept =>
    rintro b r ⟨stands, becomes⟩ isToken
    cases becomes with
    | nothing read =>
      rw [show b.2.reading = .trivia from read] at isToken
      cases isToken
    | @token t read spanned =>
      exact ⟨t, rfl, read, (span_ok spanned).1, stands.marks found bound spanned⟩
    | fault read =>
      rw [show b.2.reading = .invalid from read] at isToken
      cases isToken
  case dropped =>
    rintro b r ⟨-, becomes⟩ other
    cases becomes with
    | token read =>
      rw [show b.2.reading = .token _ from read] at other
      cases other
    | _ => rfl

theorem map_snd_positioned (before : List Char) (ls : List Lexeme) :
    (positioned before ls).map Prod.snd = ls := by
  induction ls generalizing before with
  | nil => rfl
  | cons l ls ih => rw [positioned, List.map_cons, ih]

theorem scan_faulty (found : sources.get? id = some (.ofUnit unit))
    (scanned : scan sources id = .ok (.error ds)) :
    ds ≠ [] ∧ List.Forall₂ (Faulty id unit)
      ((positioned [] (lexemes unit.text.toList)).filter fun b => b.2.reading = .invalid) ds := by
  obtain ⟨results, related, collected⟩ := scan_comesTo found scanned
  obtain ⟨rfl, some⟩ := collect_error collected.symm
  exact ⟨some, faulty_of_comesTo found related⟩

theorem scan_valid (found : sources.get? id = some (.ofUnit unit))
    (scanned : scan sources id = .ok (.ok tokens)) :
    ∀ l ∈ lexemes unit.text.toList, l.reading ≠ .invalid := by
  obtain ⟨results, related, collected⟩ := scan_comesTo found scanned
  have faulty := faulty_of_comesTo found related
  have none : failures (tokens.map (.ok : Located Token → Except Diagnostic _)) = [] := by
    simp [failures]
  rw [collect_ok collected.symm, none, List.forall₂_nil_right_iff, List.filter_eq_nil_iff] at faulty
  intro l member
  rw [← map_snd_positioned [] (lexemes unit.text.toList)] at member
  obtain ⟨b, inside, rfl⟩ := List.mem_map.mp member
  simpa using faulty b inside

theorem scan_reads (found : sources.get? id = some (.ofUnit unit))
    (bound : unit.text.utf8ByteSize < UInt32.size)
    (scanned : scan sources id = .ok (.ok tokens)) :
    List.Forall₂ (Reads id)
      ((positioned [] (lexemes unit.text.toList)).filter fun b => b.2.reading.isToken) tokens := by
  obtain ⟨results, related, collected⟩ := scan_comesTo found scanned
  have reads := reads_of_comesTo found bound related
  have values : (tokens.map (.ok : Located Token → Except Diagnostic _)).filterMap
      Except.toOption = tokens := by
    simp [List.filterMap_map, Function.comp_def, Except.toOption]
  rwa [collect_ok collected.symm, values] at reads

end Scan

section Alone

variable {t : Token} {l : Lexeme} {inside : List Char}

theorem lexemes_lexeme (c : Char) (rest : List Char) :
    lexemes (lexeme c rest).text = [lexeme c rest] := by
  have taken := @List.drop_length Char (rest.takeWhile (goesOn c))
  rw [lexeme_text_eq, lexemes, lexeme_takeWhile, lexeme_text_eq, List.length_cons,
    Nat.add_sub_cancel, taken, lexemes]

theorem scan_alone (only : lexemes inside = [l]) (read : l.reading = .token t)
    (fits : byteLength inside < UInt32.size) (name : String) :
    scan (.ofUnits [⟨name, .ofList inside⟩]) 0 =
      .ok (.ok [⟨t, ⟨0, 0, .ofNat (byteLength inside), 1, 1⟩⟩]) := by
  have found : (SourceMap.ofUnits [⟨name, .ofList inside⟩]).get? 0 =
      some (.ofUnit ⟨name, .ofList inside⟩) := rfl
  have text : l.text = inside := by
    have whole := lexemes_flatten inside
    rwa [only, List.flatMap_singleton] at whole
  have bound : (String.ofList inside).utf8ByteSize < UInt32.size := by
    rwa [← byteLength_eq_utf8ByteSize, String.toList_ofList]
  have behind : positioned [] (lexemes (String.ofList inside).toList) = [([], l)] := by
    rw [String.toList_ofList, only]
    rfl
  obtain ⟨result, scanned⟩ := exists_scan found bound
  rw [scanned]
  -- Its only lexeme is a token, and not one that a diagnostic could tell of.
  cases result with
  | error ds =>
    obtain ⟨some, faulty⟩ := scan_faulty found scanned
    simp only [behind, read, reduceCtorEq, decide_false, List.filter_cons, Bool.false_eq_true,
      if_false, List.filter_nil, List.forall₂_nil_left_iff] at faulty
    exact absurd faulty some
  | ok tokens =>
    have reads := scan_reads found bound scanned
    simp only [behind, read, Reading.isToken, List.filter_cons, if_true, List.filter_nil,
      List.forall₂_cons_left_iff, List.forall₂_nil_left_iff] at reads
    obtain ⟨⟨t', span⟩, none, here, rfl, rfl⟩ := reads
    cases read.symm.trans here.read
    have size : (UInt32.ofNat (byteLength inside)).toNat = byteLength inside :=
      UInt32.toNat_ofNat_of_lt' fits
    have marks : (⟨0, 0, .ofNat (byteLength inside), 1, 1⟩ : Span).Marks [] l.text :=
      ⟨rfl, by rw [text, size, byteLength, Nat.zero_add], rfl, rfl⟩
    cases here.marks.unique marks here.file
    rfl

end Alone

section Matched

variable {id : UInt16} {before cs rest text : List Char} {r : Reading} {ls : List Lexeme}
  {ts : List (Located Token)}

theorem WordReads.plain (reads : WordReads cs r) : r ≠ .trivia ∧ r ≠ .token .newline := by
  cases reads with
  | indexed indexed => cases indexed <;> exact ⟨nofun, nofun⟩
  | _ => exact ⟨nofun, nofun⟩

theorem Matches.of_trivia (matched : Matches cs r) (read : r = .trivia) :
    (∀ c ∈ cs, c = ' ' ∨ c = '\t' ∨ c = '\r') ∨ ∃ ds, cs = ';' :: ds ∧ '\n' ∉ ds := by
  cases matched with
  | blanks _ blank => exact .inl blank
  | comment plain => exact .inr ⟨_, rfl, plain⟩
  | word reads => exact absurd read reads.plain.1
  | _ => cases read

theorem Matches.of_newline (matched : Matches cs r) (read : r = .token .newline) :
    cs = ['\n'] := by
  cases matched with
  | newline => rfl
  | word reads => exact absurd read reads.plain.2
  | _ => cases read

theorem lexeme_newline {c : Char} (read : (lexeme c rest).reading = .token .newline) :
    (lexeme c rest).text = ['\n'] := by
  by_cases begins : Begins c rest
  next => exact (matches_lexeme begins).of_newline read
  next =>
    rw [lexeme_of_not_begins begins] at read
    cases read

theorem covers_blanks (blank : ∀ c ∈ cs, c = ' ' ∨ c = '\t' ∨ c = '\r')
    (later : Covers id (before ++ cs) rest ts) : Covers id before (cs ++ rest) ts := by
  induction cs generalizing before with
  | nil => simpa using later
  | cons c cs ih =>
    obtain ⟨first, others⟩ := List.forall_mem_cons.mp blank
    exact .blank first (ih others (by simpa using later))

theorem covers_of_scans (scanned : Scans text ls) (valid : ∀ l ∈ ls, l.reading ≠ .invalid)
    (reads : List.Forall₂ (Reads id)
      ((positioned before ls).filter fun b => b.2.reading.isToken) ts) :
    Covers id before text ts := by
  induction scanned generalizing before ts with
  | done =>
    cases reads
    exact .done
  | @longest taken rest r ls matched longest _ ih =>
    obtain ⟨here, others⟩ := List.forall_mem_cons.mp valid
    cases r with
    | trivia =>
      have later : Covers id (before ++ taken) rest ts := ih others reads
      rcases matched.of_trivia rfl with blank | ⟨cs, rfl, plain⟩
      · exact covers_blanks blank later
      · refine .comment plain (fun c head => ?_) later
        -- A comment that stopped before anything else would not be the longest one.
        by_contra other
        obtain ⟨rest, rfl⟩ := List.head?_eq_some_iff.mp head
        have longer : Matches (';' :: (cs ++ [c])) .trivia :=
          .comment (by simp [plain, Ne.symm other])
        have length := longest _ _ ⟨rest, by simp⟩ longer
        simp at length
    | token t =>
      obtain ⟨t', ts, first, later, rfl⟩ := List.forall₂_cons_left_iff.mp reads
      exact .token matched.ne_nil first.file first.marks (ih others later)
    | invalid => exact absurd rfl here
  | unmatched => exact absurd rfl (valid _ List.mem_cons_self)

-- A newline of a text is a lexeme if no lexeme has one among other characters.
theorem exists_newline {after : List Char} (each : ∀ l ∈ ls, '\n' ∈ l.text → l.text = ['\n'])
    (whole : ls.flatMap Lexeme.text = cs ++ '\n' :: after) :
    ∃ l, (before ++ cs, l) ∈ positioned before ls ∧ l.text = ['\n'] := by
  induction ls generalizing before cs with
  | nil => simp at whole
  | cons l ls ih =>
    obtain ⟨here, each⟩ := List.forall_mem_cons.mp each
    rw [List.flatMap_cons] at whole
    have later {ds : List Char} (behind : cs = l.text ++ ds)
        (others : ls.flatMap Lexeme.text = ds ++ '\n' :: after) :
        ∃ l', (before ++ cs, l') ∈ positioned before (l :: ls) ∧ l'.text = ['\n'] := by
      obtain ⟨l', member, text⟩ := @ih (before ++ l.text) ds each others
      rw [behind, ← List.append_assoc]
      exact ⟨l', List.mem_cons_of_mem _ member, text⟩
    -- The newline is behind the first lexeme, or in it and then all of it.
    rcases List.append_eq_append_iff.mp whole with ⟨ds, behind, others⟩ | ⟨ds, inside, others⟩
    · exact later behind others
    · cases ds with
      | nil => exact @later [] (by simpa using inside.symm) others.symm
      | cons d ds =>
        obtain ⟨rfl, -⟩ := List.cons.inj others
        have text := here (by simp [inside])
        rw [text] at inside
        rcases List.append_eq_singleton_iff.mp inside.symm with ⟨rfl, -⟩ | ⟨-, none⟩
        · rw [List.append_nil]
          exact ⟨l, List.mem_cons_self, text⟩
        · cases none

theorem positioned_newline {after : List Char} (whole : text = cs ++ '\n' :: after) :
    (cs, ⟨['\n'], .token .newline⟩) ∈ positioned [] (lexemes text) := by
  have newline : ∀ l ∈ lexemes text, '\n' ∈ l.text →
      l.text = ['\n'] ∧ l.reading = .token .newline := by
    intro l member broken
    obtain ⟨c, rest, rfl⟩ := mem_lexemes member
    have read : (lexeme c rest).reading = .token .newline := by
      by_contra other
      exact lexeme_plain other broken
    exact ⟨lexeme_newline read, read⟩
  rw [← lexemes_flatten text] at whole
  obtain ⟨⟨inside, r⟩, member, rfl⟩ :=
    @exists_newline [] cs _ after (fun l member broken => (newline l member broken).1) whole
  cases (newline _ (mem_positioned member).1 (by simp)).2
  exact member

end Matched

section Scanned

variable {sources : SourceMap} {id : UInt16} {unit : SourceUnit} {tokens : List (Located Token)}

theorem scan_newlines (found : sources.get? id = some (.ofUnit unit))
    (bound : unit.text.utf8ByteSize < UInt32.size)
    (scanned : scan sources id = .ok (.ok tokens)) (span : Span) :
    ⟨.newline, span⟩ ∈ tokens ↔
      span.file = id ∧ ∃ before after, unit.text.toList = before ++ '\n' :: after ∧
        span.Marks before ['\n'] := by
  have reads := scan_reads found bound scanned
  constructor
  next =>
    intro member
    obtain ⟨b, inside, here⟩ := exists_related reads member
    have inside := (List.mem_filter.mp inside).1
    obtain ⟨-, after, whole⟩ := standsIn_of_mem inside
    obtain ⟨c, rest, same⟩ := mem_lexemes (mem_positioned inside).1
    have read := here.read
    have marks := here.marks
    rw [same] at read
    rw [same, lexeme_newline read] at whole marks
    exact ⟨here.file, b.1, after, whole, marks⟩
  next =>
    rintro ⟨file, before, after, whole, marks⟩
    have kept : (before, ⟨['\n'], .token .newline⟩) ∈
        (positioned [] (lexemes unit.text.toList)).filter fun b => b.2.reading.isToken :=
      List.mem_filter.mpr ⟨positioned_newline whole, rfl⟩
    obtain ⟨⟨t, span'⟩, member, here⟩ := exists_related reads.flip kept
    cases here.read
    cases marks.unique here.marks (file.trans here.file.symm)
    exact member

theorem scan_covered (found : sources.get? id = some (.ofUnit unit))
    (bound : unit.text.utf8ByteSize < UInt32.size)
    (scanned : scan sources id = .ok (.ok tokens)) : Covered sources id unit tokens := by
  have reads := scan_reads found bound scanned
  have valid := scan_valid found scanned
  -- Each token is that of a lexeme of the text.
  have from_lexeme : ∀ t ∈ tokens, ∃ before c rest after,
      unit.text.toList = before ++ ((lexeme c rest).text ++ after) ∧
        Reads id (before, lexeme c rest) t := by
    intro t member
    obtain ⟨⟨before, l⟩, inside, here⟩ := exists_related reads member
    have inside := (List.mem_filter.mp inside).1
    obtain ⟨-, after, whole⟩ := standsIn_of_mem inside
    obtain ⟨c, rest, rfl⟩ := mem_lexemes (mem_positioned inside).1
    exact ⟨before, c, rest, after, whole, here⟩
  refine ⟨scan_laid found bound scanned, covers_of_scans (scans_lexemes _) valid reads,
    scan_newlines found bound scanned, fun t member => ?alone, fun t member => ?lines⟩
  case alone =>
    obtain ⟨before, c, rest, after, whole, here⟩ := from_lexeme t member
    have size := byteLength_parts whole
    rw [byteLength_append] at size
    exact ⟨(lexeme c rest).text, here.marks.snippet (here.file ▸ found) whole,
      scan_alone (lexemes_lexeme c rest) here.read (by omega)⟩
  case lines =>
    obtain ⟨before, c, rest, after, whole, here⟩ := from_lexeme t member
    exact ⟨before, _, whole, here.marks.start, by rw [here.marks.line, lineAfter, Nat.add_comm]⟩

/-- Text is cut into longest matches in one way. It is accepted if each of them is a token or
stands for nothing, and is covered by its tokens then. Otherwise each of the others is told. -/
theorem scan_covers_text (found : sources.get? id = some (.ofUnit unit)) :
    ∃ ls, (∀ ls', Scans unit.text.toList ls' ↔ ls' = ls) ∧
      (unit.text.utf8ByteSize < UInt32.size → ∃ result, scan sources id = .ok result) ∧
      (∀ tokens, scan sources id = .ok (.ok tokens) →
        (∀ l ∈ ls, l.reading ≠ .invalid) ∧
          (unit.text.utf8ByteSize < UInt32.size → Covered sources id unit tokens)) ∧
      ∀ ds, scan sources id = .ok (.error ds) →
        ds ≠ [] ∧ List.Forall₂ (Faulty id unit)
          ((positioned [] ls).filter fun b => b.2.reading = .invalid) ds :=
  ⟨lexemes unit.text.toList, fun _ => scans_iff, exists_scan found,
    fun _ scanned => ⟨scan_valid found scanned, fun bound => scan_covered found bound scanned⟩,
    fun _ scanned => scan_faulty found scanned⟩

end Scanned

def calm : SourceUnit := ⟨"calm", "a:\tJMP a ; é\n"⟩

def loud : SourceUnit := ⟨"loud", "é: -RX18446744073709551616 2147483648;@\n"⟩

def loudFaults : List (List Char × Lexeme) := [
  ([], ⟨['é'], .invalid⟩),
  ("é: ".toList, ⟨['-'], .invalid⟩),
  ("é: -".toList, ⟨"RX18446744073709551616".toList, .invalid⟩),
  ("é: -RX18446744073709551616 ".toList, ⟨"2147483648".toList, .invalid⟩)]

theorem calm_covered_loud_told :
    (∃ tokens, scan (.ofUnits [calm, loud]) 0 = .ok (.ok tokens) ∧
      Covered (.ofUnits [calm, loud]) 0 calm tokens) ∧
    ∃ ds, scan (.ofUnits [calm, loud]) 1 = .ok (.error ds) ∧
      List.Forall₂ (Faulty 1 loud) loudFaults ds := by
  constructor
  next =>
    obtain ⟨ls, unique, total, accepted, refused⟩ :=
      @scan_covers_text (.ofUnits [calm, loud]) 0 calm rfl
    cases (unique _).mp (scans_lexemes calm.text.toList)
    have bound : calm.text.utf8ByteSize < UInt32.size := by decide
    obtain ⟨ds | tokens, scanned⟩ := total bound
    next =>
      obtain ⟨some, told⟩ := refused _ scanned
      have none : (positioned [] (lexemes calm.text.toList)).filter
          (fun b => b.2.reading = .invalid) = [] := by decide +kernel
      rw [none, List.forall₂_nil_left_iff] at told
      exact absurd told some
    next => exact ⟨tokens, scanned, (accepted tokens scanned).2 bound⟩
  next =>
    obtain ⟨ls, unique, total, accepted, refused⟩ :=
      @scan_covers_text (.ofUnits [calm, loud]) 1 loud rfl
    cases (unique _).mp (scans_lexemes loud.text.toList)
    obtain ⟨ds | tokens, scanned⟩ := total (by decide)
    next =>
      refine ⟨ds, scanned, ?_⟩
      have told := (refused _ scanned).2
      have faults : (positioned [] (lexemes loud.text.toList)).filter
          (fun b => b.2.reading = .invalid) = loudFaults := by decide +kernel
      rwa [faults] at told
    next =>
      have invalid : ⟨['é'], .invalid⟩ ∈ lexemes loud.text.toList := by decide +kernel
      exact absurd rfl ((accepted _ scanned).1 _ invalid)

end PuzzleMachine
