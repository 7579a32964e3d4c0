import PuzzleMachine.Proofs.Spelling

set_option autoImplicit false

namespace PuzzleMachine

inductive WordReads : List Char → Reading → Prop where
  | keyword (op : Opcode) : WordReads op.name.toList (.token (.opcode op))
  | inputLength : WordReads "RLI".toList (.token (.register .inputLength))
  | indexed {lead : String} {make : UInt64 → Token} {digits : List Char} {n : UInt64}
      (indexed : Indexed lead make) (ends : Digits digits)
      (value : n.toNat = Nat.ofDigitChars 10 digits 0) :
      WordReads (lead.toList ++ digits) (.token (make n))
  | indexTooLarge {lead : String} {make : UInt64 → Token} {digits : List Char}
      (indexed : Indexed lead make) (ends : Digits digits)
      (large : ∀ n : UInt64, n.toNat ≠ Nat.ofDigitChars 10 digits 0) :
      WordReads (lead.toList ++ digits) .invalid
  | name {name : String} (label : IsLabelName name) : WordReads name.toList (.token (.word name))

inductive Numeral : List Char → Int → Prop where
  | natural {digits : List Char} (digits_only : Digits digits) :
      Numeral digits (Nat.ofDigitChars 10 digits 0)
  | negative {digits : List Char} (digits_only : Digits digits) :
      Numeral ('-' :: digits) (-Nat.ofDigitChars 10 digits 0)

/-- The patterns, and what a text that is matched is read as. -/
inductive Matches : List Char → Reading → Prop where
  | blanks {cs : List Char} (filled : cs ≠ [])
      (blank : ∀ c ∈ cs, c = ' ' ∨ c = '\t' ∨ c = '\r') : Matches cs .trivia
  | comment {cs : List Char} (plain : '\n' ∉ cs) : Matches (';' :: cs) .trivia
  | word {cs : List Char} {r : Reading} (reads : WordReads cs r) : Matches cs r
  | integer {cs : List Char} {v : Int32} (numeral : Numeral cs v.toInt) :
      Matches cs (.token (.integer v))
  | integerTooLarge {cs : List Char} {z : Int} (numeral : Numeral cs z)
      (large : ∀ v : Int32, v.toInt ≠ z) : Matches cs .invalid
  | colon : Matches [':'] (.token .colon)
  | newline : Matches ['\n'] (.token .newline)

/-- The text is cut into these lexemes, each the longest one that a pattern matches there. -/
inductive Scans : List Char → List Lexeme → Prop where
  | done : Scans [] []
  | longest {taken rest : List Char} {r : Reading} {ls : List Lexeme} (matched : Matches taken r)
      (longest : ∀ other r', other <+: taken ++ rest → Matches other r' →
        other.length ≤ taken.length)
      (later : Scans rest ls) : Scans (taken ++ rest) (⟨taken, r⟩ :: ls)
  | unmatched {c : Char} {rest : List Char} {ls : List Lexeme}
      (none : ∀ other r, other <+: c :: rest → ¬ Matches other r) (later : Scans rest ls) :
      Scans (c :: rest) (⟨[c], .invalid⟩ :: ls)

section Words

variable {word digits : List Char} {r : Reading}

theorem index?_eq_some_iff {n : UInt64} :
    index? digits = some n ↔ n.toNat = Nat.ofDigitChars 10 digits 0 := by
  rw [index?, index64?]
  constructor
  next =>
    intro found
    obtain ⟨small, same⟩ := Option.ite_none_right_eq_some.mp found
    cases same
    exact UInt64.toNat_ofNat_of_lt' small
  next =>
    intro value
    rw [← value, if_pos n.toNat_lt_size, UInt64.ofNat_toNat]

theorem index?_eq_none_iff :
    index? digits = none ↔ ∀ n : UInt64, n.toNat ≠ Nat.ofDigitChars 10 digits 0 := by
  simp only [Option.eq_none_iff_forall_ne_some, ne_eq, index?_eq_some_iff]

theorem WordReads.isWord (reads : WordReads word r) : IsWord word := by
  cases reads with
  | keyword op => exact isWord_opcode op
  | inputLength => exact ⟨'R', ['L', 'I'], rfl, rfl, rfl⟩
  | indexed indexed ends => exact isWord_indexed indexed ends
  | indexTooLarge indexed ends => exact isWord_indexed indexed ends
  | name label => exact label.isWord

theorem WordReads.readWord_eq (reads : WordReads word r) : readWord word = r := by
  cases reads with
  | keyword op => simp only [readWord, String.ofList_toList, Opcode.ofName?_name]
  | inputLength => decide
  | indexed indexed ends value =>
    rw [readWord_indexed indexed ends, index?_eq_some_iff.mpr value]
    rfl
  | indexTooLarge indexed ends large =>
    rw [readWord_indexed indexed ends, index?_eq_none_iff.mpr large]
    rfl
  | name label => exact label.readWord_eq

theorem wordReads_index {lead : String} {make : UInt64 → Token} (indexed : Indexed lead make)
    (ends : Digits digits) :
    WordReads (lead.toList ++ digits) (.ofToken? ((index? digits).map make)) := by
  cases value : index? digits with
  | none => exact .indexTooLarge indexed ends (index?_eq_none_iff.mp value)
  | some n => exact .indexed indexed ends (index?_eq_some_iff.mp value)

theorem isLabelName_of_isWord (isWord : IsWord word)
    (unnamed : Opcode.ofName? (String.ofList word) = none) (other : word ≠ "RLI".toList)
    (unindexed : ∀ lead ∈ ["RX", "RS", "S"], digitsAfter? lead word = none) :
    IsLabelName (String.ofList word) where
  shape := by
    obtain ⟨c, cs, rfl, start, parts⟩ := isWord
    exact ⟨c, cs, String.toList_ofList, by simpa [isWordStart] using start,
      by simpa [isWordPart] using parts⟩
  notOpcode op same := by
    rw [same, Opcode.ofName?_name] at unnamed
    cases unnamed
  notInputLength same := other (by rw [← same, String.toList_ofList])
  notIndexed lead member digits filled each same := by
    rw [String.toList_ofList] at same
    have found := digitsAfter?_eq_some_iff.mpr ⟨same, filled, each⟩
    cases (unindexed lead member).symm.trans found

-- A word is read by the first of the patterns that matches it, and as a name by the last one.
theorem wordReads_readWord (isWord : IsWord word) : WordReads word (readWord word) := by
  unfold readWord
  split
  next op found =>
    have named := List.find?_some found
    simp only [beq_iff_eq] at named
    have same : word = op.name.toList := by rw [named, String.toList_ofList]
    exact same ▸ .keyword op
  next unnamed =>
    split
    next same => exact same ▸ .inputLength
    next other =>
      split
      next digits found =>
        obtain ⟨rfl, ends⟩ := digitsAfter?_eq_some_iff.mp found
        exact wordReads_index .stackLength ends
      next length =>
        split
        next digits found =>
          obtain ⟨rfl, ends⟩ := digitsAfter?_eq_some_iff.mp found
          exact wordReads_index .user ends
        next register =>
          split
          next digits found =>
            obtain ⟨rfl, ends⟩ := digitsAfter?_eq_some_iff.mp found
            exact wordReads_index .stack ends
          next stack =>
            have unindexed : ∀ lead ∈ ["RX", "RS", "S"], digitsAfter? lead word = none := by
              simpa [Option.eq_none_iff_forall_ne_some] using ⟨register, length, stack⟩
            have reads : WordReads (String.ofList word).toList _ :=
              .name (isLabelName_of_isWord isWord unnamed other unindexed)
            rwa [String.toList_ofList] at reads

end Words

section Numbers

variable {cs : List Char} {z : Int}

theorem value32?_eq_some_iff {v : Int32} : value32? z = some v ↔ v.toInt = z := by
  constructor
  next =>
    intro found
    rw [value32?] at found
    obtain ⟨⟨lower, upper⟩, same⟩ := Option.ite_none_right_eq_some.mp found
    cases same
    rw [Int32.toInt_maxValue] at upper
    exact Int32.toInt_ofInt_of_le lower (by omega)
  next =>
    rintro rfl
    exact value32?_toInt v

theorem value32?_eq_none_iff : value32? z = none ↔ ∀ v : Int32, v.toInt ≠ z := by
  simp only [Option.eq_none_iff_forall_ne_some, ne_eq, value32?_eq_some_iff]

theorem Numeral.integer?_eq (numeral : Numeral cs z) : integer? cs = value32? z := by
  cases numeral with
  | natural ends =>
    have unsigned : ∀ digits, cs ≠ '-' :: digits := by
      rintro digits rfl
      exact absurd (ends.each '-' List.mem_cons_self) (by decide)
    exact integer?.eq_2 cs unsigned
  | negative => rfl

theorem Numeral.shape (numeral : Numeral cs z) :
    ∃ c ds, cs = c :: ds ∧ (c.isDigit = true ∨ c = '-' ∧ ds ≠ []) ∧ ∀ d ∈ ds, d.isDigit = true := by
  cases numeral with
  | natural ends =>
    obtain ⟨d, ds, rfl⟩ := List.exists_cons_of_ne_nil ends.filled
    obtain ⟨first, later⟩ := List.forall_mem_cons.mp ends.each
    exact ⟨d, ds, rfl, .inl first, later⟩
  | negative ends => exact ⟨'-', _, rfl, .inr ⟨rfl, ends.filled⟩, ends.each⟩

end Numbers

def goesOn (c : Char) : Char → Bool :=
  if isBlank c then isBlank
  else if c = ';' then (· ≠ '\n')
  else if isWordStart c then isWordPart
  else if c.isDigit || c = '-' then Char.isDigit
  else fun _ => false

inductive Begins (c : Char) (rest : List Char) : Prop where
  | blank (blank : isBlank c = true)
  | comment (comment : c = ';')
  | word (start : isWordStart c = true)
  | digit (digit : c.isDigit = true)
  | sign (sign : c = '-') (digit : rest.head?.any Char.isDigit = true)
  | colon (colon : c = ':')
  | newline (newline : c = '\n')

section Lexemes

variable {c : Char} {cs rest other : List Char} {r : Reading} {z : Int}

theorem isBlank_iff : isBlank c = true ↔ c = ' ' ∨ c = '\t' ∨ c = '\r' := by
  simp [isBlank, or_assoc]

theorem lexeme_sign (rest : List Char) :
    lexeme '-' rest =
      if rest.head?.any Char.isDigit then
        ⟨'-' :: rest.takeWhile Char.isDigit, readNumber ('-' :: rest.takeWhile Char.isDigit)⟩
      else ⟨['-'], .invalid⟩ := rfl

theorem goesOn_sign : goesOn '-' = Char.isDigit := rfl

theorem takeWhile_head?_any {p : Char → Bool} (rest : List Char) :
    (rest.takeWhile p).head?.any p = rest.head?.any p := by
  cases rest with
  | nil => rfl
  | cons d rest => cases first : p d <;> simp [first]

theorem lexeme_text_eq (c : Char) (rest : List Char) :
    (lexeme c rest).text = c :: rest.takeWhile (goesOn c) := by
  -- Only a sign looks at what follows it. Where this is no digit, none is taken either.
  by_cases sign : c = '-'
  next =>
    rw [sign, lexeme_sign]
    split
    next => rfl
    next none =>
      cases rest with
      | nil => rfl
      | cons d rest =>
        have stops : d.isDigit = false := by simpa using none
        rw [goesOn_sign, List.takeWhile_cons_of_neg (by simp [stops])]
  next =>
    unfold lexeme goesOn
    split_ifs <;> simp_all

theorem lexeme_takeWhile (c : Char) (rest : List Char) :
    lexeme c (rest.takeWhile (goesOn c)) = lexeme c rest := by
  by_cases sign : c = '-'
  next =>
    rw [sign, lexeme_sign, lexeme_sign, goesOn_sign, takeWhile_head?_any, List.takeWhile_idem]
  next =>
    unfold lexeme goesOn
    split_ifs <;> simp_all [List.takeWhile_idem]

theorem number_begins (number : (c.isDigit || c = '-' && rest.head?.any Char.isDigit) = true) :
    c.isDigit = true ∨ c = '-' ∧ rest.head?.any Char.isDigit = true := by
  simpa using number

theorem lexeme_of_not_begins (none : ¬ Begins c rest) : lexeme c rest = ⟨[c], .invalid⟩ := by
  unfold lexeme
  split_ifs with blank comment word number colon newline
  next => exact absurd (.blank blank) none
  next => exact absurd (.comment comment) none
  next => exact absurd (.word word) none
  next =>
    rcases number_begins number with digit | ⟨sign, digit⟩
    · exact absurd (.digit digit) none
    · exact absurd (.sign sign digit) none
  next => exact absurd (.colon colon) none
  next => exact absurd (.newline newline) none
  next => rfl

theorem Numeral.readNumber_eq (numeral : Numeral cs z) :
    readNumber cs = .ofToken? ((value32? z).map .integer) := by
  rw [readNumber, numeral.integer?_eq]

theorem matches_number (numeral : Numeral cs z) : Matches cs (readNumber cs) := by
  rw [numeral.readNumber_eq]
  cases value : value32? z with
  | none => exact .integerTooLarge numeral (value32?_eq_none_iff.mp value)
  | some v =>
    cases value32?_eq_some_iff.mp value
    exact .integer numeral

theorem exists_numeral_takeWhile
    (number : c.isDigit = true ∨ c = '-' ∧ rest.head?.any Char.isDigit = true) :
    ∃ z, Numeral (c :: rest.takeWhile Char.isDigit) z := by
  have each : ∀ d ∈ rest.takeWhile Char.isDigit, d.isDigit = true :=
    fun _ => List.mem_takeWhile_imp
  rcases number with digit | ⟨rfl, digit⟩
  · exact ⟨_, .natural ⟨List.cons_ne_nil c _, List.forall_mem_cons.mpr ⟨digit, each⟩⟩⟩
  · refine ⟨_, .negative ⟨fun none => ?_, each⟩⟩
    rw [← takeWhile_head?_any, none] at digit
    cases digit

theorem Numeral.lexeme_eq (numeral : Numeral (c :: cs) z) :
    Begins c cs ∧ lexeme c cs = ⟨c :: cs, readNumber (c :: cs)⟩ := by
  obtain ⟨d, ds, same, start, digits⟩ := numeral.shape
  cases same
  have stops : ∀ d, ([] : List Char).head? = some d → d.isDigit = false := by
    intro d head
    cases head
  have whole := lexeme_number start digits stops
  rw [List.append_nil] at whole
  refine ⟨?_, whole⟩
  rcases start with digit | ⟨sign, filled⟩
  · exact .digit digit
  · obtain ⟨d, ds, rfl⟩ := List.exists_cons_of_ne_nil filled
    exact .sign sign (digits d List.mem_cons_self)

theorem Matches.ne_nil (matched : Matches cs r) : cs ≠ [] := by
  cases matched with
  | blanks filled => exact filled
  | word reads =>
    obtain ⟨c, cs, rfl, -⟩ := reads.isWord
    exact List.cons_ne_nil c cs
  | integer numeral =>
    obtain ⟨c, cs, rfl, -⟩ := numeral.shape
    exact List.cons_ne_nil c cs
  | integerTooLarge numeral =>
    obtain ⟨c, cs, rfl, -⟩ := numeral.shape
    exact List.cons_ne_nil c cs
  | _ => exact List.cons_ne_nil _ _

theorem matches_lexeme (begins : Begins c rest) :
    Matches (lexeme c rest).text (lexeme c rest).reading := by
  have inside {p : Char → Bool} : ∀ d ∈ rest.takeWhile p, p d = true :=
    fun _ => List.mem_takeWhile_imp
  unfold lexeme
  split_ifs with blank comment word number colon newline
  next =>
    refine .blanks (List.cons_ne_nil c _) fun d member => isBlank_iff.mp ?_
    rcases List.mem_cons.mp member with rfl | member
    · exact blank
    · exact inside d member
  next =>
    rw [comment]
    exact .comment fun member => by simpa using inside _ member
  next => exact .word (wordReads_readWord ⟨c, _, rfl, word, List.all_eq_true.mpr inside⟩)
  next =>
    obtain ⟨z, numeral⟩ := exists_numeral_takeWhile (number_begins number)
    exact matches_number numeral
  next =>
    rw [colon]
    exact .colon
  next =>
    rw [newline]
    exact .newline
  next => cases begins <;> simp_all

theorem Matches.lexeme_eq (matched : Matches (c :: cs) r) :
    Begins c cs ∧ lexeme c cs = ⟨c :: cs, r⟩ := by
  -- Nothing follows the text, so that a lexeme that goes on as the pattern does takes all of it.
  generalize text : c :: cs = text at matched
  cases matched with
  | blanks filled blank =>
    subst text
    obtain ⟨first, later⟩ := List.forall_mem_cons.mp blank
    have blank : isBlank c = true := isBlank_iff.mpr first
    have all : cs.takeWhile isBlank = cs :=
      List.takeWhile_eq_self_iff.mpr fun d member => isBlank_iff.mpr (later d member)
    exact ⟨.blank blank, by rw [lexeme, if_pos blank, all]⟩
  | comment plain =>
    cases text
    have all : cs.takeWhile (· ≠ '\n') = cs :=
      List.takeWhile_eq_self_iff.mpr fun d member => by
        simpa using ne_of_mem_of_not_mem member plain
    have whole : lexeme ';' cs = ⟨';' :: cs.takeWhile (· ≠ '\n'), .trivia⟩ := rfl
    exact ⟨.comment rfl, by rw [whole, all]⟩
  | word reads =>
    obtain ⟨c, cs, rfl, start, parts⟩ := reads.isWord
    cases text
    have whole := lexeme_word start parts separated_nil
    rw [List.append_nil, reads.readWord_eq] at whole
    exact ⟨.word start, whole⟩
  | @integer _ v numeral =>
    subst text
    have read : readNumber (c :: cs) = .token (.integer v) := by
      rw [numeral.readNumber_eq, value32?_toInt]
      rfl
    rw [← read]
    exact numeral.lexeme_eq
  | integerTooLarge numeral large =>
    subst text
    have read : readNumber (c :: cs) = .invalid := by
      rw [numeral.readNumber_eq, value32?_eq_none_iff.mpr large]
      rfl
    rw [← read]
    exact numeral.lexeme_eq
  | colon =>
    cases text
    exact ⟨.colon rfl, rfl⟩
  | newline =>
    cases text
    exact ⟨.newline rfl, rfl⟩

theorem begins_append (begins : Begins c cs) (rest : List Char) : Begins c (cs ++ rest) := by
  cases begins with
  | blank blank => exact .blank blank
  | comment comment => exact .comment comment
  | word start => exact .word start
  | digit digit => exact .digit digit
  | sign sign digit =>
    cases cs with
    | nil => cases digit
    | cons d ds => exact .sign sign digit
  | colon colon => exact .colon colon
  | newline newline => exact .newline newline

theorem lexeme_leads (c : Char) (rest : List Char) : (lexeme c rest).text <+: c :: rest := by
  rw [lexeme_text_eq]
  exact List.cons_prefix_cons.mpr ⟨rfl, List.takeWhile_prefix _⟩

-- Where something is matched, the lexeme there does not end within it.
theorem Matches.prefix_lexeme (matched : Matches other r) (here : other <+: c :: rest) :
    Begins c rest ∧ other <+: (lexeme c rest).text := by
  obtain ⟨d, ds, rfl⟩ := List.exists_cons_of_ne_nil matched.ne_nil
  obtain ⟨rfl, more, rfl⟩ := List.cons_prefix_cons.mp here
  obtain ⟨begins, whole⟩ := matched.lexeme_eq
  have taken := lexeme_text_eq d ds
  rw [whole, List.cons.injEq] at taken
  have each := List.takeWhile_eq_self_iff.mp taken.2.symm
  refine ⟨begins_append begins more, ?_⟩
  rw [lexeme_text_eq, List.takeWhile_append_of_pos each]
  exact List.cons_prefix_cons.mpr ⟨rfl, List.prefix_append ds _⟩

theorem lexeme_of_longest (matched : Matches (c :: cs) r)
    (longest : ∀ other r', other <+: c :: (cs ++ rest) → Matches other r' →
      other.length ≤ (c :: cs).length) : lexeme c (cs ++ rest) = ⟨c :: cs, r⟩ := by
  obtain ⟨begins, inside⟩ := matched.prefix_lexeme (List.prefix_append (c :: cs) rest)
  -- The lexeme is matched as well, and what is matched is no longer than the longest match.
  have same := inside.eq_of_length_le (longest _ _ (lexeme_leads c _) (matches_lexeme begins))
  rw [List.append_eq, lexeme_text_eq, List.cons.injEq] at same
  rw [← lexeme_takeWhile, ← same.2]
  exact matched.lexeme_eq.2

end Lexemes

section Texts

variable {text : List Char} {ls : List Lexeme}

theorem Scans.eq_lexemes (scanned : Scans text ls) : ls = lexemes text := by
  induction scanned with
  | done => rw [lexemes]
  | longest matched longest _ ih =>
    obtain ⟨c, cs, rfl⟩ := List.exists_cons_of_ne_nil matched.ne_nil
    rw [ih]
    exact (lexemes_cons (lexeme_of_longest matched longest)).symm
  | @unmatched c rest ls none _ ih =>
    have nothing : ¬ Begins c rest := fun begins =>
      none _ _ (lexeme_leads c rest) (matches_lexeme begins)
    rw [ih]
    exact (@lexemes_cons c [] rest _ (lexeme_of_not_begins nothing)).symm

theorem scans_lexemes (text : List Char) : Scans text (lexemes text) := by
  induction text using lexemes.induct with
  | case1 =>
    rw [lexemes]
    exact .done
  | case2 c rest l ih =>
    obtain ⟨taken, same, later, rfl⟩ := lexeme_text c rest
    have longest {other r} (here : other <+: c :: (taken ++ later)) (matched : Matches other r) :
        Begins c (taken ++ later) ∧ other <+: c :: taken :=
      same ▸ matched.prefix_lexeme here
    simp only [l, same, List.length_cons, Nat.add_sub_cancel, List.drop_left] at ih
    -- The lexeme is the longest match where there is one, and one character where there is none.
    by_cases begins : Begins c (taken ++ later)
    next =>
      have matched := matches_lexeme begins
      have whole : lexeme c (taken ++ later) = ⟨c :: taken, _⟩ := congrArg (Lexeme.mk · _) same
      rw [same] at matched
      rw [lexemes_cons whole]
      exact .longest matched (fun other r' here also => (longest here also).2.length_le) ih
    next =>
      have whole := lexeme_of_not_begins begins
      rw [whole, List.cons.injEq] at same
      cases same.2
      rw [lexemes_cons whole]
      exact .unmatched (fun other r' here also => begins (longest here also).1) ih

theorem scans_iff : Scans text ls ↔ ls = lexemes text :=
  ⟨Scans.eq_lexemes, fun same => same ▸ scans_lexemes text⟩

end Texts
end PuzzleMachine
