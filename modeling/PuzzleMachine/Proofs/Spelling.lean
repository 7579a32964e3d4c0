import Mathlib
import PuzzleMachine.Proofs.TextReads

set_option autoImplicit false

namespace PuzzleMachine

def Separated (rest : List Char) : Prop := ∀ c, rest.head? = some c → isWordPart c = false

theorem separated_nil : Separated [] := by
  intro c head
  cases head

def Spells (text : List Char) (t : Token) : Prop :=
  ∀ rest, Separated rest → readings (text ++ rest) = .token t :: readings rest

section Lexemes

variable {c : Char} {cs rest : List Char} {r : Reading} {p : Char → Bool}

theorem lexemes_cons (whole : lexeme c (cs ++ rest) = ⟨c :: cs, r⟩) :
    lexemes (c :: (cs ++ rest)) = ⟨c :: cs, r⟩ :: lexemes rest := by
  simp only [lexemes, whole, List.length_cons, Nat.add_sub_cancel, List.drop_left]

theorem significant_cons (whole : lexeme c (cs ++ rest) = ⟨c :: cs, r⟩) :
    significant (c :: (cs ++ rest)) =
      ([⟨c :: cs, r⟩] : List Lexeme).filter (fun l => !l.reading.isTrivia) ++ significant rest := by
  rw [significant, lexemes_cons whole, ← List.singleton_append, List.filter_append, significant]

theorem readings_cons (whole : lexeme c (cs ++ rest) = ⟨c :: cs, r⟩) :
    readings (c :: (cs ++ rest)) = [r].filter (!·.isTrivia) ++ readings rest := by
  rw [readings_eq, significant_cons whole, List.map_append, readings_eq]
  cases r <;> rfl

theorem takeWhile_separated (member : ∀ d ∈ cs, p d = true)
    (ends : ∀ d, rest.head? = some d → p d = false) : (cs ++ rest).takeWhile p = cs := by
  rw [List.takeWhile_append_of_pos member]
  cases rest with
  | nil => simp
  | cons d rest => simp [ends d rfl]

theorem significant_dropWhile (blank : isBlank c = true) (rest : List Char) :
    significant (c :: rest) = significant (rest.dropWhile isBlank) := by
  have whole := @significant_cons c (rest.takeWhile isBlank) (rest.dropWhile isBlank) .trivia
  rw [List.takeWhile_append_dropWhile] at whole
  exact whole (by simp [lexeme, blank])

-- A blank is only a part of a run of blanks, but the run stands for nothing either.
theorem significant_blank (blank : isBlank c = true) (rest : List Char) :
    significant (c :: rest) = significant rest := by
  rw [significant_dropWhile blank]
  cases rest with
  | nil => rfl
  | cons d rest =>
    by_cases blank : isBlank d = true
    next => rw [significant_dropWhile blank, List.dropWhile_cons_of_pos blank]
    next => rw [List.dropWhile_cons_of_neg blank]

theorem readings_blank (rest : List Char) : readings (' ' :: rest) = readings rest := by
  rw [readings_eq, significant_blank rfl, readings_eq]

theorem readings_colon (rest : List Char) :
    readings (':' :: rest) = .token .colon :: readings rest :=
  @readings_cons ':' [] rest (.token .colon) rfl

theorem isDigit_iff : c.isDigit = true ↔ 48 ≤ c.toNat ∧ c.toNat ≤ 57 := by
  simp [Char.isDigit, UInt32.le_iff_toNat_le]

theorem isWordPart_of_isDigit (digit : c.isDigit = true) : isWordPart c = true := by
  simp [isWordPart, Char.isAlphanum, digit]

theorem not_isWordStart_of_isDigit (digit : c.isDigit = true) : isWordStart c = false := by
  have range := isDigit_iff.mp digit
  have underscore : c ≠ '_' := by
    rintro rfl
    exact absurd digit (by decide)
  simp [isWordStart, Char.isAlpha, Char.isUpper, Char.isLower, UInt32.le_iff_toNat_le, underscore]
  omega

theorem plain_of_isWordPart (part : isWordPart c = true) : isBlank c = false ∧ c ≠ ';' := by
  have other (d : Char) (stops : isWordPart d = false) : c ≠ d := by
    intro same
    rw [same, stops] at part
    cases part
  simp [isBlank, other ' ' rfl, other '\t' rfl, other '\r' rfl, other ';' rfl]

theorem isWordPart_of_isWordStart (start : isWordStart c = true) : isWordPart c = true := by
  simp only [isWordStart, Bool.or_eq_true] at start
  simp only [isWordPart, Char.isAlphanum, Bool.or_eq_true]
  tauto

variable {t : Token}

theorem lexeme_word (start : isWordStart c = true) (parts : cs.all isWordPart = true)
    (separated : Separated rest) : lexeme c (cs ++ rest) = ⟨c :: cs, readWord (c :: cs)⟩ := by
  obtain ⟨blank, comment⟩ := plain_of_isWordPart (isWordPart_of_isWordStart start)
  have taken := takeWhile_separated (List.all_eq_true.mp parts) separated
  simp [lexeme, blank, comment, start, taken]

theorem lexeme_number (start : c.isDigit = true ∨ c = '-' ∧ cs ≠ [])
    (digits : ∀ d ∈ cs, d.isDigit = true)
    (stops : ∀ d, rest.head? = some d → d.isDigit = false) :
    lexeme c (cs ++ rest) = ⟨c :: cs, readNumber (c :: cs)⟩ := by
  have taken := takeWhile_separated digits stops
  rcases start with digit | ⟨rfl, filled⟩
  · obtain ⟨blank, comment⟩ := plain_of_isWordPart (isWordPart_of_isDigit digit)
    simp [lexeme, blank, comment, not_isWordStart_of_isDigit digit, digit, taken]
  · obtain ⟨d, ds, rfl⟩ := List.exists_cons_of_ne_nil filled
    have digit := digits d List.mem_cons_self
    have first : (d :: ds ++ rest).head?.any Char.isDigit = true := digit
    have plain : isBlank '-' = false ∧ isWordStart '-' = false := by decide
    simp only [lexeme, plain, first, taken]
    rfl

theorem spells_word (start : isWordStart c = true) (parts : cs.all isWordPart = true)
    (read : readWord (c :: cs) = .token t) : Spells (c :: cs) t := by
  intro rest separated
  have whole := lexeme_word start parts separated
  rw [read] at whole
  exact readings_cons whole

theorem spells_number (start : c.isDigit = true ∨ c = '-' ∧ cs ≠ [])
    (digits : ∀ d ∈ cs, d.isDigit = true) (read : readNumber (c :: cs) = .token t) :
    Spells (c :: cs) t := by
  intro rest separated
  have stops : ∀ d, rest.head? = some d → d.isDigit = false := by
    intro d head
    have part := separated d head
    cases digit : d.isDigit with
    | false => rfl
    | true => rw [isWordPart_of_isDigit digit] at part; cases part
  have whole := lexeme_number start digits stops
  rw [read] at whole
  exact readings_cons whole

end Lexemes

structure IsLabelName (name : String) : Prop where
  shape : ∃ c cs, name.toList = c :: cs ∧ (c.isAlpha ∨ c = '_') ∧
    ∀ d ∈ cs, d.isAlphanum ∨ d = '_'
  notOpcode : ∀ op : Opcode, name ≠ op.name
  notInputLength : name ≠ "RLI"
  notIndexed : ∀ lead ∈ ["RX", "RS", "S"], ∀ digits : List Char, digits ≠ [] →
    (∀ d ∈ digits, d.isDigit) → name.toList ≠ lead.toList ++ digits

structure Digits (digits : List Char) : Prop where
  filled : digits ≠ []
  each : ∀ d ∈ digits, d.isDigit = true

inductive Indexed : String → (UInt64 → Token) → Prop where
  | stackLength : Indexed "RS" fun n => .register (.stackLength n)
  | user : Indexed "RX" fun n => .register (.user n)
  | stack : Indexed "S" .stack

def IsWord (word : List Char) : Prop :=
  ∃ c cs, word = c :: cs ∧ isWordStart c = true ∧ cs.all isWordPart = true

theorem isWord_opcode (op : Opcode) : IsWord op.name.toList := by
  have shape : ∀ op ∈ Opcode.all, op.name.toList.head?.any isWordStart = true ∧
      op.name.toList.tail.all isWordPart = true := by decide
  obtain ⟨start, parts⟩ := shape op op.mem_all
  cases text : op.name.toList with
  | nil => simp [text] at start
  | cons c cs =>
    rw [text] at start parts
    exact ⟨c, cs, rfl, start, parts⟩

section Words

variable {lead : String} {word digits : List Char} {n : UInt64} {make : UInt64 → Token}

theorem ofName?_eq_none {name : String} (other : ∀ op : Opcode, name ≠ op.name) :
    Opcode.ofName? name = none := by
  refine List.find?_eq_none.mpr fun op _ => ?_
  simpa using (other op).symm

theorem name_without_digits (op : Opcode) : ∀ c ∈ op.name.toList, c.isDigit = false := by
  have all : ∀ op ∈ Opcode.all, op.name.toList.all (!·.isDigit) = true := by decide
  simpa using all op op.mem_all

theorem digitsAfter?_eq_some_iff :
    digitsAfter? lead word = some digits ↔
      word = lead.toList ++ digits ∧ Digits digits := by
  rw [digitsAfter?, ← String.length_toList]
  constructor
  next =>
    intro found
    split_ifs at found with leads
    obtain ⟨rest, rfl⟩ := List.isPrefixOf_iff_prefix.mp leads
    rw [List.drop_left] at found
    obtain ⟨fine, same⟩ := Option.ite_none_right_eq_some.mp found
    cases same
    simp only [Bool.and_eq_true, Bool.not_eq_true', List.isEmpty_eq_false_iff,
      List.all_eq_true] at fine
    exact ⟨rfl, fine.1, fine.2⟩
  next =>
    intro ⟨whole, filled, all⟩
    have leads : lead.toList.isPrefixOf word = true :=
      List.isPrefixOf_iff_prefix.mpr ⟨digits, whole.symm⟩
    rw [if_pos leads, whole, List.drop_left]
    exact if_pos (by simpa [filled] using all)

-- Keywords have no digits, so that none of them ends in an index.
theorem not_keyword_of_digits (lead : String) (ends : Digits digits) :
    Opcode.ofName? (String.ofList (lead.toList ++ digits)) = none ∧
      lead.toList ++ digits ≠ "RLI".toList := by
  obtain ⟨d, ds, rfl⟩ := List.exists_cons_of_ne_nil ends.filled
  have member : d ∈ lead.toList ++ d :: ds := by simp
  have digit : d.isDigit = true := ends.each d List.mem_cons_self
  constructor
  next =>
    refine ofName?_eq_none fun op same => ?_
    rw [← String.toList_inj, String.toList_ofList] at same
    simp [name_without_digits op d (same ▸ member)] at digit
  next =>
    intro same
    have letters : ∀ c ∈ "RLI".toList, c.isDigit = false := by simp
    simp [letters d (same ▸ member)] at digit

theorem isWord_indexed (indexed : Indexed lead make) (ends : Digits digits) :
    IsWord (lead.toList ++ digits) := by
  have parts : digits.all isWordPart = true :=
    List.all_eq_true.mpr fun d member => isWordPart_of_isDigit (ends.each d member)
  cases indexed with
  | stackLength => exact ⟨'R', 'S' :: digits, rfl, rfl, by rw [List.all_cons, parts]; rfl⟩
  | user => exact ⟨'R', 'X' :: digits, rfl, rfl, by rw [List.all_cons, parts]; rfl⟩
  | stack => exact ⟨'S', digits, rfl, rfl, parts⟩

theorem readWord_indexed (indexed : Indexed lead make) (ends : Digits digits) :
    readWord (lead.toList ++ digits) = .ofToken? ((index? digits).map make) := by
  obtain ⟨unnamed, other⟩ := not_keyword_of_digits lead ends
  have found : digitsAfter? lead (lead.toList ++ digits) = some digits :=
    digitsAfter?_eq_some_iff.mpr ⟨rfl, ends⟩
  -- None of the names that are tried before is the start of this one.
  cases indexed with
  | stackLength => simp only [readWord, unnamed, other, found, if_false]
  | user =>
    have length : digitsAfter? "RS" ("RX".toList ++ digits) = none := by simp [digitsAfter?]
    simp only [readWord, unnamed, other, length, found, if_false]
  | stack =>
    have length : digitsAfter? "RS" ("S".toList ++ digits) = none := by simp [digitsAfter?]
    have register : digitsAfter? "RX" ("S".toList ++ digits) = none := by simp [digitsAfter?]
    simp only [readWord, unnamed, other, length, register, found, if_false]

theorem toList_index (n : UInt64) : (toString n).toList = Nat.toDigits 10 n.toNat :=
  Nat.toList_repr

theorem index?_toDigits (n : UInt64) : index? (Nat.toDigits 10 n.toNat) = some n := by
  rw [index?, Nat.ofDigitChars_ten_toDigits, index64?, if_pos n.toNat_lt_size, UInt64.ofNat_toNat]

theorem digits_toDigits (n : Nat) : Digits (Nat.toDigits 10 n) where
  filled := Nat.toDigits_ne_nil
  each _ member := Nat.isDigit_of_mem_toDigits (by decide) (by decide) member

end Words

section Spelled

theorem spells_index {lead : String} {make : UInt64 → Token} (indexed : Indexed lead make)
    (n : UInt64) : Spells (lead.toList ++ (toString n).toList) (make n) := by
  have ends := digits_toDigits n.toNat
  have read := readWord_indexed indexed ends
  obtain ⟨c, cs, word, start, parts⟩ := isWord_indexed indexed ends
  rw [index?_toDigits, word] at read
  rw [toList_index, word]
  exact spells_word start parts read

theorem spells_register (r : Register) : Spells r.text.toList (.register r) := by
  cases r with
  | inputLength =>
    have read : readWord "RLI".toList = .token (.register .inputLength) := by decide
    exact @spells_word 'R' ['L', 'I'] _ rfl rfl read
  | stackLength n =>
    have text : (Register.stackLength n).text.toList = "RS".toList ++ (toString n).toList :=
      String.toList_append
    rw [text]
    exact spells_index .stackLength n
  | user n =>
    have text : (Register.user n).text.toList = "RX".toList ++ (toString n).toList :=
      String.toList_append
    rw [text]
    exact spells_index .user n

theorem spells_stack (n : UInt64) : Spells (stackText n).toList (.stack n) := by
  have text : (stackText n).toList = "S".toList ++ (toString n).toList := String.toList_append
  rw [text]
  exact spells_index .stack n

theorem value32?_toInt (v : Int32) : value32? v.toInt = some v := by
  rw [value32?, if_pos ⟨v.minValue_le_toInt, v.toInt_le⟩, Int32.ofInt_toInt]

theorem integer?_toDigits (n : Nat) : integer? (Nat.toDigits 10 n) = value32? n := by
  have unsigned : ∀ digits, Nat.toDigits 10 n ≠ '-' :: digits := by
    intro digits signed
    have member : '-' ∈ Nat.toDigits 10 n := by simp [signed]
    exact absurd (Nat.isDigit_of_mem_toDigits (by decide) (by decide) member) (by decide)
  rw [integer?, Nat.ofDigitChars_ten_toDigits]
  exact unsigned

theorem spells_integer (v : Int32) : Spells (toString v.toInt).toList (.integer v) := by
  have all (n : Nat) : ∀ d ∈ Nat.toDigits 10 n, d.isDigit = true := (digits_toDigits n).each
  rw [Int.toString_eq_repr, Int.repr_eq_if]
  split
  next natural =>
    have read : readNumber (Nat.toDigits 10 v.toInt.toNat) = .token (.integer v) := by
      rw [readNumber, integer?_toDigits, Int.toNat_of_nonneg natural, value32?_toInt]
      rfl
    obtain ⟨d, ds, digits⟩ := List.exists_cons_of_ne_nil (@Nat.toDigits_ne_nil v.toInt.toNat 10)
    have each := all v.toInt.toNat
    rw [digits] at read each
    rw [Nat.toList_repr, digits]
    exact spells_number (.inl (each d List.mem_cons_self))
      (fun c member => each c (List.mem_cons_of_mem d member)) read
  next negative =>
    have text : ("-" ++ (-v.toInt).toNat.repr).toList =
        '-' :: Nat.toDigits 10 (-v.toInt).toNat := by simp
    have read : readNumber ('-' :: Nat.toDigits 10 (-v.toInt).toNat) = .token (.integer v) := by
      rw [readNumber, integer?, Nat.ofDigitChars_ten_toDigits, Int.toNat_of_nonneg (by omega),
        Int.neg_neg, value32?_toInt]
      rfl
    rw [text]
    exact spells_number (.inr ⟨rfl, Nat.toDigits_ne_nil⟩) (all _) read

theorem spells_opcode (op : Opcode) : Spells op.name.toList (.opcode op) := by
  have read : readWord op.name.toList = .token (.opcode op) := by
    simp only [readWord, String.ofList_toList, Opcode.ofName?_name]
  obtain ⟨c, cs, text, start, parts⟩ := isWord_opcode op
  rw [text] at read ⊢
  exact spells_word start parts read

theorem digitsAfter?_eq_none {lead : String} {word : List Char}
    (other : ∀ digits : List Char, digits ≠ [] → (∀ d ∈ digits, d.isDigit = true) →
      word ≠ lead.toList ++ digits) : digitsAfter? lead word = none := by
  refine Option.eq_none_iff_forall_not_mem.mpr fun digits found => ?_
  obtain ⟨whole, ends⟩ := digitsAfter?_eq_some_iff.mp found
  exact other digits ends.filled ends.each whole

theorem IsLabelName.isWord {name : String} (label : IsLabelName name) : IsWord name.toList := by
  obtain ⟨c, cs, text, start, parts⟩ := label.shape
  exact ⟨c, cs, text, by simpa [isWordStart] using start, by simpa [isWordPart] using parts⟩

theorem IsLabelName.readWord_eq {name : String} (label : IsLabelName name) :
    readWord name.toList = .token (.word name) := by
  have unnamed : Opcode.ofName? name = none := ofName?_eq_none label.notOpcode
  have other : name.toList ≠ "RLI".toList := fun same =>
    label.notInputLength (String.toList_inj.mp same)
  have plain : ∀ lead ∈ ["RX", "RS", "S"], digitsAfter? lead name.toList = none :=
    fun lead member => digitsAfter?_eq_none (label.notIndexed lead member)
  simp only [List.forall_mem_cons] at plain
  obtain ⟨user, length, stack, -⟩ := plain
  simp only [readWord, unnamed, other, user, length, stack, if_false, String.ofList_toList]

theorem IsLabelName.spells {name : String} (label : IsLabelName name) :
    Spells name.toList (.word name) := by
  have read := label.readWord_eq
  obtain ⟨c, cs, text, start, parts⟩ := label.isWord
  rw [text] at read ⊢
  exact spells_word start parts read

end Spelled
end PuzzleMachine
