import Mathlib
import PuzzleMachine.Json.Reader
import PuzzleMachine.Json.Writer

set_option autoImplicit false

namespace PuzzleMachine.Json

def Apart (rest : List Char) : Prop :=
  ∀ c ∈ rest.head?, c.isDigit = false ∧ c ≠ '.' ∧ c ≠ 'e' ∧ c ≠ 'E'

def Blank (cs : List Char) : Prop := ∀ c ∈ cs, isSpace c = true

section Blank

variable {b rest : List Char}

theorem skipSpace_blank (blank : Blank b) (rest : List Char) :
    skipSpace (b ++ rest) = skipSpace rest :=
  List.dropWhile_append_of_pos blank

theorem skipSpace_of_head {c : Char} (solid : isSpace c = false) (cs : List Char) :
    skipSpace (c :: cs) = c :: cs :=
  List.dropWhile_cons_of_neg (by simp [solid])

theorem apart_of_mem {c : Char} (stop : c ∈ [' ', '\t', '\n', '\r', ',', ']', '}'])
    (rest : List Char) : Apart (c :: rest) := by
  intro d head
  cases head
  simp only [List.mem_cons, List.not_mem_nil, or_false] at stop
  rcases stop with rfl | rfl | rfl | rfl | rfl | rfl | rfl <;> decide

theorem apart_blank (blank : Blank b) (apart : Apart rest) : Apart (b ++ rest) := by
  cases b with
  | nil => exact apart
  | cons c b =>
    refine apart_of_mem ?_ (b ++ rest)
    have space := blank c List.mem_cons_self
    simp only [isSpace, Bool.or_eq_true, decide_eq_true_eq] at space
    rcases space with ((rfl | rfl) | rfl) | rfl <;> decide

theorem newLine_blank (depth : Nat) : Blank (newLine depth) := by
  intro c member
  rcases List.mem_cons.mp member with rfl | member
  · rfl
  · rw [List.eq_of_mem_replicate member]
    rfl

end Blank

section Numbers

variable {n : Nat} {rest : List Char}

theorem digits_of_toDigits (n : Nat) : ∀ d ∈ Nat.toDigits 10 n, d.isDigit = true :=
  fun _ member => Nat.isDigit_of_mem_toDigits (by decide) (by decide) member

theorem ne_of_isDigit {c d : Char} (digit : c.isDigit = true) (stops : d.isDigit = false) :
    c ≠ d := by
  rintro rfl
  rw [stops] at digit
  cases digit

theorem takeWhile_apart (apart : Apart rest) : rest.takeWhile Char.isDigit = [] := by
  cases rest with
  | nil => rfl
  | cons c rest => simp [(apart c rfl).1]

theorem dropWhile_apart (apart : Apart rest) : rest.dropWhile Char.isDigit = rest := by
  cases rest with
  | nil => rfl
  | cons c rest => simp [(apart c rfl).1]

-- Only zero is written with a leading zero, and then with no other digit.
theorem leading_toDigits (n : Nat) (more : 1 < (Nat.toDigits 10 n).length) :
    (Nat.toDigits 10 n).head? ≠ some '0' := by
  induction n using Nat.strongRecOn with
  | ind n ih =>
    by_cases small : n < 10
    · rw [Nat.toDigits_of_lt_base small] at more
      simp at more
    rw [Nat.toDigits_of_base_le (by decide) (Nat.le_of_not_lt small),
      List.head?_append_of_ne_nil _ Nat.toDigits_ne_nil]
    by_cases single : n / 10 < 10
    · rw [Nat.toDigits_of_lt_base single, List.head?_cons]
      have digit : ∀ d < 10, 0 < d → some d.digitChar ≠ some '0' := by decide
      exact digit _ single (by omega)
    · refine ih (n / 10) (by omega) ?_
      rw [Nat.toDigits_of_base_le (by decide) (Nat.le_of_not_lt single), List.length_append]
      have filled := List.length_pos_of_ne_nil (@Nat.toDigits_ne_nil (n / 10 / 10) 10)
      simp
      omega

theorem readFraction_apart (apart : Apart rest) : readFraction rest = some (false, rest) := by
  cases rest with
  | nil => rfl
  | cons c rest =>
    obtain ⟨-, point, small, capital⟩ := apart c rfl
    simp [readFraction, readExponent, point, small, capital]

theorem readMagnitude_toDigits (negative : Bool) (n : Nat) (apart : Apart rest) :
    readMagnitude negative (Nat.toDigits 10 n ++ rest) =
      some (if negative && n = 0 then .inexact else .int (if negative then -n else n), rest) := by
  have taken : (Nat.toDigits 10 n ++ rest).takeWhile Char.isDigit = Nat.toDigits 10 n := by
    rw [List.takeWhile_append_of_pos (digits_of_toDigits n), takeWhile_apart apart, List.append_nil]
  have left : (Nat.toDigits 10 n ++ rest).dropWhile Char.isDigit = rest := by
    rw [List.dropWhile_append_of_pos (digits_of_toDigits n), dropWhile_apart apart]
  have leads : (decide (1 < (Nat.toDigits 10 n).length) &&
      decide ((Nat.toDigits 10 n).head? = some '0')) = false := by
    simpa using leading_toDigits n
  have filled : (Nat.toDigits 10 n).isEmpty = false := by simp
  simp only [readMagnitude, taken, left, leads, filled, readFraction_apart apart,
    Nat.ofDigitChars_ten_toDigits]
  cases negative <;> by_cases zero : n = 0 <;> simp [zero]

theorem readValue_number {c : Char} (start : c.isDigit = true ∨ c = '-') (fuel : Nat)
    (cs : List Char) : readValue (fuel + 1) (c :: cs) = readNumber (c :: cs) := by
  have other (d : Char) (stops : d.isDigit = false) (unsigned : d ≠ '-') : c ≠ d := by
    rcases start with digit | rfl
    · exact ne_of_isDigit digit stops
    · exact unsigned.symm
  have solid : isSpace c = false := by
    simp [isSpace, other ' ' rfl (by decide), other '\t' rfl (by decide),
      other '\n' rfl (by decide), other '\r' rfl (by decide)]
  rw [readValue, skipSpace_of_head solid]
  split
  case h_1 same => exact absurd (List.cons.inj same).1 (other 'n' rfl (by decide))
  case h_2 same => exact absurd (List.cons.inj same).1 (other 't' rfl (by decide))
  case h_3 same => exact absurd (List.cons.inj same).1 (other 'f' rfl (by decide))
  case h_4 same => exact absurd (List.cons.inj same).1 (other '"' rfl (by decide))
  case h_5 same => exact absurd (List.cons.inj same).1 (other '[' rfl (by decide))
  case h_6 same => exact absurd (List.cons.inj same).1 (other '{' rfl (by decide))
  case h_7 => rfl

end Numbers

section Strings

variable {c : Char} {rest : List Char}

theorem stringChar?_writeChar (c : Char) (rest : List Char) :
    stringChar? (writeChar c ++ rest) = some (some c, rest) := by
  have same {d : Char} (code : c.toNat = d.toNat) : c = d := Char.toNat_inj.mp code
  have control : ∀ n < 32,
      stringChar? ('\\' :: 'u' :: hex4 n ++ rest) = some (some (Char.ofNat n), rest) := by
    intro n small
    interval_cases n <;> rfl
  rw [writeChar]
  split
  case h_1 code => rw [@same '"' code]; rfl
  case h_2 code => rw [@same '\\' code]; rfl
  case h_3 code => rw [@same '\x08' code]; rfl
  case h_4 code => rw [@same '\t' code]; rfl
  case h_5 code => rw [@same '\n' code]; rfl
  case h_6 code => rw [@same '\x0c' code]; rfl
  case h_7 code => rw [@same '\r' code]; rfl
  case h_8 quote backslash _ _ _ _ _ =>
    split
    next small => rw [control _ small, Char.ofNat_toNat]
    next plain =>
      have other : c ≠ '\\' := by
        rintro rfl
        exact backslash rfl
      rw [List.singleton_append, stringChar?.eq_def]
      split
      next none => cases none
      next escaped => exact absurd (List.cons.inj escaped).1 other
      next same =>
        cases same
        rw [if_neg plain]

-- A character is never written so that it could be the end of its string.
theorem writeChar_head (c : Char) : ∃ d ds, writeChar c = d :: ds ∧ d ≠ '"' := by
  rw [writeChar]
  split
  case h_8 quote _ _ _ _ _ _ =>
    split
    · exact ⟨_, _, rfl, by decide⟩
    · refine ⟨c, [], rfl, ?_⟩
      rintro rfl
      exact quote rfl
  all_goals exact ⟨_, _, rfl, by decide⟩

theorem readStringBody_writeChar (acc : List Char) (whole : Bool) (c : Char) (rest : List Char) :
    readStringBody acc whole (writeChar c ++ rest) = readStringBody (c :: acc) whole rest := by
  obtain ⟨d, ds, written, other⟩ := writeChar_head c
  have first := stringChar?_writeChar c rest
  rw [written] at first ⊢
  rw [List.cons_append] at first ⊢
  rw [readStringBody.eq_def]
  split
  next same => exact absurd (List.cons.inj same).1 other
  next =>
    split
    next none => cases none.symm.trans first
    next one => cases one.symm.trans first; rfl
    next broken => cases broken.symm.trans first

theorem readStringBody_flatMap (acc cs rest : List Char) :
    readStringBody acc true (cs.flatMap writeChar ++ '"' :: rest) =
      some (some (String.ofList (acc.reverse ++ cs)), rest) := by
  induction cs generalizing acc with
  | nil => simp [readStringBody]
  | cons c cs ih =>
    rw [List.flatMap_cons, List.append_assoc, readStringBody_writeChar, ih]
    simp

theorem readStringBody_toList (s : String) (rest : List Char) :
    readStringBody [] true (s.toList.flatMap writeChar ++ '"' :: rest) = some (some s, rest) := by
  rw [readStringBody_flatMap, List.reverse_nil, List.nil_append, String.ofList_toList]

end Strings

structure ReadAs (v : Json) (text : List Char) : Prop where
  begins : ∃ c cs, text = c :: cs ∧ isSpace c = false ∧ c ≠ ']'
  read : ∀ fuel rest, text.length < fuel → Apart rest →
    readValue fuel (text ++ rest) = some (v, rest)

inductive MemberReadAs : String × Json → List Char → Prop where
  | colon {v : Json} {b text : List Char} (name : String) (blank : Blank b) (value : ReadAs v text) :
      MemberReadAs (name, v) (writeString name ++ ':' :: (b ++ text))

section Values

theorem readAs_word {v : Json} {c : Char} {cs : List Char}
    (begins : isSpace c = false ∧ c ≠ ']')
    (read : ∀ fuel rest, Apart rest → readValue (fuel + 1) (c :: cs ++ rest) = some (v, rest)) :
    ReadAs v (c :: cs) where
  begins := ⟨c, cs, rfl, begins⟩
  read fuel rest enough apart := by
    obtain ⟨fuel, rfl⟩ := Nat.exists_eq_add_one.mpr (Nat.zero_lt_of_lt enough)
    exact read fuel rest apart

theorem readAs_null : ReadAs .null (write .null) :=
  readAs_word (by decide) fun _ _ _ => rfl

theorem readAs_bool (b : Bool) : ReadAs (.bool b) (write (.bool b)) := by
  cases b
  · exact readAs_word (by decide) fun _ _ _ => rfl
  · exact readAs_word (by decide) fun _ _ _ => rfl

theorem readAs_negative (n : Nat) :
    ReadAs (if n = 0 then .inexact else .int (-n)) ('-' :: Nat.toDigits 10 n) := by
  refine readAs_word (by decide) fun fuel rest apart => ?_
  have read := readMagnitude_toDigits true n apart
  rw [List.cons_append, readValue_number (.inr rfl), readNumber, read]
  simp

theorem readAs_inexact : ReadAs .inexact (write .inexact) := by
  have text : write .inexact = '-' :: Nat.toDigits 10 0 := rfl
  rw [text]
  exact readAs_negative 0

theorem readAs_int (n : Int) : ReadAs (.int n) (writeInt n) := by
  cases n with
  | ofNat n =>
    obtain ⟨d, ds, digits⟩ := List.exists_cons_of_ne_nil (@Nat.toDigits_ne_nil n 10)
    have digit : d.isDigit = true := digits_of_toDigits n d (digits ▸ List.mem_cons_self)
    have other {c : Char} (stops : c.isDigit = false) : d ≠ c := ne_of_isDigit digit stops
    have solid : isSpace d = false := by
      simp [isSpace, @other ' ' rfl, @other '\t' rfl, @other '\n' rfl, @other '\r' rfl]
    rw [writeInt, digits]
    refine readAs_word ⟨solid, other rfl⟩ fun fuel rest apart => ?_
    have read := readMagnitude_toDigits false n apart
    rw [digits] at read
    rw [List.cons_append, readValue_number (.inl digit), readNumber.eq_def]
    split
    next minus => exact absurd (List.cons.inj minus).1 (other rfl)
    next => simpa using read
  | negSucc n => exact readAs_negative (n + 1)

theorem readAs_str (s : String) : ReadAs (.str s) (writeString s) := by
  refine readAs_word (by decide) fun fuel rest _ => ?_
  have read := readStringBody_toList s rest
  rw [readValue, List.cons_append, skipSpace_of_head (by decide)]
  simp [readString, read]

theorem readAs_broken : ReadAs .broken (write .broken) := by
  have text : write .broken = ['"', '\\', 'u', 'd', '8', '0', '0', '"'] := rfl
  rw [text]
  refine readAs_word (by decide) fun fuel rest _ => ?_
  have first : stringChar? ('\\' :: 'u' :: 'd' :: '8' :: '0' :: '0' :: '"' :: rest) =
      some (none, '"' :: rest) := rfl
  have read : readStringBody [] true ('\\' :: 'u' :: 'd' :: '8' :: '0' :: '0' :: '"' :: rest) =
      some (none, rest) := by
    rw [readStringBody.eq_def]
    split
    next quote => cases quote
    next =>
      split
      next none => cases none.symm.trans first
      next one => cases one.symm.trans first
      next broken =>
        cases broken.symm.trans first
        rw [readStringBody]
        rfl
  rw [readValue, List.cons_append, skipSpace_of_head (by decide)]
  simp [readString, read]

end Values

section Lists

variable {b lead post rest text : List Char} {texts : List (List Char)} {fuel : Nat}

theorem readValue_blank (blank : Blank b) (fuel : Nat) (cs : List Char) :
    readValue fuel (b ++ cs) = readValue fuel cs := by
  cases fuel with
  | zero => rfl
  | succ fuel => rw [readValue, readValue, skipSpace_blank blank]

-- Items with commas between them are read up to the bracket, with any blanks around them.
theorem readItems_joined {v : Json} {vs acc : List Json} (first : ReadAs v text)
    (later : List.Forall₂ ReadAs vs texts) (blank : Blank b) (ends : Blank post)
    (leads : Blank lead) (enough : (joinWith (',' :: b) (text :: texts)).length + 1 < fuel) :
    readItems fuel acc (lead ++ joinWith (',' :: b) (text :: texts) ++ post ++ ']' :: rest) =
      some (acc.reverse ++ v :: vs, rest) := by
  obtain ⟨fuel, rfl⟩ := Nat.exists_eq_add_one.mpr (Nat.zero_lt_of_lt enough)
  induction later generalizing v text acc lead fuel with
  | nil =>
    have apart : Apart (post ++ ']' :: rest) := apart_blank ends (apart_of_mem (by decide) rest)
    have closes : skipSpace (']' :: rest) = ']' :: rest := rfl
    simp only [joinWith] at enough ⊢
    rw [List.append_assoc, List.append_assoc, readItems, readValue_blank leads,
      first.read fuel _ (by omega) apart]
    simp [skipSpace_blank ends, closes]
  | @cons w t ws ts next more ih =>
    simp only [joinWith, List.length_append, List.length_cons] at enough ⊢
    have apart := apart_of_mem (c := ',') (by decide)
      (b ++ joinWith (',' :: b) (t :: ts) ++ post ++ ']' :: rest)
    have goes (cs : List Char) : skipSpace (',' :: cs) = ',' :: cs := rfl
    obtain ⟨fuel, rfl⟩ := Nat.exists_eq_add_one.mpr (show 0 < fuel by omega)
    have later := @ih b t w (v :: acc) next blank fuel (by omega)
    simp only [List.append_assoc, List.cons_append] at later apart ⊢
    rw [readItems, readValue_blank leads, first.read _ _ (by omega) apart]
    simp [goes, later]

theorem readMembers_joined {m : String × Json} {ms acc : List (String × Json)}
    (first : MemberReadAs m text) (later : List.Forall₂ MemberReadAs ms texts) (blank : Blank b)
    (ends : Blank post) (leads : Blank lead)
    (enough : (joinWith (',' :: b) (text :: texts)).length + 1 < fuel) :
    readMembers fuel (some acc)
        (lead ++ joinWith (',' :: b) (text :: texts) ++ post ++ '}' :: rest) =
      some (some (acc.reverse ++ m :: ms), rest) := by
  obtain ⟨fuel, rfl⟩ := Nat.exists_eq_add_one.mpr (Nat.zero_lt_of_lt enough)
  have begins (cs : List Char) : skipSpace ('"' :: cs) = '"' :: cs := rfl
  have names (cs : List Char) : skipSpace (':' :: cs) = ':' :: cs := rfl
  induction later generalizing m text acc lead fuel with
  | nil =>
    have apart : Apart (post ++ '}' :: rest) := apart_blank ends (apart_of_mem (by decide) rest)
    have closes : skipSpace ('}' :: rest) = '}' :: rest := rfl
    obtain @⟨v, gap, text, name, space, value⟩ := first
    simp only [joinWith, writeString, List.length_append, List.length_cons] at enough ⊢
    have read := value.read fuel _ (by omega) apart
    simp only [List.append_assoc, List.cons_append, List.nil_append] at read ⊢
    rw [readMembers, skipSpace_blank leads]
    simp [begins, names, readStringBody_toList, readValue_blank space, read, skipSpace_blank ends,
      closes, addMember]
  | @cons n t ns ts next more ih =>
    have goes (cs : List Char) : skipSpace (',' :: cs) = ',' :: cs := rfl
    have apart := apart_of_mem (c := ',') (by decide)
      (b ++ joinWith (',' :: b) (t :: ts) ++ post ++ '}' :: rest)
    obtain @⟨v, gap, text, name, space, value⟩ := first
    simp only [joinWith, writeString, List.length_append, List.length_cons] at enough ⊢
    obtain ⟨fuel, rfl⟩ := Nat.exists_eq_add_one.mpr (show 0 < fuel by omega)
    have later := @ih b t n ((name, v) :: acc) next blank fuel (by omega)
    have read := value.read (fuel + 1) _ (by omega) apart
    simp only [List.append_assoc, List.cons_append, List.nil_append] at later read ⊢
    rw [readMembers, skipSpace_blank leads]
    simp [begins, names, readStringBody_toList, readValue_blank space, read, goes, later, addMember]

theorem joinWith_head {c : Char} {cs : List Char} :
    ∃ tail, joinWith b ((c :: cs) :: texts) = c :: tail := by
  cases texts
  · exact ⟨_, rfl⟩
  · exact ⟨_, rfl⟩

theorem readAs_arr {pre : List Char} {vs : List Json} (each : List.Forall₂ ReadAs vs texts)
    (filled : texts ≠ []) (blank : Blank b) (begins : Blank pre) (ends : Blank post) :
    ReadAs (.arr vs) ('[' :: (pre ++ joinWith (',' :: b) texts ++ post ++ [']'])) := by
  cases each with
  | nil => exact absurd rfl filled
  | @cons v text vs texts first later =>
    refine ⟨⟨_, _, rfl, by decide⟩, fun fuel rest enough _ => ?_⟩
    obtain ⟨fuel, rfl⟩ := Nat.exists_eq_add_one.mpr (Nat.zero_lt_of_lt enough)
    have opens (cs : List Char) : skipSpace ('[' :: cs) = '[' :: cs := rfl
    -- The first item does not begin as if there were none.
    obtain ⟨c, cs, rfl, solid, other⟩ := first.begins
    obtain ⟨tail, joined⟩ := @joinWith_head (',' :: b) texts c cs
    simp only [List.length_cons, List.length_append] at enough
    have items := @readItems_joined b [] post rest _ texts fuel v vs [] first later blank ends
      nofun (by omega)
    simp only [joined, List.nil_append, List.append_assoc, List.cons_append] at items ⊢
    rw [readValue]
    simp [opens, skipSpace_blank begins, skipSpace_of_head solid, items, other]

theorem MemberReadAs.begins {m : String × Json} (read : MemberReadAs m text) :
    ∃ cs, text = '"' :: cs := by
  cases read
  exact ⟨_, rfl⟩

theorem readAs_obj {pre : List Char} {ms : List (String × Json)}
    (each : List.Forall₂ MemberReadAs ms texts) (filled : texts ≠ []) (blank : Blank b)
    (begins : Blank pre) (ends : Blank post) :
    ReadAs (.obj ms) ('{' :: (pre ++ joinWith (',' :: b) texts ++ post ++ ['}'])) := by
  cases each with
  | nil => exact absurd rfl filled
  | @cons m text ms texts first later =>
    refine ⟨⟨_, _, rfl, by decide⟩, fun fuel rest enough _ => ?_⟩
    obtain ⟨fuel, rfl⟩ := Nat.exists_eq_add_one.mpr (Nat.zero_lt_of_lt enough)
    have opens (cs : List Char) : skipSpace ('{' :: cs) = '{' :: cs := rfl
    have names (cs : List Char) : skipSpace ('"' :: cs) = '"' :: cs := rfl
    obtain ⟨cs, rfl⟩ := first.begins
    obtain ⟨tail, joined⟩ := @joinWith_head (',' :: b) texts '"' cs
    simp only [List.length_cons, List.length_append] at enough
    have members := @readMembers_joined b [] post rest _ texts fuel m ms [] first later blank ends
      nofun (by omega)
    simp only [joined, List.nil_append, List.append_assoc, List.cons_append] at members ⊢
    rw [readValue]
    simp [opens, skipSpace_blank begins, names, members]

theorem readAs_arr_nil : ReadAs (.arr []) ['[', ']'] :=
  readAs_word (by decide) fun _ _ _ => rfl

theorem readAs_obj_nil : ReadAs (.obj []) ['{', '}'] :=
  readAs_word (by decide) fun _ _ _ => rfl

end Lists

section Layouts

theorem readAs_arr_compact {vs : List Json} {texts : List (List Char)}
    (each : List.Forall₂ ReadAs vs texts) :
    ReadAs (.arr vs) ('[' :: joinWith [','] texts ++ [']']) := by
  cases each with
  | nil => exact readAs_arr_nil
  | cons first later =>
    have blank : Blank [] := nofun
    simpa using readAs_arr (.cons first later) (List.cons_ne_nil _ _) blank blank blank

theorem readAs_obj_compact {ms : List (String × Json)} {texts : List (List Char)}
    (each : List.Forall₂ MemberReadAs ms texts) :
    ReadAs (.obj ms) ('{' :: joinWith [','] texts ++ ['}']) := by
  cases each with
  | nil => exact readAs_obj_nil
  | cons first later =>
    have blank : Blank [] := nofun
    simpa using readAs_obj (.cons first later) (List.cons_ne_nil _ _) blank blank blank

theorem readAs_arr_enclose {vs : List Json} {texts : List (List Char)}
    (each : List.Forall₂ ReadAs vs texts) (depth : Nat) :
    ReadAs (.arr vs) (enclose depth '[' ']' texts) := by
  cases each with
  | nil => exact readAs_arr_nil
  | cons first later =>
    simpa [enclose] using readAs_arr (.cons first later) (List.cons_ne_nil _ _)
      (newLine_blank (depth + 1)) (newLine_blank (depth + 1)) (newLine_blank depth)

theorem readAs_obj_enclose {ms : List (String × Json)} {texts : List (List Char)}
    (each : List.Forall₂ MemberReadAs ms texts) (depth : Nat) :
    ReadAs (.obj ms) (enclose depth '{' '}' texts) := by
  cases each with
  | nil => exact readAs_obj_nil
  | cons first later =>
    simpa [enclose] using readAs_obj (.cons first later) (List.cons_ne_nil _ _)
      (newLine_blank (depth + 1)) (newLine_blank (depth + 1)) (newLine_blank depth)

theorem write_int (n : Int) : write (.int n) = writeInt n := rfl

theorem write_str (s : String) : write (.str s) = writeString s := rfl

theorem write_arr (items : List Json) :
    write (.arr items) = '[' :: joinWith [','] (writeItems items) ++ [']'] := rfl

theorem write_obj (members : List (String × Json)) :
    write (.obj members) = '{' :: joinWith [','] (writeMembers members) ++ ['}'] := rfl

mutual

-- By induction on the value, together with the items of arrays and the members of objects.
theorem readAs_write : (v : Json) → ReadAs v (write v)
  | .null => readAs_null
  | .bool b => readAs_bool b
  | .int n => by rw [write_int]; exact readAs_int n
  | .inexact => readAs_inexact
  | .str s => by rw [write_str]; exact readAs_str s
  | .broken => readAs_broken
  | .arr items => by rw [write_arr]; exact readAs_arr_compact (readAs_writeItems items)
  | .obj members => by rw [write_obj]; exact readAs_obj_compact (readAs_writeMembers members)

theorem readAs_writeItems : (vs : List Json) → List.Forall₂ ReadAs vs (writeItems vs)
  | [] => .nil
  | v :: vs => .cons (readAs_write v) (readAs_writeItems vs)

theorem readAs_writeMembers :
    (ms : List (String × Json)) → List.Forall₂ MemberReadAs ms (writeMembers ms)
  | [] => .nil
  | (name, v) :: ms => .cons (.colon (b := []) name nofun (readAs_write v)) (readAs_writeMembers ms)

end

mutual

theorem readAs_writeIndented (depth : Nat) : (v : Json) → ReadAs v (writeIndented depth v)
  | .arr items => readAs_arr_enclose (readAs_writeIndentedItems (depth + 1) items) depth
  | .obj members => readAs_obj_enclose (readAs_writeIndentedMembers (depth + 1) members) depth
  | .null | .bool _ | .int _ | .inexact | .str _ | .broken => readAs_write _

theorem readAs_writeIndentedItems (depth : Nat) :
    (vs : List Json) → List.Forall₂ ReadAs vs (writeIndentedItems depth vs)
  | [] => .nil
  | v :: vs => .cons (readAs_writeIndented depth v) (readAs_writeIndentedItems depth vs)

theorem readAs_writeIndentedMembers (depth : Nat) :
    (ms : List (String × Json)) → List.Forall₂ MemberReadAs ms (writeIndentedMembers depth ms)
  | [] => .nil
  | (name, v) :: ms => by
    have blank : Blank [' '] := by simp [Blank, isSpace]
    exact .cons (.colon name blank (readAs_writeIndented depth v))
      (readAs_writeIndentedMembers depth ms)

end

theorem read_of_readAs {v : Json} {text : List Char} (value : ReadAs v text) :
    Json.read text = some v := by
  have read := value.read (text.length + 1) [] (Nat.lt_succ_self _) nofun
  rw [List.append_nil] at read
  rw [Json.read, read]
  rfl

theorem parse_compact (v : Json) : parse (compact v) = some v := by
  rw [parse, compact, String.toList_ofList, read_of_readAs (readAs_write v)]

theorem parse_indented (v : Json) : parse (indented v) = some v := by
  rw [parse, indented, String.toList_ofList, read_of_readAs (readAs_writeIndented 0 v)]

end Layouts

end PuzzleMachine.Json
