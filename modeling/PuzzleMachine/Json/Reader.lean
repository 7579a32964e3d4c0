import PuzzleMachine.Json

set_option autoImplicit false

namespace PuzzleMachine.Json

def isSpace (c : Char) : Bool := c = ' ' || c = '\t' || c = '\n' || c = '\r'

def skipSpace (cs : List Char) : List Char := cs.dropWhile isSpace

def hexDigit? (c : Char) : Option Nat :=
  if c.isDigit then some (c.toNat - '0'.toNat)
  else if 'a' ≤ c && c ≤ 'f' then some (c.toNat - 'a'.toNat + 10)
  else if 'A' ≤ c && c ≤ 'F' then some (c.toNat - 'A'.toNat + 10)
  else none

def hex4? (a b c d : Char) : Option Nat := do
  let a ← hexDigit? a
  let b ← hexDigit? b
  let c ← hexDigit? c
  let d ← hexDigit? d
  return ((a * 16 + b) * 16 + c) * 16 + d

def shortEscape? : Char → Option Char
  | '"' => some '"'
  | '\\' => some '\\'
  | '/' => some '/'
  | 'b' => some '\x08'
  | 'f' => some '\x0c'
  | 'n' => some '\n'
  | 'r' => some '\r'
  | 't' => some '\t'
  | _ => none

def isHighSurrogate (n : Nat) : Bool := 0xd800 ≤ n && n < 0xdc00
def isLowSurrogate (n : Nat) : Bool := 0xdc00 ≤ n && n < 0xe000

def unicodeEscape? : List Char → Option (Nat × List Char)
  | '\\' :: 'u' :: a :: b :: c :: d :: rest => (hex4? a b c d).map fun n => (n, rest)
  | _ => none

-- One character of a string body, `none` for a surrogate without a partner, and what follows.
def stringChar? : List Char → Option (Option Char × List Char)
  | [] => none
  | '\\' :: rest =>
      match unicodeEscape? ('\\' :: rest) with
      | some (n, after) =>
          if isHighSurrogate n then
            match unicodeEscape? after with
            | some (low, after') =>
                if isLowSurrogate low then
                  some (some (.ofNat (0x10000 + (n - 0xd800) * 0x400 + (low - 0xdc00))), after')
                else some (none, after)
            | none => some (none, after)
          else if isLowSurrogate n then some (none, after)
          else some (some (.ofNat n), after)
      | none =>
          match rest with
          | [] => none
          | c :: after => (shortEscape? c).map fun c => (some c, after)
  | c :: rest => if c.toNat < 32 then none else some (some c, rest)

theorem unicodeEscape?_length {cs : List Char} {n : Nat} {rest : List Char}
    (h : unicodeEscape? cs = some (n, rest)) : rest.length < cs.length := by
  unfold unicodeEscape? at h
  split at h
  · simp only [Option.map_eq_some_iff, Prod.mk.injEq] at h
    obtain ⟨_, _, _, rfl⟩ := h
    simp only [List.length_cons]
    omega
  · simp at h

theorem stringChar?_length {cs : List Char} {c : Option Char} {rest : List Char}
    (h : stringChar? cs = some (c, rest)) : rest.length < cs.length := by
  unfold stringChar? at h
  split at h
  · simp at h
  · split at h
    · rename_i hu
      have first := unicodeEscape?_length hu
      split at h
      · split at h
        · rename_i hl
          have second := unicodeEscape?_length hl
          split at h <;> (simp only [Option.some.injEq, Prod.mk.injEq] at h; obtain ⟨_, rfl⟩ := h)
          · omega
          · exact first
        · simp only [Option.some.injEq, Prod.mk.injEq] at h
          obtain ⟨_, rfl⟩ := h
          exact first
      · split at h <;>
          (simp only [Option.some.injEq, Prod.mk.injEq] at h; obtain ⟨_, rfl⟩ := h; exact first)
    · split at h
      · simp at h
      · simp only [Option.map_eq_some_iff, Prod.mk.injEq] at h
        obtain ⟨_, _, _, rfl⟩ := h
        simp only [List.length_cons]
        omega
  · split at h
    · simp at h
    · simp only [Option.some.injEq, Prod.mk.injEq] at h
      obtain ⟨_, rfl⟩ := h
      simp

-- The rest of a string whose characters so far are `acc`, last one first, up to its closing quote.
-- There is no text once a surrogate without a partner has been seen.
def readStringBody (acc : List Char) (whole : Bool) (cs : List Char) :
    Option (Option String × List Char) :=
  match cs with
  | '"' :: rest => some (if whole then some (String.ofList acc.reverse) else none, rest)
  | cs =>
      match _h : stringChar? cs with
      | none => none
      | some (some c, rest) => readStringBody (c :: acc) whole rest
      | some (none, rest) => readStringBody acc false rest
termination_by cs.length
decreasing_by all_goals exact stringChar?_length (by assumption)

def readExponent (cs : List Char) : Option (Bool × List Char) :=
  match cs with
  | e :: rest =>
      if e = 'e' || e = 'E' then
        let digits := match rest with
          | s :: after => if s = '+' || s = '-' then after else rest
          | [] => []
        if digits.head?.any Char.isDigit then some (true, digits.dropWhile Char.isDigit) else none
      else some (false, cs)
  | [] => some (false, [])

def readFraction (cs : List Char) : Option (Bool × List Char) :=
  match cs with
  | '.' :: digits =>
      if digits.head?.any Char.isDigit then
        (readExponent (digits.dropWhile Char.isDigit)).map fun (_, rest) => (true, rest)
      else none
  | cs => readExponent cs

def readMagnitude (negative : Bool) (cs : List Char) : Option (Json × List Char) := do
  let digits := cs.takeWhile Char.isDigit
  if digits.isEmpty || (1 < digits.length && digits.head? = some '0') then failure
  let (hasFraction, rest) ← readFraction (cs.dropWhile Char.isDigit)
  let n := Nat.ofDigitChars 10 digits 0
  if hasFraction || (negative && n = 0) then return (.inexact, rest)
  return (.int (if negative then -n else n), rest)

def readNumber : List Char → Option (Json × List Char)
  | '-' :: cs => readMagnitude true cs
  | cs => readMagnitude false cs

def readString (cs : List Char) : Option (Json × List Char) := do
  let (text?, rest) ← readStringBody [] true cs
  return (text?.elim .broken .str, rest)

def addMember (acc : Option (List (String × Json))) (name? : Option String) (v : Json) :
    Option (List (String × Json)) := do
  return (← name?, v) :: (← acc)

mutual

-- A value at the start of the text, and what follows it. `fuel` bounds the number of values.
def readValue : Nat → List Char → Option (Json × List Char)
  | 0, _ => none
  | fuel + 1, cs =>
      match skipSpace cs with
      | 'n' :: 'u' :: 'l' :: 'l' :: rest => some (.null, rest)
      | 't' :: 'r' :: 'u' :: 'e' :: rest => some (.bool true, rest)
      | 'f' :: 'a' :: 'l' :: 's' :: 'e' :: rest => some (.bool false, rest)
      | '"' :: rest => readString rest
      | '[' :: rest =>
          match skipSpace rest with
          | ']' :: after => some (.arr [], after)
          | rest => (readItems fuel [] rest).map fun (items, after) => (.arr items, after)
      | '{' :: rest =>
          match skipSpace rest with
          | '}' :: after => some (.obj [], after)
          | rest =>
              (readMembers fuel (some []) rest).map fun (members?, after) =>
                (members?.elim .broken .obj, after)
      | cs => readNumber cs

-- The rest of an array whose items so far are `acc`, last one first.
def readItems : Nat → List Json → List Char → Option (List Json × List Char)
  | 0, _, _ => none
  | fuel + 1, acc, cs =>
      match readValue fuel cs with
      | none => none
      | some (v, rest) =>
          match skipSpace rest with
          | ',' :: after => readItems fuel (v :: acc) after
          | ']' :: after => some ((v :: acc).reverse, after)
          | _ => none

-- The rest of an object whose members so far are `acc`, last one first. There are no members once a
-- name without a text has been seen.
def readMembers : Nat → Option (List (String × Json)) → List Char →
    Option (Option (List (String × Json)) × List Char)
  | 0, _, _ => none
  | fuel + 1, acc, cs =>
      match skipSpace cs with
      | '"' :: rest =>
          match readStringBody [] true rest with
          | some (name?, rest) =>
              match skipSpace rest with
              | ':' :: rest =>
                  match readValue fuel rest with
                  | none => none
                  | some (v, rest) =>
                      let acc := addMember acc name? v
                      match skipSpace rest with
                      | ',' :: after => readMembers fuel acc after
                      | '}' :: after => some (acc.map List.reverse, after)
                      | _ => none
              | _ => none
          | none => none
      | _ => none

end

def read (cs : List Char) : Option Json :=
  -- A text does not have more values than characters.
  match readValue (cs.length + 1) cs with
  | some (v, rest) => if (skipSpace rest).isEmpty then some v else none
  | none => none

def parse (text : String) : Option Json := read text.toList

end PuzzleMachine.Json
