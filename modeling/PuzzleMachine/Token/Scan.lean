import PuzzleMachine.Diagnostic
import PuzzleMachine.SourceMap
import PuzzleMachine.Text.Escape
import PuzzleMachine.Token
import PuzzleMachine.Word

set_option autoImplicit false

namespace PuzzleMachine

inductive Reading where
  | trivia
  | token (token : Token)
  | invalid
deriving DecidableEq, Repr

structure Lexeme where
  text : List Char
  reading : Reading
deriving DecidableEq, Repr

def isBlank (c : Char) : Bool := c = ' ' || c = '\t' || c = '\r'
def isWordStart (c : Char) : Bool := c.isAlpha || c = '_'
def isWordPart (c : Char) : Bool := c.isAlphanum || c = '_'

def Reading.ofToken? : Option Token → Reading
  | some t => .token t
  | none => .invalid

def index? (digits : List Char) : Option UInt64 := index64? (Nat.ofDigitChars 10 digits 0)

def integer? : List Char → Option Int32
  | '-' :: digits => value32? (-Nat.ofDigitChars 10 digits 0)
  | digits => value32? (Nat.ofDigitChars 10 digits 0)

def digitsAfter? (lead : String) (word : List Char) : Option (List Char) :=
  if lead.toList.isPrefixOf word then
    let digits := word.drop lead.length
    if !digits.isEmpty && digits.all Char.isDigit then some digits else none
  else none

-- What a whole word stands for: a keyword, a register, a stack, or else just a name.
def readWord (word : List Char) : Reading :=
  match Opcode.ofName? (String.ofList word) with
  | some op => .token (.opcode op)
  | none =>
      if word = "RLI".toList then .token (.register .inputLength)
      else if let some ds := digitsAfter? "RS" word then
        .ofToken? ((index? ds).map fun n => .register (.stackLength n))
      else if let some ds := digitsAfter? "RX" word then
        .ofToken? ((index? ds).map fun n => .register (.user n))
      else if let some ds := digitsAfter? "S" word then
        .ofToken? ((index? ds).map .stack)
      else .token (.word (String.ofList word))

def readNumber (text : List Char) : Reading := .ofToken? ((integer? text).map .integer)

def lexeme (c : Char) (rest : List Char) : Lexeme :=
  if isBlank c then ⟨c :: rest.takeWhile isBlank, .trivia⟩
  else if c = ';' then ⟨c :: rest.takeWhile (· ≠ '\n'), .trivia⟩
  else if isWordStart c then
    let word := c :: rest.takeWhile isWordPart
    ⟨word, readWord word⟩
  else if c.isDigit || c = '-' && rest.head?.any Char.isDigit then
    let number := c :: rest.takeWhile Char.isDigit
    ⟨number, readNumber number⟩
  else if c = ':' then ⟨[c], .token .colon⟩
  else if c = '\n' then ⟨[c], .token .newline⟩
  else ⟨[c], .invalid⟩

def lexemes : List Char → List Lexeme
  | [] => []
  | c :: rest =>
      let l := lexeme c rest
      l :: lexemes (rest.drop (l.text.length - 1))
termination_by text => text.length
decreasing_by simp only [List.length_drop, List.length_cons]; omega

def invalidMessage (text : List Char) : String :=
  let digits := if text.head? = some '-' then text.tail else text
  let shown := String.ofList text
  if !digits.isEmpty && digits.all Char.isDigit then s!"integer literal `{shown}` is out of range"
  else match text with
    | [c] => s!"unexpected character `{Text.quoted c}`"
    | _ => s!"invalid token `{shown}`"

-- Each lexeme with the byte range it takes, the first one starting at `offset`.
def withRanges : Nat → List Lexeme → List (Lexeme × UInt32 × UInt32)
  | _, [] => []
  | offset, l :: ls =>
      let stop := offset + Text.byteLength l.text
      (l, .ofNat offset, .ofNat stop) :: withRanges stop ls

-- The lexeme as a token or as a diagnostic; trivia are neither and need no position.
def Lexeme.locate (sources : SourceMap) (id : UInt16) :
    Lexeme × UInt32 × UInt32 → Checked (Option (Except Diagnostic (Located Token)))
  | (l, start, stop) =>
      match l.reading with
      | .trivia => .ok none
      | .token t => do return some (.ok ⟨t, ← sources.span id start stop⟩)
      | .invalid => do
          let span ← sources.span id start stop
          return some (.error { kind := .token, span, message := invalidMessage l.text })

def collect {ε α : Type} (results : List (Except ε α)) : Except (List ε) (List α) :=
  let errors := results.filterMap fun | .error e => some e | .ok _ => none
  if errors.isEmpty then .ok (results.filterMap Except.toOption) else .error errors

def scan (sources : SourceMap) (id : UInt16) : Checked (Diagnosed (List (Located Token))) :=
  match sources.get? id with
  | none =>
      let message := s!"unknown source file id {id}"
      .ok (.error [{ kind := .internal, span := .zero id, message }])
  | some file => do
      let results ← (withRanges 0 (lexemes file.text.toList)).mapM (Lexeme.locate sources id)
      return collect (results.filterMap fun result => result)

end PuzzleMachine
